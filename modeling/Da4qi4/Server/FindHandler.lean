import Da4qi4.Server.Router
import Mathlib.Data.List.Find
import Mathlib.Data.List.MinMax

/-! Handlers of an application: how they are added to the three tables, and which one
a request finds. -/
namespace Da4qi4
open Utilities

def joinUrlPath (appRoot path : Bytes) : Bytes :=
  if path ≠ [] ∧ appRoot ≠ [] then
    if appRoot.getLast? = some 47 ∧ path.head? = some 47 then appRoot ++ path.drop 1
    else if appRoot.getLast? ≠ some 47 ∧ path.head? ≠ some 47 then appRoot ++ [47] ++ path
    else appRoot ++ path
  else appRoot ++ path

inductive RouterKind where
  | equals | starts | regex
  deriving DecidableEq, Repr

/-- The arguments of a call of `AddHandler`. -/
structure Registration (H : Type) where
  methods : Methods
  kind : RouterKind
  text : Bytes
  handler : H
  templateName : Bytes := []

/-- An application, as far as it finds handlers. -/
structure HandlerTables (H : Type) where
  rootUrl : Bytes
  equalRouter : EqualsRoutingTable H := {}
  startwithsRouter : StartsWithRoutingTable H := {}
  regexRouter : RegexMatchRoutingTable H := {}
  disabled : Bool := false
  mounted : Bool := false

/-- What a search changes in the request and in its context. -/
structure Finding where
  urlExists : Bool := false
  unsupportMethod : Bool := false
  templateName : Bytes := []
  pathParameters : UrlParameters := .empty

/-- `RoutingPathParameters::InitParameters`. -/
def initParameters (names values : List Bytes) : UrlParameters :=
  (names.zipIdx).foldl (fun parameters name => parameters.insert name.1 (values.getD name.2 [])) .empty

namespace HandlerTables
variable {H : Type}

def isRuning (app : HandlerTables H) : Bool := app.mounted && !app.disabled

/-- `AddHandler`, with what it returns. -/
def addHandler (ndebug : Bool) (regex : Regex) (app : HandlerTables H) (r : Registration H) :
    Option (HandlerTables H × Bool) :=
  if app.isRuning then some (app, false)
  else
    let key := joinUrlPath app.rootUrl r.text
    match r.kind with
    | .equals =>
      (EqualsRoutingTable.implementation.addMethods ndebug app.equalRouter key r.methods r.handler
        r.templateName).map fun added => ({ app with equalRouter := added.1 }, added.2.isNone)
    | .starts =>
      (StartsWithRoutingTable.implementation.addMethods ndebug app.startwithsRouter key r.methods
        r.handler r.templateName).map fun added =>
          ({ app with startwithsRouter := added.1 }, added.2.isNone)
    | .regex =>
      ((RegexMatchRoutingTable.implementation regex).addMethods ndebug app.regexRouter key r.methods
        r.handler r.templateName).map fun added =>
          ({ app with regexRouter := added.1 }, added.2.isNone)

theorem addHandler_kept {app after : HandlerTables H} {r : Registration H} {ok : Bool}
    (called : app.addHandler ndebug regex r = some (after, ok)) :
    after.rootUrl = app.rootUrl ∧ after.isRuning = app.isRuning := by
  rw [addHandler] at called
  split at called
  · cases called
    exact ⟨rfl, rfl⟩
  · simp only [] at called
    split at called
    all_goals
      obtain ⟨added, -, same⟩ := Option.map_eq_some_iff.mp called
      cases same
      exact ⟨rfl, rfl⟩

def findHandler (app : HandlerTables H) (method : Nat) (path retryPath : Bytes) (given : Finding) :
    Option H × Finding :=
  let m := HandlerMethod.fromHttpMethod method
  if m = .unsupport then (none, { given with unsupportMethod := true, templateName := [] })
  else
    let url := if retryPath = [] then path else retryPath
    let rr := app.equalRouter.search url m
    match rr.1.handler with
    | some h => (some h, { given with urlExists := rr.2, templateName := rr.1.templateName })
    | none =>
      let srr := app.startwithsRouter.search url m rr.2
      match srr.1.handler with
      | some h =>
        (some h, { given with
          urlExists := srr.2
          templateName := srr.1.templateName
          pathParameters := initParameters [[]] [url.drop srr.1.key.length] })
      | none =>
        let rrr := app.regexRouter.search url m srr.2
        match rrr.1.handler with
        | some h =>
          (some h, { given with
            urlExists := rrr.2
            templateName := rrr.1.templateName
            pathParameters := initParameters rrr.1.parameters rrr.1.values })
        | none => (none, { given with urlExists := rrr.2 })

end HandlerTables

structure Call (H : Type) where
  kind : RouterKind
  method : HandlerMethod
  text : Bytes
  handler : H
  templateName : Bytes := []

def Call.registration {H : Type} (c : Call H) : Registration H :=
  ⟨.single c.method, c.kind, c.text, c.handler, c.templateName⟩

/-- What a call enters below a root. -/
def Call.entry {H : Type} (root : Bytes) (c : Call H) : Entry H :=
  ⟨joinUrlPath root c.text, c.method, c.handler⟩

/-- The entries of one table in the order of the calls. -/
def entriesOf {H : Type} (root : Bytes) (kind : RouterKind) (calls : List (Call H)) :
    List (Entry H) :=
  (calls.filter fun c => c.kind = kind).map (Call.entry root)

theorem entriesOf_append {H : Type} (root : Bytes) (kind : RouterKind) (calls : List (Call H))
    (c : Call H) :
    entriesOf root kind (calls ++ [c]) =
      entriesOf root kind calls ++ if c.kind = kind then [c.entry root] else [] := by
  rw [entriesOf, List.filter_append, List.map_append, entriesOf]
  congr 1
  by_cases same : c.kind = kind
  · simp [same]
  · simp [same]

def HandlerTables.registerAll {H : Type} (ndebug : Bool) (regex : Regex) (app : HandlerTables H)
    (calls : List (Call H)) : Option (HandlerTables H) :=
  calls.foldlM (fun app c => (app.addHandler ndebug regex c.registration).map Prod.fst) app

section Expected
variable {H : Type}

def equalsHandler (log : List (Entry H)) (path : Bytes) (m : HandlerMethod) : Option H :=
  lastHandler log fun e => iEquals e.key path && decide (e.method = m)

/-- The longest key that begins a path. -/
def startsKey (log : List (Entry H)) (path : Bytes) : Option Bytes :=
  ((log.map Entry.key).filter (iStartsWith path)).argmax List.length

def startsHandler (log : List (Entry H)) (path : Bytes) (m : HandlerMethod) : Option H :=
  (startsKey log path).bind fun key => equalsHandler log key m

def regexMatches (regex : Regex) (path key : Bytes) : Bool :=
  match regex (toParameterPattern key).1 with
  | .ok pattern => (pattern path).isSome
  | .error _ => false

/-- The first text that matches a path. -/
def regexKey (regex : Regex) (log : List (Entry H)) (path : Bytes) : Option Bytes :=
  (log.map Entry.key).find? (regexMatches regex path)

def regexHandler (regex : Regex) (log : List (Entry H)) (path : Bytes) (m : HandlerMethod) :
    Option H :=
  (regexKey regex log path).bind fun key =>
    lastHandler log fun e => decide (e.key = key) && decide (e.method = m)

/-- Whether the key of a call matches a path. -/
def Call.matches_ (regex : Regex) (root path : Bytes) (c : Call H) : Bool :=
  let key := joinUrlPath root c.text
  match c.kind with
  | .equals => iEquals key path
  | .starts => iStartsWith path key
  | .regex => regexMatches regex path key

end Expected

theorem EqualsRoutingTable.search_records {H : Type} {table : EqualsRoutingTable H}
    {log : List (Entry H)} (records : Records foldCase (implementation.exists_ table) log)
    (url : Bytes) (m : HandlerMethod) :
    (table.search url m).1.handler = equalsHandler log url m ∧
      ((table.search url m).2 = true ↔ ∃ e ∈ log, iEquals e.key url = true) := by
  have present := records.present url
  have handler := records.handler url m
  simp only [implementation] at present handler
  constructor
  · simp only [equalsHandler, iEquals_eq_decide, ← handler, search]
    cases table.map.lookup url with
    | none => rfl
    | some item => rfl
  · simp only [iEquals_iff]
    rw [← present, search]
    cases table.map.lookup url with
    | none => rfl
    | some item => exact iff_of_true rfl rfl

/-- The longest of the keys that begin a path. -/
theorem startsKey_spec {H : Type} {log : List (Entry H)} {path key : Bytes}
    (begins : iStartsWith path key = true) (entered : ∃ e ∈ log, foldCase e.key = foldCase key)
    (longest : ∀ e ∈ log, iStartsWith path e.key = true → e.key.length ≤ key.length) :
    ∃ same, startsKey log path = some same ∧ foldCase same = foldCase key := by
  obtain ⟨e, member, equal⟩ := entered
  have fits : iStartsWith path e.key = true := by
    rw [iStartsWith_iff, equal, ← iStartsWith_iff]
    exact begins
  have candidate : e.key ∈ (log.map Entry.key).filter (iStartsWith path) :=
    List.mem_filter.mpr ⟨List.mem_map_of_mem member, fits⟩
  cases found : startsKey log path with
  | none =>
    rw [List.argmax_eq_none.mp found] at candidate
    cases candidate
  | some same =>
    refine ⟨same, rfl, ?_⟩
    obtain ⟨known, sameBegins⟩ := List.mem_filter.mp (List.argmax_mem found)
    obtain ⟨f, entered, rfl⟩ := List.mem_map.mp known
    have upper := longest f entered sameBegins
    have lower := List.le_of_mem_argmax candidate found
    have lengths := congrArg List.length equal
    rw [foldCase_length, foldCase_length] at lengths
    rw [iStartsWith_iff] at sameBegins begins
    have shorter := List.prefix_of_prefix_length_le sameBegins begins (by simpa using upper)
    exact shorter.eq_of_length (by simp; omega)

theorem startsKey_none {H : Type} {log : List (Entry H)} {path : Bytes}
    (none : ∀ e ∈ log, iStartsWith path e.key = false) : startsKey log path = Option.none := by
  apply List.argmax_eq_none.mpr
  apply List.filter_eq_nil_iff.mpr
  intro key member
  obtain ⟨e, entered, rfl⟩ := List.mem_map.mp member
  rw [none e entered]
  exact Bool.false_ne_true

theorem startsWith_congr {path key other : Bytes} (same : foldCase key = foldCase other) :
    iStartsWith path key = iStartsWith path other := by
  rw [Bool.eq_iff_iff, iStartsWith_iff, iStartsWith_iff, same]

theorem equalsHandler_congr {H : Type} {log : List (Entry H)} {key other : Bytes}
    (same : foldCase key = foldCase other) (m : HandlerMethod) :
    equalsHandler log key m = equalsHandler log other m := by
  simp only [equalsHandler, iEquals_eq_decide, same]

/-- The first item whose key begins a path has the longest of the keys that do. -/
theorem StartsWithRoutingTable.search_records {H : Type} {table : StartsWithRoutingTable H}
    {log : List (Entry H)}
    (records : Records (OrderedMap.descending foldCase) (implementation.exists_ table) log)
    (url : Bytes) (m : HandlerMethod) (urlExists : Bool) :
    (table.search url m urlExists).1.handler = startsHandler log url m ∧
      ((table.search url m urlExists).2 = true ↔
        urlExists = true ∨ ∃ e ∈ log, iStartsWith url e.key = true) ∧
      ∀ key, startsKey log url = some key →
        (table.search url m urlExists).1.key.length = key.length := by
  have present := records.present
  have handler := records.handler
  simp only [implementation, OrderedMap.descending_inj] at present handler
  -- Every key has an item, and begins the same paths.
  have item : ∀ e ∈ log, ∃ it ∈ table.map.entries, foldCase it.1 = foldCase e.key := by
    intro e entered
    obtain ⟨value, found⟩ := Option.isSome_iff_exists.mp ((present e.key).mpr ⟨e, entered, rfl⟩)
    obtain ⟨it, member, same, -⟩ := OrderedMap.mem_of_lookup found
    exact ⟨it, member, OrderedMap.descending_inj.mp same⟩
  cases found : table.map.entries.find? fun it => iStartsWith url it.1 with
  | none =>
    have fails : ∀ e ∈ log, iStartsWith url e.key = false := by
      intro e entered
      obtain ⟨it, member, same⟩ := item e entered
      rw [← startsWith_congr same]
      exact Bool.eq_false_iff.mpr (List.find?_eq_none.mp found it member)
    have searched : table.search url m urlExists = ({}, urlExists) := by rw [search, found]
    rw [searched, startsHandler, startsKey_none fails]
    refine ⟨rfl, ?_, fun _ some => by cases some⟩
    constructor
    · exact .inl
    · rintro (given | ⟨e, entered, begins⟩)
      · exact given
      · rw [fails e entered] at begins
        cases begins
  | some it =>
    have begins := List.find?_some found
    have member := List.mem_of_find?_eq_some found
    have stored := OrderedMap.lookup_of_mem member
    obtain ⟨e, entered, equal⟩ := (present it.1).mp (by rw [stored]; rfl)
    have longest : ∀ e ∈ log, iStartsWith url e.key = true → e.key.length ≤ it.1.length := by
      intro f known fits
      obtain ⟨other, isThere, same⟩ := item f known
      rw [← startsWith_congr same] at fits
      have lengths := congrArg List.length same
      rw [foldCase_length, foldCase_length] at lengths
      rcases OrderedMap.find?_longest (fun e => iStartsWith_iff url e.1) found isThere fits with
        rfl | shorter
      · exact lengths.ge
      · rw [foldCase_length, foldCase_length] at shorter
        exact lengths ▸ shorter.le
    obtain ⟨key, chosen, same⟩ := startsKey_spec begins ⟨e, entered, equal⟩ longest
    have searched : table.search url m urlExists = (⟨.ofItem it.2 m, it.1⟩, true) := by
      rw [search, found]
    rw [searched, startsHandler, chosen]
    refine ⟨?_, iff_of_true rfl (.inr ⟨e, entered, ?_⟩), ?_⟩
    · have recorded := handler it.1 m
      rw [stored] at recorded
      refine recorded.trans ?_
      rw [Option.bind_some, equalsHandler_congr same]
      simp only [equalsHandler, iEquals_eq_decide]
    · rw [startsWith_congr equal]
      exact begins
    · intro _ again
      cases again
      simpa using (congrArg List.length same).symm

/-- What is found by a property of its key is found by its key. -/
theorem find?_key {A K : Type} [DecidableEq K] {l : List A} {f : A → K} {p : K → Bool} {a : A}
    (found : (l.find? fun b => p (f b)) = some a) : (l.find? fun b => f a = f b) = some a := by
  induction l with
  | nil => cases found
  | cons b rest ih =>
    rw [List.find?_cons] at found ⊢
    by_cases same : f a = f b
    · have holds := List.find?_some (p := fun b => p (f b)) (l := b :: rest) (a := a)
        (by rw [List.find?_cons]; exact found)
      rw [same] at holds
      rw [holds] at found
      rw [decide_eq_true same]
      exact found
    · rw [decide_eq_false same]
      split at found
      · cases found
        exact absurd rfl same
      · exact ih found

/-- The texts of a table in their order, and what their patterns were made of. -/
structure RegexMatchRoutingTable.Ordered {H : Type} (regex : Regex)
    (table : RegexMatchRoutingTable H) (log : List (Entry H)) : Prop where
  records : Records id ((implementation regex).exists_ table) log
  compiled : ∀ i ∈ table.list, regex (toParameterPattern i.urlMatcher).1 = .ok i.regexPattern
  order : ∀ p : Bytes → Bool,
    (table.list.map RegexRouterItem.urlMatcher).find? p = (log.map Entry.key).find? p

theorem RegexMatchRoutingTable.search_records {H : Type} {regex : Regex}
    {table : RegexMatchRoutingTable H} {log : List (Entry H)} (ordered : table.Ordered regex log)
    (url : Bytes) (m : HandlerMethod) (urlExists : Bool) :
    (table.search url m urlExists).1.handler = regexHandler regex log url m ∧
      ((table.search url m urlExists).2 = true ↔
        urlExists = true ∨ ∃ e ∈ log, regexMatches regex url e.key = true) := by
  have matched : ∀ i ∈ table.list,
      (i.regexPattern url).isSome = regexMatches regex url i.urlMatcher := by
    intro i member
    rw [regexMatches, ordered.compiled i member]
  have keyed : table.list.find? (fun i => (i.regexPattern url).isSome) =
      table.list.find? fun i => regexMatches regex url i.urlMatcher :=
    List.find?_congr matched
  have chosen := ordered.order (regexMatches regex url)
  rw [List.find?_map, Function.comp_def] at chosen
  have some_iff : (regexKey regex log url).isSome = true ↔
      ∃ e ∈ log, regexMatches regex url e.key = true := by
    rw [regexKey, List.find?_isSome]
    simp
  rw [search, keyed, ← some_iff, regexHandler, regexKey, ← chosen]
  cases found : table.list.find? fun i => regexMatches regex url i.urlMatcher with
  | none => simp
  | some i =>
    have recorded := ordered.records.handler i.urlMatcher m
    simp only [implementation, find?_key found, id] at recorded
    simp only [Option.map_some, Option.bind_some] at recorded ⊢
    rw [← recorded]
    cases handler : i.handler m with
    | none => simp
    | some h => simp [RouterResult.ofItem, handler]

namespace RegexMatchRoutingTable
variable {H : Type}

theorem urlMatcher_changeFirst (key : Bytes) (item : RouterItem H) (l : List (RegexRouterItem H)) :
    (changeFirst key item l).map RegexRouterItem.urlMatcher = l.map RegexRouterItem.urlMatcher := by
  induction l with
  | nil => rfl
  | cons i rest ih =>
    rw [changeFirst]
    split
    · rfl
    · rw [List.map_cons, List.map_cons, ih]

theorem mem_changeFirst {key : Bytes} {item : RouterItem H} {l : List (RegexRouterItem H)}
    {i : RegexRouterItem H} (member : i ∈ changeFirst key item l) :
    ∃ j ∈ l, ∃ changed, i = { j with toRouterItem := changed } := by
  induction l with
  | nil => cases member
  | cons j rest ih =>
    rw [changeFirst] at member
    split at member
    · rcases List.mem_cons.mp member with rfl | later
      · exact ⟨j, List.mem_cons_self, item, rfl⟩
      · exact ⟨i, List.mem_cons_of_mem _ later, i.toRouterItem, rfl⟩
    · rcases List.mem_cons.mp member with rfl | later
      · exact ⟨i, List.mem_cons_self, i.toRouterItem, rfl⟩
      · obtain ⟨k, known, same⟩ := ih later
        exact ⟨k, List.mem_cons_of_mem _ known, same⟩

theorem Ordered.empty (regex : Regex) : Ordered regex ({} : RegexMatchRoutingTable H) [] where
  records := .empty fun _ => rfl
  compiled := by intro i member; cases member
  order _ := rfl

/-- A text is appended to the table with its first registration, and not again. -/
theorem Ordered.add {regex : Regex} {table added : RegexMatchRoutingTable H}
    {log : List (Entry H)} (ordered : table.Ordered regex log)
    (succeeded : (implementation regex).add ndebug table key m h name = some (added, none)) :
    added.Ordered regex (log ++ [⟨key, m, h⟩]) := by
  have records := ordered.records.add (lawful regex) succeeded
  rw [Implementation.add] at succeeded
  split at succeeded
  · cases succeeded
  · cases found : (implementation regex).exists_ table key with
    | none =>
      rw [found] at succeeded
      simp only [implementation] at succeeded
      split at succeeded
      · rename_i inserted ok
        cases succeeded
        split at ok
        · rename_i pattern compiled
          cases ok
          refine ⟨records, ?_, ?_⟩
          · intro i member
            rcases List.mem_append.mp member with old | new
            · exact ordered.compiled i old
            · cases List.mem_singleton.mp new
              exact compiled
          · intro p
            rw [List.map_append, List.map_append, List.find?_append, List.find?_append,
              ordered.order]
            rfl
        · cases ok
      · cases succeeded
    | some item =>
      rw [found] at succeeded
      cases succeeded
      obtain ⟨e, known, same⟩ := (ordered.records.present key).mp (by rw [found]; rfl)
      rw [id, id] at same
      refine ⟨records, ?_, ?_⟩
      · intro i member
        obtain ⟨j, old, changed, rfl⟩ := mem_changeFirst member
        exact ordered.compiled j old
      · intro p
        have keys :
            (log ++ [(⟨key, m, h⟩ : Entry H)]).map Entry.key = log.map Entry.key ++ [key] := by
          rw [List.map_append]
          rfl
        simp only [implementation, urlMatcher_changeFirst]
        rw [ordered.order, keys, List.find?_append]
        cases hit : (log.map Entry.key).find? p with
        | some k => rfl
        | none =>
          have fails := List.find?_eq_none.mp hit key (List.mem_map.mpr ⟨e, known, same⟩)
          simp [fails]

end RegexMatchRoutingTable

/-- An application that was given some calls, and is not running. -/
structure HandlerTables.Recorded {H : Type} (regex : Regex) (root : Bytes) (calls : List (Call H))
    (app : HandlerTables H) : Prop where
  rootUrl : app.rootUrl = root
  resting : app.isRuning = false
  equals : Records foldCase (EqualsRoutingTable.implementation.exists_ app.equalRouter)
    (entriesOf root .equals calls)
  starts : Records (OrderedMap.descending foldCase)
    (StartsWithRoutingTable.implementation.exists_ app.startwithsRouter)
    (entriesOf root .starts calls)
  regexes : app.regexRouter.Ordered regex (entriesOf root .regex calls)

/-- The text of a call can be compiled. -/
def Call.Valid {H : Type} (regex : Regex) (root : Bytes) (c : Call H) : Prop :=
  c.kind = .regex → ∃ pattern, regex (toParameterPattern (joinUrlPath root c.text)).1 = .ok pattern

namespace HandlerTables
variable {H : Type}

theorem Recorded.make (regex : Regex) (root : Bytes) :
    Recorded regex root [] ({ rootUrl := root } : HandlerTables H) where
  rootUrl := rfl
  resting := rfl
  equals := .empty fun _ => rfl
  starts := .empty fun _ => rfl
  regexes := .empty regex

/-- A call enters its handler, and nothing else. -/
theorem Recorded.addHandler {regex : Regex} {root : Bytes} {calls : List (Call H)}
    {app after : HandlerTables H} {c : Call H} (recorded : Recorded regex root calls app)
    (valid : c.Valid regex root)
    (called : app.addHandler ndebug regex c.registration = some (after, ok)) :
    Recorded regex root (calls ++ [c]) after := by
  obtain ⟨rootUrl, resting, equals, starts, regexes⟩ := recorded
  obtain ⟨kind, method, text, handler, name⟩ := c
  rw [HandlerTables.addHandler, resting] at called
  cases kind with
  | equals =>
    obtain ⟨⟨table, error⟩, succeeded, same⟩ := Option.map_eq_some_iff.mp called
    cases same
    cases error with
    | none =>
      refine ⟨rootUrl, resting, ?_, ?_, ?_⟩
      · rw [entriesOf_append]
        exact rootUrl ▸ equals.add EqualsRoutingTable.lawful succeeded
      · simpa [entriesOf_append] using starts
      · simpa [entriesOf_append] using regexes
    | some error =>
      obtain ⟨-, item, refused⟩ := Implementation.add_error succeeded
      cases refused
  | starts =>
    obtain ⟨⟨table, error⟩, succeeded, same⟩ := Option.map_eq_some_iff.mp called
    cases same
    cases error with
    | none =>
      refine ⟨rootUrl, resting, ?_, ?_, ?_⟩
      · simpa [entriesOf_append] using equals
      · rw [entriesOf_append]
        exact rootUrl ▸ starts.add StartsWithRoutingTable.lawful succeeded
      · simpa [entriesOf_append] using regexes
    | some error =>
      obtain ⟨-, item, refused⟩ := Implementation.add_error succeeded
      cases refused
  | regex =>
    obtain ⟨⟨table, error⟩, succeeded, same⟩ := Option.map_eq_some_iff.mp called
    cases same
    cases error with
    | none =>
      refine ⟨rootUrl, resting, ?_, ?_, ?_⟩
      · simpa [entriesOf_append] using equals
      · simpa [entriesOf_append] using starts
      · rw [entriesOf_append]
        exact rootUrl ▸ regexes.add succeeded
    | some error =>
      -- A text that can be compiled is not refused.
      obtain ⟨pattern, compiled⟩ := valid rfl
      obtain ⟨-, item, refused⟩ := Implementation.add_error succeeded
      rw [← rootUrl] at compiled
      simp only [RegexMatchRoutingTable.implementation, Call.registration, compiled] at refused
      cases refused

theorem Recorded.registerAll {regex : Regex} {root : Bytes} {before calls : List (Call H)}
    {app after : HandlerTables H} (recorded : Recorded regex root before app)
    (valid : ∀ c ∈ calls, c.Valid regex root)
    (registered : app.registerAll ndebug regex calls = some after) :
    Recorded regex root (before ++ calls) after := by
  induction calls generalizing before app with
  | nil =>
    cases registered
    rwa [List.append_nil]
  | cons c calls ih =>
    obtain ⟨next, mapped, rest⟩ := Option.bind_eq_some_iff.mp registered
    obtain ⟨⟨tables, ok⟩, called, rfl⟩ := Option.map_eq_some_iff.mp mapped
    have entered := recorded.addHandler (valid c List.mem_cons_self) called
    have tail := ih entered (fun c later => valid c (List.mem_cons_of_mem _ later)) rest
    rwa [List.append_assoc] at tail

/-- A call matches a path in the table that it is entered in. -/
theorem exists_matches_iff (regex : Regex) (root path : Bytes) (calls : List (Call H)) :
    (∃ c ∈ calls, c.matches_ regex root path = true) ↔
      ((∃ e ∈ entriesOf root .equals calls, iEquals e.key path = true) ∨
        ∃ e ∈ entriesOf root .starts calls, iStartsWith path e.key = true) ∨
      ∃ e ∈ entriesOf root .regex calls, regexMatches regex path e.key = true := by
  have entered : ∀ {kind} {c : Call H}, c ∈ calls → c.kind = kind →
      c.entry root ∈ entriesOf root kind calls := by
    intro kind c member same
    exact List.mem_map_of_mem (List.mem_filter.mpr ⟨member, decide_eq_true same⟩)
  have called : ∀ {kind} {e : Entry H}, e ∈ entriesOf root kind calls →
      ∃ c ∈ calls, c.kind = kind ∧ c.entry root = e := by
    intro kind e member
    obtain ⟨c, known, same⟩ := List.mem_map.mp member
    obtain ⟨known, ofKind⟩ := List.mem_filter.mp known
    exact ⟨c, known, of_decide_eq_true ofKind, same⟩
  constructor
  · rintro ⟨c, member, holds⟩
    rw [Call.matches_] at holds
    cases kind : c.kind with
    | equals =>
      rw [kind] at holds
      exact .inl (.inl ⟨_, entered member kind, holds⟩)
    | starts =>
      rw [kind] at holds
      exact .inl (.inr ⟨_, entered member kind, holds⟩)
    | regex =>
      rw [kind] at holds
      exact .inr ⟨_, entered member kind, holds⟩
  · rintro ((⟨e, member, holds⟩ | ⟨e, member, holds⟩) | ⟨e, member, holds⟩)
    all_goals
      obtain ⟨c, known, kind, rfl⟩ := called member
      refine ⟨c, known, ?_⟩
      rw [Call.matches_, kind]
      exact holds

/-- Which of its tables decides, and what the flag of the search says in the end. -/
theorem Recorded.findHandler {regex : Regex} {root : Bytes} {calls : List (Call H)}
    {app : HandlerTables H} (recorded : Recorded regex root calls app) {method : Nat}
    (supported : HandlerMethod.fromHttpMethod method ≠ .unsupport) (path retryPath : Bytes)
    (given : Finding) :
    let m := HandlerMethod.fromHttpMethod method
    let url := if retryPath = [] then path else retryPath
    let found := app.findHandler method path retryPath given
    let equals := equalsHandler (entriesOf root .equals calls) url m
    let starts := startsHandler (entriesOf root .starts calls) url m
    found.1 = equals.or (starts.or (regexHandler regex (entriesOf root .regex calls) url m)) ∧
      (equals = none → starts.isSome = true → ∀ key,
        startsKey (entriesOf root .starts calls) url = some key →
          found.2.pathParameters = initParameters [[]] [url.drop key.length]) ∧
      (found.1 = none → (found.2.urlExists = true ↔
        ∃ c ∈ calls, c.matches_ regex root url = true)) := by
  have inEquals := EqualsRoutingTable.search_records recorded.equals
  have inStarts := StartsWithRoutingTable.search_records recorded.starts
  have inRegexes := RegexMatchRoutingTable.search_records recorded.regexes
  intro m url found equals starts
  obtain ⟨rr, urlEqual⟩ := inEquals url m
  obtain ⟨srr, urlStarts, length⟩ := inStarts url m (app.equalRouter.search url m).2
  obtain ⟨rrr, urlMatched⟩ :=
    inRegexes url m (app.startwithsRouter.search url m (app.equalRouter.search url m).2).2
  rw [urlEqual] at urlStarts
  rw [urlStarts, ← exists_matches_iff] at urlMatched
  simp only [found, HandlerTables.findHandler]
  rw [if_neg supported]
  change app.equalRouter.search url m |>.1.handler = equals at rr
  change (app.startwithsRouter.search url m (app.equalRouter.search url m).2).1.handler = starts
    at srr
  rw [← rr, ← srr, ← rrr]
  cases chosen : (app.equalRouter.search url m).1.handler with
  | some h => simp [m, url]
  | none =>
    simp only [m, url] at chosen srr length rrr urlMatched ⊢
    simp only [Option.none_or]
    cases second : (app.startwithsRouter.search url m (app.equalRouter.search url m).2).1.handler with
    | some h =>
      simp only [m, url] at second
      simp only [Option.some_or, Option.isSome_some, forall_const]
      refine ⟨trivial, ?_, by simp⟩
      intro key longest
      rw [length key longest]
    | none =>
      simp only [m, url] at second
      simp only [Option.none_or, Option.isSome_none]
      refine ⟨?_, by simp, ?_⟩
      · split
        · rename_i h third
          exact third.symm
        · rename_i third
          exact third.symm
      · split
        · simp
        · intro _
          exact urlMatched

/-- Two beginnings of a path, the longer one registered first and in other letters. -/
def beginnings : List (Call Nat) :=
  [⟨.starts, .get, [47, 65, 98], 1, []⟩, ⟨.starts, .get, [47, 97], 2, []⟩]

end HandlerTables
end Da4qi4
