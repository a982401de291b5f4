import Da4qi4.Foundation.Transition
import Da4qi4.Server.FindHandler
import Mathlib.Data.List.Nodup

/-! Names in the texts of regular expressions. They are bound to the groups of a match by
their places, though the text can have other groups. -/
namespace Da4qi4
open Utilities Transition

/-- `_M_ecma_spec_char`: what does not stand for itself. -/
def specialCharacters : Bytes := Bytes.ofAscii "^$\\.*+?()[]\x7b\x7d|"

inductive Letter where
  | plain (c : UInt8) (free : c ∉ specialCharacters)
  | escaped (c : UInt8) (special : c ∈ specialCharacters)

namespace Letter

def text : Letter → Bytes
  | plain c _ => [c]
  | escaped c _ => [92, c]

def value : Letter → UInt8
  | plain c _ => c
  | escaped c _ => c

end Letter

structure ParameterName where
  name : Bytes
  some_ : name ≠ []
  word : name.all isWord = true

/-- What the parentheses of a group can have inside that has none itself. -/
structure GroupBody where
  text : Bytes
  bare : 40 ∉ text ∧ 41 ∉ text
  captures : text.head? ≠ some 63
  closed : text.getLast? ≠ some 92
  unnamed : ¬[123, 123] <:+: text

inductive RoutePattern where
  | nil
  | letter (l : Letter) (rest : RoutePattern)
  | placeholder (name : ParameterName) (rest : RoutePattern)
  | group (inside rest : RoutePattern)
  | capture (body : GroupBody) (rest : RoutePattern)

/-- What a group has matched; a placeholder has a name. -/
structure Capture where
  name : Option Bytes
  text : Bytes

namespace RoutePattern

/-- The text that is registered. -/
def text : RoutePattern → Bytes
  | nil => []
  | letter l rest => l.text ++ rest.text
  | placeholder name rest => [123, 123] ++ name.name ++ [125, 125] ++ rest.text
  | group inside rest => 40 :: inside.text ++ 41 :: rest.text
  | capture body rest => 40 :: body.text ++ 41 :: rest.text

/-- The expression that is meant. -/
def expression : RoutePattern → Bytes
  | nil => []
  | letter l rest => l.text ++ rest.expression
  | placeholder _ rest => parameterPattern ++ rest.expression
  | group inside rest => 40 :: inside.expression ++ 41 :: rest.expression
  | capture body rest => 40 :: body.text ++ 41 :: rest.expression

/-- The names of the groups in the order of their opening parentheses. -/
def labels : RoutePattern → List (Option Bytes)
  | nil => []
  | letter _ rest => rest.labels
  | placeholder name rest => some name.name :: rest.labels
  | group inside rest => none :: inside.labels ++ rest.labels
  | capture _ rest => none :: rest.labels

def names (p : RoutePattern) : List Bytes := p.labels.filterMap id

/-- A url matches, with a capture for each group, in the order of their opening
parentheses. What a body matches is a parameter. -/
inductive Matches (accepts : Bytes → Bytes → Prop) :
    RoutePattern → Bytes → List Capture → Prop
  | nil : Matches accepts nil [] []
  | letter {l : Letter} (rest : Matches accepts p url captures) :
      Matches accepts (letter l p) (l.value :: url) captures
  | placeholder {name : ParameterName} {word : Bytes} (isWord_ : word.all isWord = true)
      (rest : Matches accepts p url captures) :
      Matches accepts (placeholder name p) (word ++ url) (⟨some name.name, word⟩ :: captures)
  | group (inside : Matches accepts q matched within) (rest : Matches accepts p url captures) :
      Matches accepts (group q p) (matched ++ url) (⟨none, matched⟩ :: within ++ captures)
  | capture {body : GroupBody} (accepted : accepts body.text matched)
      (rest : Matches accepts p url captures) :
      Matches accepts (capture body p) (matched ++ url) (⟨none, matched⟩ :: captures)

/-- The groups are numbered by their opening parentheses. -/
def Numbers (accepts : Bytes → Bytes → Prop) (p : RoutePattern)
    (matcher : Bytes → Option (List Bytes)) : Prop :=
  ∀ url values, matcher url = some values →
    ∃ captures, p.Matches accepts url captures ∧ captures.map Capture.text = values

end RoutePattern

/-- What a text is converted to, with any counter that is large enough. -/
def Converts (m converted : Bytes) (names : List Bytes) : Prop :=
  ∀ n, m.length ≤ n → convertParameters n m = (converted, names)

namespace Converts

theorem nil : Converts [] [] [] := by
  intro n _
  cases n with
  | zero => rfl
  | succ n => rfl

theorem cons {c : UInt8} {m converted : Bytes} {names : List Bytes}
    (unnamed : parameterAt (c :: m) = none) (rest : Converts m converted names) :
    Converts (c :: m) (c :: converted) names := by
  intro n enough
  cases n with
  | zero => simp at enough
  | succ n =>
    have shorter : m.length ≤ n := by simpa using enough
    simp only [convertParameters, unnamed, rest n shorter]

/-- A brace alone begins no name. -/
theorem parameterAt_none {c : UInt8} {m : Bytes} (single : c ≠ 123 ∨ m.head? ≠ some 123) :
    parameterAt (c :: m) = none := by
  rw [parameterAt, if_neg]
  rintro ⟨braces, -⟩
  cases m with
  | nil => simp at braces
  | cons d m =>
    simp only [List.take_succ_cons, List.take_zero, List.cons.injEq, and_true] at braces
    simp [braces] at single

theorem other {c : UInt8} {m converted : Bytes} {names : List Bytes} (different : c ≠ 123)
    (rest : Converts m converted names) : Converts (c :: m) (c :: converted) names :=
  rest.cons (parameterAt_none (.inl different))

theorem parameterAt_name (name : ParameterName) (m : Bytes) :
    parameterAt ([123, 123] ++ name.name ++ [125, 125] ++ m) = some (name.name, m) := by
  have word : ∀ c ∈ name.name, isWord c = true := List.all_eq_true.mp name.word
  have taken : (name.name ++ 125 :: 125 :: m).takeWhile isWord = name.name := by
    rw [List.takeWhile_append_of_pos word]
    simp [isWord]
  have left : (name.name ++ 125 :: 125 :: m).dropWhile isWord = 125 :: 125 :: m := by
    rw [List.dropWhile_append_of_pos word]
    simp [isWord]
  simp [parameterAt, taken, left]

theorem placeholder (name : ParameterName) {m converted : Bytes} {names : List Bytes}
    (rest : Converts m converted names) :
    Converts ([123, 123] ++ name.name ++ [125, 125] ++ m) (parameterPattern ++ converted)
      (name.name :: names) := by
  intro n enough
  cases n with
  | zero => simp at enough
  | succ n =>
    have shorter : m.length ≤ n := by
      simp at enough
      omega
    have found := parameterAt_name name m
    simp only [List.cons_append, List.nil_append, List.append_assoc] at found ⊢
    simp only [convertParameters, found, rest n shorter]

/-- Text without a pair of braces stays. -/
theorem bare {text m converted : Bytes} {names : List Bytes} (unnamed : ¬[123, 123] <:+: text)
    (behind : m.head? ≠ some 123) (rest : Converts m converted names) :
    Converts (text ++ m) (text ++ converted) names := by
  induction text with
  | nil => exact rest
  | cons c text ih =>
    have tail : ¬[123, 123] <:+: text := by
      intro inside
      exact unnamed (inside.trans (List.suffix_cons _ _).isInfix)
    refine cons (parameterAt_none ?_) (ih tail)
    by_contra both
    simp only [not_or, not_not] at both
    obtain ⟨rfl, head⟩ := both
    cases text with
    | nil => exact behind head
    | cons d text =>
      obtain rfl := Option.some.inj head
      exact unnamed (List.prefix_append [123, 123] text).isInfix

end Converts

namespace RoutePattern

/-- A brace in front of a pattern belongs to no name of it. -/
theorem parameterAt_brace (p : RoutePattern) {m : Bytes}
    (behind : parameterAt (123 :: m) = none) : parameterAt (123 :: (p.text ++ m)) = none := by
  cases p with
  | nil => exact behind
  | letter l rest =>
    refine Converts.parameterAt_none (.inr ?_)
    cases l with
    | plain c free =>
      rintro head
      obtain rfl : c = 123 := by simpa [text, Letter.text] using head
      exact free (by decide)
    | escaped c special => simp [text, Letter.text]
  | placeholder name rest =>
    have brace : isWord 123 = false := by decide
    simp [parameterAt, text, brace]
  | group inside rest => exact Converts.parameterAt_none (.inr (by simp [text]))
  | capture body rest => exact Converts.parameterAt_none (.inr (by simp [text]))

theorem converts (p : RoutePattern) {m converted : Bytes} {names : List Bytes}
    (behind : parameterAt (123 :: m) = none) (rest : Converts m converted names) :
    Converts (p.text ++ m) (p.expression ++ converted) (p.names ++ names) := by
  induction p generalizing m converted names with
  | nil => exact rest
  | letter l p ih =>
    have tail := ih behind rest
    cases l with
    | plain c free =>
      have notBrace : c ≠ 123 := fun same => free (same ▸ by decide)
      exact tail.other notBrace
    | escaped c special =>
      refine .other (by decide) (.cons ?_ tail)
      by_cases brace : c = 123
      · rw [brace]
        exact p.parameterAt_brace behind
      · exact Converts.parameterAt_none (.inl brace)
  | placeholder name p ih =>
    simpa [text, expression, RoutePattern.names, labels] using (ih behind rest).placeholder name
  | group inside p inner ih =>
    -- The closing parenthesis stands between the two patterns.
    have closing : Converts (41 :: (p.text ++ m)) (41 :: (p.expression ++ converted))
        (p.names ++ names) := (ih behind rest).other (by decide)
    have whole := inner (Converts.parameterAt_none (.inr (by simp))) closing
    simpa [text, expression, RoutePattern.names, labels] using
      whole.other (show (40 : UInt8) ≠ 123 by decide)
  | capture body p ih =>
    have closing : Converts (41 :: (p.text ++ m)) (41 :: (p.expression ++ converted))
        (p.names ++ names) := (ih behind rest).other (by decide)
    have whole := closing.bare body.unnamed (by simp)
    simpa [text, expression, RoutePattern.names, labels] using
      whole.other (show (40 : UInt8) ≠ 123 by decide)

theorem toParameterPattern_text (p : RoutePattern) :
    toParameterPattern p.text = (p.expression, p.names) := by
  have whole := p.converts (Converts.parameterAt_none (.inr (by simp))) Converts.nil
  simpa [toParameterPattern] using whole p.text.length (by simp)

theorem Matches.labels {accepts : Bytes → Bytes → Prop} {p : RoutePattern} {url : Bytes}
    {captures : List Capture} (matched : p.Matches accepts url captures) :
    captures.map Capture.name = p.labels := by
  induction matched with
  | nil => rfl
  | letter rest ih => exact ih
  | placeholder isWord_ rest ih => simp [RoutePattern.labels, ih]
  | group inside rest inner ih => simp [RoutePattern.labels, inner, ih]
  | capture accepted rest ih => simp [RoutePattern.labels, ih]

theorem Matches.names {accepts : Bytes → Bytes → Prop} {p : RoutePattern} {url : Bytes}
    {captures : List Capture} (matched : p.Matches accepts url captures) :
    captures.filterMap Capture.name = p.names := by
  rw [RoutePattern.names, ← matched.labels, List.filterMap_map]
  rfl

end RoutePattern

/-- Every name is bound to what its own placeholder has matched. -/
def Bound (parameters : UrlParameters) (captures : List Capture) : Prop :=
  ∀ c ∈ captures, ∀ name, c.name = some name → parameters.lookup name = some c.text

/-- What the placeholders have matched is in front, as when no other group opens before
one of them. -/
def Aligned (captures : List Capture) : Prop :=
  (captures.filter fun c => c.name.isSome).map Capture.text <+: captures.map Capture.text

theorem aligned_of_front {captures : List Capture}
    (front : (captures.map Capture.name).Pairwise fun l r => r.isSome = true → l.isSome = true) :
    Aligned captures := by
  rw [Aligned]
  induction captures with
  | nil => exact List.prefix_rfl
  | cons c captures ih =>
    rw [List.map_cons] at front
    obtain ⟨first, others⟩ := List.pairwise_cons.mp front
    cases named : c.name with
    | some name => simpa [named] using ih others
    | none =>
      have unnamed : captures.filter (fun c => c.name.isSome) = [] := by
        refine List.filter_eq_nil_iff.mpr fun d later some_ => ?_
        have wrong := first d.name (List.mem_map_of_mem later) some_
        simp [named] at wrong
      simp [named, unnamed]

theorem lookup_initParameters {names values : List Bytes} {name : Bytes} {i : Nat}
    (distinct : names.Nodup) (at_ : names[i]? = some name) :
    (initParameters names values).lookup name = some (values.getD i []) := by
  have member : (name, i) ∈ names.zipIdx := List.mk_mem_zipIdx_iff_getElem?.mpr at_
  have keys : (names.zipIdx.map fun named => named.1.map UInt8.toNat).Nodup := by
    have folded : names.zipIdx.map (fun named => named.1.map UInt8.toNat) =
        names.map (List.map UInt8.toNat) := by
      have same := congrArg (List.map (List.map UInt8.toNat)) (List.zipIdx_map_fst 0 names)
      rwa [List.map_map] at same
    rw [folded]
    exact List.Nodup.map (fun _ _ => Bytes.octets_inj.mp) distinct
  exact OrderedMap.lookup_foldl_insert (f := Prod.fst) (g := fun named => values.getD named.2 [])
    keys (fun _ _ => rfl) member

theorem names_placeholders (captures : List Capture) :
    (captures.filter fun c => c.name.isSome).map Capture.name =
      (captures.filterMap Capture.name).map some := by
  induction captures with
  | nil => rfl
  | cons c captures ih =>
    cases named : c.name with
    | none => simp [named, ih]
    | some name => simp [named, ih]

theorem bound_iff {captures : List Capture}
    (distinct : (captures.filterMap Capture.name).Nodup) :
    Bound (initParameters (captures.filterMap Capture.name) (captures.map Capture.text)) captures ↔
      Aligned captures := by
  have placed := names_placeholders captures
  have fewer := List.length_filter_le (fun c : Capture => c.name.isSome) captures
  rw [Aligned, List.prefix_iff_getElem?]
  simp only [List.length_map, List.getElem_map]
  have found : ∀ i (less : i < (captures.filter fun c => c.name.isSome).length) name,
      (captures.filter fun c => c.name.isSome)[i].name = some name →
        (initParameters (captures.filterMap Capture.name) (captures.map Capture.text)).lookup name =
          some ((captures.map Capture.text).getD i []) := by
    intro i less name named
    have here := congrArg (fun l => l[i]?) placed
    simp only [List.getElem?_map, List.getElem?_eq_getElem less, Option.map_some, named] at here
    obtain ⟨other, at_, same⟩ := Option.map_eq_some_iff.mp here.symm
    cases same
    exact lookup_initParameters distinct at_
  constructor
  · intro bound i less
    obtain ⟨member, some_⟩ := List.mem_filter.mp (List.getElem_mem less)
    obtain ⟨name, named⟩ := Option.isSome_iff_exists.mp some_
    have both := (found i less name named).symm.trans (bound _ member name named)
    have inside : i < (captures.map Capture.text).length := by simpa using less.trans_le fewer
    rw [List.getD_eq_getElem?_getD, List.getElem?_eq_getElem inside, Option.getD_some] at both
    rw [List.getElem?_eq_getElem inside]
    exact both
  · intro aligned c member name named
    have placeholder : c ∈ captures.filter fun c => c.name.isSome :=
      List.mem_filter.mpr ⟨member, by rw [named]; rfl⟩
    obtain ⟨i, less, rfl⟩ := List.getElem_of_mem placeholder
    rw [found i less name named, List.getD_eq_getElem?_getD, aligned i less]
    rfl

/-- The table that a call leaves. -/
theorem Implementation.add_cases {T H : Type} {imp : Implementation T H} {table added : T} {h : H}
    {error : Option Bytes} (called : imp.add ndebug table key m h name = some (added, error)) :
    added = table ∨ (∃ item, imp.insert table key item = .ok added) ∨
      ∃ item, added = imp.change table key item := by
  rw [add] at called
  split at called
  · cases called
  · split at called
    · simp only [] at called
      split at called
      · rename_i inserted
        cases called
        exact .inr (.inl ⟨_, inserted⟩)
      · cases called
        exact .inl rfl
    · cases called
      exact .inr (.inr ⟨_, rfl⟩)

/-- What each call keeps is kept by calls for several methods. -/
theorem Implementation.addMethods_kept {T H : Type} {imp : Implementation T H} {P : T → Prop}
    (kept : ∀ {table key m name added error} {h : H}, P table →
      imp.add ndebug table key m h name = some (added, error) → P added)
    {table added : T} {h : H} (before : P table)
    (called : imp.addMethods ndebug table key methods h name = some (added, error)) : P added := by
  have marked : ∀ ms table, P table →
      imp.addMarked ndebug key h name ms table = some (added, error) → P added := by
    intro ms
    induction ms with
    | nil =>
      intro table before called
      cases called
      exact before
    | cons m rest ih =>
      intro table before called
      obtain ⟨⟨next, failed⟩, single, others⟩ := Option.bind_eq_some_iff.mp called
      have between := kept before single
      cases failed with
      | none => exact ih next between others
      | some what =>
        cases others
        exact between
  cases methods with
  | single m => exact kept before called
  | several ms => exact marked ms.marked table before called

/-- An item has the pattern and the names that its text was converted to. -/
def RegexRouterItem.Compiled {H : Type} (regex : Regex) (item : RegexRouterItem H) : Prop :=
  regex (toParameterPattern item.urlMatcher).1 = .ok item.regexPattern ∧
    item.parameters = (toParameterPattern item.urlMatcher).2

theorem RegexMatchRoutingTable.compiled_add {H : Type} {regex : Regex}
    {table added : RegexMatchRoutingTable H} {h : H}
    (compiled : ∀ i ∈ table.list, i.Compiled regex)
    (called : (implementation regex).add ndebug table key m h name = some (added, error)) :
    ∀ i ∈ added.list, i.Compiled regex := by
  intro i member
  rcases Implementation.add_cases called with rfl | ⟨item, inserted⟩ | ⟨item, rfl⟩
  · exact compiled i member
  · simp only [implementation] at inserted
    split at inserted
    · rename_i pattern built
      cases inserted
      rcases List.mem_append.mp member with old | new
      · exact compiled i old
      · cases List.mem_singleton.mp new
        exact ⟨built, rfl⟩
    · cases inserted
  · obtain ⟨j, old, changed, rfl⟩ := mem_changeFirst member
    exact compiled j old

namespace HandlerTables
variable {H : Type}

/-- `AddHandler` as a step. -/
def register (ndebug : Bool) (regex : Regex) (app : HandlerTables H) (r : Registration H) :
    Option (HandlerTables H) :=
  (app.addHandler ndebug regex r).map Prod.fst

theorem compiled_register {ndebug : Bool} {regex : Regex} {app after : HandlerTables H}
    {r : Registration H} (compiled : ∀ i ∈ app.regexRouter.list, i.Compiled regex)
    (called : app.register ndebug regex r = some after) :
    ∀ i ∈ after.regexRouter.list, i.Compiled regex := by
  obtain ⟨⟨tables, ok⟩, added, rfl⟩ := Option.map_eq_some_iff.mp called
  rw [addHandler] at added
  split at added
  · cases added
    exact compiled
  · simp only [] at added
    split at added
    · obtain ⟨table, -, same⟩ := Option.map_eq_some_iff.mp added
      cases same
      exact compiled
    · obtain ⟨table, -, same⟩ := Option.map_eq_some_iff.mp added
      cases same
      exact compiled
    · obtain ⟨table, entered, same⟩ := Option.map_eq_some_iff.mp added
      cases same
      exact Implementation.addMethods_kept (P := fun table => ∀ i ∈ table.list, i.Compiled regex)
        RegexMatchRoutingTable.compiled_add compiled entered

/-- An item of the regular expressions answers a request. -/
structure Answers (app : HandlerTables H) (m : HandlerMethod) (url : Bytes)
    (item : RegexRouterItem H) : Prop where
  supported : m ≠ .unsupport
  unequal : (app.equalRouter.search url m).1.handler = none
  unbegun : ∀ urlExists, (app.startwithsRouter.search url m urlExists).1.handler = none
  first : (app.regexRouter.list.find? fun i => (i.regexPattern url).isSome) = some item
  handled : (item.handler m).isSome = true

theorem Answers.pathParameters {app : HandlerTables H} {method : Nat} {path retryPath : Bytes}
    {item : RegexRouterItem H}
    (answers : app.Answers (HandlerMethod.fromHttpMethod method)
      (if retryPath = [] then path else retryPath) item) (given : Finding) :
    (app.findHandler method path retryPath given).2.pathParameters =
      initParameters item.parameters
        ((item.regexPattern (if retryPath = [] then path else retryPath)).getD []) := by
  obtain ⟨supported, unequal, unbegun, first, handled⟩ := answers
  obtain ⟨h, known⟩ := Option.isSome_iff_exists.mp handled
  simp only [findHandler, RegexMatchRoutingTable.search, if_neg supported, unequal, unbegun, first,
    known, RouterResult.ofItem, Option.isNone_some, Bool.false_eq_true, if_false]

/-- After any registrations, the names of a pattern are bound to what their placeholders
have matched exactly if these are the first groups by their texts, as when no other group
opens in front of a placeholder. -/
theorem pathParameters_iff {ndebug : Bool} {regex : Regex} {root : Bytes}
    {registrations : List (Registration H)} {app : HandlerTables H}
    (registered : run (register ndebug regex) { rootUrl := root } registrations = some app)
    {method : Nat} {path retryPath url : Bytes}
    (url_ : url = if retryPath = [] then path else retryPath) {item : RegexRouterItem H}
    (answers : app.Answers (HandlerMethod.fromHttpMethod method) url item)
    {p : RoutePattern} (written : item.urlMatcher = p.text) (distinct : p.names.Nodup)
    {accepts : Bytes → Bytes → Prop}
    (numbers : ∀ matcher, regex p.expression = .ok matcher → p.Numbers accepts matcher)
    (given : Finding) :
    ∃ captures, p.Matches accepts url captures ∧
      item.regexPattern url = some (captures.map Capture.text) ∧
      (Bound (app.findHandler method path retryPath given).2.pathParameters captures ↔
        Aligned captures) ∧
      ((captures.map Capture.name).Pairwise (fun l r => r.isSome = true → l.isSome = true) →
        Bound (app.findHandler method path retryPath given).2.pathParameters captures) := by
  subst url_
  have compiled : ∀ i ∈ app.regexRouter.list, i.Compiled regex :=
    run_invariant (I := fun app => ∀ i ∈ app.regexRouter.list, i.Compiled regex)
      compiled_register (fun _ member => by cases member) registered
  obtain ⟨pattern, parameters⟩ := compiled item (List.mem_of_find?_eq_some answers.first)
  rw [written, p.toParameterPattern_text] at pattern parameters
  have some_ := List.find?_some (p := fun i : RegexRouterItem H =>
    (i.regexPattern (if retryPath = [] then path else retryPath)).isSome) answers.first
  obtain ⟨values, matched⟩ := Option.isSome_iff_exists.mp some_
  obtain ⟨captures, matches_, same⟩ := numbers _ pattern _ _ matched
  have names := matches_.names
  have exact_ : Bound (app.findHandler method path retryPath given).2.pathParameters captures ↔
      Aligned captures := by
    rw [answers.pathParameters given, matched, parameters, Option.getD_some, ← same, ← names]
    exact bound_iff (names ▸ distinct)
  exact ⟨captures, matches_, by rw [matched, same], exact_, exact_.mpr ∘ aligned_of_front⟩

/-- An expression that matches one url. -/
def matching (expression target : Bytes) (values : List Bytes) : Regex := fun text =>
  if text = expression then .ok fun url => if url = target then some values else none
  else .error []

def slash : Letter := .plain 47 (by decide)

def letterA : Letter := .plain 97 (by decide)

def idName : ParameterName := ⟨Bytes.ofAscii "id", by decide, by decide⟩

/-- The text is `/{{id}}/(a)`. -/
def groupBehind : RoutePattern :=
  .letter slash (.placeholder idName (.letter slash (.group (.letter letterA .nil) .nil)))

/-- The text is `/(a)/{{id}}`. -/
def groupInFront : RoutePattern :=
  .letter slash (.group (.letter letterA .nil) (.letter slash (.placeholder idName .nil)))

def registration (p : RoutePattern) : Registration Nat := ⟨.single .get, .regex, p.text, 1, []⟩

def behindItem : RegexRouterItem Nat where
  toRouterItem := ({} : RouterItem Nat).assign .get 1
  urlMatcher := groupBehind.text
  regexMatcher := groupBehind.expression
  regexPattern url := if url = [47, 55, 47, 97] then some [[55], [97]] else none
  parameters := groupBehind.names

theorem pathParameters_iff_groupBehind :
    ∃ captures, groupBehind.Matches (fun _ _ => False) [47, 55, 47, 97] captures ∧
      captures.map Capture.text = [[55], [97]] ∧
      Bound (findHandler ⟨[47], {}, {}, ⟨[behindItem]⟩, false, false⟩ httpGet [47, 55, 47, 97] []
        {}).2.pathParameters captures := by
  have seven : ([55] : Bytes).all isWord = true := by decide
  have registered : run (register false (matching groupBehind.expression [47, 55, 47, 97]
      [[55], [97]])) { rootUrl := [47] } [registration groupBehind] =
        some ⟨[47], {}, {}, ⟨[behindItem]⟩, false, false⟩ := rfl
  have answers : Answers ⟨[47], {}, {}, ⟨[behindItem]⟩, false, false⟩
      (HandlerMethod.fromHttpMethod httpGet) [47, 55, 47, 97] behindItem :=
    ⟨by decide, rfl, fun _ => rfl, rfl, rfl⟩
  have numbers : ∀ matcher, matching groupBehind.expression [47, 55, 47, 97] [[55], [97]]
      groupBehind.expression = .ok matcher → groupBehind.Numbers (fun _ _ => False) matcher := by
    intro matcher compiled
    rw [matching, if_pos rfl] at compiled
    cases compiled
    intro url values matched
    obtain ⟨rfl, same⟩ := Option.ite_none_right_eq_some.mp matched
    cases same
    exact ⟨[⟨some idName.name, [55]⟩, ⟨none, [97]⟩],
      .letter (.placeholder seven (.letter (.group (.letter .nil) .nil))), rfl⟩
  have url_ : ([47, 55, 47, 97] : Bytes) = if ([] : Bytes) = [] then [47, 55, 47, 97] else [] := rfl
  obtain ⟨captures, matched, values, -, bound⟩ :=
    pathParameters_iff registered url_ answers rfl (by decide) numbers {}
  have texts : captures.map Capture.text = [[55], [97]] := (Option.some.inj values).symm
  have front : (captures.map Capture.name).Pairwise
      fun l r => r.isSome = true → l.isSome = true := by
    rw [matched.labels]
    decide
  exact ⟨captures, matched, texts, bound front⟩

/-- The group is in front, and what it has matched is bound to the name. -/
theorem groupInFront_bound :
    groupInFront.Matches (fun _ _ => False) [47, 97, 47, 55]
        [⟨none, [97]⟩, ⟨some idName.name, [55]⟩] ∧
      ∃ app, run (register false (matching groupInFront.expression [47, 97, 47, 55]
          [[97], [55]])) { rootUrl := [47] } [registration groupInFront] = some app ∧
        (app.findHandler httpGet [47, 97, 47, 55] [] {}).2.pathParameters.lookup idName.name =
          some [97] := by
  have seven : ([55] : Bytes).all isWord = true := by decide
  constructor
  · exact .letter (.group (.letter .nil) (.letter (.placeholder seven .nil)))
  · exact ⟨_, rfl, by decide⟩

end HandlerTables
end Da4qi4
