import Da4qi4.Server.FindHandler

/-! The overloads of `AddHandler` for one method and for several. They agree on which
requests find what, unless the default name of a template or a method that no request
has comes in between. -/
namespace Da4qi4
open Utilities

/-- Calls of any overload, one after the other. -/
def HandlerTables.registerEach {H : Type} (ndebug : Bool) (regex : Regex) (app : HandlerTables H)
    (calls : List (Registration H)) : Option (HandlerTables H) :=
  calls.foldlM (fun app r => (app.addHandler ndebug regex r).map Prod.fst) app

/-- Whatever is registered before and after, every request finds one handler and one
template with either overload. -/
def OverloadsAgree {H : Type} (ndebug : Bool) (regex : Regex) (root : Bytes) (m : HandlerMethod)
    (kind : RouterKind) (text : Bytes) (h : H) (name : Bytes) : Prop :=
  ∀ (before after : List (Registration H)) (a b : HandlerTables H),
    HandlerTables.registerEach ndebug regex { rootUrl := root }
      (before ++ ⟨.single m, kind, text, h, name⟩ :: after) = some a →
    HandlerTables.registerEach ndebug regex { rootUrl := root }
      (before ++ ⟨.several (.ofMethod m), kind, text, h, name⟩ :: after) = some b →
    ∀ (method : Nat) (path : Bytes), HandlerMethod.fromHttpMethod method ≠ .unsupport →
      (a.findHandler method path [] {}).1 = (b.findHandler method path [] {}).1 ∧
      (a.findHandler method path [] {}).2.templateName =
        (b.findHandler method path [] {}).2.templateName

namespace HandlerTables
variable {H : Type}

theorem registerEach_cons (ndebug : Bool) (regex : Regex) (app : HandlerTables H)
    (r : Registration H) (calls : List (Registration H)) :
    app.registerEach ndebug regex (r :: calls) =
      ((app.addHandler ndebug regex r).map Prod.fst).bind fun app =>
        app.registerEach ndebug regex calls := by
  rw [registerEach, List.foldlM_cons]
  rfl

theorem registerEach_of_added {ndebug : Bool} {regex : Regex} {app added : HandlerTables H}
    {r : Registration H} {ok : Bool} (called : app.addHandler ndebug regex r = some (added, ok))
    (calls : List (Registration H)) :
    app.registerEach ndebug regex (r :: calls) = added.registerEach ndebug regex calls := by
  rw [registerEach_cons, called]
  rfl

theorem registerEach_append (ndebug : Bool) (regex : Regex) (app : HandlerTables H)
    (before after : List (Registration H)) :
    app.registerEach ndebug regex (before ++ after) =
      (app.registerEach ndebug regex before).bind fun app =>
        app.registerEach ndebug regex after := by
  rw [registerEach, List.foldlM_append]
  rfl

end HandlerTables

theorem HandlerMethods.marked_ofMethod {m : HandlerMethod} (concrete : m.IsConcrete) :
    (ofMethod m).marked = [m] := by
  cases m with
  | unsupport => exact absurd rfl concrete.1
  | any => exact absurd rfl concrete.2
  | delete => rfl
  | get => rfl
  | head => rfl
  | post => rfl
  | put => rfl

/-- The name that several methods would give to a template. -/
def givenName (urlMatcher templateName : Bytes) : Bytes :=
  if templateName = [] then urlMatcher else templateName

theorem newTemplateName_givenName {auto : Bool} {key name : Bytes}
    (named : auto = true ∨ name ≠ [] ∨ key = []) :
    newTemplateName auto key (givenName key name) = newTemplateName auto key name := by
  by_cases given : name = []
  · rw [givenName, if_pos given, given]
    rcases named with rfl | some_ | rfl
    · by_cases empty : key = []
      · rw [empty]
      · simp [newTemplateName, empty]
    · exact absurd given some_
    · rfl
  · rw [givenName, if_neg given]

namespace Implementation
variable {T H : Type} {imp : Implementation T H}

/-- A name is used for a new item only. -/
theorem add_congr {ndebug : Bool} {table : T} {key first second : Bytes} {m : HandlerMethod} {h : H}
    (same : newTemplateName imp.tryAutoMakeTemplateName key first =
      newTemplateName imp.tryAutoMakeTemplateName key second) :
    imp.add ndebug table key m h first = imp.add ndebug table key m h second := by
  rw [add, add, same]

theorem addMethods_ofMethod {ndebug : Bool} {table : T} {key name : Bytes} {m : HandlerMethod}
    {h : H} (concrete : m.IsConcrete)
    (named : imp.tryAutoMakeTemplateName = true ∨ name ≠ [] ∨ key = []) :
    imp.addMethods ndebug table key (.several (.ofMethod m)) h name =
      imp.addMethods ndebug table key (.single m) h name := by
  have same : imp.add ndebug table key m h (givenName key name) =
      imp.add ndebug table key m h name := add_congr (newTemplateName_givenName named)
  simp only [addMethods, HandlerMethods.marked_ofMethod concrete, addMarked]
  rw [givenName] at same
  rw [same]
  cases added : imp.add ndebug table key m h name with
  | none => rfl
  | some result =>
    obtain ⟨table, error⟩ := result
    cases error with
    | none => rfl
    | some error => rfl

end Implementation

theorem HandlerTables.addHandler_ofMethod {H : Type} {ndebug : Bool} {regex : Regex}
    {app : HandlerTables H} {m : HandlerMethod} {kind : RouterKind} {text name : Bytes} {h : H}
    (concrete : m.IsConcrete)
    (named : kind = .equals ∨ name ≠ [] ∨ joinUrlPath app.rootUrl text = []) :
    app.addHandler ndebug regex ⟨.several (.ofMethod m), kind, text, h, name⟩ =
      app.addHandler ndebug regex ⟨.single m, kind, text, h, name⟩ := by
  rw [addHandler, addHandler]
  split
  · rfl
  · cases kind with
    | equals =>
      simp only []
      rw [Implementation.addMethods_ofMethod concrete (.inl rfl)]
    | starts =>
      simp only []
      rw [Implementation.addMethods_ofMethod concrete (.inr (named.resolve_left (by decide)))]
    | regex =>
      simp only []
      rw [Implementation.addMethods_ofMethod concrete (.inr (named.resolve_left (by decide)))]

theorem HandlerTables.registerEach_kept {H : Type} {ndebug : Bool} {regex : Regex}
    {app after : HandlerTables H} {calls : List (Registration H)}
    (registered : app.registerEach ndebug regex calls = some after) :
    after.rootUrl = app.rootUrl ∧ after.isRuning = app.isRuning := by
  induction calls generalizing app with
  | nil =>
    cases registered
    exact ⟨rfl, rfl⟩
  | cons r calls ih =>
    rw [registerEach_cons] at registered
    obtain ⟨next, mapped, rest⟩ := Option.bind_eq_some_iff.mp registered
    obtain ⟨added, called, rfl⟩ := Option.map_eq_some_iff.mp mapped
    obtain ⟨rootUrl, running⟩ := addHandler_kept called
    obtain ⟨rooted, still⟩ := ih rest
    exact ⟨rooted.trans rootUrl, still.trans running⟩

namespace RegexMatchRoutingTable
variable {H : Type}

/-- The table without the items of one text. -/
def others (key : Bytes) (table : RegexMatchRoutingTable H) : RegexMatchRoutingTable H :=
  ⟨table.list.filter fun i => i.urlMatcher ≠ key⟩

/-- The items of a text match nothing. -/
def Silent (key : Bytes) (table : RegexMatchRoutingTable H) : Prop :=
  ∀ i ∈ table.list, i.urlMatcher = key → ∀ path, i.regexPattern path = none

theorem changeFirst_others (key other : Bytes) (item : RouterItem H)
    (l : List (RegexRouterItem H)) :
    (changeFirst other item l).filter (fun i => i.urlMatcher ≠ key) =
      if other = key then l.filter fun i => i.urlMatcher ≠ key
      else changeFirst other item (l.filter fun i => i.urlMatcher ≠ key) := by
  induction l with
  | nil => simp [changeFirst]
  | cons i rest ih =>
    rw [changeFirst]
    by_cases here : other = i.urlMatcher
    · by_cases same : other = key
      · simp [here, ← same]
      · have apart : i.urlMatcher ≠ key := fun equal => same (here.trans equal)
        simp [changeFirst, here, apart]
    · rw [if_neg here]
      by_cases same : i.urlMatcher = key
      · simpa [same] using ih
      · by_cases equal : other = key
        · simpa [same, equal] using ih
        · simpa [same, equal, changeFirst, here] using ih

theorem exists_others {key other : Bytes} (different : other ≠ key)
    (table : RegexMatchRoutingTable H) (regex : Regex) :
    (implementation regex).exists_ (table.others key) other =
      (implementation regex).exists_ table other := by
  simp only [implementation, others, List.find?_filter]
  congr 2
  funext i
  by_cases same : other = i.urlMatcher
  · have apart : i.urlMatcher ≠ key := fun equal => different (same.trans equal)
    simp [same, apart]
  · simp [same]

/-- What a call does to the table without the items of a silent text: nothing if it is
for that text, and else what it does to the table. -/
structure Follows (key : Bytes) (table after : RegexMatchRoutingTable H) (call :
    RegexMatchRoutingTable H → Option (Added (RegexMatchRoutingTable H)))
    (other : Bytes) (error : Option Bytes) : Prop where
  silent : Silent key after
  same : other = key → after.others key = table.others key
  follows : other ≠ key → call (table.others key) = some (after.others key, error)

theorem add_follows {ndebug : Bool} {regex : Regex} {key other name : Bytes}
    {table after : RegexMatchRoutingTable H} {m : HandlerMethod} {h : H} {error : Option Bytes}
    (never : ∀ path, regexMatches regex path key = false) (silent : Silent key table)
    (added : (implementation regex).add ndebug table other m h name = some (after, error)) :
    Follows key table after
      (fun table => (implementation regex).add ndebug table other m h name) other error := by
  rw [Implementation.add] at added
  split at added
  · cases added
  · rename_i asserted
    cases found : (implementation regex).exists_ table other with
    | some item =>
      rw [found] at added
      cases added
      refine ⟨?_, ?_, ?_⟩
      · intro i member same path
        obtain ⟨j, known, changed, rfl⟩ := mem_changeFirst member
        exact silent j known same path
      · rintro rfl
        simp only [others, implementation, changeFirst_others, if_true]
      · intro different
        have lifted := (exists_others different table regex).trans found
        rw [Implementation.add, if_neg asserted, lifted]
        simp only [others, implementation, changeFirst_others, if_neg different]
    | none =>
      rw [found] at added
      simp only [implementation] at added
      cases compiled : regex (toParameterPattern other).1 with
      | error what =>
        rw [compiled] at added
        cases added
        refine ⟨silent, fun _ => rfl, ?_⟩
        intro different
        have lifted := (exists_others different table regex).trans found
        rw [Implementation.add, if_neg asserted, lifted]
        simp only [implementation, compiled]
      | ok pattern =>
        rw [compiled] at added
        cases added
        refine ⟨?_, ?_, ?_⟩
        · intro i member same path
          rcases List.mem_append.mp member with old | new
          · exact silent i old same path
          · cases List.mem_singleton.mp new
            have fails := never path
            rw [regexMatches, ← same, compiled] at fails
            exact Option.isSome_eq_false_iff.mp fails |> Option.isNone_iff_eq_none.mp
        · rintro rfl
          simp [others]
        · intro different
          have lifted := (exists_others different table regex).trans found
          rw [Implementation.add, if_neg asserted, lifted]
          simp [implementation, compiled, others, different]

theorem addMarked_follows {ndebug : Bool} {regex : Regex} {key other name : Bytes} {h : H}
    (never : ∀ path, regexMatches regex path key = false) {marked : List HandlerMethod}
    {table after : RegexMatchRoutingTable H} {error : Option Bytes} (silent : Silent key table)
    (added : (implementation regex).addMarked ndebug other h name marked table =
      some (after, error)) :
    Follows key table after
      (fun table => (implementation regex).addMarked ndebug other h name marked table) other
      error := by
  induction marked generalizing table with
  | nil =>
    cases added
    exact ⟨silent, fun _ => rfl, fun _ => rfl⟩
  | cons m rest ih =>
    obtain ⟨⟨next, failed⟩, first, later⟩ := Option.bind_eq_some_iff.mp added
    have one := add_follows never silent first
    cases failed with
    | some what =>
      cases later
      refine ⟨one.silent, one.same, ?_⟩
      intro different
      rw [Implementation.addMarked]
      simp only [one.follows different, Option.bind_some]
    | none =>
      have others := ih one.silent later
      refine ⟨others.silent, fun same => (others.same same).trans (one.same same), ?_⟩
      intro different
      rw [Implementation.addMarked]
      simp only [one.follows different, Option.bind_some]
      exact others.follows different

theorem addMethods_follows {ndebug : Bool} {regex : Regex} {key other name : Bytes} {h : H}
    (never : ∀ path, regexMatches regex path key = false) {methods : Methods}
    {table after : RegexMatchRoutingTable H} {error : Option Bytes} (silent : Silent key table)
    (added : (implementation regex).addMethods ndebug table other methods h name =
      some (after, error)) :
    Follows key table after
      (fun table => (implementation regex).addMethods ndebug table other methods h name) other
      error := by
  cases methods with
  | single m => exact add_follows never silent added
  | several ms => exact addMarked_follows never silent added

theorem search_others {key : Bytes} {table : RegexMatchRoutingTable H} (silent : Silent key table)
    (url : Bytes) (m : HandlerMethod) (urlExists : Bool) :
    (table.others key).search url m urlExists = table.search url m urlExists := by
  have kept : (table.others key).list.find? (fun item => (item.regexPattern url).isSome) =
      table.list.find? fun item => (item.regexPattern url).isSome := by
    simp only [others, List.find?_filter]
    apply List.find?_congr
    intro i member
    by_cases same : i.urlMatcher = key
    · simp [silent i member same url]
    · simp [same]
  rw [search, search, kept]

end RegexMatchRoutingTable

namespace HandlerTables
variable {H : Type}

def others (key : Bytes) (app : HandlerTables H) : HandlerTables H :=
  { app with regexRouter := app.regexRouter.others key }

/-- Two applications that differ in silent items only. -/
structure Alike (key : Bytes) (a b : HandlerTables H) : Prop where
  same : a.others key = b.others key
  left : a.regexRouter.Silent key
  right : b.regexRouter.Silent key

theorem addHandler_follows {ndebug : Bool} {regex : Regex} {key : Bytes}
    (never : ∀ path, regexMatches regex path key = false) {app after : HandlerTables H}
    {r : Registration H} {ok : Bool} (silent : app.regexRouter.Silent key)
    (called : app.addHandler ndebug regex r = some (after, ok)) :
    after.regexRouter.Silent key ∧
      (r.kind = .regex ∧ joinUrlPath app.rootUrl r.text = key → after.others key = app.others key) ∧
      (¬ (r.kind = .regex ∧ joinUrlPath app.rootUrl r.text = key) →
        (app.others key).addHandler ndebug regex r = some (after.others key, ok)) := by
  rw [addHandler] at called
  split at called
  · rename_i running
    cases called
    refine ⟨silent, fun _ => rfl, ?_⟩
    intro _
    rw [addHandler]
    exact if_pos running
  · rename_i resting
    have still : ¬ (app.others key).isRuning = true := resting
    rw [addHandler, if_neg still]
    obtain ⟨methods, kind, text, h, name⟩ := r
    cases kind with
    | equals =>
      obtain ⟨added, given, same⟩ := Option.map_eq_some_iff.mp called
      cases same
      refine ⟨silent, ?_, ?_⟩
      · rintro ⟨impossible, -⟩
        cases impossible
      · intro _
        exact Option.map_eq_some_iff.mpr ⟨added, given, rfl⟩
    | starts =>
      obtain ⟨added, given, same⟩ := Option.map_eq_some_iff.mp called
      cases same
      refine ⟨silent, ?_, ?_⟩
      · rintro ⟨impossible, -⟩
        cases impossible
      · intro _
        exact Option.map_eq_some_iff.mpr ⟨added, given, rfl⟩
    | regex =>
      obtain ⟨⟨table, error⟩, given, same⟩ := Option.map_eq_some_iff.mp called
      cases same
      have follows := RegexMatchRoutingTable.addMethods_follows never silent given
      refine ⟨follows.silent, ?_, ?_⟩
      · rintro ⟨-, forKey⟩
        simp only [others, follows.same forKey]
      · intro different
        have other : joinUrlPath app.rootUrl text ≠ key := fun same => different ⟨rfl, same⟩
        exact Option.map_eq_some_iff.mpr ⟨_, follows.follows other, rfl⟩

theorem Alike.addHandler {ndebug : Bool} {regex : Regex} {key : Bytes}
    (never : ∀ path, regexMatches regex path key = false) {a b c d : HandlerTables H}
    {r : Registration H} {ok fine : Bool} (alike : Alike key a b)
    (first : a.addHandler ndebug regex r = some (c, ok))
    (second : b.addHandler ndebug regex r = some (d, fine)) : Alike key c d := by
  obtain ⟨left, sameLeft, followsLeft⟩ := addHandler_follows never alike.left first
  obtain ⟨right, sameRight, followsRight⟩ := addHandler_follows never alike.right second
  have root := congrArg HandlerTables.rootUrl alike.same
  change a.rootUrl = b.rootUrl at root
  refine ⟨?_, left, right⟩
  by_cases forKey : r.kind = .regex ∧ joinUrlPath a.rootUrl r.text = key
  · rw [sameLeft forKey, sameRight (root ▸ forKey), alike.same]
  · have lifted := followsLeft forKey
    rw [alike.same, followsRight (root ▸ forKey)] at lifted
    exact (congrArg Prod.fst (Option.some.inj lifted)).symm

theorem Alike.registerEach {ndebug : Bool} {regex : Regex} {key : Bytes}
    (never : ∀ path, regexMatches regex path key = false) {calls : List (Registration H)}
    {a b c d : HandlerTables H} (alike : Alike key a b)
    (first : a.registerEach ndebug regex calls = some c)
    (second : b.registerEach ndebug regex calls = some d) : Alike key c d := by
  induction calls generalizing a b with
  | nil =>
    cases first
    cases second
    exact alike
  | cons r calls ih =>
    rw [registerEach_cons] at first second
    obtain ⟨nextA, mappedA, restA⟩ := Option.bind_eq_some_iff.mp first
    obtain ⟨nextB, mappedB, restB⟩ := Option.bind_eq_some_iff.mp second
    obtain ⟨addedA, calledA, rfl⟩ := Option.map_eq_some_iff.mp mappedA
    obtain ⟨addedB, calledB, rfl⟩ := Option.map_eq_some_iff.mp mappedB
    exact ih (alike.addHandler never calledA calledB) restA restB

theorem Alike.refl_of_silent {key : Bytes} {app : HandlerTables H}
    (silent : app.regexRouter.Silent key) : Alike key app app := ⟨rfl, silent, silent⟩

/-- Silent items stay silent. -/
theorem silent_registerEach {ndebug : Bool} {regex : Regex} {key : Bytes}
    (never : ∀ path, regexMatches regex path key = false) {calls : List (Registration H)}
    {app after : HandlerTables H} (silent : app.regexRouter.Silent key)
    (registered : app.registerEach ndebug regex calls = some after) :
    after.regexRouter.Silent key :=
  ((Alike.refl_of_silent silent).registerEach never registered registered).left

theorem findHandler_others {key : Bytes} {app : HandlerTables H}
    (silent : app.regexRouter.Silent key) (method : Nat) (path retryPath : Bytes)
    (given : Finding) :
    (app.others key).findHandler method path retryPath given =
      app.findHandler method path retryPath given := by
  simp only [findHandler, others, RegexMatchRoutingTable.search_others silent]

theorem Alike.findHandler {key : Bytes} {a b : HandlerTables H} (alike : Alike key a b)
    (method : Nat) (path retryPath : Bytes) (given : Finding) :
    a.findHandler method path retryPath given = b.findHandler method path retryPath given := by
  rw [← findHandler_others alike.left, alike.same, findHandler_others alike.right]

end HandlerTables

section Agree
variable {H : Type} {ndebug : Bool} {regex : Regex} {root text name : Bytes} {m : HandlerMethod}
  {kind : RouterKind} {h : H}

/-- The two sequences of calls up to the one in which they differ, and from there on. -/
theorem registerEach_split {methods : Methods} {before after : List (Registration H)}
    {app last : HandlerTables H}
    (registered : app.registerEach ndebug regex
      (before ++ ⟨methods, kind, text, h, name⟩ :: after) = some last) :
    ∃ first added ok, app.registerEach ndebug regex before = some first ∧
      first.addHandler ndebug regex ⟨methods, kind, text, h, name⟩ = some (added, ok) ∧
      added.registerEach ndebug regex after = some last := by
  rw [HandlerTables.registerEach_append] at registered
  obtain ⟨first, begun, rest⟩ := Option.bind_eq_some_iff.mp registered
  rw [HandlerTables.registerEach_cons] at rest
  obtain ⟨next, mapped, ended⟩ := Option.bind_eq_some_iff.mp rest
  obtain ⟨⟨added, ok⟩, called, rfl⟩ := Option.map_eq_some_iff.mp mapped
  exact ⟨first, added, ok, begun, called, ended⟩

theorem overloadsAgree_of_concrete (concrete : m.IsConcrete)
    (named : kind = .equals ∨ name ≠ [] ∨ joinUrlPath root text = []) :
    OverloadsAgree ndebug regex root m kind text h name := by
  intro before after a b single several method path _
  obtain ⟨firstA, addedA, okA, begunA, calledA, endedA⟩ := registerEach_split single
  obtain ⟨firstB, addedB, okB, begunB, calledB, endedB⟩ := registerEach_split several
  cases begunA.symm.trans begunB
  have rooted : firstA.rootUrl = root := (HandlerTables.registerEach_kept begunA).1
  rw [HandlerTables.addHandler_ofMethod concrete (rooted ▸ named)] at calledB
  cases calledA.symm.trans calledB
  cases endedA.symm.trans endedB
  exact ⟨rfl, rfl⟩

/-- An empty key is not registered with the overload for one method. -/
theorem overloadsAgree_of_asserted (empty : joinUrlPath root text = []) :
    OverloadsAgree false regex root m kind text h name := by
  intro before after a b single _ method path _
  obtain ⟨first, added, ok, begun, called, ended⟩ := registerEach_split single
  obtain ⟨rooted, resting⟩ := HandlerTables.registerEach_kept begun
  have still : ¬ first.isRuning = true := by
    rw [resting]
    exact Bool.false_ne_true
  have key : joinUrlPath first.rootUrl text = [] := by rw [rooted, empty]
  rw [HandlerTables.addHandler, if_neg still] at called
  simp only [key, Implementation.addMethods, Implementation.add] at called
  cases kind with
  | equals => cases called
  | starts => cases called
  | regex => cases called

theorem overloadsAgree_of_silent
    (never : ∀ path, regexMatches regex path (joinUrlPath root text) = false) :
    OverloadsAgree ndebug regex root m .regex text h name := by
  intro before after a b single several method path _
  obtain ⟨firstA, addedA, okA, begunA, calledA, endedA⟩ := registerEach_split single
  obtain ⟨firstB, addedB, okB, begunB, calledB, endedB⟩ := registerEach_split several
  cases begunA.symm.trans begunB
  have silent : firstA.regexRouter.Silent (joinUrlPath root text) := by
    apply HandlerTables.silent_registerEach never _ begunA
    intro i member
    cases member
  have rooted := (HandlerTables.registerEach_kept begunA).1
  obtain ⟨left, sameA, -⟩ := HandlerTables.addHandler_follows never silent calledA
  obtain ⟨right, sameB, -⟩ := HandlerTables.addHandler_follows never silent calledB
  have key : joinUrlPath firstA.rootUrl text = joinUrlPath root text := by rw [rooted]
  have alike : HandlerTables.Alike (joinUrlPath root text) addedA addedB :=
    ⟨(sameA ⟨rfl, key⟩).trans (sameB ⟨rfl, key⟩).symm, left, right⟩
  have same := (alike.registerEach never endedA endedB).findHandler method path [] {}
  exact ⟨congrArg Prod.fst same, congrArg (fun f => f.2.templateName) same⟩

end Agree

/-- What a table does with one key when it has no other one. -/
structure Implementation.Alone {T H : Type} (imp : Implementation T H) (empty : T)
    (only : RouterItem H → T) (key : Bytes) : Prop where
  absent : imp.exists_ empty key = none
  insert : ∀ item, imp.insert empty key item = .ok (only item)
  present : ∀ item, imp.exists_ (only item) key = some item
  change : ∀ item new, imp.change (only item) key new = only new

/-- An item without a handler. -/
def RouterItem.named {H : Type} (templateName : Bytes) : RouterItem H :=
  { templateName := templateName }

@[simp] theorem RouterItem.handler_named {H : Type} (templateName : Bytes) (m : HandlerMethod) :
    (RouterItem.named templateName : RouterItem H).handler m = none := rfl

@[simp] theorem RouterItem.templateName_named {H : Type} (templateName : Bytes) :
    (RouterItem.named templateName : RouterItem H).templateName = templateName := rfl

namespace Implementation
variable {T H : Type} {imp : Implementation T H} {empty : T} {only : RouterItem H → T}
  {key : Bytes}

theorem Alone.add_empty (alone : imp.Alone empty only key) {ndebug : Bool}
    (asserted : ndebug = true ∨ key ≠ []) (m : HandlerMethod) (h : H) (name : Bytes) :
    imp.add ndebug empty key m h name = some (only ((RouterItem.named
      (newTemplateName imp.tryAutoMakeTemplateName key name)).assign m h), none) := by
  have passes : ¬ (¬ ndebug = true ∧ key = []) := by tauto
  rw [add, if_neg passes, alone.absent]
  simp only [alone.insert, RouterItem.named]

theorem Alone.add_only (alone : imp.Alone empty only key) {ndebug : Bool}
    (asserted : ndebug = true ∨ key ≠ []) (item : RouterItem H) (m : HandlerMethod) (h : H)
    (name : Bytes) :
    imp.add ndebug (only item) key m h name = some (only (item.assign m h), none) := by
  have passes : ¬ (¬ ndebug = true ∧ key = []) := by tauto
  rw [add, if_neg passes, alone.present]
  simp only [alone.change]

theorem Alone.addMarked_only (alone : imp.Alone empty only key) {ndebug : Bool}
    (asserted : ndebug = true ∨ key ≠ []) (h : H) (name : Bytes) (marked : List HandlerMethod)
    (item : RouterItem H) :
    imp.addMarked ndebug key h name marked (only item) =
      some (only (marked.foldl (fun item m => item.assign m h) item), none) := by
  induction marked generalizing item with
  | nil => rfl
  | cons m rest ih =>
    rw [addMarked]
    simp only [alone.add_only asserted, Option.bind_some]
    exact ih (item.assign m h)

theorem Alone.addSeveral_empty (alone : imp.Alone empty only key) {ndebug : Bool}
    (asserted : ndebug = true ∨ key ≠ []) {ms : HandlerMethods} {m : HandlerMethod}
    {rest : List HandlerMethod} (marked : ms.marked = m :: rest) (h : H) (name : Bytes) :
    imp.addMethods ndebug empty key (.several ms) h name =
      some (only (rest.foldl (fun item m => item.assign m h)
        ((RouterItem.named (newTemplateName imp.tryAutoMakeTemplateName key
          (givenName key name))).assign m h)), none) := by
  simp only [addMethods, marked]
  rw [addMarked]
  simp only [alone.add_empty asserted, Option.bind_some]
  exact alone.addMarked_only asserted h name rest _

end Implementation

section Only
variable {H : Type}

def onlyEquals (key : Bytes) (item : RouterItem H) : EqualsRoutingTable H :=
  ⟨⟨[(key, item)], List.pairwise_singleton _ _⟩⟩

def onlyStarts (key : Bytes) (item : RouterItem H) : StartsWithRoutingTable H :=
  ⟨⟨[(key, item)], List.pairwise_singleton _ _⟩⟩

def onlyRegex (pattern : Bytes → Option (List Bytes)) (key : Bytes) (item : RouterItem H) :
    RegexMatchRoutingTable H :=
  ⟨[⟨item, key, (toParameterPattern key).1, pattern, (toParameterPattern key).2⟩]⟩

theorem alone_onlyEquals (key : Bytes) :
    (EqualsRoutingTable.implementation : Implementation (EqualsRoutingTable H) H).Alone {}
      (onlyEquals key) key where
  absent := rfl
  insert _ := rfl
  present item := by
    simp [EqualsRoutingTable.implementation, onlyEquals, OrderedMap.lookup, OrderedMap.find,
      OrderedMap.isAt]
  change item new := by
    simp [EqualsRoutingTable.implementation, onlyEquals, OrderedMap.assign, OrderedMap.place]

theorem alone_onlyStarts (key : Bytes) :
    (StartsWithRoutingTable.implementation : Implementation (StartsWithRoutingTable H) H).Alone {}
      (onlyStarts key) key where
  absent := rfl
  insert _ := rfl
  present item := by
    simp [StartsWithRoutingTable.implementation, onlyStarts, OrderedMap.lookup, OrderedMap.find,
      OrderedMap.isAt]
  change item new := by
    simp [StartsWithRoutingTable.implementation, onlyStarts, OrderedMap.assign, OrderedMap.place]

theorem alone_onlyRegex {regex : Regex} {key : Bytes} {pattern : Bytes → Option (List Bytes)}
    (compiled : regex (toParameterPattern key).1 = .ok pattern) :
    (RegexMatchRoutingTable.implementation regex : Implementation (RegexMatchRoutingTable H) H).Alone
      {} (onlyRegex pattern key) key where
  absent := rfl
  insert item := by
    simp only [RegexMatchRoutingTable.implementation, compiled]
    rfl
  present item := by simp [RegexMatchRoutingTable.implementation, onlyRegex]
  change item new := by
    simp [RegexMatchRoutingTable.implementation, onlyRegex, RegexMatchRoutingTable.changeFirst]

/-- An application with a single item in one table. -/
def HandlerTables.only (root : Bytes) (kind : RouterKind) (pattern : Bytes → Option (List Bytes))
    (key : Bytes) (item : RouterItem H) : HandlerTables H :=
  match kind with
  | .equals => { rootUrl := root, equalRouter := onlyEquals key item }
  | .starts => { rootUrl := root, startwithsRouter := onlyStarts key item }
  | .regex => { rootUrl := root, regexRouter := onlyRegex pattern key item }

/-- Whether a path goes to the item of a key. -/
def Fits (kind : RouterKind) (pattern : Bytes → Option (List Bytes)) (key path : Bytes) : Prop :=
  match kind with
  | .equals | .starts => path = key
  | .regex => (pattern path).isSome = true

theorem HandlerTables.findHandler_only {root key path : Bytes} {kind : RouterKind}
    {pattern : Bytes → Option (List Bytes)} {item : RouterItem H} {method : Nat}
    (supported : HandlerMethod.fromHttpMethod method ≠ .unsupport)
    (fits : Fits kind pattern key path) :
    let found := (only root kind pattern key item).findHandler method path [] {}
    found.1 = item.handler (HandlerMethod.fromHttpMethod method) ∧
      (found.1.isSome = true → found.2.templateName = item.templateName) := by
  intro found
  cases kind with
  | equals =>
    cases fits
    have stored : (onlyEquals key item).map.lookup key = some item :=
      (alone_onlyEquals key).present item
    have searched : (onlyEquals key item).search key (.fromHttpMethod method) =
        (.ofItem item (.fromHttpMethod method), true) := by
      rw [EqualsRoutingTable.search, stored]
    simp only [found, findHandler, if_neg supported, if_true, only, searched, RouterResult.ofItem]
    cases item.handler (.fromHttpMethod method) with
    | some h => exact ⟨rfl, fun _ => rfl⟩
    | none => exact ⟨rfl, fun some_ => by cases some_⟩
  | starts =>
    cases fits
    have begins : iStartsWith key key = true := (iStartsWith_iff _ _).mpr (List.prefix_refl _)
    have searched : (onlyStarts key item).search key (.fromHttpMethod method) false =
        (⟨.ofItem item (.fromHttpMethod method), key⟩, true) := by
      rw [StartsWithRoutingTable.search, onlyStarts, List.find?_cons, begins]
    have missed : ({} : EqualsRoutingTable H).search key (.fromHttpMethod method) =
        ({}, false) := rfl
    simp only [found, findHandler, if_neg supported, if_true, only, missed, searched,
      RouterResult.ofItem]
    cases item.handler (.fromHttpMethod method) with
    | some h => exact ⟨rfl, fun _ => rfl⟩
    | none => exact ⟨rfl, fun some_ => by cases some_⟩
  | regex =>
    have matched : (pattern path).isSome = true := fits
    have missed : ({} : EqualsRoutingTable H).search path (.fromHttpMethod method) =
        ({}, false) := rfl
    have missedToo : ({} : StartsWithRoutingTable H).search path (.fromHttpMethod method) false =
        ({}, false) := rfl
    simp only [found, findHandler, if_neg supported, if_true, only, missed, missedToo,
      RegexMatchRoutingTable.search, onlyRegex, List.find?_cons, matched, RouterResult.ofItem]
    cases item.handler (.fromHttpMethod method) with
    | some h => exact ⟨rfl, fun _ => rfl⟩
    | none => exact ⟨rfl, fun some_ => by cases some_⟩

/-- The flag of the table for a kind of router. -/
def RouterKind.auto : RouterKind → Bool
  | .equals => true
  | .starts => false
  | .regex => false

/-- The first registration of all. -/
theorem HandlerTables.addHandler_first {ndebug : Bool} {regex : Regex} {root text : Bytes}
    {kind : RouterKind} {pattern : Bytes → Option (List Bytes)}
    (compiled : kind = .regex → regex (toParameterPattern (joinUrlPath root text)).1 = .ok pattern)
    (asserted : ndebug = true ∨ joinUrlPath root text ≠ []) (m : HandlerMethod) (h : H)
    (name : Bytes) :
    ({ rootUrl := root } : HandlerTables H).addHandler ndebug regex
        ⟨.single m, kind, text, h, name⟩ =
      some (only root kind pattern (joinUrlPath root text)
        ((RouterItem.named (newTemplateName kind.auto (joinUrlPath root text) name)).assign m h),
        true) := by
  cases kind with
  | equals =>
    exact Option.map_eq_some_iff.mpr ⟨_, (alone_onlyEquals _).add_empty asserted m h name, rfl⟩
  | starts =>
    exact Option.map_eq_some_iff.mpr ⟨_, (alone_onlyStarts _).add_empty asserted m h name, rfl⟩
  | regex =>
    exact Option.map_eq_some_iff.mpr
      ⟨_, (alone_onlyRegex (compiled rfl)).add_empty asserted m h name, rfl⟩

theorem HandlerTables.addHandler_firstMarked {ndebug : Bool} {regex : Regex} {root text : Bytes}
    {kind : RouterKind} {pattern : Bytes → Option (List Bytes)} {ms : HandlerMethods}
    {m : HandlerMethod} {rest : List HandlerMethod}
    (compiled : kind = .regex → regex (toParameterPattern (joinUrlPath root text)).1 = .ok pattern)
    (asserted : ndebug = true ∨ joinUrlPath root text ≠ []) (marked : ms.marked = m :: rest) (h : H)
    (name : Bytes) :
    ({ rootUrl := root } : HandlerTables H).addHandler ndebug regex
        ⟨.several ms, kind, text, h, name⟩ =
      some (only root kind pattern (joinUrlPath root text)
        (rest.foldl (fun item m => item.assign m h)
          ((RouterItem.named (newTemplateName kind.auto (joinUrlPath root text)
            (givenName (joinUrlPath root text) name))).assign m h)), true) := by
  cases kind with
  | equals =>
    exact Option.map_eq_some_iff.mpr
      ⟨_, (alone_onlyEquals _).addSeveral_empty asserted marked h name, rfl⟩
  | starts =>
    exact Option.map_eq_some_iff.mpr
      ⟨_, (alone_onlyStarts _).addSeveral_empty asserted marked h name, rfl⟩
  | regex =>
    exact Option.map_eq_some_iff.mpr
      ⟨_, (alone_onlyRegex (compiled rfl)).addSeveral_empty asserted marked h name, rfl⟩

theorem HandlerTables.addHandler_unmarked (ndebug : Bool) (regex : Regex) (root : Bytes)
    (kind : RouterKind) (text : Bytes) (h : H) (name : Bytes) {ms : HandlerMethods}
    (marked : ms.marked = []) :
    ({ rootUrl := root } : HandlerTables H).addHandler ndebug regex
        ⟨.several ms, kind, text, h, name⟩ = some ({ rootUrl := root }, true) := by
  cases kind with
  | equals => simp [addHandler, isRuning, Implementation.addMethods, marked,
      Implementation.addMarked]
  | starts => simp [addHandler, isRuning, Implementation.addMethods, marked,
      Implementation.addMarked]
  | regex => simp [addHandler, isRuning, Implementation.addMethods, marked,
      Implementation.addMarked]

/-- A registration more under the same key. -/
theorem HandlerTables.addHandler_again {ndebug : Bool} {regex : Regex} {root text : Bytes}
    {kind : RouterKind} {pattern : Bytes → Option (List Bytes)}
    (compiled : kind = .regex → regex (toParameterPattern (joinUrlPath root text)).1 = .ok pattern)
    (asserted : ndebug = true ∨ joinUrlPath root text ≠ []) (item : RouterItem H)
    (m : HandlerMethod) (h : H) (name : Bytes) :
    (only root kind pattern (joinUrlPath root text) item).addHandler ndebug regex
        ⟨.single m, kind, text, h, name⟩ =
      some (only root kind pattern (joinUrlPath root text) (item.assign m h), true) := by
  cases kind with
  | equals =>
    exact Option.map_eq_some_iff.mpr ⟨_, (alone_onlyEquals _).add_only asserted item m h name, rfl⟩
  | starts =>
    exact Option.map_eq_some_iff.mpr ⟨_, (alone_onlyStarts _).add_only asserted item m h name, rfl⟩
  | regex =>
    exact Option.map_eq_some_iff.mpr
      ⟨_, (alone_onlyRegex (compiled rfl)).add_only asserted item m h name, rfl⟩

end Only

section Differ
variable {H : Type} {ndebug : Bool} {regex : Regex} {root text name : Bytes} {m : HandlerMethod}
  {kind : RouterKind} {h : H}

/-- Some path goes to the key. -/
structure Reaches (regex : Regex) (kind : RouterKind) (key : Bytes)
    (pattern : Bytes → Option (List Bytes)) (path : Bytes) : Prop where
  compiled : kind = .regex → regex (toParameterPattern key).1 = .ok pattern
  fits : Fits kind pattern key path

theorem exists_reaches {key : Bytes}
    (loud : ¬ (kind = .regex ∧ ∀ path, regexMatches regex path key = false)) :
    ∃ pattern path, Reaches regex kind key pattern path := by
  cases kind with
  | equals => exact ⟨fun _ => none, key, fun impossible => (by cases impossible), rfl⟩
  | starts => exact ⟨fun _ => none, key, fun impossible => (by cases impossible), rfl⟩
  | regex =>
    have some_ : ∃ path, ¬ regexMatches regex path key = false := by
      by_contra none_
      exact loud ⟨rfl, fun path => not_not.mp fun fails => none_ ⟨path, fails⟩⟩
    obtain ⟨path, matched⟩ := some_
    rw [regexMatches] at matched
    cases compiled : regex (toParameterPattern key).1 with
    | error what =>
      rw [compiled] at matched
      exact absurd rfl matched
    | ok pattern =>
      rw [compiled] at matched
      refine ⟨pattern, path, fun _ => compiled, ?_⟩
      simpa [Fits, Option.isSome_iff_ne_none] using matched

/-- What a request tells of two single items that the overloads lead to. -/
theorem items_of_agree (agree : OverloadsAgree ndebug regex root m kind text h name)
    {pattern : Bytes → Option (List Bytes)} {path : Bytes}
    (reaches : Reaches regex kind (joinUrlPath root text) pattern path)
    {after : List (Registration H)} {left right : RouterItem H}
    (single : HandlerTables.registerEach ndebug regex { rootUrl := root }
      (⟨.single m, kind, text, h, name⟩ :: after) =
        some (.only root kind pattern (joinUrlPath root text) left))
    (several : HandlerTables.registerEach ndebug regex { rootUrl := root }
      (⟨.several (.ofMethod m), kind, text, h, name⟩ :: after) =
        some (.only root kind pattern (joinUrlPath root text) right)) {method : Nat}
    (supported : HandlerMethod.fromHttpMethod method ≠ .unsupport) :
    left.handler (.fromHttpMethod method) = right.handler (.fromHttpMethod method) ∧
      ((left.handler (.fromHttpMethod method)).isSome = true →
        left.templateName = right.templateName) := by
  obtain ⟨handlers, templates⟩ := agree [] after _ _ single several method path supported
  obtain ⟨handlerA, templateA⟩ := HandlerTables.findHandler_only supported reaches.fits
  obtain ⟨handlerB, templateB⟩ := HandlerTables.findHandler_only supported reaches.fits
  refine ⟨handlerA.symm.trans (handlers.trans handlerB), ?_⟩
  intro found
  rw [← handlerA] at found
  exact (templateA found).symm.trans (templates.trans (templateB (handlers ▸ found)))

/-- A method that no request has is stored and not found. -/
theorem differ_of_any (asserted : ndebug = true ∨ joinUrlPath root text ≠ [])
    {pattern : Bytes → Option (List Bytes)} {path : Bytes}
    (reaches : Reaches regex kind (joinUrlPath root text) pattern path) :
    ¬ OverloadsAgree ndebug regex root .any kind text h name := by
  intro agree
  have marked : (HandlerMethods.ofMethod .any).marked = [.delete, .get, .head, .post, .put] := rfl
  have single := HandlerTables.registerEach_of_added
    (HandlerTables.addHandler_first reaches.compiled asserted .any h name)
  have several := HandlerTables.registerEach_of_added
    (HandlerTables.addHandler_firstMarked reaches.compiled asserted marked h name)
  have supported : HandlerMethod.fromHttpMethod httpGet ≠ .unsupport := by decide
  have same := (items_of_agree agree reaches (single []) (several []) supported).1
  simp [HandlerMethod.fromHttpMethod, httpGet] at same

theorem newTemplateName_key {key : Bytes} (keyed : key ≠ []) :
    newTemplateName false key [] ≠ newTemplateName false key key := by
  intro same
  have empty : newTemplateName false key [] = [] := rfl
  rw [empty, newTemplateName] at same
  simp only [Bool.false_eq_true, and_false, if_false] at same
  split at same
  · exact absurd (List.append_eq_nil_iff.mp same.symm).1 keyed
  · exact absurd same.symm keyed

/-- The key is the name of the template for one of them only. -/
theorem differ_of_name {pattern : Bytes → Option (List Bytes)} {path : Bytes}
    (concrete : m.IsConcrete) (auto : kind ≠ .equals) (keyed : joinUrlPath root text ≠ [])
    (reaches : Reaches regex kind (joinUrlPath root text) pattern path) :
    ¬ OverloadsAgree ndebug regex root m kind text h [] := by
  intro agree
  have asserted : ndebug = true ∨ joinUrlPath root text ≠ [] := .inr keyed
  have single := HandlerTables.registerEach_of_added
    (HandlerTables.addHandler_first reaches.compiled asserted m h [])
  have several := HandlerTables.registerEach_of_added
    (HandlerTables.addHandler_firstMarked reaches.compiled asserted
      (HandlerMethods.marked_ofMethod concrete) h [])
  obtain ⟨method, sent⟩ := HandlerMethod.exists_fromHttpMethod concrete
  have supported : HandlerMethod.fromHttpMethod method ≠ .unsupport := sent ▸ concrete.1
  have same := (items_of_agree agree reaches (single []) (several []) supported).2
  have flag : kind.auto = false := by
    cases kind with
    | equals => exact absurd rfl auto
    | starts => rfl
    | regex => rfl
  simp only [sent, RouterItem.handler_assign, if_true, Option.isSome_some, forall_const,
    List.foldl_nil, RouterItem.templateName_assign, RouterItem.templateName_named, flag,
    givenName] at same
  exact newTemplateName_key keyed same

/-- An item without a handler is there for one of them only, and keeps the name of its
template. -/
theorem differ_of_unsupport (asserted : ndebug = true ∨ joinUrlPath root text ≠ [])
    {pattern : Bytes → Option (List Bytes)} {path : Bytes}
    (reaches : Reaches regex kind (joinUrlPath root text) pattern path) :
    ¬ OverloadsAgree ndebug regex root .unsupport kind text h name := by
  intro agree
  let first := newTemplateName kind.auto (joinUrlPath root text) name
  have other :
      newTemplateName kind.auto (joinUrlPath root text) (first ++ [97]) = first ++ [97] := by
    simp [newTemplateName]
  have single := HandlerTables.registerEach_of_added
    (HandlerTables.addHandler_first reaches.compiled asserted .unsupport h name)
  have again := HandlerTables.registerEach_of_added
    (HandlerTables.addHandler_again reaches.compiled asserted
      ((RouterItem.named first).assign .unsupport h) .get h (first ++ [97]))
  have none_ := HandlerTables.registerEach_of_added
    (HandlerTables.addHandler_unmarked ndebug regex root kind text h name
      (show (HandlerMethods.ofMethod .unsupport).marked = [] from rfl))
  have alone := HandlerTables.registerEach_of_added
    (HandlerTables.addHandler_first reaches.compiled asserted .get h (first ++ [97]))
  have supported : HandlerMethod.fromHttpMethod httpGet ≠ .unsupport := by decide
  have same := (items_of_agree agree reaches ((single _).trans (again []))
    ((none_ _).trans (alone [])) supported).2
  simp [HandlerMethod.fromHttpMethod, httpGet, other] at same

end Differ
end Da4qi4
