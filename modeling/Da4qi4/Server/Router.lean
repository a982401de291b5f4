import Da4qi4.Http.Request

/-! The routing tables. What `RoutingTable` takes from the table derived from it is
a parameter; `std::regex` is known by what it makes of a text. -/
namespace Da4qi4
open Utilities

inductive HandlerMethod where
  | unsupport | delete | get | head | post | put | any
  deriving DecidableEq, Repr

namespace HandlerMethod

/-- The numbers of the enumeration. -/
def value : HandlerMethod → Int
  | unsupport => -1
  | delete => 0
  | get => 1
  | head => 2
  | post => 3
  | put => 4
  | any => 999

@[simp] theorem value_inj {m n : HandlerMethod} : value m = value n ↔ m = n := by
  constructor
  · intro same
    cases m <;> cases n <;> simp [value] at same ⊢
  · intro same
    rw [same]

/-- `from_http_method`, of the numbers of the HTTP parser. -/
def fromHttpMethod : Nat → HandlerMethod
  | 0 => delete
  | 1 => get
  | 2 => head
  | 3 => post
  | 4 => put
  | _ => unsupport

/-- The methods that a request can have. -/
def IsConcrete (m : HandlerMethod) : Prop := m ≠ unsupport ∧ m ≠ any

instance (m : HandlerMethod) : Decidable m.IsConcrete := inferInstanceAs (Decidable (_ ∧ _))

theorem exists_fromHttpMethod {m : HandlerMethod} (concrete : m.IsConcrete) :
    ∃ method, fromHttpMethod method = m := by
  cases m with
  | unsupport => exact absurd rfl concrete.1
  | any => exact absurd rfl concrete.2
  | delete => exact ⟨0, rfl⟩
  | get => exact ⟨1, rfl⟩
  | head => exact ⟨2, rfl⟩
  | post => exact ⟨3, rfl⟩
  | put => exact ⟨4, rfl⟩

end HandlerMethod

/-- `HandlerMethods`, with a bit for each method that a request can have. -/
structure HandlerMethods where
  mark : Fin 5 → Bool

namespace HandlerMethods

/-- `static_cast<HandlerMethod>(i)`. -/
def methodAt : Fin 5 → HandlerMethod
  | 0 => .delete
  | 1 => .get
  | 2 => .head
  | 3 => .post
  | 4 => .put

def set (ms : HandlerMethods) : HandlerMethod → HandlerMethods
  | .delete => ⟨Function.update ms.mark 0 true⟩
  | .get => ⟨Function.update ms.mark 1 true⟩
  | .head => ⟨Function.update ms.mark 2 true⟩
  | .post => ⟨Function.update ms.mark 3 true⟩
  | .put => ⟨Function.update ms.mark 4 true⟩
  | .any => ⟨fun _ => true⟩
  | .unsupport => ⟨fun _ => false⟩

def ofMethod (m : HandlerMethod) : HandlerMethods := (HandlerMethods.mk fun _ => false).set m

/-- The marked methods in the order of their bits. -/
def marked (ms : HandlerMethods) : List HandlerMethod :=
  ((List.finRange 5).filter ms.mark).map methodAt

end HandlerMethods

structure RouterItem (H : Type) where
  handlers : OrderedMap HandlerMethod.value H := .empty
  templateName : Bytes := []

namespace RouterItem
variable {H : Type}

def handler (item : RouterItem H) (m : HandlerMethod) : Option H := item.handlers.lookup m

def assign (item : RouterItem H) (m : HandlerMethod) (h : H) : RouterItem H :=
  { item with handlers := item.handlers.assign m h }

@[simp] theorem handler_assign (item : RouterItem H) (m n : HandlerMethod) (h : H) :
    (item.assign m h).handler n = if m = n then some h else item.handler n := by
  rw [handler, assign, OrderedMap.lookup_assign]
  simp only [HandlerMethod.value_inj, handler]

@[simp] theorem templateName_assign (item : RouterItem H) (m : HandlerMethod) (h : H) :
    (item.assign m h).templateName = item.templateName := rfl

end RouterItem

structure RouterResult (H : Type) where
  handler : Option H := none
  templateName : Bytes := []

def RouterResult.ofItem {H : Type} (item : RouterItem H) (m : HandlerMethod) : RouterResult H :=
  ⟨item.handler m, item.templateName⟩

/-- What the table that is derived from `RoutingTable` supplies. An item that exists
is changed where it is. -/
structure Implementation (T H : Type) where
  tryAutoMakeTemplateName : Bool
  exists_ : T → Bytes → Option (RouterItem H)
  change : T → Bytes → RouterItem H → T
  insert : T → Bytes → RouterItem H → Except Bytes T

/-- The table afterwards, with the error if there is one. -/
abbrev Added (T : Type) := T × Option Bytes

def indexName : Bytes := Bytes.ofAscii "index"

/-- The template name of a new item. -/
def newTemplateName (tryAutoMakeTemplateName : Bool) (urlMatcher templateName : Bytes) : Bytes :=
  let name := if templateName = [] ∧ tryAutoMakeTemplateName then urlMatcher else templateName
  if name.getLast? = some 47 then name ++ indexName else name

namespace Implementation
variable {T H : Type}

/-- `none` is a failed assertion. -/
def add (imp : Implementation T H) (ndebug : Bool) (table : T) (urlMatcher : Bytes)
    (method : HandlerMethod) (handler : H) (templateName : Bytes) : Option (Added T) :=
  if ¬ ndebug ∧ urlMatcher = [] then none
  else
    match imp.exists_ table urlMatcher with
    | none =>
      let name := newTemplateName imp.tryAutoMakeTemplateName urlMatcher templateName
      let ri : RouterItem H := { templateName := name }
      match imp.insert table urlMatcher (ri.assign method handler) with
      | .ok table => some (table, none)
      | .error error => some (table, some error)
    | some item => some (imp.change table urlMatcher (item.assign method handler), none)

/-- The overload for several methods: one after the other, up to an error. -/
def addMarked (imp : Implementation T H) (ndebug : Bool) (urlMatcher : Bytes) (handler : H)
    (templateName : Bytes) : List HandlerMethod → T → Option (Added T)
  | [], table => some (table, none)
  | method :: rest, table =>
    let name := if templateName = [] then urlMatcher else templateName
    (imp.add ndebug table urlMatcher method handler name).bind fun added =>
      match added.2 with
      | some error => some (added.1, some error)
      | none => imp.addMarked ndebug urlMatcher handler templateName rest added.1

end Implementation

/-- Which overload is called. -/
inductive Methods where
  | single (m : HandlerMethod)
  | several (ms : HandlerMethods)

def Implementation.addMethods {T H : Type} (imp : Implementation T H) (ndebug : Bool) (table : T)
    (urlMatcher : Bytes) (methods : Methods) (handler : H) (templateName : Bytes) :
    Option (Added T) :=
  match methods with
  | .single m => imp.add ndebug table urlMatcher m handler templateName
  | .several ms => imp.addMarked ndebug urlMatcher handler templateName ms.marked table

structure EqualsRoutingTable (H : Type) where
  map : OrderedMap foldCase (RouterItem H) := .empty

namespace EqualsRoutingTable
variable {H : Type}

def implementation : Implementation (EqualsRoutingTable H) H where
  tryAutoMakeTemplateName := true
  exists_ table urlMatcher := table.map.lookup urlMatcher
  change table urlMatcher item := ⟨table.map.assign urlMatcher item⟩
  insert table urlMatcher item := .ok ⟨table.map.insert urlMatcher item⟩

/-- `Match`; the flag is set in either case. -/
def search (table : EqualsRoutingTable H) (url : Bytes) (method : HandlerMethod) :
    RouterResult H × Bool :=
  match table.map.lookup url with
  | some item => (.ofItem item method, true)
  | none => ({}, false)

end EqualsRoutingTable

structure StartsWithRoutingTable (H : Type) where
  map : DescendingMap (RouterItem H) := .empty

structure StartsRouterResult (H : Type) extends RouterResult H where
  key : Bytes := []

namespace StartsWithRoutingTable
variable {H : Type}

def implementation : Implementation (StartsWithRoutingTable H) H where
  tryAutoMakeTemplateName := false
  exists_ table urlMatcher := table.map.lookup urlMatcher
  change table urlMatcher item := ⟨table.map.assign urlMatcher item⟩
  insert table urlMatcher item := .ok ⟨table.map.insert urlMatcher item⟩

def search (table : StartsWithRoutingTable H) (url : Bytes) (method : HandlerMethod)
    (urlExists : Bool) : StartsRouterResult H × Bool :=
  match table.map.entries.find? fun it => iStartsWith url it.1 with
  | some it => (⟨.ofItem it.2 method, it.1⟩, true)
  | none => ({}, urlExists)

end StartsWithRoutingTable

/-- `std::regex`: the error of a text, or what its pattern makes of a target, which
is the submatches of a full match. -/
abbrev Regex := Bytes → Except Bytes (Bytes → Option (List Bytes))

structure RegexRouterItem (H : Type) extends RouterItem H where
  urlMatcher : Bytes
  regexMatcher : Bytes
  regexPattern : Bytes → Option (List Bytes)
  parameters : List Bytes

structure RegexMatchRoutingTable (H : Type) where
  list : List (RegexRouterItem H) := []

structure RegexRouterResult (H : Type) extends RouterResult H where
  parameters : List Bytes := []
  values : List Bytes := []

/-- The characters of `\w`. -/
def isWord (c : UInt8) : Bool :=
  decide (48 ≤ c ∧ c ≤ 57) || decide (65 ≤ c ∧ c ≤ 90) || decide (97 ≤ c ∧ c ≤ 122) ||
    decide (c = 95)

/-- A name in double braces at the beginning of a text, and the text behind it. -/
def parameterAt (m : Bytes) : Option (Bytes × Bytes) :=
  let inner := m.drop 2
  let behind := inner.dropWhile isWord
  if m.take 2 = [123, 123] ∧ behind.take 2 = [125, 125] then
    some (inner.takeWhile isWord, behind.drop 2)
  else none

def parameterPattern : Bytes := Bytes.ofAscii "(\\w*)"

/-- The names in double braces give way to patterns and are collected. The counter
is the length of the text. -/
def convertParameters : Nat → Bytes → Bytes × List Bytes
  | n + 1, c :: rest =>
    match parameterAt (c :: rest) with
    | some (name, behind) =>
      let converted := convertParameters n behind
      (parameterPattern ++ converted.1, name :: converted.2)
    | none =>
      let converted := convertParameters n rest
      (c :: converted.1, converted.2)
  | _, m => (m, [])

def toParameterPattern (simplePattern : Bytes) : Bytes × List Bytes :=
  convertParameters simplePattern.length simplePattern

namespace RegexMatchRoutingTable
variable {H : Type}

def changeFirst (urlMatcher : Bytes) (item : RouterItem H) :
    List (RegexRouterItem H) → List (RegexRouterItem H)
  | [] => []
  | i :: rest =>
    if urlMatcher = i.urlMatcher then { i with toRouterItem := item } :: rest
    else i :: changeFirst urlMatcher item rest

def implementation (regex : Regex) : Implementation (RegexMatchRoutingTable H) H where
  tryAutoMakeTemplateName := false
  exists_ table urlMatcher :=
    (table.list.find? fun item => urlMatcher = item.urlMatcher).map RegexRouterItem.toRouterItem
  change table urlMatcher item := ⟨changeFirst urlMatcher item table.list⟩
  insert table urlMatcher item :=
    let converted := toParameterPattern urlMatcher
    match regex converted.1 with
    | .ok pattern => .ok ⟨table.list ++ [⟨item, urlMatcher, converted.1, pattern, converted.2⟩]⟩
    | .error what => .error what

/-- The first match decides, also when it has no handler for the method. -/
def search (table : RegexMatchRoutingTable H) (url : Bytes) (method : HandlerMethod)
    (urlExists : Bool) : RegexRouterResult H × Bool :=
  match table.list.find? fun item => (item.regexPattern url).isSome with
  | some item =>
    if (item.handler method).isNone then ({}, true)
    else
      (⟨.ofItem item.toRouterItem method, item.parameters, (item.regexPattern url).getD []⟩, true)
  | none => ({}, urlExists)

end RegexMatchRoutingTable

/-- A method and a handler under a key. -/
structure Entry (H : Type) where
  key : Bytes
  method : HandlerMethod
  handler : H

/-- The handler registered last. -/
def lastHandler {H : Type} (log : List (Entry H)) (p : Entry H → Bool) : Option H :=
  (log.reverse.find? p).map Entry.handler

theorem lastHandler_append {H : Type} (log : List (Entry H)) (e : Entry H) (p : Entry H → Bool) :
    lastHandler (log ++ [e]) p = if p e then some e.handler else lastHandler log p := by
  rw [lastHandler, List.reverse_append, List.reverse_singleton, List.singleton_append,
    List.find?_cons]
  cases p e with
  | true => rfl
  | false => rfl

/-- Items are found by what their keys fold to, and one item changes at a time. -/
structure Implementation.Lawful {T H L : Type} [DecidableEq L] (imp : Implementation T H)
    (fold : Bytes → L) : Prop where
  congr : ∀ table {key other}, fold key = fold other →
    imp.exists_ table key = imp.exists_ table other
  change : ∀ table key item, (imp.exists_ table key).isSome = true → ∀ other,
    imp.exists_ (imp.change table key item) other =
      if fold key = fold other then some item else imp.exists_ table other
  insert : ∀ table key item inserted, imp.exists_ table key = none →
    imp.insert table key item = .ok inserted → ∀ other,
    imp.exists_ inserted other =
      if fold key = fold other then some item else imp.exists_ table other

/-- A table has the items of the keys registered, each with the last handlers. -/
structure Records {H L : Type} [DecidableEq L] (fold : Bytes → L)
    (exists_ : Bytes → Option (RouterItem H)) (log : List (Entry H)) : Prop where
  present : ∀ key, (exists_ key).isSome = true ↔ ∃ e ∈ log, fold e.key = fold key
  handler : ∀ key m, ((exists_ key).bind fun item => item.handler m) =
    lastHandler log fun e => decide (fold e.key = fold key) && decide (e.method = m)

namespace Implementation
variable {T H L : Type} [DecidableEq L] {imp : Implementation T H} {fold : Bytes → L}

/-- The item of a key before a handler is added to it. -/
def itemOr (imp : Implementation T H) (table : T) (key templateName : Bytes) : RouterItem H :=
  (imp.exists_ table key).getD
    { templateName := newTemplateName imp.tryAutoMakeTemplateName key templateName }

/-- A call that succeeds changes the item of its key, and no other one. -/
theorem add_exists (lawful : imp.Lawful fold) {table added : T}
    (succeeded : imp.add ndebug table key m h name = some (added, none)) (other : Bytes) :
    imp.exists_ added other =
      if fold key = fold other then some ((imp.itemOr table key name).assign m h)
      else imp.exists_ table other := by
  rw [add] at succeeded
  split at succeeded
  · cases succeeded
  · cases found : imp.exists_ table key with
    | none =>
      rw [found] at succeeded
      simp only [] at succeeded
      split at succeeded
      · rename_i inserted ok
        cases succeeded
        rw [lawful.insert _ _ _ _ found ok, itemOr, found]
        rfl
      · cases succeeded
    | some item =>
      rw [found] at succeeded
      cases succeeded
      have isThere : (imp.exists_ table key).isSome = true := by rw [found]; rfl
      rw [lawful.change _ _ _ isThere, itemOr, found]
      rfl

/-- Only an insertion can fail. -/
theorem add_error {table added : T} {error : Bytes}
    (failed : imp.add ndebug table key m h name = some (added, some error)) :
    added = table ∧ ∃ item, imp.insert table key item = .error error := by
  rw [add] at failed
  split at failed
  · cases failed
  · split at failed
    · simp only [] at failed
      split at failed
      · cases failed
      · rename_i what refused
        cases failed
        exact ⟨rfl, _, refused⟩
    · cases failed

end Implementation

namespace Records
variable {T H L : Type} [DecidableEq L] {imp : Implementation T H} {fold : Bytes → L}

theorem empty {exists_ : Bytes → Option (RouterItem H)} (none : ∀ key, exists_ key = none) :
    Records fold exists_ [] := by
  constructor
  · intro key
    simp [none]
  · intro key m
    rw [none]
    rfl

/-- One registration more. -/
theorem add (lawful : imp.Lawful fold) {table added : T} {log : List (Entry H)}
    (records : Records fold (imp.exists_ table) log)
    (succeeded : imp.add ndebug table key m h name = some (added, Option.none)) :
    Records fold (imp.exists_ added) (log ++ [⟨key, m, h⟩]) := by
  have after := Implementation.add_exists lawful succeeded
  constructor
  · intro other
    rw [after]
    split
    · rename_i same
      simp [same]
    · rename_i different
      rw [records.present]
      simp [different]
  · intro other n
    rw [after, lastHandler_append]
    split
    · rename_i same
      have before : (imp.itemOr table key name).handler n =
          lastHandler log fun e => decide (fold e.key = fold other) && decide (e.method = n) := by
        rw [← records.handler, ← lawful.congr _ same, Implementation.itemOr]
        cases imp.exists_ table key with
        | none => rfl
        | some item => rfl
      rw [Option.bind_some, RouterItem.handler_assign, before]
      by_cases method : m = n
      · simp [method, same]
      · simp [method, same]
    · rename_i different
      rw [records.handler]
      simp [different]

end Records

theorem EqualsRoutingTable.lawful {H : Type} :
    (implementation : Implementation (EqualsRoutingTable H) H).Lawful foldCase where
  congr table _ _ same := OrderedMap.lookup_congr table.map same
  change table key item _ other := OrderedMap.lookup_assign table.map key other item
  insert table key item inserted absent ok other := by
    cases ok
    have inserted := OrderedMap.lookup_insert table.map key other item
    rwa [show table.map.lookup key = none from absent] at inserted

theorem StartsWithRoutingTable.lawful {H : Type} :
    (implementation : Implementation (StartsWithRoutingTable H) H).Lawful
      (OrderedMap.descending foldCase) where
  congr table _ _ same := OrderedMap.lookup_congr table.map same
  change table key item _ other := OrderedMap.lookup_assign table.map key other item
  insert table key item inserted absent ok other := by
    cases ok
    have inserted := OrderedMap.lookup_insert table.map key other item
    rwa [show table.map.lookup key = none from absent] at inserted

namespace RegexMatchRoutingTable
variable {H : Type}

theorem find?_changeFirst (key other : Bytes) (item : RouterItem H)
    {l : List (RegexRouterItem H)} (isThere : (l.find? fun i => key = i.urlMatcher).isSome = true) :
    ((changeFirst key item l).find? fun i => other = i.urlMatcher).map
        RegexRouterItem.toRouterItem =
      if key = other then some item
      else (l.find? fun i => other = i.urlMatcher).map RegexRouterItem.toRouterItem := by
  induction l with
  | nil => cases isThere
  | cons i rest ih =>
    rw [changeFirst]
    split
    · rename_i here
      by_cases same : key = other
      · simp [← here, same]
      · simp [← here, same, Ne.symm same]
    · rename_i apart
      rw [List.find?_cons, decide_eq_false apart] at isThere
      rw [List.find?_cons, List.find?_cons]
      cases hit : decide (other = i.urlMatcher) with
      | true =>
        have different : key ≠ other := by
          rintro rfl
          exact apart (of_decide_eq_true hit)
        simp [different]
      | false => exact ih isThere

theorem lawful (regex : Regex) :
    (implementation regex : Implementation (RegexMatchRoutingTable H) H).Lawful id where
  congr table _ _ same := by rw [id, id] at same; rw [same]
  change table key item isThere other :=
    find?_changeFirst key other item (by simpa [implementation] using isThere)
  insert table key item inserted absent ok other := by
    simp only [implementation] at ok absent ⊢
    split at ok
    · cases ok
      have free := Option.map_eq_none_iff.mp absent
      by_cases same : key = other
      · subst same
        simp [List.find?_append, free]
      · simp [List.find?_append, same, Ne.symm same]
    · cases ok

end RegexMatchRoutingTable
end Da4qi4
