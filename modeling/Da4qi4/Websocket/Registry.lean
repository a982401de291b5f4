import Da4qi4.Foundation.Bytes
import Da4qi4.Foundation.OrderedMap
import Da4qi4.Foundation.Transition
import Mathlib.Data.List.Nodup

/-! The websocket connections of an application, under their paths and ids. An entry
does not keep its connection alive: that is what contexts do, and the one that holds the
connection takes the entry out when it goes. Ids are passed by reference, so the id of a
connection is read inside the lock; only the test for an empty id is in front of it. -/
namespace Da4qi4.Websocket

/-- `std::map` from strings. -/
abbrev StringMap (V : Type) := OrderedMap (fun key : Bytes => key.map UInt8.toNat) V

/-- Ids with weak pointers to connections. -/
abbrev Connections := StringMap Nat

namespace Connections

/-- An id that is there already keeps its connection. -/
def add (s : Connections) (id : Bytes) (cnt : Nat) : Connections := s.insert id cnt

def remove (s : Connections) (id : Bytes) : Connections × Bool :=
  if (s.find id).isSome then (s.erase id, true) else (s, false)

theorem lookup_remove (s : Connections) (id other : Bytes) :
    (s.remove id).1.lookup other = if id = other then none else s.lookup other := by
  rw [remove]
  split
  · rw [OrderedMap.lookup_erase]
    exact if_congr Bytes.octets_inj rfl rfl
  · rename_i absent
    split
    · rename_i same
      rw [← same, OrderedMap.lookup, Option.not_isSome_iff_eq_none.mp absent, Option.map_none]
    · rfl

end Connections

/-- The context that holds a connection: it lives, its destructor is behind the test for
an empty path or id, or it is gone. -/
inductive Holder where
  | held
  | removing (registered : Bool)
  | released
  deriving DecidableEq, Repr

/-- A connection; `others` counts the pointers to it besides the one of its holder. -/
structure ConnectionObject where
  urlPath : Bytes
  id : Bytes
  holder : Holder := .held
  others : Nat := 0
  added : Bool := false
  deriving DecidableEq, Repr

def ConnectionObject.alive (c : ConnectionObject) : Bool := c.holder ≠ .released || 0 < c.others

structure Registry where
  websocketConnections : StringMap Connections := .empty
  objects : List ConnectionObject := []
  deriving DecidableEq

namespace Registry

/-- Whether a weak pointer can be locked. -/
def alive (r : Registry) (n : Nat) : Bool := (r.objects[n]?).any ConnectionObject.alive

def modify (r : Registry) (n : Nat) (change : ConnectionObject → ConnectionObject) : Registry :=
  { r with objects := r.objects.modify n change }

/-- The weak pointer under a path and an id. -/
def registered (r : Registry) (urlPath id : Bytes) : Option Nat :=
  (r.websocketConnections.lookup urlPath).bind fun s => s.lookup id

def websocketConnection (r : Registry) (urlPath id : Bytes) : Option Nat :=
  (r.registered urlPath id).filter r.alive

/-- A pointer that cannot be locked is null, and is listed. -/
def allWebSocketConnections (r : Registry) (urlPath : Bytes) : List (Option Nat) :=
  match r.websocketConnections.lookup urlPath with
  | none => []
  | some s => s.entries.map fun e => (some e.2).filter r.alive

/-- `none` is a failed assertion. -/
def addWebSocketConnection (ndebug : Bool) (r : Registry) (n : Nat) : Option Registry :=
  (r.objects[n]?).bind fun c =>
    if ¬ndebug ∧ (c.id = [] ∨ c.urlPath = []) then none
    else
      let storage := match r.websocketConnections.lookup c.urlPath with
        | some s => r.websocketConnections.assign c.urlPath (s.add c.id n)
        | none => r.websocketConnections.insert c.urlPath (OrderedMap.empty.insert c.id n)
      some { r.modify n ({ · with added := true }) with websocketConnections := storage }

def removeWebSocketConnection (r : Registry) (urlPath id : Bytes) : Registry × Bool :=
  match r.websocketConnections.lookup urlPath with
  | none => (r, false)
  | some s =>
    let removed := s.remove id
    ({ r with websocketConnections := r.websocketConnections.assign urlPath removed.1 }, removed.2)

/-- What the new id led to is forgotten. -/
def renameWebSocketConnectionID (r : Registry) (urlPath oldID newID : Bytes) : Registry × Bool :=
  match r.websocketConnections.lookup urlPath with
  | none => (r, false)
  | some s =>
    match s.lookup oldID with
    | none => (r, false)
    | some n =>
      let s := s.erase oldID
      if r.alive n then
        ({ r.modify n ({ · with id := newID }) with
            websocketConnections := r.websocketConnections.assign urlPath (s.assign newID n) },
          true)
      else ({ r with websocketConnections := r.websocketConnections.assign urlPath s }, false)

/-- A connection and the context that holds it. -/
def create (r : Registry) (urlPath id : Bytes) : Registry :=
  { r with objects := r.objects ++ [{ urlPath := urlPath, id := id }] }

/-- `ContextIMP::RenameID` of any context of a connection. -/
def renameID (r : Registry) (n : Nat) (newID : Bytes) : Option Registry :=
  (r.objects[n]?).bind fun c =>
    if c.alive then some (r.renameWebSocketConnectionID c.urlPath c.id newID).1 else none

/-- The destructor of a context that holds a connection, up to its test. -/
def beginDestroy (r : Registry) (n : Nat) : Option Registry :=
  (r.objects[n]?).bind fun c =>
    if c.holder = .held then
      some (r.modify n ({ · with holder := .removing (c.urlPath ≠ [] ∧ c.id ≠ []) }))
    else none

/-- The rest of it: the entry under the id of now is taken out, and the pointer goes. -/
def endDestroy (r : Registry) (n : Nat) : Option Registry :=
  (r.objects[n]?).bind fun c =>
    match c.holder with
    | .removing registered =>
      let removed := if registered then (r.removeWebSocketConnection c.urlPath c.id).1 else r
      some (removed.modify n ({ · with holder := .released }))
    | .held | .released => none

def destroy (r : Registry) (n : Nat) : Option Registry :=
  (r.beginDestroy n).bind fun r => r.endDestroy n

/-- Another context, or another pointer. -/
def share (r : Registry) (n : Nat) : Option Registry :=
  if r.alive n then some (r.modify n fun c => { c with others := c.others + 1 }) else none

def release (r : Registry) (n : Nat) : Option Registry :=
  (r.objects[n]?).bind fun c =>
    if 0 < c.others then some (r.modify n fun c => { c with others := c.others - 1 }) else none

/-- What happens to connections and contexts, one thing after another. A connection is
added while its holder lives. -/
inductive Operation where
  | create (urlPath id : Bytes)
  | add (n : Nat)
  | rename (n : Nat) (newID : Bytes)
  | destroy (n : Nat)
  | share (n : Nat)
  | release (n : Nat)
  deriving DecidableEq, Repr

def operate (ndebug : Bool) (r : Registry) : Operation → Option Registry
  | .create urlPath id => some (r.create urlPath id)
  | .add n =>
    if (r.objects[n]?).any fun c => c.holder = .held then r.addWebSocketConnection ndebug n else none
  | .rename n newID => r.renameID n newID
  | .destroy n => r.destroy n
  | .share n => r.share n
  | .release n => r.release n

section Lookups
variable (r : Registry) (urlPath : Bytes)

@[simp] theorem registered_modify (n : Nat) (change : ConnectionObject → ConnectionObject)
    (path id : Bytes) : (r.modify n change).registered path id = r.registered path id := rfl

theorem objects_modify (n : Nat) (change : ConnectionObject → ConnectionObject) (k : Nat) :
    (r.modify n change).objects[k]? =
      if n = k then (r.objects[k]?).map change else r.objects[k]? := by
  rw [modify, List.getElem?_modify]
  split
  · rfl
  · exact Option.map_id'

theorem length_modify (n : Nat) (change : ConnectionObject → ConnectionObject) :
    (r.modify n change).objects.length = r.objects.length := List.length_modify ..

/-- The newest connection is the last one. -/
theorem create_modify (id : Bytes) (change : ConnectionObject → ConnectionObject) :
    (r.create urlPath id).modify r.objects.length change =
      { r with objects := r.objects ++ [change { urlPath := urlPath, id := id }] } := by
  have last (front : List ConnectionObject) (c : ConnectionObject) :
      (front ++ [c]).modify front.length change = front ++ [change c] := by
    induction front with
    | nil => rfl
    | cons d front ih => rw [List.cons_append, List.length_cons, List.modify_succ_cons, ih]; rfl
  rw [modify, create, last]

theorem registered_assign (s : Connections) (path id : Bytes) :
    { r with websocketConnections := r.websocketConnections.assign urlPath s }.registered path id =
      if urlPath = path then s.lookup id else r.registered path id := by
  rw [registered, registered, OrderedMap.lookup_assign]
  rw [if_congr Bytes.octets_inj rfl rfl]
  split
  · rfl
  · rfl

theorem registered_remove (gone path id : Bytes) :
    (r.removeWebSocketConnection urlPath gone).1.registered path id =
      if urlPath = path ∧ gone = id then none else r.registered path id := by
  rw [removeWebSocketConnection]
  split
  · rename_i absent
    split
    · rename_i same
      rw [registered, ← same.1, absent, Option.bind_none]
    · rfl
  · rename_i s present
    rw [registered_assign, Connections.lookup_remove]
    by_cases here : urlPath = path
    · subst here
      simp [registered, present]
    · simp [here]

theorem objects_remove (gone : Bytes) :
    (r.removeWebSocketConnection urlPath gone).1.objects = r.objects := by
  rw [removeWebSocketConnection]
  split
  · rfl
  · rfl

end Lookups

/-- What `AddWebSocketConnection` changes: an entry that is there stays. -/
structure Added (r : Registry) (n : Nat) (c : ConnectionObject) (t : Registry) : Prop where
  object : r.objects[n]? = some c
  objects : t.objects = (r.modify n ({ · with added := true })).objects
  registered : ∀ path id, t.registered path id =
    if c.urlPath = path ∧ c.id = id then some ((r.registered path id).getD n)
    else r.registered path id

theorem add_cases {r t : Registry} (added : r.addWebSocketConnection ndebug n = some t) :
    ∃ c, Added r n c t := by
  obtain ⟨c, object, stored⟩ := Option.bind_eq_some_iff.mp added
  split at stored
  · cases stored
  · cases stored
    refine ⟨c, object, rfl, fun path id => ?_⟩
    split
    · rename_i s present
      refine (registered_assign (r.modify n _) c.urlPath _ path id).trans ?_
      rw [Connections.add, OrderedMap.lookup_insert, if_congr Bytes.octets_inj rfl rfl,
        registered_modify]
      by_cases here : c.urlPath = path
      · subst here
        by_cases same : c.id = id
        · simp [registered, present, same]
        · simp [registered, present, same]
      · simp [here]
    · rename_i absent
      have fresh : r.websocketConnections.find c.urlPath = none := Option.map_eq_none_iff.mp absent
      rw [OrderedMap.insert_eq_assign fresh]
      refine (registered_assign (r.modify n _) c.urlPath _ path id).trans ?_
      have empty (key : Bytes) : (OrderedMap.empty : Connections).lookup key = none := rfl
      rw [OrderedMap.lookup_insert, if_congr Bytes.octets_inj rfl rfl, registered_modify, empty, empty]
      by_cases here : c.urlPath = path
      · subst here
        simp [registered, absent]
      · simp [here]

section Renaming
variable {r : Registry} {urlPath oldID : Bytes} (newID : Bytes)

theorem rename_absent (absent : r.registered urlPath oldID = none) :
    (r.renameWebSocketConnectionID urlPath oldID newID).1 = r := by
  rw [registered] at absent
  rw [renameWebSocketConnectionID]
  split
  · rfl
  · rename_i s present
    rw [present, Option.bind_some] at absent
    rw [absent]

/-- The connection under the old id goes under the new one, and whatever was there goes. -/
theorem rename_alive {m : Nat} (found : r.registered urlPath oldID = some m)
    (alive : r.alive m = true) :
    (r.renameWebSocketConnectionID urlPath oldID newID).1.objects =
        (r.modify m ({ · with id := newID })).objects ∧
      ∀ path id, (r.renameWebSocketConnectionID urlPath oldID newID).1.registered path id =
        if urlPath = path ∧ newID = id then some m
        else if urlPath = path ∧ oldID = id then none
        else r.registered path id := by
  obtain ⟨s, present, here⟩ := Option.bind_eq_some_iff.mp found
  have renamed : (r.renameWebSocketConnectionID urlPath oldID newID).1 =
      { r.modify m ({ · with id := newID }) with
        websocketConnections :=
          r.websocketConnections.assign urlPath ((s.erase oldID).assign newID m) } := by
    simp only [renameWebSocketConnectionID, present, here, alive, if_true]
  rw [renamed]
  refine ⟨rfl, fun path id => ?_⟩
  refine (registered_assign (r.modify m _) urlPath _ path id).trans ?_
  rw [OrderedMap.lookup_assign, OrderedMap.lookup_erase, if_congr Bytes.octets_inj rfl rfl,
    if_congr Bytes.octets_inj rfl rfl, registered_modify]
  by_cases same : urlPath = path
  · subst same
    simp [registered, present]
  · simp [same]

theorem rename_dead {m : Nat} (found : r.registered urlPath oldID = some m)
    (dead : r.alive m = false) :
    (r.renameWebSocketConnectionID urlPath oldID newID).1.objects = r.objects ∧
      ∀ path id, (r.renameWebSocketConnectionID urlPath oldID newID).1.registered path id =
        if urlPath = path ∧ oldID = id then none else r.registered path id := by
  obtain ⟨s, present, here⟩ := Option.bind_eq_some_iff.mp found
  have renamed : (r.renameWebSocketConnectionID urlPath oldID newID).1 =
      { r with websocketConnections := r.websocketConnections.assign urlPath (s.erase oldID) } := by
    simp only [renameWebSocketConnectionID, present, here, dead, Bool.false_eq_true, if_false]
  rw [renamed]
  refine ⟨rfl, fun path id => ?_⟩
  rw [registered_assign, OrderedMap.lookup_erase, if_congr Bytes.octets_inj rfl rfl]
  by_cases same : urlPath = path
  · subst same
    simp [registered, present]
  · simp [same]

end Renaming

/-- What the destructor of a holder changes. -/
structure Destroyed (r : Registry) (n : Nat) (c : ConnectionObject) (t : Registry) : Prop where
  object : r.objects[n]? = some c
  held : c.holder = .held
  length : t.objects.length = r.objects.length
  objects : ∀ k, t.objects[k]? =
    if n = k then some { c with holder := .released } else r.objects[k]?
  registered : ∀ path id, t.registered path id =
    if (c.urlPath ≠ [] ∧ c.id ≠ []) ∧ c.urlPath = path ∧ c.id = id then none
    else r.registered path id

theorem destroy_cases {r t : Registry} (destroyed : r.destroy n = some t) :
    ∃ c, Destroyed r n c t := by
  obtain ⟨u, begun, ended⟩ := Option.bind_eq_some_iff.mp destroyed
  obtain ⟨c, object, tested⟩ := Option.bind_eq_some_iff.mp begun
  split at tested
  · rename_i held
    cases tested
    obtain ⟨d, again, removed⟩ := Option.bind_eq_some_iff.mp ended
    rw [objects_modify, if_pos rfl, object, Option.map_some] at again
    cases again
    cases removed
    refine ⟨c, object, held, ?_, fun k => ?_, fun path id => ?_⟩
    · rw [length_modify, apply_ite Registry.objects, objects_remove, ite_self, length_modify]
    · rw [objects_modify, apply_ite Registry.objects, objects_remove, ite_self, objects_modify]
      split
      · rename_i same
        rw [← same, object]
        rfl
      · rfl
    · rw [registered_modify, apply_ite (fun u : Registry => u.registered path id),
        registered_remove, registered_modify]
      exact (if_congr decide_eq_true_iff rfl rfl).trans (ite_and ..).symm
  · cases tested

/-- Every entry stands under the path and the id of a connection, of whose holder and
record more is known. -/
def Entries (R : Holder → Bool → Prop) (r : Registry) : Prop :=
  ∀ path id k, r.registered path id = some k →
    ∃ c, r.objects[k]? = some c ∧ c.urlPath = path ∧ c.id = id ∧ R c.holder c.added

theorem entries_initial (R : Holder → Bool → Prop) : Entries R {} := by
  intro path id k found
  cases found

section Keeping
variable {R : Holder → Bool → Prop} {r t : Registry}

/-- Where no entry is new, those that are left may not lose what was known. -/
theorem Entries.transfer (entries : Entries R r)
    (fewer : ∀ path id k, t.registered path id = some k → r.registered path id = some k)
    (kept : ∀ k c, r.objects[k]? = some c → t.registered c.urlPath c.id = some k →
      R c.holder c.added → ∃ d, t.objects[k]? = some d ∧ d.urlPath = c.urlPath ∧ d.id = c.id ∧
        R d.holder d.added) : Entries R t := by
  intro path id k found
  obtain ⟨c, object, rfl, rfl, known⟩ := entries _ _ k (fewer path id k found)
  exact kept k c object found known

theorem Entries.create (entries : Entries R r) (urlPath id : Bytes) :
    Entries R (r.create urlPath id) := by
  refine entries.transfer (fun _ _ _ found => found) fun k c object _ known => ?_
  have inside := (List.getElem?_eq_some_iff.mp object).1
  exact ⟨c, (List.getElem?_append_left inside).trans object, rfl, rfl, known⟩

/-- A change of one connection, and none of its path and id. -/
theorem Entries.modify (entries : Entries R r) {n : Nat}
    {change : ConnectionObject → ConnectionObject}
    (same : ∀ c, (change c).urlPath = c.urlPath ∧ (change c).id = c.id)
    (kept : ∀ c, r.objects[n]? = some c → r.registered c.urlPath c.id = some n →
      R c.holder c.added → R (change c).holder (change c).added) :
    Entries R (r.modify n change) := by
  refine entries.transfer (fun _ _ _ found => found) fun k c object found known => ?_
  rw [objects_modify]
  split
  · rename_i here
    subst here
    exact ⟨change c, by rw [object, Option.map_some], (same c).1, (same c).2,
      kept c object found known⟩
  · exact ⟨c, object, rfl, rfl, known⟩

theorem Entries.remove (entries : Entries R r) (urlPath id : Bytes) :
    Entries R (r.removeWebSocketConnection urlPath id).1 := by
  refine entries.transfer (fun path other k found => ?_) fun k c object _ known => ?_
  · rw [registered_remove] at found
    split at found
    · cases found
    · exact found
  · exact ⟨c, by rw [objects_remove, object], rfl, rfl, known⟩

theorem Entries.add (entries : Entries R r) {n : Nat} {c : ConnectionObject}
    (added : Added r n c t) (new : R c.holder true) (stays : ∀ {h a}, R h a → R h true) :
    Entries R t := by
  intro path id k found
  have old (found : r.registered path id = some k) :
      ∃ d, t.objects[k]? = some d ∧ d.urlPath = path ∧ d.id = id ∧ R d.holder d.added := by
    obtain ⟨d, object, rfl, rfl, known⟩ := entries path id k found
    rw [added.objects, objects_modify, object]
    split
    · exact ⟨{ d with added := true }, rfl, rfl, rfl, stays known⟩
    · exact ⟨d, rfl, rfl, rfl, known⟩
  rw [added.registered] at found
  split at found
  · rename_i here
    cases before : r.registered path id with
    | some m =>
      rw [before] at found
      exact old (before.trans found)
    | none =>
      rw [before, Option.getD_none] at found
      cases found
      refine ⟨{ c with added := true }, ?_, here.1, here.2, new⟩
      rw [added.objects, objects_modify, if_pos rfl, added.object, Option.map_some]
  · exact old found

theorem Entries.rename (entries : Entries R r) (urlPath oldID newID : Bytes) :
    Entries R (r.renameWebSocketConnectionID urlPath oldID newID).1 := by
  cases found : r.registered urlPath oldID with
  | none =>
    rw [rename_absent newID found]
    exact entries
  | some m =>
    obtain ⟨c, object, rfl, rfl, known⟩ := entries _ _ m found
    cases alive : r.alive m with
    | false =>
      obtain ⟨objects, registered⟩ := rename_dead newID found alive
      refine entries.transfer (fun path id k entry => ?_) fun k d other _ knownToo => ?_
      · rw [registered] at entry
        split at entry
        · cases entry
        · exact entry
      · exact ⟨d, by rw [objects, other], rfl, rfl, knownToo⟩
    | true =>
      obtain ⟨objects, registered⟩ := rename_alive newID found alive
      intro path id k entry
      rw [registered] at entry
      rw [objects, objects_modify]
      split at entry
      · rename_i here
        cases entry
        rw [if_pos rfl, object]
        exact ⟨{ c with id := newID }, rfl, here.1, here.2, known⟩
      · split at entry
        · cases entry
        · rename_i others
          obtain ⟨d, other, rfl, rfl, knownToo⟩ := entries path id k entry
          have apart : m ≠ k := by
            rintro rfl
            cases object.symm.trans other
            exact others ⟨rfl, rfl⟩
          rw [if_neg apart]
          exact ⟨d, other, rfl, rfl, knownToo⟩

/-- What holds of every entry is a matter of the entries and their objects. -/
theorem Entries.imp {S : Holder → Bool → Prop} (entries : Entries R r)
    (weaker : ∀ {h a}, R h a → S h a) : Entries S r := by
  intro path id k found
  obtain ⟨c, object, samePath, sameID, known⟩ := entries path id k found
  exact ⟨c, object, samePath, sameID, weaker known⟩

/-- Where all entries are of living connections, the list has what is found. -/
theorem mem_allWebSocketConnections {urlPath : Bytes} {n : Nat}
    (lives : ∀ id n, r.registered urlPath id = some n → r.alive n = true) :
    some n ∈ r.allWebSocketConnections urlPath ↔ ∃ id, r.registered urlPath id = some n := by
  rw [allWebSocketConnections]
  split
  · rename_i absent
    apply iff_of_false List.not_mem_nil
    rintro ⟨id, found⟩
    rw [registered, absent] at found
    cases found
  · rename_i s present
    have here (id : Bytes) : r.registered urlPath id = s.lookup id := by
      rw [registered, present, Option.bind_some]
    constructor
    · intro member
      obtain ⟨e, stored, same⟩ := List.mem_map.mp member
      have entry := (here e.1).trans (OrderedMap.lookup_of_mem stored)
      rw [Option.filter_some, lives _ _ entry, if_pos rfl] at same
      exact ⟨e.1, entry.trans same⟩
    · rintro ⟨id, found⟩
      obtain ⟨e, stored, -, rfl⟩ := OrderedMap.mem_of_lookup ((here id).symm.trans found)
      refine List.mem_map.mpr ⟨e, stored, ?_⟩
      rw [Option.filter_some, lives _ _ found, if_pos rfl]

/-- No connection is listed twice, since each has one id. -/
theorem allWebSocketConnections_nodup (entries : Entries R r) {urlPath : Bytes}
    (lives : ∀ id n, r.registered urlPath id = some n → r.alive n = true) :
    (r.allWebSocketConnections urlPath).Nodup := by
  rw [allWebSocketConnections]
  split
  · exact List.nodup_nil
  · rename_i s present
    have entry {e : Bytes × Nat} (stored : e ∈ s.entries) :
        r.registered urlPath e.1 = some e.2 := by
      rw [registered, present, Option.bind_some]
      exact OrderedMap.lookup_of_mem stored
    refine List.Nodup.map_on (fun e first f second same => ?_) (OrderedMap.nodup_of_sorted s.sorted)
    rw [Option.filter_some, Option.filter_some, lives _ _ (entry first), lives _ _ (entry second),
      if_pos rfl, if_pos rfl] at same
    obtain ⟨c, object, -, id, -⟩ := entries _ _ _ (entry first)
    obtain ⟨d, again, -, sameID, -⟩ := entries _ _ _ (entry second)
    have connection := Option.some.inj same
    rw [connection] at object
    cases object.symm.trans again
    exact Prod.ext (id.symm.trans sameID) connection

end Keeping
end Registry
end Da4qi4.Websocket
