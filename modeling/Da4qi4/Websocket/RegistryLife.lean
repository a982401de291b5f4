import Da4qi4.Websocket.Registry

/-! Whether entries refer to connections that live. The destructor of a holder runs in
two parts, and whatever other threads do may come between them. It leaves the entry in
place if it finds no id: an empty id is as good as another one to everything else. -/
namespace Da4qi4.Websocket.Registry

/-- What threads do, operation by operation; a destructor may be cut in two. -/
inductive Part where
  | whole (operation : Operation)
  | beginDestroy (n : Nat)
  | endDestroy (n : Nat)
  deriving DecidableEq, Repr

def interleave (ndebug : Bool) (r : Registry) : Part → Option Registry
  | .whole operation => r.operate ndebug operation
  | .beginDestroy n => r.beginDestroy n
  | .endDestroy n => r.endDestroy n

/-- No entry refers to a connection that is gone, and no list has a null pointer. -/
def Living (r : Registry) : Prop :=
  (∀ urlPath id n, r.registered urlPath id = some n → r.alive n = true) ∧
    ∀ urlPath, none ∉ r.allWebSocketConnections urlPath

/-- A destructor that tests a connection with an entry finds a path and an id. -/
def Tested (r : Registry) (n : Nat) : Prop :=
  ∀ c, r.objects[n]? = some c → r.registered c.urlPath c.id = some n →
    c.urlPath ≠ [] ∧ c.id ≠ []

def PartTested (r : Registry) (part : Part) (_ : Registry) : Prop :=
  match part with
  | .whole (.destroy n) | .beginDestroy n => r.Tested n
  | .whole _ | .endDestroy _ => True

/-- The holder of a connection with an entry has still to take it out. -/
def Owed (holder : Holder) (_ : Bool) : Prop := holder = .held ∨ holder = .removing true

variable {r t : Registry}

theorem alive_of_owed (object : r.objects[n]? = some c) (owed : Owed c.holder c.added) :
    r.alive n = true := by
  rw [alive, object, Option.any_some, ConnectionObject.alive]
  rcases owed with held | removing
  · rw [held]
    rfl
  · rw [removing]
    rfl

theorem living_of_owed (entries : Entries Owed r) : r.Living := by
  have lives : ∀ urlPath id n, r.registered urlPath id = some n → r.alive n = true := by
    intro urlPath id n found
    obtain ⟨c, object, -, -, owed⟩ := entries urlPath id n found
    exact alive_of_owed object owed
  refine ⟨lives, fun urlPath member => ?_⟩
  rw [allWebSocketConnections] at member
  split at member
  · cases member
  · rename_i s present
    obtain ⟨e, stored, null⟩ := List.mem_map.mp member
    have entry : r.registered urlPath e.1 = some e.2 := by
      rw [registered, present, Option.bind_some]
      exact OrderedMap.lookup_of_mem stored
    rw [Option.filter_some, lives _ _ _ entry, if_pos rfl] at null
    cases null

theorem beginDestroy_owed (entries : Entries Owed r) (tested : r.Tested n)
    (begun : r.beginDestroy n = some t) : Entries Owed t := by
  obtain ⟨c, object, done⟩ := Option.bind_eq_some_iff.mp begun
  split at done
  · cases done
    refine entries.modify (fun _ => ⟨rfl, rfl⟩) fun d again found _ => ?_
    cases object.symm.trans again
    exact .inr (congrArg Holder.removing (decide_eq_true (tested c object found)))
  · cases done

/-- Behind the removal the connection has no entry. -/
theorem endDestroy_owed (entries : Entries Owed r) (ended : r.endDestroy n = some t) :
    Entries Owed t := by
  obtain ⟨c, object, done⟩ := Option.bind_eq_some_iff.mp ended
  split at done
  · rename_i registered removing
    cases done
    cases registered with
    | true =>
      refine (entries.remove c.urlPath c.id).modify (fun _ => ⟨rfl, rfl⟩) fun d again found _ => ?_
      rw [objects_remove, object] at again
      cases again
      rw [registered_remove, if_pos ⟨rfl, rfl⟩] at found
      cases found
    | false =>
      refine entries.modify (fun _ => ⟨rfl, rfl⟩) fun d again _ owed => ?_
      cases object.symm.trans again
      rcases owed with held | other
      · rw [removing] at held
        cases held
      · rw [removing] at other
        cases other
  · cases done
  · cases done

theorem operate_owed (entries : Entries Owed r)
    (tested : ∀ n, operation = .destroy n → r.Tested n)
    (operated : r.operate ndebug operation = some t) : Entries Owed t := by
  cases operation with
  | create urlPath id =>
    cases operated
    exact entries.create urlPath id
  | add n =>
    rw [operate] at operated
    split at operated
    · rename_i held
      obtain ⟨c, added⟩ := add_cases operated
      rw [added.object, Option.any_some, decide_eq_true_iff] at held
      exact entries.add added (.inl held) fun owed => owed
    · cases operated
  | rename n newID =>
    obtain ⟨c, -, renamed⟩ := Option.bind_eq_some_iff.mp operated
    split at renamed
    · cases renamed
      exact entries.rename c.urlPath c.id newID
    · cases renamed
  | destroy n =>
    obtain ⟨u, begun, ended⟩ := Option.bind_eq_some_iff.mp operated
    exact endDestroy_owed (beginDestroy_owed entries (tested n rfl) begun) ended
  | share n =>
    rw [operate, share] at operated
    split at operated
    · cases operated
      exact entries.modify (fun _ => ⟨rfl, rfl⟩) fun _ _ _ owed => owed
    · cases operated
  | release n =>
    obtain ⟨c, -, released⟩ := Option.bind_eq_some_iff.mp operated
    split at released
    · cases released
      exact entries.modify (fun _ => ⟨rfl, rfl⟩) fun _ _ _ owed => owed
    · cases released

/-- If no destructor finds an empty id of a connection with an entry, entries are of
living connections in every state of every interleaving. -/
theorem living_throughout (ndebug : Bool) {parts : List Part}
    (tested : Transition.Steps (interleave ndebug) PartTested {} parts) :
    Transition.Throughout (interleave ndebug) Living {} parts := by
  refine Transition.throughout_of_steps (I := Entries Owed) ?_ living_of_owed (entries_initial _)
    tested
  intro r part t entries stepped known
  cases part with
  | whole operation =>
    refine operate_owed entries ?_ stepped
    rintro n rfl
    exact known
  | beginDestroy n => exact beginDestroy_owed entries known stepped
  | endDestroy n => exact endDestroy_owed entries stepped

/-- A connection that another thread renames while it goes. -/
def overtaken : List Part :=
  [.whole (.create [47] [97]), .whole (.add 0), .whole (.share 0), .beginDestroy 0,
    .whole (.rename 0 [98]), .endDestroy 0, .whole (.release 0)]

theorem living_throughout_overtaken :
    Transition.Throughout (interleave false) Living {} overtaken := by
  refine living_throughout false (.cons rfl trivial (.cons rfl trivial (.cons rfl trivial
    (.cons rfl ?_ (.cons rfl trivial (.cons rfl trivial (.cons rfl trivial trivial)))))))
  intro c object _
  cases object
  exact ⟨List.cons_ne_nil _ _, List.cons_ne_nil _ _⟩

/-- A connection whose id is taken away. -/
def unnamed : List Part :=
  [.whole (.create [47] [97]), .whole (.add 0), .whole (.rename 0 []), .whole (.destroy 0)]

/-- The list of its path has a null pointer. -/
theorem unnamed_null : ¬Transition.Throughout (interleave false) Living {} unnamed := by
  intro throughout
  obtain ⟨t, ran, null⟩ : ∃ t, Transition.run (interleave false) {} unnamed = some t ∧
      t.allWebSocketConnections [47] = [none] := ⟨_, rfl, rfl⟩
  have living := (throughout.final ran).2 [47]
  rw [null] at living
  exact living List.mem_cons_self

end Da4qi4.Websocket.Registry
