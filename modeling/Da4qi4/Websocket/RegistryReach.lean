import Da4qi4.Websocket.Registry

/-! Whether connections are found. An id is held in the registry and in the connection,
and nothing keeps two connections from having one id: what is added then stays out, what
is renamed pushes out, and what goes takes the other's entry with it. -/
namespace Da4qi4.Websocket.Registry

/-- A connection that was added, with its holder alive, has a path and an id. -/
def Uses (r : Registry) (k : Nat) (urlPath id : Bytes) : Prop :=
  ∃ c, r.objects[k]? = some c ∧ c.added = true ∧ c.holder = .held ∧ c.urlPath = urlPath ∧ c.id = id

/-- Each of them is found under its path and its id. -/
def Found (r : Registry) : Prop :=
  ∀ k urlPath id, r.Uses k urlPath id → r.websocketConnection urlPath id = some k

/-- The id of what is added is not in use, the new id of what is renamed leads to no
other connection, and the id of what goes belongs to no other. -/
def Harmless (r : Registry) (operation : Operation) (_ : Registry) : Prop :=
  match operation with
  | .add n => ∀ c, r.objects[n]? = some c → ∀ k, r.registered c.urlPath c.id = some k → k = n
  | .rename n newID => ∀ c m, r.objects[n]? = some c →
      r.websocketConnection c.urlPath c.id = some m → ∀ k, r.Uses k c.urlPath newID → k = m
  | .destroy n => ∀ c, r.objects[n]? = some c → c.urlPath ≠ [] → c.id ≠ [] →
      ∀ k, r.Uses k c.urlPath c.id → k = n
  | .create .. | .share _ | .release _ => True

/-- Entries are of connections that were added. -/
abbrev Recorded (r : Registry) : Prop := Entries (fun _ added => added = true) r

variable {urlPath id : Bytes}

theorem Uses.alive {r : Registry} (uses : r.Uses k urlPath id) : r.alive k = true := by
  obtain ⟨c, object, -, held, -⟩ := uses
  rw [Registry.alive, object, Option.any_some, ConnectionObject.alive, held]
  rfl

theorem websocketConnection_eq_some {r : Registry} :
    r.websocketConnection urlPath id = some k ↔
      r.registered urlPath id = some k ∧ r.alive k = true := by
  rw [websocketConnection, Option.filter_eq_some_iff]

/-- For what lives, an entry is enough. -/
theorem found_iff {r : Registry} :
    r.Found ↔ ∀ k urlPath id, r.Uses k urlPath id → r.registered urlPath id = some k := by
  refine forall_congr' fun k => forall_congr' fun urlPath => forall_congr' fun id =>
    forall_congr' fun uses => ?_
  rw [websocketConnection_eq_some]
  exact and_iff_left uses.alive

section Steps
variable {r t : Registry}

/-- Where the uses and the entries are the old ones. -/
theorem Found.frame (found : r.Found) (uses : ∀ k path id, t.Uses k path id → r.Uses k path id)
    (registered : ∀ path id, t.registered path id = r.registered path id) : t.Found := by
  rw [found_iff] at found ⊢
  intro k path id used
  rw [registered]
  exact found k path id (uses k path id used)

theorem uses_create {path other : Bytes} (used : (r.create urlPath id).Uses k path other) :
    r.Uses k path other := by
  obtain ⟨c, object, added, held, same⟩ := used
  rw [create, List.getElem?_append] at object
  split at object
  · exact ⟨c, object, added, held, same⟩
  · rw [List.getElem?_singleton] at object
    split at object
    · cases object
      cases added
    · cases object

theorem uses_modify {change : ConnectionObject → ConnectionObject}
    (same : ∀ c, (change c).urlPath = c.urlPath ∧ (change c).id = c.id ∧
      (change c).added = c.added ∧ (change c).holder = c.holder)
    (used : (r.modify n change).Uses k urlPath id) : r.Uses k urlPath id := by
  obtain ⟨c, object, added, held, rfl, rfl⟩ := used
  rw [objects_modify] at object
  split at object
  · obtain ⟨d, before, rfl⟩ := Option.map_eq_some_iff.mp object
    obtain ⟨samePath, sameID, sameAdded, sameHolder⟩ := same d
    exact ⟨d, before, sameAdded ▸ added, sameHolder ▸ held, samePath.symm, sameID.symm⟩
  · exact ⟨c, object, added, held, rfl, rfl⟩

theorem Added.uses {c : ConnectionObject} (added : Added r n c t) (used : t.Uses k urlPath id) :
    (k = n ∧ c.urlPath = urlPath ∧ c.id = id) ∨ r.Uses k urlPath id := by
  obtain ⟨d, object, known, held, rfl, rfl⟩ := used
  rw [added.objects, objects_modify] at object
  split at object
  · rename_i same
    subst same
    rw [added.object] at object
    cases object
    exact .inl ⟨rfl, rfl, rfl⟩
  · exact .inr ⟨d, object, known, held, rfl, rfl⟩

/-- What is added is found exactly if nothing else is in its place. -/
theorem found_add {c : ConnectionObject} (found : r.Found) (added : Added r n c t)
    (held : c.holder = .held) :
    t.Found ↔ ∀ k, r.registered c.urlPath c.id = some k → k = n := by
  rw [found_iff] at found ⊢
  have here : t.Uses n c.urlPath c.id := by
    refine ⟨{ c with added := true }, ?_, rfl, held, rfl, rfl⟩
    rw [added.objects, objects_modify, if_pos rfl, added.object, Option.map_some]
  constructor
  · intro finds k entry
    have first := finds n c.urlPath c.id here
    rw [added.registered, if_pos ⟨rfl, rfl⟩, entry] at first
    exact Option.some.inj first
  · intro free k path id used
    rw [added.registered]
    rcases added.uses used with ⟨rfl, rfl, rfl⟩ | before
    · rw [if_pos ⟨rfl, rfl⟩]
      cases entry : r.registered c.urlPath c.id with
      | none => rfl
      | some m => rw [free m entry, Option.getD_some]
    · rw [found k path id before, Option.getD_some, ite_self]

/-- A new id for a context that is gone takes the entry away, which nothing uses. -/
theorem found_rename_dead {c : ConnectionObject} (found : r.Found) (newID : Bytes)
    (entry : r.registered c.urlPath c.id = some m) (gone : r.alive m = false) :
    (r.renameWebSocketConnectionID c.urlPath c.id newID).1.Found := by
  rw [found_iff] at found ⊢
  obtain ⟨objects, registered⟩ := rename_dead newID entry gone
  intro k path id used
  rw [Uses, objects] at used
  have before := found k path id used
  rw [registered, if_neg, before]
  rintro ⟨rfl, rfl⟩
  cases entry.symm.trans before
  have lives : r.alive m = true := Uses.alive used
  rw [gone] at lives
  cases lives

theorem found_rename_alive {c : ConnectionObject} (found : r.Found) (recorded : r.Recorded)
    (newID : Bytes) (entry : r.registered c.urlPath c.id = some m) (alive : r.alive m = true) :
    (r.renameWebSocketConnectionID c.urlPath c.id newID).1.Found ↔
      ∀ k, r.Uses k c.urlPath newID → k = m := by
  rw [found_iff] at found ⊢
  obtain ⟨objects, registered⟩ := rename_alive newID entry alive
  obtain ⟨d, object, path, id, -⟩ := recorded _ _ m entry
  constructor
  · intro finds k used
    by_contra other
    obtain ⟨e, before, added, held, samePath, sameID⟩ := used
    have after := finds k c.urlPath newID ⟨e, by
      rw [objects, objects_modify, if_neg (Ne.symm other), before], added, held, samePath, sameID⟩
    rw [registered, if_pos ⟨rfl, rfl⟩] at after
    exact other (Option.some.inj after).symm
  · intro free k path' id' used
    rw [registered]
    obtain ⟨e, after, added, held, rfl, rfl⟩ := used
    rw [objects, objects_modify] at after
    split at after
    · rename_i same
      subst same
      rw [object] at after
      cases after
      rw [if_pos ⟨path.symm, rfl⟩]
    · rename_i other
      have before := found k e.urlPath e.id ⟨e, after, added, held, rfl, rfl⟩
      rw [if_neg, if_neg, before]
      · rintro ⟨samePath, sameID⟩
        rw [← samePath, ← sameID, entry] at before
        exact other (Option.some.inj before)
      · rintro ⟨samePath, sameID⟩
        exact other (free k ⟨e, after, added, held, samePath.symm, sameID.symm⟩).symm

/-- What is renamed pushes out what uses the new id. -/
theorem found_rename {c : ConnectionObject} (found : r.Found) (recorded : r.Recorded)
    (newID : Bytes) :
    (r.renameWebSocketConnectionID c.urlPath c.id newID).1.Found ↔
      ∀ m, r.websocketConnection c.urlPath c.id = some m →
        ∀ k, r.Uses k c.urlPath newID → k = m := by
  cases entry : r.registered c.urlPath c.id with
  | none =>
    rw [rename_absent newID entry]
    apply iff_of_true found
    intro m connection
    rw [websocketConnection, entry] at connection
    cases connection
  | some m =>
    cases alive : r.alive m with
    | false =>
      apply iff_of_true (found_rename_dead found newID entry alive)
      intro other connection
      obtain ⟨again, lives⟩ := websocketConnection_eq_some.mp connection
      cases entry.symm.trans again
      rw [alive] at lives
      cases lives
    | true =>
      rw [found_rename_alive found recorded newID entry alive,
        websocketConnection_eq_some.mpr ⟨entry, alive⟩]
      constructor
      · intro free p same
        cases same
        exact free
      · exact fun free => free m rfl

/-- What goes takes the entry of what uses its id. -/
theorem found_destroy {c : ConnectionObject} (found : r.Found) (destroyed : Destroyed r n c t) :
    t.Found ↔ (c.urlPath ≠ [] → c.id ≠ [] → ∀ k, r.Uses k c.urlPath c.id → k = n) := by
  rw [found_iff] at found ⊢
  constructor
  · intro finds path id k used
    by_contra other
    obtain ⟨e, before, added, held, samePath, sameID⟩ := used
    have after := finds k c.urlPath c.id ⟨e, by
      rw [destroyed.objects, if_neg (Ne.symm other), before], added, held, samePath, sameID⟩
    rw [destroyed.registered, if_pos ⟨⟨path, id⟩, rfl, rfl⟩] at after
    cases after
  · intro free k path id used
    obtain ⟨e, after, added, held, rfl, rfl⟩ := used
    rw [destroyed.objects] at after
    split at after
    · cases after
      cases held
    · rename_i other
      have uses : r.Uses k e.urlPath e.id := ⟨e, after, added, held, rfl, rfl⟩
      rw [destroyed.registered, if_neg, found k _ _ uses]
      rintro ⟨⟨path, id⟩, samePath, sameID⟩
      rw [← samePath, ← sameID] at uses
      exact other (free path id k uses).symm

end Steps

theorem Found.others {r : Registry} (found : r.Found) (n : Nat) (change : Nat → Nat) :
    (r.modify n fun c => { c with others := change c.others }).Found := by
  refine found.frame (fun k path id used => ?_) fun _ _ => rfl
  refine uses_modify ?_ used
  intro c
  exact ⟨rfl, rfl, rfl, rfl⟩

theorem operate_recorded {r t : Registry} (recorded : r.Recorded)
    (operated : r.operate ndebug operation = some t) : t.Recorded := by
  cases operation with
  | create urlPath id =>
    cases operated
    exact recorded.create urlPath id
  | add n =>
    rw [operate] at operated
    split at operated
    · obtain ⟨c, added⟩ := add_cases operated
      exact recorded.add added rfl fun _ => rfl
    · cases operated
  | rename n newID =>
    obtain ⟨c, -, renamed⟩ := Option.bind_eq_some_iff.mp operated
    split at renamed
    · cases renamed
      exact recorded.rename c.urlPath c.id newID
    · cases renamed
  | destroy n =>
    obtain ⟨c, destroyed⟩ := destroy_cases operated
    refine recorded.transfer (fun path id k found => ?_) fun k d object _ known => ?_
    · rw [destroyed.registered] at found
      split at found
      · cases found
      · exact found
    · rw [destroyed.objects]
      split
      · rename_i same
        subst same
        cases destroyed.object.symm.trans object
        exact ⟨_, rfl, rfl, rfl, known⟩
      · exact ⟨d, object, rfl, rfl, known⟩
  | share n =>
    rw [operate, share] at operated
    split at operated
    · cases operated
      exact recorded.modify (fun _ => ⟨rfl, rfl⟩) fun _ _ _ known => known
    · cases operated
  | release n =>
    obtain ⟨c, -, released⟩ := Option.bind_eq_some_iff.mp operated
    split at released
    · cases released
      exact recorded.modify (fun _ => ⟨rfl, rfl⟩) fun _ _ _ known => known
    · cases released

theorem operate_found {r t : Registry} (recorded : r.Recorded) (found : r.Found)
    (operated : r.operate ndebug operation = some t) : t.Found ↔ Harmless r operation t := by
  cases operation with
  | create urlPath id =>
    cases operated
    exact iff_of_true (found.frame (fun _ _ _ used => uses_create used) fun _ _ => rfl) trivial
  | add n =>
    rw [operate] at operated
    split at operated
    · rename_i held
      obtain ⟨c, added⟩ := add_cases operated
      rw [added.object, Option.any_some, decide_eq_true_iff] at held
      rw [found_add found added held, Harmless, added.object]
      simp
    · cases operated
  | rename n newID =>
    obtain ⟨c, object, renamed⟩ := Option.bind_eq_some_iff.mp operated
    split at renamed
    · cases renamed
      rw [found_rename found recorded, Harmless, object]
      constructor
      · intro free d m same
        cases same
        exact free m
      · intro free m
        exact free c m rfl
    · cases renamed
  | destroy n =>
    obtain ⟨c, destroyed⟩ := destroy_cases operated
    rw [found_destroy found destroyed, Harmless, destroyed.object]
    simp
  | share n =>
    rw [operate, share] at operated
    split at operated
    · cases operated
      exact iff_of_true (found.others n (· + 1)) trivial
    · cases operated
  | release n =>
    obtain ⟨c, -, released⟩ := Option.bind_eq_some_iff.mp operated
    split at released
    · cases released
      exact iff_of_true (found.others n (· - 1)) trivial
    · cases released

/-- Connections are found in every state of a run exactly if all its operations are
harmless. -/
theorem found_throughout_iff (ndebug : Bool) (operations : List Operation) :
    Transition.Throughout (operate ndebug) Found {} operations ↔
      Transition.Steps (operate ndebug) Harmless {} operations := by
  refine Transition.throughout_iff_steps (I := fun r => r.Recorded ∧ r.Found) ?_ ?_ ?_ ?_
  · intro r operation t known operated harmless
    exact ⟨operate_recorded known.1 operated, (operate_found known.1 known.2 operated).mpr harmless⟩
  · intro r operation t known operated found
    exact (operate_found known.1 known.2 operated).mp found
  · intro r known
    exact known.2
  · refine ⟨entries_initial _, fun k urlPath id uses => ?_⟩
    obtain ⟨c, object, -⟩ := uses
    cases object

/-- Two connections of a path; the second takes the id of the first. -/
def takenOver : List Operation :=
  [.create [47] [97], .add 0, .create [47] [98], .add 1, .rename 1 [97]]

/-- The first one is not found any more. -/
theorem takenOver_unfound : ¬Transition.Throughout (operate false) Found {} takenOver := by
  intro throughout
  obtain ⟨t, ran, lost⟩ : ∃ t, Transition.run (operate false) {} takenOver = some t ∧
      t.Uses 0 [47] [97] ∧ t.websocketConnection [47] [97] = some 1 :=
    ⟨_, rfl, ⟨_, rfl, rfl, rfl, rfl, rfl⟩, rfl⟩
  have found := throughout.final ran 0 _ _ lost.1
  cases lost.2.symm.trans found

end Da4qi4.Websocket.Registry
