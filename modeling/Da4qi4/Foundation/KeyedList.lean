import Mathlib.Data.List.Nodup

/-! Lists of values that have keys, updated in place: what is searched for is a key,
and the first value that has it is changed. Nothing keeps a change from giving a value
another key, so that the values of a key stay few is a result and not a type. -/
namespace KeyedList
variable {V K : Type} {key : V → K}

/-- No key has two values. -/
def Unique (key : V → K) (values : List V) : Prop := (values.map key).Nodup

/-- Behind a value nothing has its key. -/
theorem Unique.behind (unique : Unique key (front ++ v :: back)) (later : u ∈ back) :
    key u ≠ key v := by
  rw [Unique, List.map_append, List.map_cons] at unique
  have here := (List.nodup_cons.mp (List.nodup_append.mp unique).2.1).1
  intro same
  exact here (same ▸ List.mem_map_of_mem later)

section Updates
variable [DecidableEq K]

/-- The first value of a key is changed; without one, a new value is put at the end. -/
def update (key : V → K) (k : K) (change : V → V) (new : V) : List V → List V
  | [] => [new]
  | v :: values =>
    if key v = k then change v :: values else v :: update key k change new values

/-- The values of other keys, in their order. -/
def others (key : V → K) (k : K) (values : List V) : List V :=
  values.filter fun v => decide (key v ≠ k)

theorem update_absent {change : V → V} {new : V} (absent : ∀ v ∈ values, key v ≠ k) :
    update key k change new values = values ++ [new] := by
  induction values with
  | nil => rfl
  | cons v values ih =>
    obtain ⟨here, later⟩ := List.forall_mem_cons.mp absent
    rw [update, if_neg here, ih later]
    rfl

theorem update_front {change : V → V} {new : V} (absent : ∀ u ∈ front, key u ≠ k)
    (present : key v = k) :
    update key k change new (front ++ v :: back) = front ++ change v :: back := by
  induction front with
  | nil => exact if_pos present
  | cons u front ih =>
    obtain ⟨here, later⟩ := List.forall_mem_cons.mp absent
    rw [List.cons_append, update, if_neg here, ih later]
    rfl

/-- Where the first value of a key stands. -/
theorem absent_or_front (key : V → K) (k : K) (values : List V) :
    (∀ v ∈ values, key v ≠ k) ∨
      ∃ front v back, values = front ++ v :: back ∧ key v = k ∧ ∀ u ∈ front, key u ≠ k := by
  induction values with
  | nil =>
    apply Or.inl
    intro v member
    cases member
  | cons v values ih =>
    by_cases here : key v = k
    · refine .inr ⟨[], v, values, rfl, here, ?_⟩
      intro u member
      cases member
    · rcases ih with absent | ⟨front, u, back, rfl, found, before⟩
      · exact .inl (List.forall_mem_cons.mpr ⟨here, absent⟩)
      · exact .inr ⟨v :: front, u, back, rfl, found, List.forall_mem_cons.mpr ⟨here, before⟩⟩

theorem update_unique {change : V → V} {new : V} (unique : Unique key values)
    (newKey : key new = k) (keeps : ∀ v ∈ values, key v = k → key (change v) = k) :
    Unique key (update key k change new values) := by
  rcases absent_or_front key k values with absent | ⟨front, v, back, rfl, found, before⟩
  · rw [update_absent absent, Unique, List.map_append, List.map_singleton, newKey]
    refine List.Nodup.append unique (List.nodup_singleton k) ?_
    intro used member single
    rw [List.mem_singleton.mp single] at member
    obtain ⟨v, known, same⟩ := List.mem_map.mp member
    exact absent v known same
  · have kept := keeps v (List.mem_append_right _ List.mem_cons_self) found
    rw [update_front before found, Unique, List.map_append, List.map_cons, kept, ← found]
    rw [Unique, List.map_append, List.map_cons] at unique
    exact unique

theorem update_others {change : V → V} {new : V} (newKey : key new = k)
    (keeps : ∀ v ∈ values, key v = k → key (change v) = k) :
    others key k (update key k change new values) = others key k values := by
  rcases absent_or_front key k values with absent | ⟨front, v, back, rfl, found, before⟩
  · rw [update_absent absent, others, List.filter_append,
      List.filter_cons_of_neg (by simp [newKey]), List.filter_nil, List.append_nil]
    rfl
  · have kept := keeps v (List.mem_append_right _ List.mem_cons_self) found
    rw [update_front before found, others, List.filter_append,
      List.filter_cons_of_neg (by simp [kept]), others, List.filter_append,
      List.filter_cons_of_neg (by simp [found])]

end Updates
end KeyedList
