import Mathlib.Data.List.TakeWhile

/-! Lists cut at the first occurrence of a separator, beside lists that are split at
every one. -/
namespace FirstSplit
variable {α : Type} [BEq α] [LawfulBEq α] {sep : α}

/-- What stands in front of the first separator, and what stands behind it. -/
def cut (sep : α) : List α → Option (List α × List α)
  | [] => none
  | c :: rest =>
    if c == sep then some ([], rest)
    else (cut sep rest).map fun parts => (c :: parts.1, parts.2)

theorem cut_append (free : sep ∉ front) (back : List α) :
    cut sep (front ++ sep :: back) = some (front, back) := by
  induction front with
  | nil => simp [cut]
  | cons c front ih =>
    obtain ⟨here, later⟩ := not_or.mp (mt List.mem_cons.mpr free)
    simp [cut, ih later, Ne.symm here]

theorem cut_of_not_mem (free : sep ∉ l) : cut sep l = none := by
  induction l with
  | nil => rfl
  | cons c l ih =>
    obtain ⟨here, later⟩ := not_or.mp (mt List.mem_cons.mpr free)
    simp [cut, ih later, Ne.symm here]

/-- A list has no separator, or a first one. -/
theorem cut_cases (sep : α) (l : List α) :
    (sep ∉ l ∧ cut sep l = none) ∨
      ∃ front back, sep ∉ front ∧ l = front ++ sep :: back ∧ cut sep l = some (front, back) := by
  by_cases there : sep ∈ l
  · obtain ⟨front, back, rfl, free⟩ := List.eq_append_cons_of_mem there
    exact .inr ⟨front, back, free, rfl, cut_append free back⟩
  · exact .inl ⟨there, cut_of_not_mem there⟩

/-- A separator that occurs once is in one place. -/
theorem append_cons_inj {front back front' back' : List α} (free : sep ∉ front')
    (freeBehind : sep ∉ back') (same : front ++ sep :: back = front' ++ sep :: back') :
    front = front' ∧ back = back' := by
  have counted := congrArg (List.count sep) same
  simp only [List.count_append, List.count_cons_self, List.count_eq_zero.mpr free,
    List.count_eq_zero.mpr freeBehind] at counted
  have first : sep ∉ front := List.count_eq_zero.mp (by omega)
  have cut := cut_append first back
  rw [same, cut_append free] at cut
  cases cut
  exact ⟨rfl, rfl⟩

theorem takeWhile_append (free : sep ∉ front) (back : List α) :
    (front ++ sep :: back).takeWhile (· != sep) = front := by
  have others : ∀ c ∈ front, (c != sep) = true := by
    intro c member
    exact bne_iff_ne.mpr fun same => free (same ▸ member)
  simp [List.takeWhile_append_of_pos others]

theorem takeWhile_eq_self_iff (sep : α) (l : List α) :
    l.takeWhile (· != sep) = l ↔ sep ∉ l := by
  rw [List.takeWhile_eq_self_iff]
  constructor
  · intro others there
    exact bne_iff_ne.mp (others sep there) rfl
  · intro free c member
    exact bne_iff_ne.mpr fun same => free (same ▸ member)

/-- The first piece of a split list ends at the first separator. -/
theorem head?_splitOn (sep : α) (l : List α) :
    (l.splitOn sep).head? = some (l.takeWhile (· != sep)) := by
  rcases cut_cases sep l with ⟨free, -⟩ | ⟨front, back, free, rfl, -⟩
  · rw [List.splitOn_eq_singleton free, (takeWhile_eq_self_iff sep l).mpr free]
    rfl
  · rw [List.splitOn_append_cons_self_of_not_mem free, takeWhile_append free]
    rfl

omit [BEq α] [LawfulBEq α] in
/-- A separator of two parts, the second of which goes to the pieces. -/
theorem intercalate_pair (sep mark : α) (first : List α) (rest : List (List α)) :
    [sep, mark].intercalate (first :: rest) =
      [sep].intercalate (first :: rest.map (mark :: ·)) := by
  induction rest generalizing first with
  | nil => simp
  | cons second rest ih =>
    have later := ih second
    cases rest with
    | nil => simp [List.intercalate]
    | cons third rest =>
      simp [List.intercalate, List.intersperse] at later ⊢
      exact later

end FirstSplit
