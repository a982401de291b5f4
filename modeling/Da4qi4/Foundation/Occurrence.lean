import Mathlib.Data.List.Infix

/-! Where one list occurs first in another one. A list that begins with none of its own
ends does not overlap with itself, so that it can be put behind a list without occurring
earlier than it did. -/
namespace Occurrence
variable {α : Type}

/-- The first occurrence of `s` has this in front of it and that behind. -/
structure FirstAt (s l front back : List α) : Prop where
  split : l = front ++ (s ++ back)
  first : ∀ f b, l = f ++ (s ++ b) → front.length ≤ f.length

theorem FirstAt.unique {s l front back f b : List α} (here : FirstAt s l front back)
    (there : FirstAt s l f b) : front = f ∧ back = b := by
  have length := le_antisymm (here.first f b there.split) (there.first front back here.split)
  obtain ⟨same, rest⟩ := List.append_inj (here.split.symm.trans there.split) length
  exact ⟨same, List.append_cancel_left rest⟩

theorem FirstAt.behind {s l front back : List α} (here : FirstAt s l front back) :
    l.drop (front.length + s.length) = back := by
  rw [here.split, ← List.append_assoc]
  exact List.drop_left' List.length_append

theorem exists_firstAt {s l : List α} (occurs : s <:+: l) : ∃ front back, FirstAt s l front back := by
  obtain ⟨f, b, same⟩ := occurs
  rw [List.append_assoc] at same
  generalize long : f.length = n
  induction n using Nat.strongRecOn generalizing f b with
  | ind n ih =>
    by_cases earlier : ∃ g c, l = g ++ (s ++ c) ∧ g.length < n
    · obtain ⟨g, c, other, less⟩ := earlier
      exact ih g.length less g c other.symm rfl
    · refine ⟨f, b, same.symm, ?_⟩
      intro g c other
      rw [long]
      exact not_lt.mp fun less => earlier ⟨g, c, other, less⟩

/-- None of its ends begins it. -/
def Unbordered (s : List α) : Prop := ∀ k, 0 < k → k < s.length → ¬s.drop k <+: s

instance [DecidableEq α] (s : List α) : Decidable (Unbordered s) :=
  decidable_of_iff (∀ k < s.length, 0 < k → ¬s.drop k <+: s)
    ⟨fun all k positive less => all k less positive, fun all k less positive => all k positive less⟩

theorem firstAt_append {s front : List α} (unbordered : Unbordered s) (absent : ¬s <:+: front)
    (back : List α) : FirstAt s (front ++ (s ++ back)) front back := by
  refine ⟨rfl, ?_⟩
  intro f b same
  by_contra earlier
  -- what is left of the front begins the occurrence
  obtain ⟨rest, rfl⟩ : f <+: front :=
    List.prefix_of_prefix_length_le ⟨s ++ b, same.symm⟩ (List.prefix_append _ _)
      (not_le.mp earlier).le
  rw [List.append_assoc, List.append_cancel_left_eq] at same
  have positive : 0 < rest.length := by
    rw [List.length_append] at earlier
    omega
  by_cases whole : s.length ≤ rest.length
  · have begins : s <+: rest :=
      List.prefix_of_prefix_length_le ⟨b, rfl⟩ ⟨s ++ back, same⟩ whole
    obtain ⟨tail, rfl⟩ := begins
    exact absent ⟨f, tail, by rw [List.append_assoc]⟩
  · have begins : rest <+: s :=
      List.prefix_of_prefix_length_le ⟨s ++ back, same⟩ ⟨b, rfl⟩ (not_le.mp whole).le
    obtain ⟨tail, rest_⟩ := begins
    apply unbordered rest.length positive (not_le.mp whole)
    have dropped : s.drop rest.length = tail := by rw [← rest_, List.drop_left]
    rw [dropped]
    have tails : s ++ back = tail ++ b := by
      have both : rest ++ (s ++ back) = rest ++ (tail ++ b) := by
        rw [← List.append_assoc rest tail, rest_]
        exact same
      exact List.append_cancel_left both
    refine List.prefix_of_prefix_length_le ⟨b, tails.symm⟩ ⟨back, rfl⟩ ?_
    rw [← rest_, List.length_append]
    omega

end Occurrence
