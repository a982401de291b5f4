import Mathlib.Data.List.TakeDrop
import Mathlib.Data.Vector.Basic

/-! Lists cut into blocks of one size. The last block is filled up where the list
ends within it. -/
namespace Blocks
variable {α : Type} {n : Nat} {filler : α}

/-- The first elements, with the filler behind them where there are fewer. -/
def front (n : Nat) (filler : α) (l : List α) : List.Vector α n :=
  ⟨l.takeD n filler, List.takeD_length n l filler⟩

def blocks (n : Nat) (filler : α) (l : List α) : List (List.Vector α n) :=
  (List.range (l.length / n)).map (fun i => front n filler (l.drop (i * n))) ++
    if l.length % n ≠ 0 then [front n filler (l.drop (l.length / n * n))] else []

theorem blocks_nil : blocks n filler [] = [] := by simp [blocks]

theorem blocks_short (some_ : l ≠ []) (short : l.length < n) :
    blocks n filler l = [front n filler l] := by
  have none : l.length / n = 0 := Nat.div_eq_of_lt short
  have remains : l.length % n ≠ 0 := by
    rw [Nat.mod_eq_of_lt short]
    exact (List.length_pos_iff.mpr some_).ne'
  simp [blocks, none, remains]

theorem front_append (b : List.Vector α n) (rest : List α) :
    front n filler (b.toList ++ rest) = b :=
  Subtype.ext (List.takeD_left' b.toList_length)

theorem blocks_append (positive : 0 < n) (b : List.Vector α n) (rest : List α) :
    blocks n filler (b.toList ++ rest) = b :: blocks n filler rest := by
  have size : (b.toList ++ rest).length = n + rest.length := by simp
  have behind (i : Nat) : (b.toList ++ rest).drop ((i + 1) * n) = rest.drop (i * n) := by
    have skip : (i + 1) * n = b.toList.length + i * n := by
      rw [b.toList_length, Nat.succ_mul, Nat.add_comm]
    rw [skip, List.drop_length_add_append]
  rw [blocks, size, Nat.add_div_left _ positive, Nat.add_mod_left, List.range_succ_eq_map,
    List.map_cons, List.map_map, Nat.zero_mul, List.drop_zero, front_append, behind,
    List.cons_append, blocks]
  congr 3
  funext i
  exact congrArg (front n filler) (behind i)

/-- Blocks that are joined are the blocks of the whole. -/
theorem blocks_joined (positive : 0 < n) (bs : List (List.Vector α n)) :
    blocks n filler (bs.flatMap List.Vector.toList) = bs := by
  induction bs with
  | nil => exact blocks_nil
  | cons b bs ih => rw [List.flatMap_cons, blocks_append positive, ih]

/-- A list is a block and a list, or is shorter than a block. -/
theorem induction {P : List α → Prop} (positive : 0 < n) (nil : P [])
    (short : ∀ l, l ≠ [] → l.length < n → P l)
    (block : ∀ (b : List.Vector α n) rest, P rest → P (b.toList ++ rest)) (l : List α) : P l := by
  generalize size : l.length = k
  induction k using Nat.strongRecOn generalizing l with
  | ind k ih =>
    by_cases within : l.length < n
    · by_cases empty : l = []
      · rw [empty]
        exact nil
      · exact short l empty within
    · have whole : (l.take n).length = n := by
        rw [List.length_take]
        omega
      have rest := ih (l.drop n).length (by rw [List.length_drop]; omega) (l.drop n) rfl
      rw [← List.take_append_drop n l]
      exact block ⟨l.take n, whole⟩ (l.drop n) rest

end Blocks
