import Da4qi4.Foundation.Blocks
import Da4qi4.Foundation.Bytes
import Mathlib.Data.List.TakeWhile

/-! Texts that are encrypted block by block. A text that does not end with a block is
filled up with zeros; what is decrypted is cut in every block where it has a zero. -/
namespace Da4qi4.Utilities
open Blocks

abbrev Block := List.Vector UInt8 8

inductive Direction where
  | encrypt | decrypt
  deriving DecidableEq, Repr

/-- The block cipher. -/
structure Des where
  KeySchedule : Type
  setKeyUnchecked : Block → KeySchedule
  ecbEncrypt : Block → KeySchedule → Direction → Block

/-- A block is decrypted to what was encrypted. -/
def Des.Inverts (des : Des) : Prop :=
  ∀ block schedule, des.ecbEncrypt (des.ecbEncrypt block schedule .encrypt) schedule .decrypt = block

namespace Des

/-- Eight octets of the key, or fewer with zeros behind them. -/
def schedule (des : Des) (key : Bytes) : des.KeySchedule := des.setKeyUnchecked (front 8 0 key)

/-- `DESEncrypt`. -/
def desEncrypt (des : Des) (clearText key : Bytes) : Bytes :=
  (blocks 8 0 clearText).flatMap fun inputText =>
    (des.ecbEncrypt inputText (des.schedule key) .encrypt).toList

/-- `DESDecrypt`: of each block, what is in front of the first zero. -/
def desDecrypt (des : Des) (cipherText key : Bytes) : Bytes :=
  (blocks 8 0 cipherText).flatMap fun inputText =>
    (des.ecbEncrypt inputText (des.schedule key) .decrypt).toList.takeWhile (· ≠ 0)

/-- What comes back of a text, whatever the key is. -/
theorem desDecrypt_desEncrypt {des : Des} (inverts : des.Inverts) (s key : Bytes) :
    des.desDecrypt (des.desEncrypt s key) key =
      (blocks 8 0 s).flatMap fun block => block.toList.takeWhile (· ≠ 0) := by
  have encrypted : des.desEncrypt s key =
      ((blocks 8 0 s).map fun block => des.ecbEncrypt block (des.schedule key) .encrypt).flatMap
        List.Vector.toList := by
    rw [List.flatMap_map]
    rfl
  rw [desDecrypt, encrypted, blocks_joined (by decide), List.flatMap_map]
  simp only [inverts _ _]

theorem takeWhile_nonzero {l : Bytes} (free : 0 ∉ l) : l.takeWhile (· ≠ 0) = l := by
  rw [List.takeWhile_eq_self_iff]
  intro c member
  exact decide_eq_true fun zero => free (zero ▸ member)

/-- The zeros behind a text that is shorter than a block are cut off again. -/
theorem takeWhile_front {s : Bytes} (short : s.length < 8) (free : 0 ∉ s) :
    (front 8 0 s).toList.takeWhile (· ≠ 0) = s := by
  have filled : (front 8 0 s).toList = s ++ List.replicate (8 - s.length) 0 := by
    change s.takeD 8 0 = _
    have whole : s.takeD (s.length + (8 - s.length)) 0 = s ++ List.replicate (8 - s.length) 0 := by
      generalize 8 - s.length = n
      clear short free
      induction s with
      | nil => simp
      | cons c s ih => simp [Nat.succ_add, ih]
    rw [← whole]
    congr 1
    omega
  have zeros : (List.replicate (8 - s.length) (0 : UInt8)).takeWhile (· ≠ 0) = [] := by
    cases 8 - s.length with
    | zero => rfl
    | succ n => rfl
  rw [filled, List.takeWhile_append_of_pos, zeros, List.append_nil]
  intro c member
  exact decide_eq_true fun zero => free (zero ▸ member)

/-- Nothing is cut off from a text without zeros. -/
theorem blocks_cut {s : Bytes} (free : 0 ∉ s) :
    ((blocks 8 0 s).flatMap fun block => block.toList.takeWhile (· ≠ 0)) = s := by
  revert free
  induction s using Blocks.induction (n := 8) (by decide) with
  | nil =>
    intro _
    rfl
  | short s some_ short =>
    intro free
    rw [blocks_short some_ short, List.flatMap_singleton, takeWhile_front short free]
  | block b rest ih =>
    intro free
    obtain ⟨inside, behind⟩ := not_or.mp (mt List.mem_append.mpr free)
    rw [blocks_append (by decide), List.flatMap_cons, takeWhile_nonzero inside, ih behind]

/-- A text comes back exactly if it has no zero in it. -/
theorem roundTrip_iff (des : Des) (inverts : des.Inverts) (s key : Bytes) :
    des.desDecrypt (des.desEncrypt s key) key = s ↔ 0 ∉ s := by
  rw [desDecrypt_desEncrypt inverts]
  constructor
  · intro same zero
    rw [← same] at zero
    obtain ⟨block, -, inside⟩ := List.mem_flatMap.mp zero
    exact absurd (List.mem_takeWhile_imp inside) (by decide)
  · exact blocks_cut

/-- The block `Now is t`. -/
def nowIsT : Block := ⟨Bytes.ofAscii "Now is t", rfl⟩

/-- What it is encrypted to under the key `0123456789abcdef`, in hexadecimal digits. -/
def nowIsTEncrypted : Block := ⟨[63, 164, 14, 138, 152, 77, 72, 21], rfl⟩

def nowIsTKey : Bytes := [1, 35, 69, 103, 137, 171, 205, 239]

/-- A cipher that does the same as DES to this block, in both directions. -/
def swapping : Des where
  KeySchedule := Block
  setKeyUnchecked := id
  ecbEncrypt block _ _ :=
    if block = nowIsT then nowIsTEncrypted else if block = nowIsTEncrypted then nowIsT else block

theorem swapping_inverts : swapping.Inverts := by
  intro block _
  simp only [swapping]
  by_cases clear : block = nowIsT
  · rw [if_pos clear, if_neg (by decide), if_pos rfl, clear]
  · by_cases cipher : block = nowIsTEncrypted
    · rw [if_neg clear, if_pos cipher, if_pos rfl, cipher]
    · simp only [if_neg clear, if_neg cipher]

theorem roundTrip_iff_nowIsT :
    swapping.desDecrypt (swapping.desEncrypt (Bytes.ofAscii "Now is t") nowIsTKey) nowIsTKey =
      Bytes.ofAscii "Now is t" :=
  (roundTrip_iff swapping swapping_inverts _ _).mpr (by decide)

/-- Of `a`, a zero and `b`, only the `a` comes back. -/
theorem zero_cuts :
    swapping.desDecrypt (swapping.desEncrypt [97, 0, 98] nowIsTKey) nowIsTKey = [97] ∧
      swapping.desDecrypt (swapping.desEncrypt [97, 0, 98] nowIsTKey) nowIsTKey ≠ [97, 0, 98] := by
  rw [desDecrypt_desEncrypt swapping_inverts]
  decide

end Des
end Da4qi4.Utilities
