import Mathlib.Data.List.Induction
import Mathlib.Tactic.Ring

/-! Octet strings: numbers in network order, object memory that block copies
fill, and keystreams combined with exclusive or. Nothing here depends on a
particular format. -/

abbrev Bytes := List UInt8

namespace Bytes

/-- The octets of an ASCII text. -/
def ofAscii (text : String) : Bytes := text.toList.map fun c => c.toNat.toUInt8

/-- Texts are compared by the numbers of their octets. -/
theorem octets_inj {l r : Bytes} : l.map UInt8.toNat = r.map UInt8.toNat ↔ l = r :=
  List.map_inj_right fun _ _ => UInt8.toNat_inj.mp

/-- Reads an unsigned number, most significant octet first. -/
def bigEndian (bytes : Bytes) : Nat :=
  bytes.foldl (fun value octet => value <<< 8 ||| octet.toNat) 0

/-- The `width` low octets of a number, most significant first. -/
def ofBigEndian : Nat → Nat → Bytes
  | 0, _ => []
  | width + 1, value => (value >>> (8 * width)).toUInt8 :: ofBigEndian width value

@[simp] theorem ofBigEndian_length (width value : Nat) :
    (ofBigEndian width value).length = width := by
  induction width with
  | zero => rfl
  | succ width ih => simp [ofBigEndian, ih]

theorem shift_or_octet (value : Nat) (octet : UInt8) :
    value <<< 8 ||| octet.toNat = value * 256 + octet.toNat := by
  have small : octet.toNat < 2 ^ 8 := octet.toNat_lt
  rw [← Nat.shiftLeft_add_eq_or_of_lt small, Nat.shiftLeft_eq]

theorem foldl_ofBigEndian (width value start : Nat) :
    (ofBigEndian width value).foldl (fun n octet => n <<< 8 ||| octet.toNat) start =
      start * 256 ^ width + value % 256 ^ width := by
  induction width generalizing start with
  | zero => simp [ofBigEndian, Nat.mod_one]
  | succ width ih =>
    have octet : (value >>> (8 * width)).toUInt8.toNat = value / 256 ^ width % 256 := by
      have power : 2 ^ (8 * width) = 256 ^ width := by rw [Nat.pow_mul]
      simp [Nat.shiftRight_eq_div_pow, power]
    have split : value % 256 ^ (width + 1) =
        value % 256 ^ width + 256 ^ width * (value / 256 ^ width % 256) := by
      rw [Nat.pow_succ, Nat.mod_mul]
    rw [ofBigEndian, List.foldl_cons, ih, shift_or_octet, octet, split, Nat.pow_succ]
    ring

/-- No representable number is truncated on the way through its octets. -/
theorem bigEndian_ofBigEndian {width value : Nat} (fits : value < 256 ^ width) :
    bigEndian (ofBigEndian width value) = value := by
  rw [bigEndian, foldl_ofBigEndian, Nat.mod_eq_of_lt fits]
  simp

/-- Combines data with the keystream `key start, key (start + 1), ...`. -/
def xorFrom (key : Nat → UInt8) : Nat → Bytes → Bytes
  | _, [] => []
  | start, octet :: rest => (octet ^^^ key start) :: xorFrom key (start + 1) rest

@[simp] theorem xorFrom_length (key : Nat → UInt8) (start : Nat) (data : Bytes) :
    (xorFrom key start data).length = data.length := by
  induction data generalizing start with
  | nil => rfl
  | cons octet rest ih => simp [xorFrom, ih]

theorem xorFrom_append (key : Nat → UInt8) (start : Nat) (first second : Bytes) :
    xorFrom key start (first ++ second) =
      xorFrom key start first ++ xorFrom key (start + first.length) second := by
  induction first generalizing start with
  | nil => rfl
  | cons octet rest ih =>
    have shifted : start + 1 + rest.length = start + (rest.length + 1) := by omega
    simp only [List.cons_append, xorFrom, ih, List.length_cons, shifted]

/-- The keystream is its own inverse. -/
theorem xorFrom_xorFrom (key : Nat → UInt8) (start : Nat) (data : Bytes) :
    xorFrom key start (xorFrom key start data) = data := by
  induction data generalizing start with
  | nil => rfl
  | cons octet rest ih =>
    rw [xorFrom, xorFrom, ih, UInt8.xor_assoc, UInt8.xor_self, UInt8.xor_zero]

end Bytes

/-- The memory of a scalar object, in address order. -/
structure Memory (size : Nat) where
  bytes : Bytes
  fits : bytes.length = size
  deriving DecidableEq

namespace Memory
variable {size : Nat}

def zero (size : Nat) : Memory size := ⟨List.replicate size 0, List.length_replicate⟩

@[ext] theorem ext {m n : Memory size} (same : m.bytes = n.bytes) : m = n := by
  cases m
  cases n
  simp_all

def store (m : Memory size) (address : Nat) (octet : UInt8) : Memory size :=
  ⟨m.bytes.set address octet, by rw [List.length_set, m.fits]⟩

def load (m : Memory size) (address : Nat) : UInt8 := m.bytes.getD address 0

/-- A block copy into the object, starting at `address`. Octets past the end
of the object are not stored. -/
def copy (m : Memory size) (address : Nat) : Bytes → Memory size
  | [] => m
  | octet :: rest => (m.store address octet).copy (address + 1) rest

theorem copy_append (m : Memory size) (address : Nat) (first second : Bytes) :
    m.copy address (first ++ second) =
      (m.copy address first).copy (address + first.length) second := by
  induction first generalizing m address with
  | nil => rfl
  | cons octet rest ih =>
    have shifted : address + 1 + rest.length = address + (rest.length + 1) := by omega
    simp only [List.cons_append, copy, ih, List.length_cons, shifted]

theorem copy_bytes_of_le (m : Memory size) (address : Nat) (block : Bytes)
    (room : address + block.length ≤ size) :
    (m.copy address block).bytes =
      m.bytes.take address ++ block ++ m.bytes.drop (address + block.length) := by
  induction block generalizing m address with
  | nil => simp [copy]
  | cons octet rest ih =>
    simp only [List.length_cons] at room
    have inside : address < m.bytes.length := by rw [m.fits]; omega
    have shifted : address + 1 + rest.length = address + (rest.length + 1) := by omega
    rw [copy, ih _ _ (by omega), shifted]
    have head :
        (m.bytes.set address octet).take (address + 1) = m.bytes.take address ++ [octet] := by
      rw [List.take_add_one, List.take_set_of_le (Nat.le_refl _)]
      simp [inside]
    have tail : (m.bytes.set address octet).drop (address + (rest.length + 1)) =
        m.bytes.drop (address + (rest.length + 1)) := by
      rw [List.drop_set_of_lt (by omega)]
    simp only [store, head, tail, List.length_cons, List.append_assoc, List.singleton_append]

/-- A block as long as the object replaces everything it held. -/
theorem copy_all (m : Memory size) (block : Bytes) (full : block.length = size) :
    (m.copy 0 block).bytes = block := by
  rw [copy_bytes_of_le m 0 block (by omega)]
  simp [full, ← m.fits]

end Memory
