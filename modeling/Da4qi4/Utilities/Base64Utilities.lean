import Da4qi4.Foundation.Bytes

/-! Octets in letters, three of them in four. The room for what is decoded is measured in
whole groups of four: a text without padding may need more of it than there is. -/
namespace Da4qi4.Utilities.Base64

def getAlphabet : Bytes :=
  Bytes.ofAscii "ABCDEFGHIJKLMNOPQRSTUVWXYZabcdefghijklmnopqrstuvwxyz0123456789+/"

def getInverse : List Int :=
  [-1, -1, -1, -1, -1, -1, -1, -1, -1, -1, -1, -1, -1, -1, -1, -1,
    -1, -1, -1, -1, -1, -1, -1, -1, -1, -1, -1, -1, -1, -1, -1, -1,
    -1, -1, -1, -1, -1, -1, -1, -1, -1, -1, -1, 62, -1, -1, -1, 63,
    52, 53, 54, 55, 56, 57, 58, 59, 60, 61, -1, -1, -1, -1, -1, -1,
    -1, 0, 1, 2, 3, 4, 5, 6, 7, 8, 9, 10, 11, 12, 13, 14,
    15, 16, 17, 18, 19, 20, 21, 22, 23, 24, 25, -1, -1, -1, -1, -1,
    -1, 26, 27, 28, 29, 30, 31, 32, 33, 34, 35, 36, 37, 38, 39, 40,
    41, 42, 43, 44, 45, 46, 47, 48, 49, 50, 51, -1, -1, -1, -1, -1] ++ List.replicate 128 (-1)

def encodedSize (n : Nat) : Nat := 4 * ((n + 2) / 3)

def decodedSize (n : Nat) : Nat := n / 4 * 3

def pad : UInt8 := 61

def tab (i : UInt8) : UInt8 := getAlphabet.getD i.toNat 0

def inverse (c : UInt8) : Int := getInverse.getD c.toNat (-1)

def encode : Bytes → Bytes
  | a :: b :: c :: rest =>
    [tab ((a &&& 0xfc) >>> 2), tab (((a &&& 0x03) <<< 4) + ((b &&& 0xf0) >>> 4)),
      tab (((c &&& 0xc0) >>> 6) + ((b &&& 0x0f) <<< 2)), tab (c &&& 0x3f)] ++ encode rest
  | [a, b] =>
    [tab ((a &&& 0xfc) >>> 2), tab (((a &&& 0x03) <<< 4) + ((b &&& 0xf0) >>> 4)),
      tab ((b &&& 0x0f) <<< 2), pad]
  | [a] => [tab ((a &&& 0xfc) >>> 2), tab ((a &&& 0x03) <<< 4), pad, pad]
  | [] => []

/-- The three octets of a group. Of a group that is not whole, what is behind its letters
is not written. -/
def octets (c4 : Bytes) : Bytes :=
  let c := fun i => c4.getD i 0
  [(c 0 <<< 2) + ((c 1 &&& 0x30) >>> 4), ((c 1 &&& 0xf) <<< 4) + ((c 2 &&& 0x3c) >>> 2),
    ((c 2 &&& 0x3) <<< 6) + c 3]

/-- The letters of the group that has begun, what was written, and how much was read. -/
structure Decoding where
  c4 : Bytes := []
  out : Bytes := []
  used : Nat := 0
  deriving DecidableEq, Repr

def Decoding.take (s : Decoding) (v : UInt8) : Decoding :=
  if s.c4.length + 1 = 4 then ⟨[], s.out ++ octets (s.c4 ++ [v]), s.used + 1⟩
  else ⟨s.c4 ++ [v], s.out, s.used + 1⟩

/-- A letter of the alphabet that is not padding. -/
def value (c : UInt8) : Option UInt8 :=
  if c = pad then none else if inverse c = -1 then none else some (inverse c).toNat.toUInt8

def loop (s : Decoding) : Bytes → Decoding
  | [] => s
  | c :: rest =>
    match value c with
    | none => s
    | some v => loop (s.take v) rest

/-- Of the last group, as many octets as there are letters, less one. -/
def Decoding.written (s : Decoding) : Bytes :=
  if s.c4 ≠ [] then s.out ++ (octets s.c4).take (s.c4.length - 1) else s.out

/-- What `decode` writes, and how much of the text it reads. -/
def decode (src : Bytes) : Bytes × Nat :=
  let s := loop {} src
  (s.written, s.used)

end Base64
open Base64

/-- The text is as long as the room for it. -/
def base64Encode (s : Bytes) : Bytes := encode s

/-- `none`: more is written than there is room for. -/
def base64Decode (data : Bytes) : Option Bytes :=
  let result := decode data
  if result.1.length ≤ decodedSize data.length then some result.1 else none

namespace Base64

theorem inverse_tab : ∀ i : Fin 64, value (tab (UInt8.ofNat i)) = some (UInt8.ofNat i) := by
  decide +kernel

theorem value_tab {i : UInt8} (small : i.toNat < 64) : value (tab i) = some i := by
  have letter := inverse_tab ⟨i.toNat, small⟩
  rwa [UInt8.ofNat_toNat] at letter

theorem value_pad : value pad = none := rfl

/-- What the masks and shifts of one octet leave. -/
theorem parts : ∀ a : UInt8,
    ((a &&& 0xfc) >>> 2).toNat = a.toNat / 4 ∧ ((a &&& 0x03) <<< 4).toNat = a.toNat % 4 * 16 ∧
      ((a &&& 0xf0) >>> 4).toNat = a.toNat / 16 ∧ ((a &&& 0x0f) <<< 2).toNat = a.toNat % 16 * 4 ∧
      ((a &&& 0xc0) >>> 6).toNat = a.toNat / 64 ∧ (a &&& 0x3f).toNat = a.toNat % 64 := by
  intro a
  have all : ∀ n : Fin 256, let a := UInt8.ofNat n
      ((a &&& 0xfc) >>> 2).toNat = n / 4 ∧ ((a &&& 0x03) <<< 4).toNat = n % 4 * 16 ∧
        ((a &&& 0xf0) >>> 4).toNat = n / 16 ∧ ((a &&& 0x0f) <<< 2).toNat = n % 16 * 4 ∧
        ((a &&& 0xc0) >>> 6).toNat = n / 64 ∧ (a &&& 0x3f).toNat = n % 64 := by decide +kernel
  simpa using all ⟨a.toNat, a.toNat_lt⟩

/-- What those of one letter leave. -/
theorem letters : ∀ v : UInt8, (v <<< 2).toNat = v.toNat * 4 % 256 ∧
    ((v &&& 0x30) >>> 4).toNat = v.toNat / 16 % 4 ∧ ((v &&& 0xf) <<< 4).toNat = v.toNat % 16 * 16 ∧
      ((v &&& 0x3c) >>> 2).toNat = v.toNat / 4 % 16 ∧ ((v &&& 0x3) <<< 6).toNat = v.toNat % 4 * 64 := by
  intro v
  have all : ∀ n : Fin 256, let v := UInt8.ofNat n
      (v <<< 2).toNat = n * 4 % 256 ∧ ((v &&& 0x30) >>> 4).toNat = n / 16 % 4 ∧
        ((v &&& 0xf) <<< 4).toNat = n % 16 * 16 ∧ ((v &&& 0x3c) >>> 2).toNat = n / 4 % 16 ∧
        ((v &&& 0x3) <<< 6).toNat = n % 4 * 64 := by decide +kernel
  simpa using all ⟨v.toNat, v.toNat_lt⟩

section
variable (a b c : UInt8)

theorem first_toNat : ((a &&& 0xfc) >>> 2).toNat = a.toNat / 4 := (parts a).1

theorem second_toNat :
    (((a &&& 0x03) <<< 4) + ((b &&& 0xf0) >>> 4)).toNat = a.toNat % 4 * 16 + b.toNat / 16 := by
  have bound := b.toNat_lt
  rw [UInt8.toNat_add, (parts a).2.1, (parts b).2.2.1]
  omega

theorem third_toNat :
    (((c &&& 0xc0) >>> 6) + ((b &&& 0x0f) <<< 2)).toNat = b.toNat % 16 * 4 + c.toNat / 64 := by
  have bound := c.toNat_lt
  rw [UInt8.toNat_add, (parts c).2.2.2.2.1, (parts b).2.2.2.1]
  omega

/-- The octets of letters whose numbers are put together from them. -/
theorem octets_of_toNat {v w x y : UInt8} (first : v.toNat = a.toNat / 4)
    (second : w.toNat = a.toNat % 4 * 16 + b.toNat / 16)
    (third : x.toNat = b.toNat % 16 * 4 + c.toNat / 64) (fourth : y.toNat = c.toNat % 64) :
    octets [v, w, x, y] = [a, b, c] := by
  have bounds := And.intro a.toNat_lt (And.intro b.toNat_lt c.toNat_lt)
  have one : (v <<< 2) + ((w &&& 0x30) >>> 4) = a := by
    rw [← UInt8.toNat_inj, UInt8.toNat_add, (letters v).1, (letters w).2.1, first, second]
    omega
  have two : ((w &&& 0xf) <<< 4) + ((x &&& 0x3c) >>> 2) = b := by
    rw [← UInt8.toNat_inj, UInt8.toNat_add, (letters w).2.2.1, (letters x).2.2.2.1, second, third]
    omega
  have three : ((x &&& 0x3) <<< 6) + y = c := by
    rw [← UInt8.toNat_inj, UInt8.toNat_add, (letters x).2.2.2.2, third, fourth]
    omega
  simp only [octets, List.getD_cons_zero, List.getD_cons_succ, one, two, three]

end

theorem loop_letter {c v : UInt8} (letter : value c = some v) (s : Decoding) (rest : Bytes) :
    loop s (c :: rest) = loop (s.take v) rest := by
  rw [loop, letter]

theorem loop_pad (s : Decoding) (rest : Bytes) : loop s (pad :: rest) = s := by
  rw [loop, value_pad]

/-- Letters behind whole groups that do not fill another one. -/
theorem loop_begun (out : Bytes) (used : Nat) {letters : Bytes} (short : letters.length < 4)
    (small : ∀ i ∈ letters, i.toNat < 64) (rest : Bytes) :
    loop ⟨[], out, used⟩ (letters.map tab ++ rest) =
      loop ⟨letters, out, used + letters.length⟩ rest := by
  induction letters using List.reverseRecOn generalizing rest with
  | nil => rfl
  | append_singleton front i ih =>
    rw [List.length_append, List.length_singleton] at short
    have last : i.toNat < 64 := small i (by simp)
    rw [List.map_append, List.append_assoc,
      ih (by omega) fun j member => small j (List.mem_append_left _ member)]
    rw [List.map_singleton, List.singleton_append, loop_letter (value_tab last), Decoding.take,
      if_neg (by simp only; omega), List.length_append, List.length_singleton, Nat.add_assoc]

theorem loop_group (out : Bytes) (used : Nat) {i j k l : UInt8}
    (small : ∀ v ∈ [i, j, k, l], v.toNat < 64) (rest : Bytes) :
    loop ⟨[], out, used⟩ (tab i :: tab j :: tab k :: tab l :: rest) =
      loop ⟨[], out ++ octets [i, j, k, l], used + 4⟩ rest := by
  have short : [i, j, k].length < 4 := Nat.lt_succ_self 3
  have begun := loop_begun out used short
    (fun v member => small v (List.mem_append_left [l] member)) (tab l :: rest)
  have last : l.toNat < 64 := small l (by simp)
  exact begun.trans (loop_letter (value_tab last) _ rest)

theorem loop_encode (s out : Bytes) (used : Nat) :
    (loop ⟨[], out, used⟩ (encode s)).written = out ++ s := by
  induction s using encode.induct generalizing out used with
  | case1 a b c rest ih =>
    have bounds := And.intro a.toNat_lt (And.intro b.toNat_lt c.toNat_lt)
    have fourth : (c &&& 0x3f).toNat = c.toNat % 64 := (parts c).2.2.2.2.2
    have group := octets_of_toNat a b c (first_toNat a) (second_toNat a b) (third_toNat b c) fourth
    have small : ∀ v ∈ [(a &&& 0xfc) >>> 2, ((a &&& 0x03) <<< 4) + ((b &&& 0xf0) >>> 4),
        ((c &&& 0xc0) >>> 6) + ((b &&& 0x0f) <<< 2), c &&& 0x3f], v.toNat < 64 := by
      simp only [List.forall_mem_cons, first_toNat, second_toNat, third_toNat, fourth]
      refine ⟨by omega, by omega, by omega, by omega, List.forall_mem_nil _⟩
    have read := ih (out ++ [a, b, c]) (used + 4)
    rw [← group, ← loop_group out used small, group, List.append_assoc] at read
    exact read
  | case2 a b =>
    have bounds := And.intro a.toNat_lt b.toNat_lt
    have third : ((b &&& 0x0f) <<< 2).toNat = b.toNat % 16 * 4 + (0 : UInt8).toNat / 64 :=
      (parts b).2.2.2.1
    have fourth : (0 : UInt8).toNat = (0 : UInt8).toNat % 64 := rfl
    have group := octets_of_toNat a b 0 (first_toNat a) (second_toNat a b) third fourth
    have small : ∀ v ∈ [(a &&& 0xfc) >>> 2, ((a &&& 0x03) <<< 4) + ((b &&& 0xf0) >>> 4),
        (b &&& 0x0f) <<< 2], v.toNat < 64 := by
      simp only [List.forall_mem_cons, first_toNat, second_toNat, (parts b).2.2.2.1]
      refine ⟨by omega, by omega, by omega, List.forall_mem_nil _⟩
    have begun := loop_begun out used (by exact Nat.lt_succ_self 3) small [pad]
    rw [loop_pad] at begun
    have read : loop ⟨[], out, used⟩ (encode [a, b]) = _ := begun
    rw [read]
    exact congrArg (fun written => out ++ written.take 2) group
  | case3 a =>
    have bound := a.toNat_lt
    have second : ((a &&& 0x03) <<< 4).toNat = a.toNat % 4 * 16 + (0 : UInt8).toNat / 16 :=
      (parts a).2.1
    have third : (0 : UInt8).toNat = (0 : UInt8).toNat % 16 * 4 + (0 : UInt8).toNat / 64 := rfl
    have fourth : (0 : UInt8).toNat = (0 : UInt8).toNat % 64 := rfl
    have group := octets_of_toNat a 0 0 (first_toNat a) second third fourth
    have small : ∀ v ∈ [(a &&& 0xfc) >>> 2, (a &&& 0x03) <<< 4], v.toNat < 64 := by
      simp only [List.forall_mem_cons, first_toNat, (parts a).2.1]
      refine ⟨by omega, by omega, List.forall_mem_nil _⟩
    have begun := loop_begun out used (by exact Nat.le_succ 3) small [pad, pad]
    rw [loop_pad] at begun
    have read : loop ⟨[], out, used⟩ (encode [a]) = _ := begun
    rw [read]
    exact congrArg (fun written => out ++ written.take 1) group
  | case4 => exact (List.append_nil out).symm

theorem length_encode (s : Bytes) : (encode s).length = encodedSize s.length := by
  induction s using encode.induct with
  | case1 a b c rest ih =>
    rw [encode, List.length_append, ih, encodedSize, encodedSize, List.length_cons, List.length_cons,
      List.length_cons]
    simp only [List.length_cons, List.length_nil]
    omega
  | case2 a b => simp [encode, encodedSize]
  | case3 a => simp [encode, encodedSize]
  | case4 => rfl

/-- The letters in front of padding or of what is no letter. -/
def lettersOf (text : Bytes) : Nat := (text.takeWhile fun c => (value c).isSome).length

theorem octets_length (c4 : Bytes) : (octets c4).length = 3 := rfl

/-- How far the loop has come: three octets for each whole group, and the letters behind. -/
structure Decoding.Through (s : Decoding) (n : Nat) : Prop where
  group : s.c4.length = n % 4
  out : s.out.length = n / 4 * 3

theorem Decoding.Through.take {s : Decoding} (through : s.Through n) (v : UInt8) :
    (s.take v).Through (n + 1) := by
  have group := through.group
  have out := through.out
  rw [Decoding.take]
  split
  · rename_i whole
    constructor
    · rw [List.length_nil]
      omega
    · rw [List.length_append, octets_length]
      omega
  · rename_i more
    constructor
    · rw [List.length_append, List.length_singleton]
      omega
    · rw [out]
      omega

theorem Decoding.Through.loop {s : Decoding} (through : s.Through n) (text : Bytes) :
    (Base64.loop s text).Through (n + lettersOf text) := by
  induction text generalizing s n with
  | nil => exact through
  | cons c text ih =>
    rw [Base64.loop, lettersOf]
    cases known : value c with
    | none =>
      rw [List.takeWhile_cons_of_neg (by rw [known]; exact Bool.false_ne_true)]
      exact through
    | some v =>
      rw [List.takeWhile_cons_of_pos (by rw [known]; rfl), List.length_cons]
      have later := ih (through.take v)
      rwa [lettersOf, Nat.add_right_comm] at later

/-- The octets that are written. -/
theorem length_decode (text : Bytes) :
    (decode text).1.length = lettersOf text / 4 * 3 + (lettersOf text % 4 - 1) := by
  have begun : ({} : Decoding).Through 0 := ⟨rfl, rfl⟩
  obtain ⟨group, out⟩ := begun.loop text
  rw [Nat.zero_add] at group out
  have written : (decode text).1 = (loop {} text).written := rfl
  rw [written, Decoding.written]
  split
  · rw [List.length_append, out, List.length_take, octets_length, group]
    omega
  · rename_i none
    rw [not_ne_iff.mp none, List.length_nil] at group
    rw [out, ← group]
    rfl

theorem lettersOf_le (text : Bytes) : lettersOf text ≤ text.length :=
  (List.takeWhile_prefix _).length_le

end Base64

/-- What was encoded is decoded again. -/
theorem base64Decode_base64Encode (s : Bytes) : base64Decode (base64Encode s) = some s := by
  have read : (decode (encode s)).1 = s := loop_encode s [] 0
  have room : s.length ≤ decodedSize (encode s).length := by
    rw [length_encode, decodedSize, encodedSize]
    omega
  simp only [base64Decode, base64Encode, read, if_pos room]

/-- What is written fits in the room for it unless two or three letters come behind the last
whole group of the text. -/
theorem base64Decode_isSome_iff (text : Bytes) :
    (base64Decode text).isSome = true ↔
      ¬(2 ≤ lettersOf text % 4 ∧ lettersOf text / 4 = text.length / 4) := by
  have bound := lettersOf_le text
  have fits : (base64Decode text).isSome = true ↔
      (decode text).1.length ≤ decodedSize text.length := by
    rw [base64Decode]
    exact Option.isSome_ite
  rw [fits, length_decode, decodedSize]
  omega

end Da4qi4.Utilities
