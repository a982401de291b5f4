import Da4qi4.Foundation.ChunkedCoding
import Da4qi4.Foundation.OrderedMap
import Da4qi4.Utilities.Strings

/-! The parameters of a query, and the encoding of urls. An encoded text is made of
unreserved characters and percent signs, so that neither the separators nor the trimming
can touch it. -/
namespace Da4qi4

/-- `std::map` from strings. -/
abbrev UrlParameters := OrderedMap (fun name : Bytes => name.map UInt8.toNat) Bytes

namespace Utilities
open ChunkedCoding (hexValue isHex hexNumber)

def percent : UInt8 := 37
def plus : UInt8 := 43
def ampersand : UInt8 := 38
def equals : UInt8 := 61

def isUrlEncoded (value : Bytes) : Bool := value.any fun c => c == percent || c == plus

def hexDigt : Bytes := Bytes.ofAscii "0123456789ABCDEF"

/-- The letters and digits and `!'()*-._~`. -/
def isUnreserved (ch : UInt8) : Bool :=
  (48 ≤ ch && ch ≤ 57) || (65 ≤ ch && ch ≤ 90) || (97 ≤ ch && ch ≤ 122) ||
    (Bytes.ofAscii "-_!'()*~.").contains ch

def encodeChar (ch : UInt8) : Bytes :=
  if isUnreserved ch then [ch]
  else [percent, hexDigt.getD (ch >>> 4).toNat 0, hexDigt.getD (ch &&& 15).toNat 0]

def urlEncode (value : Bytes) : Bytes := value.flatMap encodeChar

/-- `std::strtol` in base 16, of a text too short for a prefix `0x` with digits. -/
def strtol (hex : Bytes) : Int :=
  match (hex.takeWhile (· ≠ 0)).dropWhile isSpace with
  | [] => 0
  | sign :: digits =>
    if sign = 45 then -(hexNumber (digits.takeWhile isHex) : Int)
    else if sign = 43 then hexNumber (digits.takeWhile isHex)
    else hexNumber ((sign :: digits).takeWhile isHex)

/-- A percent sign with fewer than two characters behind it stands for itself. -/
def urlDecode : Bytes → Bytes
  | ch :: first :: second :: rest =>
    if ch = percent then (strtol [first, second] % 256).toNat.toUInt8 :: urlDecode rest
    else (if ch = plus then 32 else ch) :: urlDecode (first :: second :: rest)
  | ch :: rest => (if ch = plus then 32 else ch) :: urlDecode rest
  | [] => []

def urlDecodeIfEncoded (value : Bytes) : Bytes :=
  if isUrlEncoded value then urlDecode value else value

/-- One part of a query; a part with more than one equals sign is dropped. -/
def insertParameter (result : UrlParameters) (kvpart : Bytes) : UrlParameters :=
  match split kvpart equals with
  | [k] => result.insert (urlDecodeIfEncoded (trim k)) []
  | [k, v] => result.insert (urlDecodeIfEncoded (trim k)) (urlDecodeIfEncoded (trim v))
  | _ => result

def parseQueryParameters (query : Bytes) : UrlParameters :=
  (split query ampersand).foldl insertParameter .empty

theorem isUrlEncoded_false (value : Bytes) :
    isUrlEncoded value = false ↔ ∀ c ∈ value, c ≠ percent ∧ c ≠ plus := by
  simp [isUrlEncoded]

theorem urlDecode_cons (ch : UInt8) (rest : Bytes) (plain : ch ≠ percent) :
    urlDecode (ch :: rest) = (if ch = plus then 32 else ch) :: urlDecode rest := by
  rcases rest with _ | ⟨first, _ | ⟨second, rest⟩⟩
  · rfl
  · rfl
  · rw [urlDecode, if_neg plain]

/-- Decoding changes nothing in a text that is not encoded. -/
theorem urlDecodeIfEncoded_eq (value : Bytes) : urlDecodeIfEncoded value = urlDecode value := by
  rw [urlDecodeIfEncoded]
  split
  · rfl
  · rename_i plain
    have octets := (isUrlEncoded_false value).mp (Bool.eq_false_of_not_eq_true plain)
    clear plain
    induction value with
    | nil => rfl
    | cons c rest ih =>
      obtain ⟨⟨notPercent, notPlus⟩, others⟩ := List.forall_mem_cons.mp octets
      rw [urlDecode_cons c rest notPercent, if_neg notPlus, ← ih others]

/-- The octets of an encoded text. -/
def isEncodedChar (c : UInt8) : Bool := isUnreserved c || c == percent

/-- A hexadecimal digit is one for `strtol`, too. -/
structure IsDigit (c : UInt8) (value : Nat) : Prop where
  value : hexValue c = some value
  encoded : isEncodedChar c = true
  begins : c ≠ 0 ∧ isSpace c = false ∧ c ≠ 45 ∧ c ≠ 43

instance (c : UInt8) (value : Nat) : Decidable (IsDigit c value) :=
  decidable_of_iff (hexValue c = some value ∧ isEncodedChar c = true ∧
    c ≠ 0 ∧ isSpace c = false ∧ c ≠ 45 ∧ c ≠ 43)
    ⟨fun ⟨value, encoded, begins⟩ => ⟨value, encoded, begins⟩, fun d => ⟨d.value, d.encoded, d.begins⟩⟩

theorem isDigit_hexDigt {n : Nat} (digit : n < 16) : IsDigit (hexDigt.getD n 0) n := by
  revert n
  decide

theorem strtol_digits (high : IsDigit first n) (low : IsDigit second m) :
    strtol [first, second] = (16 * n + m : Nat) := by
  obtain ⟨nonzero, black, notMinus, notPlus⟩ := high.begins
  have hexHigh : isHex first = true := by rw [isHex, high.value]; rfl
  have hexLow : isHex second = true := by rw [isHex, low.value]; rfl
  have text : [first, second].takeWhile (· ≠ 0) = [first, second] := by
    simp [List.takeWhile, nonzero, low.begins.1]
  have digits : [first, second].takeWhile isHex = [first, second] := by
    simp [List.takeWhile, hexHigh, hexLow]
  rw [strtol, text, List.dropWhile_cons_of_neg (by simp [black])]
  simp only [if_neg notMinus, if_neg notPlus, digits, hexNumber, List.foldl_cons, List.foldl_nil,
    high.value, low.value, Option.getD_some]
  congr 1
  ring

theorem high_digit (ch : UInt8) : (ch >>> 4).toNat = ch.toNat / 16 := by
  rw [UInt8.toNat_shiftRight]
  exact Nat.shiftRight_eq_div_pow ch.toNat 4

theorem low_digit (ch : UInt8) : (ch &&& 15).toNat = ch.toNat % 16 := by
  rw [UInt8.toNat_and]
  exact Nat.and_two_pow_sub_one_eq_mod ch.toNat 4

/-- An encoded octet is decoded, whatever is behind it. -/
theorem urlDecode_encodeChar (ch : UInt8) (rest : Bytes) :
    urlDecode (encodeChar ch ++ rest) = ch :: urlDecode rest := by
  rw [encodeChar]
  split
  · rename_i unreserved
    have notPercent : ch ≠ percent := by
      rintro rfl
      exact absurd unreserved (by decide)
    have notPlus : ch ≠ plus := by
      rintro rfl
      exact absurd unreserved (by decide)
    rw [List.singleton_append, urlDecode_cons ch rest notPercent, if_neg notPlus]
  · have bound : ch.toNat < 256 := ch.toNat_lt
    have value : 16 * (ch.toNat / 16) + ch.toNat % 16 = ch.toNat := by omega
    have octet : ((ch.toNat : Int) % 256).toNat = ch.toNat := by omega
    rw [List.cons_append, List.cons_append, List.cons_append, List.nil_append, urlDecode, if_pos rfl,
      high_digit, low_digit, strtol_digits (isDigit_hexDigt (by omega)) (isDigit_hexDigt (by omega)), value, octet]
    exact congrArg (· :: urlDecode rest) UInt8.ofNat_toNat

theorem urlDecode_urlEncode (value : Bytes) : urlDecode (urlEncode value) = value := by
  induction value with
  | nil => rfl
  | cons ch rest ih => rw [urlEncode, List.flatMap_cons, urlDecode_encodeChar, ← urlEncode, ih]

theorem isEncodedChar_urlEncode (value : Bytes) : ∀ c ∈ urlEncode value, isEncodedChar c = true := by
  intro c member
  obtain ⟨ch, -, inside⟩ := List.mem_flatMap.mp member
  rw [encodeChar] at inside
  split at inside
  · rename_i unreserved
    rw [List.mem_singleton.mp inside, isEncodedChar, unreserved, Bool.true_or]
  · have bound : ch.toNat < 256 := ch.toNat_lt
    rw [high_digit, low_digit, List.mem_cons, List.mem_cons, List.mem_singleton] at inside
    rcases inside with rfl | rfl | rfl
    · rfl
    · exact (isDigit_hexDigt (by omega)).encoded
    · exact (isDigit_hexDigt (by omega)).encoded

/-- No separator and no space is in an encoded text. -/
theorem isEncodedChar_plain (encoded : isEncodedChar c = true) :
    c ≠ ampersand ∧ c ≠ equals ∧ isSpace c = false := by
  simp [isEncodedChar, isUnreserved, isSpace, Bytes.ofAscii, UInt8.le_iff_toNat_le, ← UInt8.toNat_inj,
    ampersand, equals, percent] at encoded ⊢
  omega

theorem trim_urlEncode (value : Bytes) : trim (urlEncode value) = urlEncode value := by
  apply trim_black
  intro c member
  exact (isEncodedChar_plain (isEncodedChar_urlEncode value c member)).2.2

/-- A text comes back from its encoding. -/
theorem decode_urlEncode (value : Bytes) :
    urlDecodeIfEncoded (trim (urlEncode value)) = value := by
  rw [trim_urlEncode, urlDecodeIfEncoded_eq, urlDecode_urlEncode]

def encodeParameter (parameter : Bytes × Bytes) : Bytes :=
  urlEncode parameter.1 ++ equals :: urlEncode parameter.2

/-- The parameters as a query. -/
def encodeParameters (parameters : List (Bytes × Bytes)) : Bytes :=
  [ampersand].intercalate (parameters.map encodeParameter)

theorem not_mem_urlEncode (value : Bytes) :
    ampersand ∉ urlEncode value ∧ equals ∉ urlEncode value := by
  constructor
  · intro member
    exact (isEncodedChar_plain (isEncodedChar_urlEncode value _ member)).1 rfl
  · intro member
    exact (isEncodedChar_plain (isEncodedChar_urlEncode value _ member)).2.1 rfl

theorem insertParameter_encode (result : UrlParameters) (parameter : Bytes × Bytes) :
    insertParameter result (encodeParameter parameter) = result.insert parameter.1 parameter.2 := by
  have parts : split (encodeParameter parameter) equals =
      [urlEncode parameter.1, urlEncode parameter.2] := by
    have joined : encodeParameter parameter =
        [equals].intercalate [urlEncode parameter.1, urlEncode parameter.2] := by
      simp [encodeParameter, List.intercalate]
    rw [joined]
    refine List.splitOn_intercalate equals ?_ (List.cons_ne_nil _ _)
    exact List.forall_mem_cons.mpr ⟨(not_mem_urlEncode _).2,
      List.forall_mem_singleton.mpr (not_mem_urlEncode _).2⟩
  simp only [insertParameter, parts, decode_urlEncode]

/-- A map of parameters comes back from its encoding, in whatever order. -/
theorem parseQueryParameters_encode (m : UrlParameters) {parameters : List (Bytes × Bytes)}
    (order : parameters.Perm m.entries) (some_ : m.entries ≠ []) :
    parseQueryParameters (encodeParameters parameters) = m := by
  have parts : split (encodeParameters parameters) ampersand = parameters.map encodeParameter := by
    refine List.splitOn_intercalate ampersand ?_ ?_
    · intro part member
      obtain ⟨parameter, -, rfl⟩ := List.mem_map.mp member
      rw [encodeParameter, List.mem_append, List.mem_cons]
      rintro (front | middle | back)
      · exact (not_mem_urlEncode _).1 front
      · exact absurd middle (by decide)
      · exact (not_mem_urlEncode _).1 back
    · intro none
      rw [List.map_eq_nil_iff.mp none] at order
      exact some_ order.nil_eq.symm
  rw [parseQueryParameters, parts, List.foldl_map]
  simp only [insertParameter_encode]
  exact OrderedMap.insertAll_entries m order

/-- An empty key, and a value of a space, a NUL, separators and a plus sign. -/
theorem parseQueryParameters_separators :
    parseQueryParameters (encodeParameters [([], [61]), ([37, 0], [32, 0, 38, 61, 43, 200])]) =
      ⟨[([], [61]), ([37, 0], [32, 0, 38, 61, 43, 200])], by decide⟩ :=
  parseQueryParameters_encode ⟨[([], [61]), ([37, 0], [32, 0, 38, 61, 43, 200])], by decide⟩
    (.refl _) (by decide)

end Utilities
end Da4qi4
