import Da4qi4.Foundation.FirstSplit
import Da4qi4.Utilities.HttpUtilities
import Mathlib.Data.List.Find

/-! What decoding and parsing make of any text, beside what they should make of it. An
escape should be two digits; every part of a query with an equals sign should be a
parameter. -/
namespace Da4qi4.Utilities
open ChunkedCoding (hexValue isHex hexNumber)

/-- The octet of two digits. -/
def escapedOctet (first second : UInt8) : Option UInt8 :=
  (hexValue first).bind fun high =>
    (hexValue second).map fun low => (16 * high + low).toUInt8

/-- A percent sign with two digits behind it is their octet, and a plus sign is a space;
all other octets stay. -/
def percentDecode : Bytes → Bytes
  | ch :: first :: second :: rest =>
    if ch = percent then
      match escapedOctet first second with
      | some octet => octet :: percentDecode rest
      | none => ch :: percentDecode (first :: second :: rest)
    else (if ch = plus then 32 else ch) :: percentDecode (first :: second :: rest)
  | ch :: rest => (if ch = plus then 32 else ch) :: percentDecode rest
  | [] => []

/-- Behind a percent sign come two digits, unless fewer than two octets do. -/
def WellEscaped (value : Bytes) : Prop :=
  ∀ front first second rest, value = front ++ percent :: first :: second :: rest →
    isHex first = true ∧ isHex second = true

theorem isDigit_of_isHex (hex : isHex c = true) : ∃ n, n < 16 ∧ IsDigit c n := by
  have all : ∀ n < 256, isHex (UInt8.ofNat n) = true → ∃ m, m < 16 ∧ IsDigit (UInt8.ofNat n) m := by
    decide +kernel
  have octet : UInt8.ofNat c.toNat = c := UInt8.ofNat_toNat
  have found := all c.toNat c.toNat_lt
  rw [octet] at found
  exact found hex

theorem hexNumber_short {digits : Bytes} (short : digits.length ≤ 1) : hexNumber digits ≤ 15 := by
  match digits, short with
  | [], _ => exact Nat.zero_le _
  | [c], _ =>
    rw [hexNumber, List.foldl_cons, List.foldl_nil, Nat.zero_mul, Nat.zero_add]
    cases hex : hexValue c with
    | none => exact Nat.zero_le _
    | some n =>
      obtain ⟨m, small, digit⟩ := isDigit_of_isHex (c := c) (by rw [isHex, hex]; rfl)
      have same : n = m := Option.some.inj (hex.symm.trans digit.value)
      rw [same, Option.getD_some]
      omega

theorem escapedOctet_digits (high : IsDigit first n) (low : IsDigit second m) :
    escapedOctet first second = some (16 * n + m).toUInt8 := by
  rw [escapedOctet, high.value, low.value]
  rfl

/-- Two digits are an escape for both. -/
theorem escapedOctet_of_hex (high : isHex first = true) (low : isHex second = true) :
    escapedOctet first second = some (strtol [first, second] % 256).toNat.toUInt8 := by
  obtain ⟨n, smallN, digitN⟩ := isDigit_of_isHex high
  obtain ⟨m, smallM, digitM⟩ := isDigit_of_isHex low
  have octet : (((16 * n + m : Nat) : Int) % 256).toNat = 16 * n + m := by omega
  rw [strtol_digits digitN digitM, octet, escapedOctet_digits digitN digitM]

theorem escapedOctet_eq_none (malformed : ¬(isHex first = true ∧ isHex second = true)) :
    escapedOctet first second = none := by
  rw [escapedOctet]
  cases high : hexValue first with
  | none => rfl
  | some n =>
    cases low : hexValue second with
    | none => rfl
    | some m => exact absurd ⟨by rw [isHex, high]; rfl, by rw [isHex, low]; rfl⟩ malformed

/-- What is no escape has a sign and one digit at most. -/
theorem strtol_malformed (malformed : ¬(isHex first = true ∧ isHex second = true)) :
    -15 ≤ strtol [first, second] ∧ strtol [first, second] ≤ 15 := by
  have inside : (([first, second].takeWhile (· ≠ 0)).dropWhile isSpace).Sublist [first, second] :=
    (List.dropWhile_sublist _).trans (List.takeWhile_sublist _)
  rw [strtol]
  generalize ([first, second].takeWhile (· ≠ 0)).dropWhile isSpace = text at inside
  cases text with
  | nil => decide
  | cons sign digits =>
    have length := inside.length_le
    have short : (digits.takeWhile isHex).length ≤ 1 :=
      (List.takeWhile_sublist _).length_le.trans (Nat.le_of_succ_le_succ length)
    have signed := hexNumber_short short
    have whole : ((sign :: digits).takeWhile isHex).length ≤ 1 := by
      by_contra long
      have taken := (List.takeWhile_sublist (l := sign :: digits) isHex).trans inside
      have all := taken.eq_of_length_le (not_le.mp long)
      have hex : ∀ c ∈ [first, second], isHex c = true := by
        intro c member
        rw [← all] at member
        exact List.mem_takeWhile_imp member
      exact malformed ⟨hex first (by simp), hex second (by simp)⟩
    have unsigned := hexNumber_short whole
    simp only
    split_ifs
    · omega
    · omega
    · omega

/-- What is no escape is not decoded to a percent sign. -/
theorem strtol_ne_percent (malformed : ¬(isHex first = true ∧ isHex second = true)) :
    (strtol [first, second] % 256).toNat.toUInt8 ≠ percent := by
  obtain ⟨low, high⟩ := strtol_malformed malformed
  intro same
  have value := congrArg UInt8.toNat same
  rw [UInt8.toNat_ofNat', percent] at value
  simp at value
  omega

theorem wellEscaped_tail (plain : ch ≠ percent) (rest : Bytes) :
    WellEscaped (ch :: rest) ↔ WellEscaped rest := by
  constructor
  · intro escaped front first second back same
    exact escaped (ch :: front) first second back (by rw [same, List.cons_append])
  · intro escaped front first second back same
    cases front with
    | nil => exact absurd (List.cons.inj same).1 plain
    | cons c front => exact escaped front first second back (List.cons.inj same).2

theorem wellEscaped_escape (first second : UInt8) (rest : Bytes) :
    WellEscaped (percent :: first :: second :: rest) ↔
      (isHex first = true ∧ isHex second = true) ∧ WellEscaped rest := by
  have notHex {c : UInt8} (hex : isHex c = true) : c ≠ percent := by
    rintro rfl
    cases hex
  constructor
  · intro escaped
    have hex := escaped [] first second rest rfl
    refine ⟨hex, ?_⟩
    intro front third fourth back same
    exact escaped (percent :: first :: second :: front) third fourth back (by rw [same]; rfl)
  · rintro ⟨⟨high, low⟩, escaped⟩ front third fourth back same
    match front, same with
    | [], same =>
      cases same
      exact ⟨high, low⟩
    | [_], same =>
      obtain ⟨-, same⟩ := List.cons.inj same
      exact absurd (List.cons.inj same).1 (notHex high)
    | [_, _], same =>
      obtain ⟨-, same⟩ := List.cons.inj same
      obtain ⟨-, same⟩ := List.cons.inj same
      exact absurd (List.cons.inj same).1 (notHex low)
    | _ :: _ :: _ :: front, same =>
      obtain ⟨-, same⟩ := List.cons.inj same
      obtain ⟨-, same⟩ := List.cons.inj same
      exact escaped front third fourth back (List.cons.inj same).2

theorem wellEscaped_short (short : value.length ≤ 2) : WellEscaped value := by
  rintro front first second rest rfl
  rw [List.length_append, List.length_cons, List.length_cons, List.length_cons] at short
  omega

theorem percentDecode_cons (ch : UInt8) (rest : Bytes) (plain : ch ≠ percent) :
    percentDecode (ch :: rest) = (if ch = plus then 32 else ch) :: percentDecode rest := by
  rcases rest with _ | ⟨first, _ | ⟨second, rest⟩⟩
  · rfl
  · rfl
  · rw [percentDecode, if_neg plain]

/-- A text is decoded as it should be exactly if every percent sign in it has two digits
behind it, or fewer than two octets. -/
theorem urlDecodeIfEncoded_iff (value : Bytes) :
    urlDecodeIfEncoded value = percentDecode value ↔ WellEscaped value := by
  rw [urlDecodeIfEncoded_eq]
  induction value using urlDecode.induct with
  | case1 first second rest ih =>
    rw [wellEscaped_escape, urlDecode, if_pos rfl, percentDecode, if_pos rfl]
    by_cases hex : isHex first = true ∧ isHex second = true
    · rw [escapedOctet_of_hex hex.1 hex.2, ← ih]
      simp [hex]
    · rw [escapedOctet_eq_none hex]
      refine iff_of_false ?_ fun both => hex both.1
      intro same
      exact strtol_ne_percent hex (List.cons.inj same).1
  | case2 ch first second rest plain ih =>
    rw [urlDecode_cons ch _ plain, percentDecode_cons ch _ plain, wellEscaped_tail plain, ← ih,
      List.cons_inj_right]
  | case3 ch rest short ih =>
    by_cases plain : ch = percent
    · rcases rest with _ | ⟨first, _ | ⟨second, rest⟩⟩
      · exact iff_of_true rfl (wellEscaped_short (by simp))
      · exact iff_of_true rfl (wellEscaped_short (by simp))
      · exact absurd rfl (short first second rest)
    · rw [urlDecode_cons ch _ plain, percentDecode_cons ch _ plain, wellEscaped_tail plain, ← ih,
        List.cons_inj_right]
  | case4 => exact iff_of_true rfl (wellEscaped_short (Nat.zero_le _))

/-- `%zz` is decoded to a NUL. -/
theorem malformed_escape :
    urlDecodeIfEncoded (Bytes.ofAscii "%zz") = [0] ∧
      percentDecode (Bytes.ofAscii "%zz") = Bytes.ofAscii "%zz" ∧
      urlDecodeIfEncoded (Bytes.ofAscii "%zz") ≠ percentDecode (Bytes.ofAscii "%zz") := by
  decide

/-- What a part of a query says: what is in front of its first equals sign, and what is
behind. -/
def parameterOf (part : Bytes) : Bytes × Bytes :=
  match FirstSplit.cut equals part with
  | none => (urlDecodeIfEncoded (trim part), [])
  | some (k, v) => (urlDecodeIfEncoded (trim k), urlDecodeIfEncoded (trim v))

/-- The parameters of all parts, and the first one of a key. -/
def allParameters (query : Bytes) : UrlParameters :=
  OrderedMap.empty.insertAll ((split query ampersand).map parameterOf)

/-- The parts with at most one equals sign. -/
def simpleParts (query : Bytes) : List Bytes :=
  (split query ampersand).filter fun part => part.count equals ≤ 1

def firstOf (parts : List Bytes) (key : Bytes) : Option (Bytes × Bytes) :=
  (parts.map parameterOf).find? (OrderedMap.isAt (fun name : Bytes => name.map UInt8.toNat) key)

theorem insertParameter_eq (result : UrlParameters) (part : Bytes) :
    insertParameter result part =
      if part.count equals ≤ 1 then result.insert (parameterOf part).1 (parameterOf part).2
      else result := by
  have noneOf {l : Bytes} (free : equals ∉ l) : l.count equals = 0 := List.count_eq_zero.mpr free
  rcases FirstSplit.cut_cases equals part with ⟨free, cut⟩ | ⟨k, v, free, rfl, cut⟩
  · have pieces : split part equals = [part] := List.splitOn_eq_singleton free
    rw [if_pos ((noneOf free).trans_le (Nat.zero_le 1)), insertParameter, pieces, parameterOf, cut]
  · have count : (k ++ equals :: v).count equals = v.count equals + 1 := by
      rw [List.count_append, noneOf free, List.count_cons_self, Nat.zero_add]
    have pieces : split (k ++ equals :: v) equals = k :: v.splitOn equals :=
      List.splitOn_append_cons_self_of_not_mem free v
    rw [insertParameter, pieces, parameterOf, cut, count]
    rcases FirstSplit.cut_cases equals v with ⟨last, -⟩ | ⟨a, b, first, rfl, -⟩
    · rw [List.splitOn_eq_singleton last, noneOf last]
      rfl
    · rw [List.splitOn_append_cons_self_of_not_mem first b]
      have more : ¬(a ++ equals :: b).count equals + 1 ≤ 1 := by simp
      rw [if_neg more]
      cases rest : b.splitOn equals with
      | nil => exact absurd rest (List.splitOn_ne_nil _ _)
      | cons c rest => rfl

/-- The other parts are dropped. -/
theorem parseQueryParameters_eq (query : Bytes) :
    parseQueryParameters query =
      OrderedMap.empty.insertAll ((simpleParts query).map parameterOf) := by
  have each (m : UrlParameters) (parts : List Bytes) :
      parts.foldl insertParameter m =
        m.insertAll ((parts.filter fun part => part.count equals ≤ 1).map parameterOf) := by
    induction parts generalizing m with
    | nil => rfl
    | cons part parts ih =>
      rw [List.foldl_cons, ih, insertParameter_eq]
      split
      · rename_i simple
        rw [List.filter_cons_of_pos (by simpa using simple)]
        rfl
      · rename_i many
        rw [List.filter_cons_of_neg (by simpa using many)]
  exact each .empty (split query ampersand)

/-- All parameters are kept exactly if every part that is dropped is not the first one of
its key, or is followed by one that says the same. -/
theorem parseQueryParameters_eq_all_iff (query : Bytes) :
    parseQueryParameters query = allParameters query ↔
      ∀ part ∈ split query ampersand, 1 < part.count equals →
        firstOf (simpleParts query) (parameterOf part).1 =
          firstOf (split query ampersand) (parameterOf part).1 := by
  have kept (key : Bytes) : (parseQueryParameters query).find key = firstOf (simpleParts query) key := by
    rw [parseQueryParameters_eq, OrderedMap.find_insertAll, OrderedMap.find_empty, Option.none_or,
      firstOf]
  have all (key : Bytes) : (allParameters query).find key = firstOf (split query ampersand) key := by
    rw [allParameters, OrderedMap.find_insertAll, OrderedMap.find_empty, Option.none_or, firstOf]
  constructor
  · intro same part _ _
    rw [← kept, ← all, same]
  · intro agree
    apply OrderedMap.ext_find
    intro key
    rw [kept, all]
    by_cases dropped : ∃ part ∈ split query ampersand, 1 < part.count equals ∧
        (parameterOf part).1 = key
    · obtain ⟨part, member, many, rfl⟩ := dropped
      exact agree part member many
    · -- every part of this key is kept
      simp only [firstOf, simpleParts, List.find?_map, List.find?_filter]
      congr 1
      apply List.find?_congr
      intro part member
      by_cases simple : part.count equals ≤ 1
      · simp [simple]
      · have other : ¬(parameterOf part).1 = key := fun same =>
          dropped ⟨part, member, not_le.mp simple, same⟩
        have octets : (parameterOf part).1.map UInt8.toNat ≠ key.map UInt8.toNat := fun same =>
          other (Bytes.octets_inj.mp same)
        simp [simple, OrderedMap.isAt, octets]

end Da4qi4.Utilities
