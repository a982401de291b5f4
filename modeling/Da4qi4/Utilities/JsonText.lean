import Da4qi4.Foundation.ResponseFraming

/-! Values of JSON and the texts that are made of them, as `dump(2)` of the `nlohmann_json`
that comes with the sources writes them. A value whose strings are not in UTF-8 has no
text. -/
namespace Da4qi4.Valuetool
open ResponseFraming (decimal decimal_ne_nil isDigit isDigit_decimal)

/-- A number with a binary fraction, as `double` has them. -/
structure FiniteDouble where
  negative : Bool
  mantissa : Nat
  exponent : Int
  bounded : mantissa < 2 ^ 53 ∧ -1074 ≤ exponent ∧ exponent ≤ 971

inductive Double where
  | finite (value : FiniteDouble)
  | infinity (negative : Bool)
  | nan (negative : Bool)

namespace Double

/-- Halves go to the even number. -/
def roundedQuotient (n d : Nat) : Nat :=
  if 2 * (n % d) < d ∨ (2 * (n % d) = d ∧ n / d % 2 = 0) then n / d else n / d + 1

/-- The millionths. -/
def millionths (x : FiniteDouble) : Nat :=
  if 0 ≤ x.exponent then x.mantissa * 2 ^ x.exponent.toNat * 1000000
  else roundedQuotient (x.mantissa * 1000000) (2 ^ (-x.exponent).toNat)

def sign (negative : Bool) : Bytes := if negative then [45] else []

/-- `std::to_string`, with six digits behind the point. -/
def toString : Double → Bytes
  | finite x =>
    let fraction := decimal (millionths x % 1000000)
    sign x.negative ++ decimal (millionths x / 1000000) ++ [46] ++
      List.replicate (6 - fraction.length) 48 ++ fraction
  | infinity negative => sign negative ++ Bytes.ofAscii "inf"
  | nan negative => sign negative ++ Bytes.ofAscii "nan"

end Double

inductive Json where
  | null
  | object (entries : List (Bytes × Json))
  | array (elements : List Json)
  | string (value : Bytes)
  | boolean (value : Bool)
  | numberInteger (value : Int64)
  | numberUnsigned (value : UInt64)
  | numberFloat (value : Double)
  | discarded

/-- The classes of bytes, and behind them the states by state and class. -/
def utf8d : List Nat :=
  List.replicate 128 0 ++ List.replicate 16 1 ++ List.replicate 16 9 ++ List.replicate 32 7 ++
  [8, 8] ++ List.replicate 30 2 ++
  [10, 3, 3, 3, 3, 3, 3, 3, 3, 3, 3, 3, 3, 4, 3, 3,
   11, 6, 6, 6, 5, 8, 8, 8, 8, 8, 8, 8, 8, 8, 8, 8,
   0, 1, 2, 3, 5, 8, 7, 1, 1, 1, 4, 6, 1, 1, 1, 1,
   1, 1, 1, 1, 1, 1, 1, 1, 1, 1, 1, 1, 1, 1, 1, 1, 1, 0, 1, 1, 1, 1, 1, 0, 1, 0, 1, 1, 1, 1, 1, 1,
   1, 2, 1, 1, 1, 1, 1, 2, 1, 2, 1, 1, 1, 1, 1, 1, 1, 1, 1, 1, 1, 1, 1, 2, 1, 1, 1, 1, 1, 1, 1, 1,
   1, 2, 1, 1, 1, 1, 1, 1, 1, 2, 1, 1, 1, 1, 1, 1, 1, 1, 1, 1, 1, 1, 1, 3, 1, 3, 1, 1, 1, 1, 1, 1,
   1, 3, 1, 1, 1, 1, 1, 3, 1, 3, 1, 1, 1, 1, 1, 1, 1, 3, 1, 1, 1, 1, 1, 1, 1, 1, 1, 1, 1, 1, 1, 1]

/-- `decode`: the next state, with the code point so far. -/
def decode (state : Nat) (codep : UInt32) (byte : UInt8) : Nat × UInt32 :=
  let type := utf8d.getD byte.toNat 1
  let codep : UInt32 :=
    if state ≠ 0 then (byte.toUInt32 &&& (0x3f : UInt32)) ||| (codep <<< 6)
    else (0xff >>> type.toUInt32) &&& byte.toUInt32
  (utf8d.getD (256 + state * 16 + type) 1, codep)

def hexDigit (n : Nat) : UInt8 := n.digitChar.toNat.toUInt8

/-- What is written for the last byte of a code point. -/
def escaped (codepoint : UInt32) (byte : UInt8) : Bytes :=
  if codepoint = 0x08 then Bytes.ofAscii "\\b"
  else if codepoint = 0x09 then Bytes.ofAscii "\\t"
  else if codepoint = 0x0A then Bytes.ofAscii "\\n"
  else if codepoint = 0x0C then Bytes.ofAscii "\\f"
  else if codepoint = 0x0D then Bytes.ofAscii "\\r"
  else if codepoint = 0x22 then Bytes.ofAscii "\\\""
  else if codepoint = 0x5C then Bytes.ofAscii "\\\\"
  else if codepoint ≤ 0x1F then
    Bytes.ofAscii "\\u00" ++ [hexDigit (codepoint.toNat / 16), hexDigit (codepoint.toNat % 16)]
  else [byte]

/-- `dump_escaped`, which throws for what is not in UTF-8. -/
def dumpEscapedFrom (state : Nat) (codep : UInt32) : Bytes → Option Bytes
  | [] => if state = 0 then some [] else none
  | byte :: rest =>
    match decode state codep byte with
    | (0, codepoint) => (dumpEscapedFrom 0 codepoint rest).map (escaped codepoint byte ++ ·)
    | (1, _) => none
    | (next, codep) => (dumpEscapedFrom next codep rest).map (byte :: ·)

def dumpEscaped (s : Bytes) : Option Bytes := dumpEscapedFrom 0 0 s

def dumpInteger (x : Int) : Bytes := Double.sign (decide (x < 0)) ++ decimal x.natAbs

/-- The shortest digits of a number are a parameter. -/
def dumpFloat (toChars : FiniteDouble → Bytes) : Double → Bytes
  | .finite x => toChars x
  | _ => Bytes.ofAscii "null"

def indentString (indent : Nat) : Bytes := List.replicate indent 32

def quoted (s : Bytes) : Option Bytes := (dumpEscaped s).map fun s => [34] ++ s ++ [34]

section Dump
variable (toChars : FiniteDouble → Bytes)

/- Pretty printing; each level is indented by two more blanks. -/
mutual

def dump (currentIndent : Nat) : Json → Option Bytes
  | .object [] => some (Bytes.ofAscii "\x7b\x7d")
  | .object (e :: entries) =>
    (dumpEntries (currentIndent + 2) (e :: entries)).map fun inside =>
      Bytes.ofAscii "\x7b\n" ++ inside ++ [10] ++ indentString currentIndent ++ Bytes.ofAscii "\x7d"
  | .array [] => some (Bytes.ofAscii "[]")
  | .array (e :: elements) =>
    (dumpElements (currentIndent + 2) (e :: elements)).map fun inside =>
      Bytes.ofAscii "[\n" ++ inside ++ [10] ++ indentString currentIndent ++ Bytes.ofAscii "]"
  | .string value => quoted value
  | .boolean true => some (Bytes.ofAscii "true")
  | .boolean false => some (Bytes.ofAscii "false")
  | .numberInteger value => some (dumpInteger value.toInt)
  | .numberUnsigned value => some (dumpInteger value.toNat)
  | .numberFloat value => some (dumpFloat toChars value)
  | .discarded => some (Bytes.ofAscii "<discarded>")
  | .null => some (Bytes.ofAscii "null")

def dumpElements (newIndent : Nat) : List Json → Option Bytes
  | [] => some []
  | e :: rest =>
    (dump newIndent e).bind fun text =>
      (dumpElements newIndent rest).map fun others =>
        indentString newIndent ++ text ++
          (if rest.isEmpty then [] else Bytes.ofAscii ",\n") ++ others

def dumpEntries (newIndent : Nat) : List (Bytes × Json) → Option Bytes
  | [] => some []
  | (key, e) :: rest =>
    (quoted key).bind fun name =>
      (dump newIndent e).bind fun text =>
        (dumpEntries newIndent rest).map fun others =>
          indentString newIndent ++ name ++ Bytes.ofAscii ": " ++ text ++
            (if rest.isEmpty then [] else Bytes.ofAscii ",\n") ++ others

end
end Dump

/- Every string in a value, the keys included, is in UTF-8. -/
mutual

def Json.encoded : Json → Bool
  | .object entries => encodedEntries entries
  | .array elements => encodedElements elements
  | .string value => (dumpEscaped value).isSome
  | _ => true

def encodedElements : List Json → Bool
  | [] => true
  | e :: rest => e.encoded && encodedElements rest

def encodedEntries : List (Bytes × Json) → Bool
  | [] => true
  | (key, e) :: rest => (dumpEscaped key).isSome && e.encoded && encodedEntries rest

end

theorem escaped_ne_nil (codepoint : UInt32) (byte : UInt8) : escaped codepoint byte ≠ [] := by
  simp only [escaped]
  repeat' split
  all_goals exact List.cons_ne_nil _ _

theorem length_dumpEscapedFrom {state : Nat} {codep : UInt32} {s text : Bytes}
    (dumped : dumpEscapedFrom state codep s = some text) : s.length ≤ text.length := by
  induction s generalizing state codep text with
  | nil => simp
  | cons byte rest ih =>
    rw [dumpEscapedFrom] at dumped
    split at dumped
    · rename_i codepoint decoded
      obtain ⟨others, written, rfl⟩ := Option.map_eq_some_iff.mp dumped
      have first := List.length_pos_iff.mpr (escaped_ne_nil codepoint byte)
      have later := ih written
      simp only [List.length_cons, List.length_append]
      omega
    · cases dumped
    · obtain ⟨others, written, rfl⟩ := Option.map_eq_some_iff.mp dumped
      simpa using ih written

theorem length_dumpEscaped {s text : Bytes} (dumped : dumpEscaped s = some text) :
    s.length ≤ text.length :=
  length_dumpEscapedFrom dumped

section Dump
variable (toChars : FiniteDouble → Bytes)

mutual

theorem dump_isSome (indent : Nat) : (j : Json) →
    (dump toChars indent j).isSome = j.encoded
  | .object [] => by simp [dump, Json.encoded, encodedEntries]
  | .object (e :: entries) => by
    simpa [dump, Json.encoded] using dumpEntries_isSome (indent + 2) (e :: entries)
  | .array [] => by simp [dump, Json.encoded, encodedElements]
  | .array (e :: elements) => by
    simpa [dump, Json.encoded] using dumpElements_isSome (indent + 2) (e :: elements)
  | .string value => by simp [dump, Json.encoded, quoted]
  | .boolean true => rfl
  | .boolean false => rfl
  | .numberInteger _ => rfl
  | .numberUnsigned _ => rfl
  | .numberFloat _ => rfl
  | .discarded => rfl
  | .null => rfl

theorem dumpElements_isSome (indent : Nat) : (l : List Json) →
    (dumpElements toChars indent l).isSome = encodedElements l
  | [] => rfl
  | e :: rest => by
    rw [dumpElements, encodedElements, ← dump_isSome indent e, ← dumpElements_isSome indent rest]
    cases dump toChars indent e with
    | none => rfl
    | some text => simp

theorem dumpEntries_isSome (indent : Nat) : (l : List (Bytes × Json)) →
    (dumpEntries toChars indent l).isSome = encodedEntries l
  | [] => rfl
  | (key, e) :: rest => by
    rw [dumpEntries, encodedEntries, ← dump_isSome indent e, ← dumpEntries_isSome indent rest,
      quoted]
    cases dumpEscaped key with
    | none => rfl
    | some name =>
      cases dump toChars indent e with
      | none => rfl
      | some text => simp

end

mutual

/-- Behind more blanks a text is not shorter. -/
theorem length_dump (indent more : Nat) : (j : Json) → {s t : Bytes} →
    dump toChars indent j = some s → dump toChars (indent + more) j = some t →
    s.length ≤ t.length
  | .object [], _, _, first, second => by
    rw [dump] at first second
    cases first
    cases second
    exact le_rfl
  | .object (e :: entries), _, _, first, second => by
    rw [dump] at first second
    obtain ⟨s, inside, rfl⟩ := Option.map_eq_some_iff.mp first
    obtain ⟨t, deeper, rfl⟩ := Option.map_eq_some_iff.mp second
    rw [Nat.add_right_comm] at deeper
    have lengths := length_dumpEntries (indent + 2) more (e :: entries) inside deeper
    simp [indentString]
    omega
  | .array [], _, _, first, second => by
    rw [dump] at first second
    cases first
    cases second
    exact le_rfl
  | .array (e :: elements), _, _, first, second => by
    rw [dump] at first second
    obtain ⟨s, inside, rfl⟩ := Option.map_eq_some_iff.mp first
    obtain ⟨t, deeper, rfl⟩ := Option.map_eq_some_iff.mp second
    rw [Nat.add_right_comm] at deeper
    have lengths := length_dumpElements (indent + 2) more (e :: elements) inside deeper
    simp [indentString]
    omega
  | .string _, _, _, first, second
  | .boolean true, _, _, first, second
  | .boolean false, _, _, first, second
  | .numberInteger _, _, _, first, second
  | .numberUnsigned _, _, _, first, second
  | .numberFloat _, _, _, first, second
  | .discarded, _, _, first, second
  | .null, _, _, first, second => by
    rw [dump] at first second
    rw [Option.some.inj (first.symm.trans second)]

theorem length_dumpElements (indent more : Nat) : (l : List Json) → {s t : Bytes} →
    dumpElements toChars indent l = some s → dumpElements toChars (indent + more) l = some t →
    s.length ≤ t.length
  | [], _, _, first, second => by
    cases first
    cases second
    exact le_rfl
  | e :: rest, _, _, first, second => by
    rw [dumpElements] at first second
    obtain ⟨text, one, first⟩ := Option.bind_eq_some_iff.mp first
    obtain ⟨others, all, rfl⟩ := Option.map_eq_some_iff.mp first
    obtain ⟨deepText, deepOne, second⟩ := Option.bind_eq_some_iff.mp second
    obtain ⟨deepOthers, deepAll, rfl⟩ := Option.map_eq_some_iff.mp second
    have here := length_dump indent more e one deepOne
    have later := length_dumpElements indent more rest all deepAll
    simp [indentString]
    omega

theorem length_dumpEntries (indent more : Nat) : (l : List (Bytes × Json)) → {s t : Bytes} →
    dumpEntries toChars indent l = some s → dumpEntries toChars (indent + more) l = some t →
    s.length ≤ t.length
  | [], _, _, first, second => by
    cases first
    cases second
    exact le_rfl
  | (key, e) :: rest, _, _, first, second => by
    rw [dumpEntries] at first second
    obtain ⟨name, named, first⟩ := Option.bind_eq_some_iff.mp first
    obtain ⟨text, one, first⟩ := Option.bind_eq_some_iff.mp first
    obtain ⟨others, all, rfl⟩ := Option.map_eq_some_iff.mp first
    obtain ⟨deepName, deepNamed, second⟩ := Option.bind_eq_some_iff.mp second
    obtain ⟨deepText, deepOne, second⟩ := Option.bind_eq_some_iff.mp second
    obtain ⟨deepOthers, deepAll, rfl⟩ := Option.map_eq_some_iff.mp second
    have here := length_dump indent more e one deepOne
    have later := length_dumpEntries indent more rest all deepAll
    cases named.symm.trans deepNamed
    simp [indentString]
    omega

end

/-- The text of an entry is a part of the text of the object. -/
theorem dump_of_mem {indent : Nat} {entries : List (Bytes × Json)} {key text : Bytes} {e : Json}
    (dumped : dumpEntries toChars indent entries = some text) (member : (key, e) ∈ entries) :
    ∃ part, dump toChars indent e = some part ∧ part.length ≤ text.length := by
  induction entries generalizing text with
  | nil => cases member
  | cons entry rest ih =>
    obtain ⟨name, first⟩ := entry
    rw [dumpEntries] at dumped
    obtain ⟨quotedName, -, dumped⟩ := Option.bind_eq_some_iff.mp dumped
    obtain ⟨one, here, dumped⟩ := Option.bind_eq_some_iff.mp dumped
    obtain ⟨others, all, rfl⟩ := Option.map_eq_some_iff.mp dumped
    rcases List.mem_cons.mp member with same | later
    · cases same
      refine ⟨one, here, ?_⟩
      simp
      omega
    · obtain ⟨part, written, shorter⟩ := ih all later
      refine ⟨part, written, ?_⟩
      simp
      omega

end Dump
end Da4qi4.Valuetool
