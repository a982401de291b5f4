import Da4qi4.Utilities.JsonText

/-! Strings out of values of JSON, by a name or along a path of names. -/
namespace Da4qi4.Valuetool
open ResponseFraming (decimal decimal_ne_nil isDigit isDigit_decimal)

def Json.find : Json → Bytes → Option Json
  | .object entries, name => (entries.find? fun e => e.1 = name).map Prod.snd
  | _, _ => none

def Json.isObject : Json → Bool
  | .object _ => true
  | _ => false

section StringValue
variable (toChars : FiniteDouble → Bytes)

/-- `string_value` of a value; `none` is an exception. -/
def stringValue (j : Json) : Option Bytes :=
  match j with
  | .discarded => some []
  | .string value => some value
  | .numberFloat value => some value.toString
  | .null => some (Bytes.ofAscii "null")
  | .boolean value => some (Bytes.ofAscii (if value then "true" else "false"))
  | .numberInteger value => some (dumpInteger value.toInt32.toInt)
  | .numberUnsigned value => some (dumpInteger value.toUInt32.toInt32.toInt)
  | _ => dump toChars 0 j

/-- With a name. The call for the entry that is found has the default in the place of
the name. -/
def stringValueNamed (j : Json) (itemName defaultValue : Bytes) : Option Bytes :=
  if itemName = [] then stringValue toChars j
  else if ¬j.isObject then some defaultValue
  else
    match j.find itemName with
    | none => some defaultValue
    | some it => stringValueNamed it defaultValue []
  termination_by (if itemName = [] then 0 else 1) + if defaultValue = [] then 0 else 1
  decreasing_by
    rename_i named _
    simp [named]

/-- The loop over a path, from the entry of its first name on. -/
def stringValueAlong (parent : Json) (defaultValue : Bytes) : List Bytes → Option Bytes
  | [] => stringValueNamed toChars parent defaultValue []
  | name :: rest =>
    if ¬parent.isObject then some defaultValue
    else
      match parent.find name with
      | none => some defaultValue
      | some child => stringValueAlong child defaultValue rest

/-- With a path of names. -/
def stringValuePath (j : Json) (namePathes : List Bytes) (defaultValue : Bytes) : Option Bytes :=
  match namePathes with
  | [] => stringValueNamed toChars j defaultValue []
  | name :: rest =>
    if ¬j.isObject then some defaultValue
    else
      match j.find name with
      | none => some defaultValue
      | some parent => stringValueAlong toChars parent defaultValue rest

end StringValue

/-- The node that is reached when every step finds its name in an object. -/
def Json.reach : List Bytes → Json → Option Json
  | [], j => some j
  | name :: rest, j => (j.find name).bind (Json.reach rest)

/-- What is asked for. -/
inductive Query where
  | named (name : Bytes) (some_ : name ≠ [])
  | along (path : List Bytes) (some_ : path ≠ [])

namespace Query

def path : Query → List Bytes
  | named name _ => [name]
  | along path _ => path

def stringValue (toChars : FiniteDouble → Bytes) (q : Query) (j : Json) (defaultValue : Bytes) :
    Option Bytes :=
  match q with
  | named name _ => stringValueNamed toChars j name defaultValue
  | along path _ => stringValuePath toChars j path defaultValue

end Query

/-- The string of the node, or the default. -/
def reachedValue (toChars : FiniteDouble → Bytes) (path : List Bytes) (j : Json)
    (defaultValue : Bytes) : Option Bytes :=
  match j.reach path with
  | some node => stringValue toChars node
  | none => some defaultValue

def Json.isStructured : Json → Bool
  | .object _ => true
  | .array _ => true
  | _ => false

/-- A node that has an empty string, or that has no text because its own entry under the
default has none. -/
def Json.Agrees (node : Json) (defaultValue : Bytes) : Prop :=
  node = .discarded ∨ node = .string [] ∨
    ∃ child, node.find defaultValue = some child ∧ child.isStructured = true ∧
      child.encoded = false

theorem brace_not_mem_decimal (n : Nat) : 123 ∉ decimal n := by
  intro member
  exact absurd (isDigit_decimal n 123 member) (by decide)

theorem brace_not_mem_sign (negative : Bool) : 123 ∉ Double.sign negative := by
  cases negative <;> decide

theorem brace_not_mem_dumpInteger (x : Int) : 123 ∉ dumpInteger x := by
  simp [dumpInteger, brace_not_mem_sign, brace_not_mem_decimal]

theorem dumpInteger_ne_nil (x : Int) : dumpInteger x ≠ [] :=
  List.append_ne_nil_of_right_ne_nil _ (decimal_ne_nil _)

theorem brace_not_mem_toString (x : Double) : 123 ∉ x.toString := by
  cases x with
  | finite x =>
    simp [Double.toString, brace_not_mem_sign, brace_not_mem_decimal, List.mem_replicate]
  | infinity negative =>
    have word : 123 ∉ Bytes.ofAscii "inf" := by decide
    simp [Double.toString, brace_not_mem_sign, word]
  | nan negative =>
    have word : 123 ∉ Bytes.ofAscii "nan" := by decide
    simp [Double.toString, brace_not_mem_sign, word]

theorem toString_ne_nil (x : Double) : x.toString ≠ [] := by
  cases x with
  | finite x => exact List.append_ne_nil_of_right_ne_nil _ (decimal_ne_nil _)
  | infinity negative => exact List.append_ne_nil_of_right_ne_nil _ (by decide)
  | nan negative => exact List.append_ne_nil_of_right_ne_nil _ (by decide)

section StringValue
variable (toChars : FiniteDouble → Bytes)

theorem stringValueNamed_nil (j : Json) (defaultValue : Bytes) :
    stringValueNamed toChars j [] defaultValue = stringValue toChars j := by
  rw [stringValueNamed, if_pos rfl]

theorem stringValueNamed_eq (j : Json) {itemName : Bytes} (named : itemName ≠ [])
    (defaultValue : Bytes) :
    stringValueNamed toChars j itemName defaultValue =
      match j.find itemName with
      | none => some defaultValue
      | some it => stringValueNamed toChars it defaultValue [] := by
  rw [stringValueNamed, if_neg named]
  cases j with
  | object entries => rfl
  | _ => rfl

theorem stringValueAlong_eq (j : Json) (path : List Bytes) (defaultValue : Bytes) :
    stringValueAlong toChars j defaultValue path =
      match j.reach path with
      | none => some defaultValue
      | some node => stringValueNamed toChars node defaultValue [] := by
  induction path generalizing j with
  | nil => rfl
  | cons name rest ih =>
    rw [stringValueAlong, Json.reach]
    cases j with
    | object entries =>
      cases found : (Json.object entries).find name with
      | none => simp [Json.isObject]
      | some child => simp [Json.isObject, ih]
    | _ => rfl

theorem Query.stringValue_eq (q : Query) (j : Json) (defaultValue : Bytes) :
    q.stringValue toChars j defaultValue =
      match j.reach q.path with
      | none => some defaultValue
      | some node => stringValueNamed toChars node defaultValue [] := by
  cases q with
  | named name some_ =>
    rw [Query.stringValue, stringValueNamed_eq toChars j some_, Query.path, Json.reach]
    cases j.find name with
    | none => rfl
    | some child => rfl
  | along path some_ =>
    cases path with
    | nil => exact absurd rfl some_
    | cons name rest => exact stringValueAlong_eq toChars j (name :: rest) defaultValue

theorem stringValue_eq_nil_iff {node : Json} (scalar : node.isObject = false) :
    stringValue toChars node = some [] ↔ node = .discarded ∨ node = .string [] := by
  cases node with
  | object entries => cases scalar
  | array elements =>
    refine iff_of_false ?_ (by simp)
    cases elements with
    | nil => simp [stringValue, dump, Bytes.ofAscii]
    | cons e rest =>
      intro empty
      obtain ⟨inside, -, text⟩ := Option.map_eq_some_iff.mp empty
      cases text
  | string value => simp [stringValue]
  | boolean value => cases value <;> simp [stringValue, Bytes.ofAscii]
  | numberInteger value => simp [stringValue, dumpInteger_ne_nil]
  | numberUnsigned value => simp [stringValue, dumpInteger_ne_nil]
  | numberFloat value => simp [stringValue, toString_ne_nil]
  | discarded => simp [stringValue]
  | null => simp [stringValue, Bytes.ofAscii]

theorem dump_object_head {indent : Nat} {entries : List (Bytes × Json)} {text : Bytes}
    (dumped : dump toChars indent (.object entries) = some text) : ∃ rest, text = 123 :: rest := by
  cases entries with
  | nil =>
    rw [dump] at dumped
    cases dumped
    exact ⟨_, rfl⟩
  | cons e entries =>
    rw [dump] at dumped
    obtain ⟨inside, -, rfl⟩ := Option.map_eq_some_iff.mp dumped
    exact ⟨_, rfl⟩

/-- An entry, with more blanks, has a shorter text than its object. -/
theorem dump_child {entries : List (Bytes × Json)} {name text : Bytes} {child : Json}
    (found : (Json.object entries).find name = some child)
    (dumped : dump toChars 0 (.object entries) = some text) :
    ∃ part, dump toChars 2 child = some part ∧ part.length < text.length := by
  obtain ⟨⟨key, value⟩, isThere, same⟩ := Option.map_eq_some_iff.mp found
  cases same
  have member := List.mem_of_find?_eq_some isThere
  cases entries with
  | nil => cases member
  | cons e entries =>
    rw [dump] at dumped
    obtain ⟨inside, written, rfl⟩ := Option.map_eq_some_iff.mp dumped
    obtain ⟨part, partly, shorter⟩ := dump_of_mem toChars written member
    refine ⟨part, partly, ?_⟩
    simp [Bytes.ofAscii]
    omega

/-- The string of an entry is not the text of its object. -/
theorem stringValue_child_ne {entries : List (Bytes × Json)} {name text : Bytes} {child : Json}
    (found : (Json.object entries).find name = some child)
    (dumped : dump toChars 0 (.object entries) = some text) :
    stringValue toChars child ≠ some text := by
  intro same
  obtain ⟨rest, head⟩ := dump_object_head toChars dumped
  obtain ⟨part, partly, shorter⟩ := dump_child toChars found dumped
  have brace : 123 ∈ text := head ▸ List.mem_cons_self
  cases child with
  | object inner =>
    have longer := length_dump toChars 0 2 (.object inner) same partly
    omega
  | array elements =>
    have longer := length_dump toChars 0 2 (.array elements) same partly
    omega
  | string value =>
    cases same
    obtain ⟨written, dumpedString, rfl⟩ := Option.map_eq_some_iff.mp partly
    have longer := length_dumpEscaped dumpedString
    simp at shorter
    omega
  | boolean value =>
    cases same
    cases value <;> exact absurd brace (by decide)
  | numberInteger value =>
    cases same
    exact brace_not_mem_dumpInteger _ brace
  | numberUnsigned value =>
    cases same
    exact brace_not_mem_dumpInteger _ brace
  | numberFloat value =>
    cases same
    exact brace_not_mem_toString _ brace
  | discarded =>
    cases same
    cases brace
  | null =>
    cases same
    exact absurd brace (by decide)

theorem stringValue_isSome (j : Json) :
    (stringValue toChars j).isSome = (!j.isStructured || j.encoded) := by
  cases j with
  | object entries => simpa [stringValue, Json.isStructured] using dump_isSome toChars 0 _
  | array elements => simpa [stringValue, Json.isStructured] using dump_isSome toChars 0 _
  | _ => rfl

/-- What the call with a default in the place of a name gives, compared with what it
should give. -/
theorem stringValueNamed_default_iff (node : Json) {defaultValue : Bytes}
    (some_ : defaultValue ≠ []) :
    stringValueNamed toChars node defaultValue [] = stringValue toChars node ↔
      node.Agrees defaultValue := by
  rw [stringValueNamed_eq toChars node some_]
  cases object : node.isObject with
  | false =>
    have absent : node.find defaultValue = none := by
      cases node with
      | object entries => cases object
      | _ => rfl
    rw [absent]
    simp only [eq_comm (a := some []), stringValue_eq_nil_iff toChars object, Json.Agrees, absent,
      reduceCtorEq, false_and, exists_false, or_false]
  | true =>
    obtain ⟨entries, rfl⟩ : ∃ entries, node = .object entries := by
      cases node with
      | object entries => exact ⟨entries, rfl⟩
      | _ => cases object
    cases found : (Json.object entries).find defaultValue with
    | none =>
      refine iff_of_false ?_ (by simp [Json.Agrees, found])
      intro same
      obtain ⟨rest, text⟩ := dump_object_head toChars same.symm
      cases text
    | some child =>
      simp only [stringValueNamed_nil, Json.Agrees, found, reduceCtorEq, false_or,
        Option.some.injEq, exists_eq_left']
      have known := stringValue_isSome toChars child
      cases dumped : dump toChars 0 (.object entries) with
      | some text =>
        refine iff_of_false ?_ ?_
        · intro same
          exact stringValue_child_ne toChars found dumped (same.trans dumped)
        · rintro ⟨-, unencoded⟩
          obtain ⟨part, partly, -⟩ := dump_child toChars found dumped
          have encoded := dump_isSome toChars 2 child
          rw [partly, unencoded] at encoded
          cases encoded
      | none =>
        have whole : stringValue toChars (.object entries) = none := dumped
        rw [whole, ← Option.isNone_iff_eq_none, ← Option.not_isSome, known]
        simp

end StringValue

/-- The string that is reached is given exactly if nothing is reached, or the default is
empty, or the node makes no difference. -/
theorem Query.stringValue_iff (toChars : FiniteDouble → Bytes) (q : Query) (j : Json)
    (defaultValue : Bytes) :
    q.stringValue toChars j defaultValue = reachedValue toChars q.path j defaultValue ↔
      ∀ node, j.reach q.path = some node → defaultValue = [] ∨ node.Agrees defaultValue := by
  rw [q.stringValue_eq, reachedValue]
  cases j.reach q.path with
  | none => simp
  | some node =>
    simp only [Option.some.injEq, forall_eq']
    by_cases empty : defaultValue = []
    · simp [empty, stringValueNamed_nil]
    · simp [empty, stringValueNamed_default_iff toChars node empty]

/-- `{"name": "Tom"}`. -/
def person : Json := .object [(Bytes.ofAscii "name", .string (Bytes.ofAscii "Tom"))]

def nameQuery : Query := .named (Bytes.ofAscii "name") (by decide)

/-- With a default the string is lost. -/
theorem name_lost :
    nameQuery.stringValue (fun _ => []) person (Bytes.ofAscii "none") = some [] ∧
      reachedValue (fun _ => []) nameQuery.path person (Bytes.ofAscii "none") =
        some (Bytes.ofAscii "Tom") := by
  have reached : person.reach nameQuery.path = some (.string (Bytes.ofAscii "Tom")) := by rfl
  have named : Bytes.ofAscii "none" ≠ [] := by decide
  constructor
  · simp only [nameQuery.stringValue_eq, reached, stringValueNamed_eq _ _ named, Json.find]
  · simp only [reachedValue, reached, stringValue]

end Da4qi4.Valuetool
