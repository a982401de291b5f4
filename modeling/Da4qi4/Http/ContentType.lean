import Da4qi4.Foundation.ResponseFraming
import Da4qi4.Http.Connection

/-! The type of a body in parts, as a client writes it by the grammar of media types
and as the request finds it with searches in the text. -/
namespace Da4qi4
open Utilities Occurrence
open ResponseFraming (isTokenChar isBlank isDigit isLetter)

/-- The text between two quotes: a backslash stands in front of any octet, and a quote
does not stand alone. -/
def isQuotedText : Bytes → Bool
  | 92 :: _ :: rest => isQuotedText rest
  | [92] => false
  | c :: rest => c != 34 && isQuotedText rest
  | [] => true

def unescaped : Bytes → Bytes
  | 92 :: c :: rest => c :: unescaped rest
  | c :: rest => c :: unescaped rest
  | [] => []

def IsTokenText (text : Bytes) : Prop := text ≠ [] ∧ text.all isTokenChar = true

instance (text : Bytes) : Decidable (IsTokenText text) := inferInstanceAs (Decidable (_ ∧ _))

/-- A parameter with the blanks around its semicolon. -/
structure MediaParameter where
  before : Bytes := []
  behind : Bytes := []
  name : Bytes
  inQuotes : Bool := false
  raw : Bytes
  blanks : (before ++ behind).all isBlank = true
  named : IsTokenText name
  valid : if inQuotes then isQuotedText raw = true else IsTokenText raw

namespace MediaParameter

def value (p : MediaParameter) : Bytes := if p.inQuotes then unescaped p.raw else p.raw

def valueText (p : MediaParameter) : Bytes := if p.inQuotes then 34 :: p.raw ++ [34] else p.raw

def text (p : MediaParameter) : Bytes :=
  p.before ++ 59 :: (p.behind ++ p.name ++ 61 :: p.valueText)

end MediaParameter

/-- The characters of a boundary. -/
def isBoundaryChar (c : UInt8) : Bool :=
  isDigit c || isLetter c || (Bytes.ofAscii "'()+_,-./:=? ").contains c

structure IsBoundary (value : Bytes) : Prop where
  some_ : value ≠ []
  short : value.length ≤ 70
  chars : value.all isBoundaryChar = true
  last : value.getLast? ≠ some 32

instance (value : Bytes) : Decidable (IsBoundary value) :=
  decidable_of_iff (value ≠ [] ∧ value.length ≤ 70 ∧ value.all isBoundaryChar = true ∧
    value.getLast? ≠ some 32)
    ⟨fun ⟨some_, short, chars, last⟩ => ⟨some_, short, chars, last⟩,
      fun b => ⟨b.some_, b.short, b.chars, b.last⟩⟩

def boundaryName : Bytes := Bytes.ofAscii "boundary"

/-- A `multipart` type with its boundary among other parameters. -/
structure MultipartType where
  type : Bytes
  subtype : Bytes
  front : List MediaParameter := []
  parameter : MediaParameter
  back : List MediaParameter := []
  isMultipart : iEquals type (Bytes.ofAscii "multipart") = true
  subtyped : IsTokenText subtype
  isBoundary : iEquals parameter.name boundaryName = true ∧ IsBoundary parameter.value
  others : ∀ p ∈ front ++ back, iEquals p.name boundaryName = false

namespace MultipartType

def boundary (t : MultipartType) : Bytes := t.parameter.value

def isFormData (t : MultipartType) : Bool := iEquals t.subtype (Bytes.ofAscii "form-data")

def text (t : MultipartType) : Bytes :=
  t.type ++ 47 :: (t.subtype ++ (t.front ++ t.parameter :: t.back).flatMap MediaParameter.text)

end MultipartType

def contentTypeField : Bytes := Bytes.ofAscii "Content-Type"

def multipartFlag : Bytes := Bytes.ofAscii "multipart/"

def formDataFlag : Bytes := Bytes.ofAscii "form-data"

def boundaryFlag : Bytes := Bytes.ofAscii "boundary="

/-- Behind the first `multipart/` of a text, and behind the first `boundary=` after that,
there is this boundary and nothing else. -/
def EndsWithBoundary (text boundary : Bytes) (isFormData : Bool) : Prop :=
  ∃ front rest mid, FirstAt multipartFlag text front rest ∧ FirstAt boundaryFlag rest mid boundary ∧
    (isFormData = true → formDataFlag <:+: rest)

namespace Request

theorem parseContentType_unmarked {r : Request} {text : Bytes}
    (given : tryGetHeader r.headers contentTypeField = some text)
    (absent : find text multipartFlag = none) : r.parseContentType.boundary = r.boundary := by
  rw [contentTypeField] at given
  rw [multipartFlag] at absent
  rw [parseContentType, given]
  simp only [absent]
  split
  · rfl
  · split
    · rfl
    · rfl

/-- What the searches find behind the type. -/
theorem parseContentType_marked {r : Request} {text : Bytes}
    (given : tryGetHeader r.headers contentTypeField = some text)
    (found : find text multipartFlag = some beg) :
    r.parseContentType.isMultiPart = true ∧
    (r.parseContentType.additionFlags.formdata = true ↔
      formDataFlag <:+: text.drop (beg + 10) ∨ r.additionFlags.formdata = true) ∧
    (∀ mid back, FirstAt boundaryFlag (text.drop (beg + 10)) mid back →
      r.parseContentType.boundary = back) ∧
    (¬boundaryFlag <:+: text.drop (beg + 10) → r.parseContentType.boundary = r.boundary) := by
  rw [contentTypeField] at given
  rw [multipartFlag] at found
  have formdata : (find text formDataFlag (beg + 10)).isSome = true ↔
      formDataFlag <:+: text.drop (beg + 10) := find_isSome_iff (by decide)
  rw [formDataFlag] at formdata ⊢
  rw [parseContentType, given]
  simp only [found]
  refine ⟨?_, ?_, ?_, ?_⟩
  · split
    · rfl
    · rfl
  · rw [← formdata]
    split
    · simp
    · simp
  · intro mid back here
    have place := (find_iff_firstAt (by decide)).mpr ⟨mid, back, here, rfl⟩
    rw [boundaryFlag] at place
    rw [place]
    have rest := here.behind
    rw [List.drop_drop] at rest
    exact rest
  · intro absent
    have none := mt (find_isSome_iff (m := text) (by decide)).mp absent
    rw [Option.not_isSome_iff_eq_none, boundaryFlag] at none
    rw [none]

/-- What the searches leave in a request that they have not been in before. -/
theorem parseContentType_iff {r : Request} {text boundary : Bytes} (isFormData : Bool)
    (given : tryGetHeader r.headers contentTypeField = some text)
    (fresh : r.boundary = [] ∧ r.additionFlags.formdata = false) (some_ : boundary ≠ []) :
    (r.parseContentType.isMultiPart = true ∧
        (isFormData = true → r.parseContentType.additionFlags.formdata = true) ∧
        r.parseContentType.boundary = boundary) ↔
      EndsWithBoundary text boundary isFormData := by
  constructor
  · rintro ⟨-, formData, bounded⟩
    cases found : find text multipartFlag with
    | none =>
      rw [parseContentType_unmarked given found, fresh.1] at bounded
      exact absurd bounded.symm some_
    | some beg =>
      obtain ⟨-, marked, after, before⟩ := parseContentType_marked given found
      obtain ⟨front, rest, here, rfl⟩ := (find_iff_firstAt (by decide)).mp found
      have behind : text.drop (0 + front.length + 10) = rest := by
        rw [Nat.zero_add]
        exact here.behind
      rw [behind] at marked after before
      by_cases occurs : boundaryFlag <:+: rest
      · obtain ⟨mid, back, there⟩ := exists_firstAt occurs
        rw [after mid back there] at bounded
        refine ⟨front, rest, mid, here, bounded ▸ there, ?_⟩
        intro isForm
        rcases marked.mp (formData isForm) with inside | early
        · exact inside
        · rw [fresh.2] at early
          cases early
      · rw [before occurs, fresh.1] at bounded
        exact absurd bounded.symm some_
  · rintro ⟨front, rest, mid, here, there, formData⟩
    have found : find text multipartFlag = some (0 + front.length) :=
      (find_iff_firstAt (by decide)).mpr ⟨front, rest, here, rfl⟩
    obtain ⟨isMultipart, marked, after, -⟩ := parseContentType_marked given found
    have behind : text.drop (0 + front.length + 10) = rest := by
      rw [Nat.zero_add]
      exact here.behind
    rw [behind] at marked after
    exact ⟨isMultipart, fun isForm => marked.mpr (.inl (formData isForm)), after mid boundary there⟩

end Request

namespace Reading

def parseContentType (r : Reading) : Reading := { r with request := r.request.parseContentType }

/-- The request is marked, and a parser is set up with the delimiter of the body. -/
structure Recognises (r : Reading) (t : MultipartType) : Prop where
  isMultiPart : r.parseContentType.request.isMultiPart = true
  formData : t.isFormData = true → r.parseContentType.request.additionFlags.formdata = true
  boundary : r.parseContentType.request.boundary = t.boundary
  parser : r.parseContentType.tryInitMultipartParser.mpParser =
    some { boundary := multipartBoundary t.boundary }

/-- Nothing of an earlier body is left. -/
structure Fresh (r : Reading) : Prop where
  boundary : r.request.boundary = []
  formdata : r.request.additionFlags.formdata = false
  noParser : r.mpParser = none

theorem recognises_iff (r : Reading) (t : MultipartType) (fresh : r.Fresh)
    (given : tryGetHeader r.request.headers contentTypeField = some t.text) :
    r.Recognises t ↔ EndsWithBoundary t.text t.boundary t.isFormData := by
  have parsed := Request.parseContentType_iff t.isFormData given ⟨fresh.boundary, fresh.formdata⟩
    t.isBoundary.2.some_
  constructor
  · intro recognises
    exact parsed.mp ⟨recognises.isMultiPart, recognises.formData, recognises.boundary⟩
  · intro ends
    obtain ⟨isMultiPart, formData, boundary⟩ := parsed.mpr ends
    refine ⟨isMultiPart, formData, boundary, ?_⟩
    have bounded : r.parseContentType.request.boundary = t.boundary := boundary
    have some_ : t.boundary ≠ [] := t.isBoundary.2.some_
    have noParser : r.parseContentType.mpParser = none := fresh.noParser
    rw [tryInitMultipartParser, bounded, if_pos some_, initMultipartParser, if_pos noParser]

end Reading

namespace MultipartType

/-- Lower case, a boundary without quotes behind all other parameters, and none of these
with the text of a boundary in it. -/
structure IsPlain (t : MultipartType) : Prop where
  typed : t.type = Bytes.ofAscii "multipart"
  subtyped : t.isFormData = true → t.subtype = formDataFlag
  named : t.parameter.name = boundaryName
  unquoted : t.parameter.inQuotes = false
  last : t.back = []
  absent : ¬boundaryFlag <:+: t.subtype ++ t.front.flatMap MediaParameter.text ++
    (t.parameter.before ++ 59 :: t.parameter.behind)

theorem IsPlain.endsWithBoundary {t : MultipartType} (plain : t.IsPlain) :
    EndsWithBoundary t.text t.boundary t.isFormData := by
  have parameter : t.parameter.text = t.parameter.before ++ 59 :: t.parameter.behind ++
      (boundaryFlag ++ t.boundary) := by
    have flag : boundaryFlag = boundaryName ++ [61] := by decide
    rw [MediaParameter.text, MediaParameter.valueText, plain.named, boundary, MediaParameter.value, flag]
    simp [plain.unquoted]
  have text : t.text = [] ++ (multipartFlag ++ (t.subtype ++ t.front.flatMap MediaParameter.text ++
      (t.parameter.before ++ 59 :: t.parameter.behind) ++ (boundaryFlag ++ t.boundary))) := by
    have flag : multipartFlag = Bytes.ofAscii "multipart" ++ [47] := by decide
    rw [MultipartType.text, plain.typed, plain.last, List.flatMap_append, List.flatMap_cons,
      parameter, flag]
    simp
  refine ⟨[], _, _, ⟨text, fun f b _ => Nat.zero_le _⟩,
    firstAt_append (by decide) plain.absent t.boundary, ?_⟩
  intro isForm
  rw [plain.subtyped isForm]
  simp only [List.append_assoc]
  exact (List.prefix_append _ _).isInfix

end MultipartType

def abcParameter (inQuotes : Bool) : MediaParameter where
  behind := [32]
  name := boundaryName
  inQuotes := inQuotes
  raw := Bytes.ofAscii "abc"
  blanks := by decide
  named := by decide
  valid := by
    cases inQuotes with
    | false => decide
    | true => decide

def formDataType (inQuotes : Bool) : MultipartType where
  type := Bytes.ofAscii "multipart"
  subtype := formDataFlag
  parameter := abcParameter inQuotes
  isMultipart := by decide
  subtyped := by decide
  isBoundary := by
    cases inQuotes with
    | false => decide
    | true => decide
  others := by simp

namespace Reading

def withType (t : MultipartType) : Reading :=
  { request := { headers := OrderedMap.empty.insert contentTypeField t.text } }

theorem recognises_iff_plain :
    (withType (formDataType false)).Recognises (formDataType false) := by
  apply (recognises_iff (withType (formDataType false)) (formDataType false)
    ⟨rfl, rfl, rfl⟩ (by decide)).mpr
  apply MultipartType.IsPlain.endsWithBoundary
  exact ⟨rfl, fun _ => rfl, rfl, rfl, rfl, by decide⟩

/-- The quotes of a boundary are kept. -/
theorem quotes_kept :
    (withType (formDataType true)).parseContentType.request.boundary =
        Bytes.ofAscii "\"abc\"" ∧
      ¬(withType (formDataType true)).Recognises (formDataType true) := by
  have kept : (withType (formDataType true)).parseContentType.request.boundary =
      Bytes.ofAscii "\"abc\"" := by decide
  refine ⟨kept, ?_⟩
  intro recognises
  have bare := recognises.boundary
  rw [kept] at bare
  exact absurd bare (by decide)

end Reading
end Da4qi4
