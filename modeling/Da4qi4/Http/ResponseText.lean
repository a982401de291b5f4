import Da4qi4.Foundation.ResponseFraming
import Da4qi4.Http.Response
import Mathlib.Data.List.Forall2

/-! Responses as they are written, and as a client frames them. The length of the
body is always written; whether the client expects a body at all is up to the method
and to the status code. -/
namespace Da4qi4
open Utilities
open ResponseFraming (Method decimal isInterim isBodiless frames)
open ChunkedCoding (crlf)

namespace Response

def statusText (r : Response) : Bytes :=
  Bytes.ofAscii "HTTP/" ++ decimal r.versionMajor ++ [46] ++ decimal r.versionMinor ++ [32] ++
    decimal r.statusCode ++ [32] ++ Bytes.ofAscii (httpStatusSummary r.statusCode)

def headerText (h : Bytes × Bytes) : Bytes := h.1 ++ [58] ++ h.2

def setCookieField : Bytes := Bytes.ofAscii "Set-Cookie"

def contentLengthField : Bytes := Bytes.ofAscii "Content-Length"

/-- `operator <<`. Cookies are known by the texts they are written as. -/
def text (r : Response) (cookies : List Bytes) : Bytes :=
  r.statusText ++ crlf ++
    (r.headers.entries.flatMap fun h => headerText h ++ crlf) ++
    (cookies.flatMap fun cookie => headerText (setCookieField, cookie) ++ crlf) ++
    if ¬r.isChunked then
      headerText (contentLengthField, decimal r.body.length) ++ crlf ++ crlf ++ r.body
    else crlf

/-- A text that stays on its line. -/
def IsLine (line : Bytes) : Prop := (13 : UInt8) ∉ line ∧ (10 : UInt8) ∉ line

instance (line : Bytes) : Decidable (IsLine line) := inferInstanceAs (Decidable (_ ∧ _))

/-- A header that says nothing about the length of the body. -/
def IsPlainHeader (h : Bytes × Bytes) : Prop :=
  h.1 ≠ [] ∧ h.1.all ResponseFraming.isTokenChar = true ∧ IsLine h.2 ∧
    ResponseFraming.sameName h.1 ResponseFraming.transferEncoding = false ∧
    ResponseFraming.sameName h.1 ResponseFraming.contentLength = false

instance (h : Bytes × Bytes) : Decidable (IsPlainHeader h) :=
  inferInstanceAs (Decidable (_ ∧ _ ∧ _ ∧ _ ∧ _))

/-- Not chunked, with a status code of three digits. -/
structure Plain (r : Response) (cookies : List Bytes) : Prop where
  least : 100 ≤ r.statusCode
  most : r.statusCode ≤ 999
  unchunked : r.isChunked = false
  headers : ∀ h ∈ r.headers.entries, IsPlainHeader h
  cookies : ∀ cookie ∈ cookies, IsLine cookie

/-- With a version of two digits. -/
structure Sendable (r : Response) (cookies : List Bytes) : Prop extends r.Plain cookies where
  major : r.versionMajor < 10
  minor : r.versionMinor < 10

theorem isLine_summary (statusCode : Nat) :
    IsLine (Bytes.ofAscii (httpStatusSummary statusCode)) := by
  unfold httpStatusSummary
  split <;> decide +kernel

theorem return_not_mem_statusText (r : Response) : (13 : UInt8) ∉ r.statusText := by
  have digits := ResponseFraming.return_not_mem_decimal
  simp only [statusText, List.mem_append, not_or]
  refine ⟨⟨⟨⟨⟨⟨⟨?_, digits _⟩, ?_⟩, digits _⟩, ?_⟩, digits _⟩, ?_⟩, (isLine_summary _).1⟩
  · decide
  · decide
  · decide
  · decide

theorem statusLine_statusText {r : Response} (sendable : r.Sendable cookies) :
    ResponseFraming.statusLine r.statusText = some r.statusCode := by
  have hundreds : r.statusCode / 100 < 10 := by
    have most := sendable.most
    omega
  have tens := Nat.mod_lt (r.statusCode / 10) (show 0 < 10 by omega)
  have units := Nat.mod_lt r.statusCode (show 0 < 10 by omega)
  have code := ResponseFraming.decimalNumber_decimal r.statusCode
  rw [ResponseFraming.decimal_three sendable.least sendable.most] at code
  rw [statusText, ResponseFraming.decimal_small sendable.major,
    ResponseFraming.decimal_small sendable.minor,
    ResponseFraming.decimal_three sendable.least sendable.most]
  refine (if_pos ⟨?_, rfl⟩).trans (congrArg some code)
  simp only [List.all_cons, List.all_nil, ResponseFraming.isDigit_digitOf sendable.major,
    ResponseFraming.isDigit_digitOf sendable.minor, ResponseFraming.isDigit_digitOf hundreds,
    ResponseFraming.isDigit_digitOf tens, ResponseFraming.isDigit_digitOf units, Bool.and_self]

def parsedHeader (h : Bytes × Bytes) : Bytes × Bytes := (h.1, ResponseFraming.trimBlanks h.2)

/-- All header fields, in their order. -/
def allHeaders (r : Response) (cookies : List Bytes) : List (Bytes × Bytes) :=
  r.headers.entries ++ (cookies.map fun cookie => (setCookieField, cookie)) ++
    [(contentLengthField, decimal r.body.length)]

theorem text_eq_block {r : Response} (unchunked : r.isChunked = false) (cookies : List Bytes) :
    r.text cookies =
      ResponseFraming.block r.statusText ((r.allHeaders cookies).map headerText) ++ r.body := by
  have open_ : ¬r.isChunked = true := Bool.eq_false_iff.mp unchunked
  rw [text, if_pos open_, ResponseFraming.block, allHeaders]
  simp only [List.map_append, List.map_map, List.flatMap_append, List.flatMap_map, List.map_cons,
    List.map_nil, List.flatMap_cons, List.flatMap_nil, List.append_nil, List.append_assoc,
    Function.comp_def]

theorem isField_headerText (some_ : name ≠ [])
    (token : name.all ResponseFraming.isTokenChar = true) (line : (13 : UInt8) ∉ value) :
    ResponseFraming.IsField (headerText (name, value)) (parsedHeader (name, value)) := by
  have return_ : ResponseFraming.isTokenChar 13 = false := by decide
  constructor
  · simp only [headerText, List.mem_append, not_or]
    refine ⟨⟨fun member => ?_, by decide⟩, line⟩
    have isToken := List.all_eq_true.mp token 13 member
    rw [return_] at isToken
    cases isToken
  · rw [headerText, List.append_assoc]
    exact ResponseFraming.field_append some_ (List.all_eq_true.mp token) value

theorem isField_allHeaders {r : Response} (sendable : r.Sendable cookies) :
    List.Forall₂ ResponseFraming.IsField ((r.allHeaders cookies).map headerText)
      ((r.allHeaders cookies).map parsedHeader) := by
  rw [List.forall₂_map_left_iff, List.forall₂_map_right_iff]
  apply List.forall₂_same.mpr
  intro h member
  rw [allHeaders, List.mem_append, List.mem_append, List.mem_singleton] at member
  rcases member with (header | cookie) | rfl
  · obtain ⟨some_, token, line, -⟩ := sendable.headers h header
    exact isField_headerText some_ token line.1
  · obtain ⟨value, given, rfl⟩ := List.mem_map.mp cookie
    exact isField_headerText (by decide) (by decide) (sendable.cookies value given).1
  · exact isField_headerText (by decide) (by decide) (ResponseFraming.return_not_mem_decimal _)

theorem values_allHeaders {r : Response} (sendable : r.Sendable cookies) :
    ResponseFraming.values ResponseFraming.transferEncoding
        ((r.allHeaders cookies).map parsedHeader) = [] ∧
      ResponseFraming.values ResponseFraming.contentLength
        ((r.allHeaders cookies).map parsedHeader) = [decimal r.body.length] := by
  have headers {name : Bytes}
      (absent : ∀ h ∈ r.headers.entries, ResponseFraming.sameName h.1 name = false) :
      ResponseFraming.values name (r.headers.entries.map parsedHeader) = [] := by
    apply ResponseFraming.values_nil
    intro f member
    obtain ⟨h, entry, rfl⟩ := List.mem_map.mp member
    exact absent h entry
  have others {name : Bytes} (absent : ResponseFraming.sameName setCookieField name = false) :
      ResponseFraming.values name
        ((cookies.map fun cookie => (setCookieField, cookie)).map parsedHeader) = [] := by
    apply ResponseFraming.values_nil
    intro f member
    obtain ⟨h, entry, rfl⟩ := List.mem_map.mp member
    obtain ⟨cookie, -, rfl⟩ := List.mem_map.mp entry
    exact absent
  have digits := ResponseFraming.trimBlanks_digits (ResponseFraming.isDigit_decimal r.body.length)
  rw [allHeaders, List.map_append, List.map_append]
  constructor
  · rw [ResponseFraming.values_append, ResponseFraming.values_append,
      headers fun h member => (sendable.headers h member).2.2.2.1, others (by decide)]
    rfl
  · rw [ResponseFraming.values_append, ResponseFraming.values_append,
      headers fun h member => (sendable.headers h member).2.2.2.2, others (by decide)]
    change [ResponseFraming.trimBlanks (decimal r.body.length)] = _
    rw [digits]

/-- What a client takes for the response to its request. -/
def message (r : Response) (cookies : List Bytes) : ResponseFraming.Message :=
  ⟨r.statusCode, r.body, r.text cookies⟩

/-- A final response, whose body is one that the client waits for. -/
def Framable (method : Method) (r : Response) : Prop :=
  isInterim r.statusCode = false ∧ (isBodiless method r.statusCode = true → r.body = [])

instance (method : Method) (r : Response) : Decidable (r.Framable method) :=
  inferInstanceAs (Decidable (_ ∧ (_ → _)))

/-- A client that expects no body stops in front of it. -/
theorem readMessage_bodiless {r : Response} (sendable : r.Sendable cookies)
    (bodiless : isBodiless method r.statusCode = true) (rest : Bytes) :
    ResponseFraming.readMessage method (r.text cookies ++ rest) =
      some (⟨r.statusCode, [],
        ResponseFraming.block r.statusText ((r.allHeaders cookies).map headerText)⟩,
        r.body ++ rest) := by
  have length : ResponseFraming.bodyLength method r.statusCode
      ((r.allHeaders cookies).map parsedHeader) = some .empty := by
    rw [ResponseFraming.bodyLength, if_pos bodiless]
  have ends :
      ResponseFraming.readBody .empty ([] ++ (r.body ++ rest)) = some ([], r.body ++ rest) :=
    rfl
  have read := ResponseFraming.readMessage_block (return_not_mem_statusText r)
    (statusLine_statusText sendable) (isField_allHeaders sendable) length ends
  rw [text_eq_block sendable.unchunked, List.append_assoc]
  rw [List.append_nil, List.nil_append] at read
  exact read

theorem readMessage_bodied {r : Response} (sendable : r.Sendable cookies)
    (bodied : isBodiless method r.statusCode = false) (kept : method ≠ .connect) (rest : Bytes) :
    ResponseFraming.readMessage method (r.text cookies ++ rest) =
      some (r.message cookies, rest) := by
  obtain ⟨uncoded, long⟩ := values_allHeaders sendable
  have ends : ResponseFraming.readBody (.counted r.body.length) (r.body ++ rest) =
      some (r.body, rest) := by
    have enough : r.body.length ≤ (r.body ++ rest).length := by
      rw [List.length_append]
      exact Nat.le_add_right _ _
    rw [ResponseFraming.readBody, if_pos enough, List.take_left, List.drop_left]
  have read := ResponseFraming.readMessage_block (return_not_mem_statusText r)
    (statusLine_statusText sendable) (isField_allHeaders sendable)
    (ResponseFraming.bodyLength_counted bodied kept uncoded long) ends
  rw [message, text_eq_block sendable.unchunked, List.append_assoc]
  exact read

/-- Octets of a body that nobody waits for are taken for what comes next. -/
theorem frames_text_iff {r : Response} (sendable : r.Sendable cookies) (kept : method ≠ .connect)
    (rest : Bytes) :
    frames (method :: methods) (r.text cookies ++ rest) =
        some (r.message cookies :: others, left) ↔
      r.Framable method ∧ frames methods rest = some (others, left) := by
  rw [ResponseFraming.frames_cons_iff]
  constructor
  · rintro ⟨behind, read, further⟩
    have final : isInterim r.statusCode = false := ResponseFraming.readFinal_final read
    cases bodiless : isBodiless method r.statusCode with
    | true =>
      rw [ResponseFraming.readFinal_of_message final (readMessage_bodiless sendable bodiless rest),
        Option.some.injEq, Prod.mk.injEq] at read
      obtain ⟨same, rfl⟩ := read
      have empty : r.body = [] := (congrArg ResponseFraming.Message.content same).symm
      rw [empty] at further
      exact ⟨⟨final, fun _ => empty⟩, further⟩
    | false =>
      rw [ResponseFraming.readFinal_of_message final
        (readMessage_bodied sendable bodiless kept rest), Option.some.injEq, Prod.mk.injEq] at read
      obtain ⟨-, rfl⟩ := read
      refine ⟨⟨final, fun waits => ?_⟩, further⟩
      rw [bodiless] at waits
      cases waits
  · rintro ⟨⟨final, empty⟩, further⟩
    refine ⟨rest, ResponseFraming.readFinal_of_message final ?_ _, further⟩
    cases bodiless : isBodiless method r.statusCode with
    | true =>
      have read := readMessage_bodiless sendable bodiless rest
      have whole := text_eq_block sendable.unchunked cookies
      rw [empty bodiless] at read
      rw [empty bodiless, List.append_nil] at whole
      rw [read, message, whole, empty bodiless]
      rfl
    | false => exact readMessage_bodied sendable bodiless kept rest

end Response
end Da4qi4
