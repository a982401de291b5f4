import Da4qi4.Http.Cookie
import Da4qi4.Http.ResponseText

/-! The header block of a response, read back line by line. A handler sets headers and
cookies; whatever it sets is written as it is. -/
namespace Da4qi4
open Utilities
open ResponseFraming (decimal isTokenChar)
open HeaderLines (HasLineEnd IsPlain readBlock)

inductive RedirectType where
  | temporary | permanent
  deriving DecidableEq, Repr

namespace Response

def locationField : Bytes := Bytes.ofAscii "Location"

def setLocation (r : Response) (dstLocation : Bytes) : Response :=
  r.appendHeader locationField dstLocation

/-- There is no default body. -/
def replyRedirect (r : Response) (dstLocation : Bytes) (type : RedirectType) (body : Bytes) :
    Response :=
  let statusCode := if type = RedirectType.permanent then 308 else 307
  let r := { r with statusCode := statusCode }.setLocation dstLocation
  if body ≠ [] then { r with body := body } else r

end Response

namespace Cookie

/-- Whether a cookie takes the place of another. -/
def replaces (cookie c : Cookie) : Bool :=
  iEquals c.name cookie.name && iEquals c.domain cookie.domain && iEquals c.path cookie.path

/-- `Response::SetCookie`. -/
def setIn (cookie : Cookie) : List Cookie → List Cookie
  | [] => [cookie]
  | c :: cookies => if cookie.replaces c then cookie :: cookies else c :: cookie.setIn cookies

theorem mem_setIn {cookie c : Cookie} {cookies : List Cookie} (member : c ∈ cookie.setIn cookies) :
    c = cookie ∨ c ∈ cookies := by
  induction cookies with
  | nil => exact .inl (List.mem_singleton.mp member)
  | cons d cookies ih =>
    rw [setIn] at member
    split at member
    · rcases List.mem_cons.mp member with rfl | later
      · exact .inl rfl
      · exact .inr (List.mem_cons_of_mem d later)
    · rcases List.mem_cons.mp member with rfl | later
      · exact .inr List.mem_cons_self
      · rcases ih later with same | old
        · exact .inl same
        · exact .inr (List.mem_cons_of_mem d old)

end Cookie

/-- A response with its cookies. -/
structure CookieResponse extends Response where
  cookies : List Cookie := []
  deriving DecidableEq

namespace CookieResponse

inductive Call where
  | appendHeader (field value : Bytes)
  | setLocation (dstLocation : Bytes)
  | replyRedirect (dstLocation : Bytes) (type : RedirectType) (body : Bytes)
  | setContentType (contentType : Bytes)
  | setContentTypeAndCharset (contentType contentCharset : Bytes)
  | setCookie (cookie : Cookie)

def call (r : CookieResponse) : Call → CookieResponse
  | .appendHeader field value => { r with toResponse := r.toResponse.appendHeader field value }
  | .setLocation dstLocation => { r with toResponse := r.toResponse.setLocation dstLocation }
  | .replyRedirect dstLocation type body =>
    { r with toResponse := r.toResponse.replyRedirect dstLocation type body }
  | .setContentType contentType => { r with toResponse := r.toResponse.setContentType contentType }
  | .setContentTypeAndCharset contentType contentCharset =>
    { r with toResponse := r.toResponse.setContentTypeAndCharset contentType contentCharset }
  | .setCookie cookie => { r with cookies := cookie.setIn r.cookies }

def calls (r : CookieResponse) (made : List Call) : CookieResponse := made.foldl call r

def IsToken (name : Bytes) : Prop := name ≠ [] ∧ name.all isTokenChar = true

instance (name : Bytes) : Decidable (IsToken name) := inferInstanceAs (Decidable (_ ∧ _))

/-- The names of headers are tokens. -/
def Named (r : CookieResponse) : Prop := ∀ h ∈ r.headers.entries, IsToken h.1

instance (r : CookieResponse) : Decidable r.Named := List.decidableBAll _ r.headers.entries

def Call.Named : Call → Prop
  | .appendHeader field _ => IsToken field
  | _ => True

/-- The lines that a client should read. -/
def block (r : CookieResponse) (now : Int) : HeaderLines.Block where
  start := r.statusText
  fields := r.headers.entries ++
    (r.cookies.map fun cookie => (Response.setCookieField, cookie.text now)) ++
    if ¬r.isChunked then [(Response.contentLengthField, decimal r.body.length)] else []

/-- `operator <<`. -/
def text (r : CookieResponse) (now : Int) : Bytes :=
  r.toResponse.text (r.cookies.map fun cookie => cookie.text now)

/-- A value that is set would end its line. -/
def Breaks (lenient : Bool) (r : CookieResponse) : Prop :=
  (∃ h ∈ r.headers.entries, HasLineEnd lenient h.2) ∨ ∃ cookie ∈ r.cookies, cookie.Breaks lenient

instance (lenient : Bool) (r : CookieResponse) : Decidable (r.Breaks lenient) :=
  inferInstanceAs (Decidable (_ ∨ _))

def Call.Breaks (lenient : Bool) : Call → Prop
  | .appendHeader _ value => HasLineEnd lenient value
  | .setLocation dstLocation => HasLineEnd lenient dstLocation
  | .replyRedirect dstLocation _ _ => HasLineEnd lenient dstLocation
  | .setContentType contentType => HasLineEnd lenient contentType
  | .setContentTypeAndCharset contentType contentCharset =>
    HasLineEnd lenient contentType ∨ HasLineEnd lenient contentCharset
  | .setCookie cookie => cookie.Breaks lenient

variable {lenient : Bool} {r : CookieResponse}

/-- A call adds at most one header, under its own name or one that was there. -/
theorem call_headers (lenient : Bool) (r : CookieResponse) (made : Call) :
    (r.call made).headers = r.headers ∨
      ∃ field value, (r.call made).headers = r.headers.assign field value ∧
        (made.Named → IsToken field) ∧
        (HasLineEnd lenient value → made.Breaks lenient ∨ HasLineEnd lenient r.charset) := by
  have location : IsToken Response.locationField := by decide
  have contentType : IsToken Response.contentTypeField := by decide
  have parameter (kind charset : Bytes) :
      HasLineEnd lenient (kind ++ Response.charsetParameter charset) ↔
        HasLineEnd lenient kind ∨ HasLineEnd lenient charset := by
    rw [Response.charsetParameter,
      HeaderLines.hasLineEnd_append (HeaderLines.apart_append (by decide) (by decide) _),
      HeaderLines.hasLineEnd_plain_append (by decide)]
  cases made with
  | appendHeader field value =>
    exact .inr ⟨field, value, rfl, fun named => named, fun ends => .inl ends⟩
  | setLocation dstLocation =>
    exact .inr ⟨_, dstLocation, rfl, fun _ => location, fun ends => .inl ends⟩
  | replyRedirect dstLocation type body =>
    refine .inr ⟨Response.locationField, dstLocation, ?_, fun _ => location, fun ends => .inl ends⟩
    simp only [call, Response.replyRedirect]
    split
    · rfl
    · rfl
  | setContentType kind =>
    refine .inr ⟨Response.contentTypeField, _, rfl, fun _ => contentType, fun ends => ?_⟩
    split at ends
    · exact (parameter kind r.charset).mp ends
    · exact .inl ends
  | setContentTypeAndCharset kind charset =>
    refine .inr ⟨Response.contentTypeField, _, rfl, fun _ => contentType, fun ends => ?_⟩
    exact .inl ((parameter kind charset).mp ends)
  | setCookie cookie => exact .inl rfl

theorem call_charset (r : CookieResponse) (made : Call) : (r.call made).charset = r.charset := by
  cases made with
  | replyRedirect dstLocation type body =>
    simp only [call, Response.replyRedirect]
    split
    · rfl
    · rfl
  | appendHeader field value => rfl
  | setLocation dstLocation => rfl
  | setContentType kind => rfl
  | setContentTypeAndCharset kind charset => rfl
  | setCookie cookie => rfl

theorem named_call (named : r.Named) (token : made.Named) : (r.call made).Named := by
  rcases r.call_headers false made with same | ⟨field, value, added, isToken, -⟩
  · rw [Named, same]
    exact named
  · intro h member
    rw [added] at member
    rcases OrderedMap.mem_assign member with old | ⟨-, new | ⟨g, old, same⟩⟩
    · exact named h old
    · rw [new]
      exact isToken token
    · rw [same]
      exact named g old

theorem named_calls {made : List Call} (named : r.Named) (tokens : ∀ call ∈ made, call.Named) :
    (r.calls made).Named := by
  induction made generalizing r with
  | nil => exact named
  | cons first made ih =>
    apply ih (named_call named (tokens first List.mem_cons_self))
    intro call member
    exact tokens call (List.mem_cons_of_mem first member)

/-- What does not break a line when it is set does not do so afterwards. -/
theorem open_calls {made : List Call} (open_ : ¬r.Breaks lenient)
    (charset : ¬HasLineEnd lenient r.charset) (given : ∀ call ∈ made, ¬call.Breaks lenient) :
    ¬(r.calls made).Breaks lenient := by
  induction made generalizing r with
  | nil => exact open_
  | cons first made ih =>
    have own := given first List.mem_cons_self
    have further : ¬(r.call first).Breaks lenient := by
      rintro (⟨h, member, ends⟩ | ⟨cookie, member, ends⟩)
      · rcases r.call_headers lenient first with same | ⟨field, value, added, -, broken⟩
        · rw [same] at member
          exact open_ (.inl ⟨h, member, ends⟩)
        · rw [added] at member
          rcases OrderedMap.mem_assign member with old | ⟨same, -⟩
          · exact open_ (.inl ⟨h, old, ends⟩)
          · rw [same] at ends
            exact (broken ends).elim own charset
      · cases first with
        | setCookie new =>
          rcases Cookie.mem_setIn member with rfl | old
          · exact own ends
          · exact open_ (.inr ⟨cookie, old, ends⟩)
        | appendHeader field value => exact open_ (.inr ⟨cookie, member, ends⟩)
        | setLocation dstLocation => exact open_ (.inr ⟨cookie, member, ends⟩)
        | replyRedirect dstLocation type body => exact open_ (.inr ⟨cookie, member, ends⟩)
        | setContentType kind => exact open_ (.inr ⟨cookie, member, ends⟩)
        | setContentTypeAndCharset kind charset => exact open_ (.inr ⟨cookie, member, ends⟩)
    apply ih further
    · rw [call_charset]
      exact charset
    · intro call member
      exact given call (List.mem_cons_of_mem first member)

theorem plain_of_token {name : Bytes} (token : IsToken name) :
    IsPlain name ∧ (58 : UInt8) ∉ name := by
  have char (c : UInt8) (other : isTokenChar c = false) : c ∉ name := by
    intro member
    have isToken := List.all_eq_true.mp token.2 c member
    rw [other] at isToken
    cases isToken
  refine ⟨fun c member => ⟨?_, ?_⟩, char 58 (by decide)⟩
  · rintro rfl
    exact char 13 (by decide) member
  · rintro rfl
    exact char 10 (by decide) member

theorem text_eq_blockText (r : CookieResponse) (now : Int) :
    r.text now =
      HeaderLines.blockText (r.block now) ++ if ¬r.isChunked then r.body else [] := by
  have header (h : Bytes × Bytes) : Response.headerText h = HeaderLines.fieldText h := rfl
  rw [text, Response.text, HeaderLines.blockText, HeaderLines.lines, block]
  split
  · simp only [List.flatMap_cons, List.map_append, List.flatMap_append, List.flatMap_map,
      List.map_cons, List.map_nil, List.flatMap_nil, List.append_nil, List.append_assoc, header]
  · simp only [List.flatMap_cons, List.map_append, List.flatMap_append, List.flatMap_map,
      List.append_nil, List.append_assoc, header]

theorem hasLineEnd_fieldText {field : Bytes × Bytes} (plain : IsPlain field.1) :
    HasLineEnd lenient (HeaderLines.fieldText field) ↔ HasLineEnd lenient field.2 := by
  rw [HeaderLines.fieldText, List.append_assoc, HeaderLines.hasLineEnd_plain_append plain,
    HeaderLines.hasLineEnd_plain_append (by decide)]

theorem plain_statusText (r : Response) : IsPlain r.statusText := by
  have summary : IsPlain (Bytes.ofAscii (httpStatusSummary r.statusCode)) := by
    obtain ⟨noReturn, noFeed⟩ := Response.isLine_summary r.statusCode
    intro c member
    constructor
    · rintro rfl
      exact noReturn member
    · rintro rfl
      exact noFeed member
  have protocol : IsPlain (Bytes.ofAscii "HTTP/") := by decide
  have dot : IsPlain [46] := by decide
  have space : IsPlain [32] := by decide
  have version := plain_append (plain_append (plain_append protocol
    (plain_decimal r.versionMajor)) dot) (plain_decimal r.versionMinor)
  have code := plain_append (plain_append version space) (plain_decimal r.statusCode)
  exact plain_append (plain_append code space) summary

/-- Only values that are set can end a line of the block. -/
theorem lines_open_iff (named : r.Named) (now : Int) :
    (∀ line ∈ HeaderLines.lines (r.block now), ¬HasLineEnd lenient line) ↔ ¬r.Breaks lenient := by
  have setCookie : IsPlain Response.setCookieField := by decide
  have contentLength : IsPlain Response.contentLengthField := by decide
  constructor
  · rintro open_ (⟨h, member, ends⟩ | ⟨cookie, member, ends⟩)
    · apply open_ (HeaderLines.fieldText h)
      · apply List.mem_cons_of_mem
        apply List.mem_map_of_mem
        exact List.mem_append_left _ (List.mem_append_left _ member)
      · exact (hasLineEnd_fieldText (plain_of_token (named h member)).1).mpr ends
    · apply open_ (HeaderLines.fieldText (Response.setCookieField, cookie.text now))
      · apply List.mem_cons_of_mem
        apply List.mem_map_of_mem
        exact List.mem_append_left _ (List.mem_append_right _ (List.mem_map_of_mem member))
      · exact (hasLineEnd_fieldText setCookie).mpr ((cookie.hasLineEnd_text now).mpr ends)
  · intro open_ line member ends
    rcases List.mem_cons.mp member with rfl | later
    · exact HeaderLines.not_hasLineEnd_of_plain (plain_statusText r.toResponse) ends
    · obtain ⟨field, written, rfl⟩ := List.mem_map.mp later
      rcases List.mem_append.mp written with front | length
      · rcases List.mem_append.mp front with header | texts
        · have value := (hasLineEnd_fieldText (plain_of_token (named field header)).1).mp ends
          exact open_ (.inl ⟨field, header, value⟩)
        · obtain ⟨cookie, given, rfl⟩ := List.mem_map.mp texts
          have value := (hasLineEnd_fieldText setCookie).mp ends
          exact open_ (.inr ⟨cookie, given, (cookie.hasLineEnd_text now).mp value⟩)
      · split at length
        · rw [List.mem_singleton.mp length, hasLineEnd_fieldText contentLength] at ends
          exact HeaderLines.not_hasLineEnd_of_plain (plain_decimal _) ends
        · cases length

theorem readBlock_eq_iff (lenient : Bool) (now : Int) (named : r.Named) :
    (readBlock lenient (r.text now)).map Prod.fst = some (r.block now) ↔ ¬r.Breaks lenient := by
  have started : (r.block now).start ≠ [] := List.cons_ne_nil _ _
  have noColon : ∀ field ∈ (r.block now).fields, (58 : UInt8) ∉ field.1 := by
    intro field member
    rcases List.mem_append.mp member with front | length
    · rcases List.mem_append.mp front with header | cookie
      · exact (plain_of_token (named field header)).2
      · obtain ⟨cookie, -, rfl⟩ := List.mem_map.mp cookie
        exact (by decide : (58 : UInt8) ∉ Response.setCookieField)
    · split at length
      · rw [List.mem_singleton.mp length]
        exact (by decide : (58 : UInt8) ∉ Response.contentLengthField)
      · cases length
  rw [text_eq_blockText, HeaderLines.readBlock_iff started noColon, lines_open_iff named]

/-- Whatever a handler has set: a client reads the headers, the cookies and the length
exactly if no value in force ends its line. -/
theorem readBlock_calls_iff (lenient : Bool) (now : Int) {r : CookieResponse} (named : r.Named)
    {made : List Call} (tokens : ∀ call ∈ made, call.Named) :
    (readBlock lenient ((r.calls made).text now)).map Prod.fst = some ((r.calls made).block now) ↔
      ¬(r.calls made).Breaks lenient :=
  readBlock_eq_iff lenient now (named_calls named tokens)

def constructed : CookieResponse := { toResponse := Response.constructed }

def oneCookie : List Call :=
  [.setCookie
    { name := [97], value := [98], path := [47], maxAge := 60, secure := true, sameSite := .lax }]

theorem readBlock_calls_iff_oneCookie :
    (readBlock false ((constructed.calls oneCookie).text 0)).map Prod.fst =
      some ((constructed.calls oneCookie).block 0) := by
  have tokens : ∀ call ∈ oneCookie, call.Named := by
    intro call member
    rw [List.mem_singleton.mp member]
    trivial
  exact (readBlock_calls_iff false 0 (by decide) tokens).mpr (by decide)

/-- The target of a redirection adds a cookie. -/
def splitting : List Call := [.replyRedirect (Bytes.ofAscii "/\r\nSet-Cookie:a=b") .temporary []]

theorem redirect_adds_cookie :
    (readBlock false ((constructed.calls splitting).text 0)).map Prod.fst ≠
      some ((constructed.calls splitting).block 0) := by
  decide

end CookieResponse
end Da4qi4
