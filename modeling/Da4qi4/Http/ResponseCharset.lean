import Da4qi4.Foundation.FirstSplit
import Da4qi4.Foundation.ResponseFraming
import Da4qi4.Foundation.Transition
import Da4qi4.Http.Response

/-! The charset of a response. It is in a field and in the value of a header, and the
setter of the one looks for the other behind a mark that no setter writes. -/
namespace Da4qi4
open Utilities Transition
open ResponseFraming (isTokenChar)

/-- A text type without parameters. -/
structure TextType where
  text : Bytes
  isText : iStartsWith text (Bytes.ofAscii "text/") = true
  plain : text.all (fun c => isTokenChar c || c == 47) = true

structure CharsetName where
  name : Bytes
  some_ : name ≠ []
  token : name.all isTokenChar = true

namespace Response

inductive CharsetCall where
  | setContentType (contentType : TextType)
  | setCharset (charset : CharsetName)

end Response

/-- A response over the calls, with what was set last. -/
structure Labelled where
  response : Response := .constructed
  contentType : Option TextType := none
  charset : Bytes := Response.constructed.charset
  last : Option Response.CharsetCall := none

namespace Labelled
open Response (CharsetCall contentTypeField charsetParameter)

def step (s : Labelled) (c : CharsetCall) : Option Labelled :=
  match c with
  | .setContentType contentType =>
    some { s with
      response := s.response.setContentType contentType.text
      contentType := some contentType
      last := some c }
  | .setCharset charset =>
    some { s with
      response := s.response.setCharset charset.name
      charset := charset.name
      last := some c }

/-- A header has the type and the charset that were set last, and nothing else; setting
the charset once more changes nothing. -/
structure Exact (s : Labelled) : Prop where
  header : ∀ value, s.response.tryGetHeader contentTypeField = some value →
    ∃ contentType, s.contentType = some contentType ∧
      value = contentType.text ++ charsetParameter s.charset
  repeated : ∀ charset, s.last = some (.setCharset charset) →
    s.response.setCharset charset.name = s.response

/-- A charset is set in front of any type. -/
def Early (s : Labelled) (c : CharsetCall) : Prop :=
  ∀ charset, c = .setCharset charset → s.response.tryGetHeader contentTypeField = none

/-- The field has the charset, too. -/
structure Kept (s : Labelled) : Prop where
  charset : s.response.charset = s.charset
  some_ : s.charset ≠ []
  blank : 32 ∉ s.charset
  header : s.response.tryGetHeader contentTypeField =
    s.contentType.map fun contentType => contentType.text ++ charsetParameter s.charset
  repeated : ∀ charset, s.last = some (.setCharset charset) →
    s.response.setCharset charset.name = s.response

theorem Kept.exact_ {s : Labelled} (kept : s.Kept) : s.Exact := by
  refine ⟨?_, kept.repeated⟩
  intro value known
  rw [kept.header, Option.map_eq_some_iff] at known
  obtain ⟨contentType, set, same⟩ := known
  exact ⟨contentType, set, same.symm⟩

end Labelled

namespace TextType
open Response (charsetParameter splitContentTypeValue isContentTypeNeedCharset)

/-- The mark that is looked for, a blank in front of a semicolon, is not there. -/
theorem mark_absent (contentType : TextType) {charset : Bytes} (blank : 32 ∉ charset) :
    find (contentType.text ++ charsetParameter charset) (Bytes.ofAscii " ;") = none := by
  have plain : 32 ∉ contentType.text := by
    intro inside
    have token := List.all_eq_true.mp contentType.plain 32 inside
    exact absurd token (by decide)
  have text : contentType.text ++ charsetParameter charset =
      (contentType.text ++ [59]) ++ 32 :: (Bytes.ofAscii "charset=" ++ charset) := by
    simp [charsetParameter, Bytes.ofAscii]
  have before : 32 ∉ contentType.text ++ [59] := by simp [plain]
  have behind : 32 ∉ Bytes.ofAscii "charset=" ++ charset := by
    simp [Bytes.ofAscii, blank]
  rw [← Option.not_isSome_iff_eq_none, find_isSome_iff (by decide), text]
  rintro ⟨front, back, same⟩
  have mark : front ++ 32 :: 59 :: back =
      (contentType.text ++ [59]) ++ 32 :: (Bytes.ofAscii "charset=" ++ charset) := by
    simpa [Bytes.ofAscii] using same
  have rest := (FirstSplit.append_cons_inj before behind mark).2
  simp [Bytes.ofAscii] at rest

theorem needCharset (contentType : TextType) (behind : Bytes) :
    isContentTypeNeedCharset (contentType.text ++ behind) = true := by
  rw [isContentTypeNeedCharset, iStartsWith_iff, foldCase_append]
  exact ((iStartsWith_iff _ _).mp contentType.isText).trans (List.prefix_append _ _)

theorem tryGetHeader_setContentType (contentType : TextType) {r : Response} (some_ : r.charset ≠ []) :
    (r.setContentType contentType.text).tryGetHeader Response.contentTypeField =
      some (contentType.text ++ charsetParameter r.charset) := by
  have need : isContentTypeNeedCharset contentType.text = true := contentType.isText
  rw [Response.setContentType, if_pos ⟨need, some_⟩, Response.tryGetHeader_appendHeader]

end TextType

namespace CharsetName

theorem blank_not_mem (charset : CharsetName) : 32 ∉ charset.name := by
  intro inside
  have token := List.all_eq_true.mp charset.token 32 inside
  exact absurd token (by decide)

theorem setCharset_early (charset : CharsetName) {r : Response}
    (untyped : r.tryGetHeader Response.contentTypeField = none) :
    r.setCharset charset.name = { r with charset := charset.name } := by
  have still : ({ r with charset := charset.name } : Response).tryGetHeader
      Response.contentTypeField = none := untyped
  simp only [Response.setCharset, still]

/-- Behind a type, another charset is written behind the one that is there. -/
theorem tryGetHeader_setCharset (charset : CharsetName) {r : Response} {contentType : TextType}
    {old : Bytes} (blank : 32 ∉ old) (known : r.tryGetHeader Response.contentTypeField =
      some (contentType.text ++ Response.charsetParameter old)) :
    (r.setCharset charset.name).tryGetHeader Response.contentTypeField =
      some (contentType.text ++ Response.charsetParameter old ++
        Response.charsetParameter charset.name) := by
  have still : ({ r with charset := charset.name } : Response).tryGetHeader
      Response.contentTypeField = some (contentType.text ++ Response.charsetParameter old) := known
  have whole : Response.splitContentTypeValue (contentType.text ++ Response.charsetParameter old) =
      (contentType.text ++ Response.charsetParameter old, []) := by
    rw [Response.splitContentTypeValue, contentType.mark_absent blank]
  simp only [Response.setCharset, still, whole]
  rw [if_pos ⟨charset.some_, contentType.needCharset _⟩, Response.setContentTypeAndCharset,
    Response.tryGetHeader_appendHeader]

end CharsetName

namespace Labelled
open Response (CharsetCall contentTypeField charsetParameter)

theorem Kept.step {s t : Labelled} {c : CharsetCall} (kept : s.Kept) (stepped : s.step c = some t)
    (early : s.Early c) : t.Kept := by
  cases c with
  | setContentType contentType =>
    cases stepped
    refine ⟨kept.charset, kept.some_, kept.blank, ?_, ?_⟩
    · rw [← kept.charset]
      exact contentType.tryGetHeader_setContentType (kept.charset ▸ kept.some_)
    · intro charset other
      cases other
  | setCharset charset =>
    cases stepped
    have untyped := early charset rfl
    have set := charset.setCharset_early untyped
    refine ⟨by rw [set], charset.some_, charset.blank_not_mem, ?_, ?_⟩
    · rw [kept.header, Option.map_eq_none_iff] at untyped
      rw [set, untyped]
      exact early charset rfl
    · intro again same
      obtain rfl : charset = again := CharsetCall.setCharset.inj (Option.some.inj same)
      have twice : ({ s.response with charset := charset.name } : Response).setCharset charset.name =
          { s.response with charset := charset.name } := charset.setCharset_early untyped
      simp only [set, twice]

/-- A charset that is set behind a type is there twice. -/
theorem early_of_exact {s t : Labelled} {c : CharsetCall} (kept : s.Kept)
    (stepped : s.step c = some t) (exact_ : t.Exact) : s.Early c := by
  rintro charset rfl
  cases stepped
  by_contra typed
  rw [kept.header, Option.map_eq_none_iff] at typed
  obtain ⟨contentType, set⟩ := Option.ne_none_iff_exists'.mp typed
  have known := kept.header
  rw [set, Option.map_some] at known
  have written := charset.tryGetHeader_setCharset kept.blank known
  obtain ⟨other, same, whole⟩ := exact_.header _ written
  obtain rfl : contentType = other := Option.some.inj (set.symm.trans same)
  have lengths := congrArg List.length whole
  simp [charsetParameter, Bytes.ofAscii] at lengths
  omega

/-- Over any calls the header is right exactly if no charset is set behind a type. -/
theorem charset_throughout_iff (calls : List CharsetCall) :
    Throughout step Exact {} calls ↔ Steps step (fun s c _ => s.Early c) {} calls := by
  refine throughout_iff_steps Kept.step early_of_exact Kept.exact_ ?_
  refine ⟨rfl, by decide, by decide, by decide, ?_⟩
  intro charset called
  cases called

def textHtml : TextType := ⟨Bytes.ofAscii "text/html", by decide, by decide⟩

def utf8 : CharsetName := ⟨Bytes.ofAscii "utf-8", by decide, by decide⟩

/-- There are two parameters. -/
theorem charset_doubled :
    ∃ s, run step {} [.setContentType textHtml, .setCharset utf8] = some s ∧
      s.response.tryGetHeader contentTypeField =
        some (Bytes.ofAscii "text/html; charset=UTF-8; charset=utf-8") ∧ ¬s.Exact := by
  refine ⟨_, rfl, by decide, ?_⟩
  intro exact_
  obtain ⟨contentType, set, whole⟩ := exact_.header
    (Bytes.ofAscii "text/html; charset=UTF-8; charset=utf-8") (by decide)
  cases set
  exact absurd whole (by decide)

end Labelled
end Da4qi4
