import Da4qi4.Foundation.HeaderLines
import Da4qi4.Foundation.ResponseFraming
import Da4qi4.Utilities.Strings

/-! Cookies as a response writes them. The time of day is given; the calendar is the
Gregorian one, as `std::gmtime` and `strftime` have it. -/
namespace Da4qi4
open Utilities
open ResponseFraming (decimal digitOf)
open HeaderLines (HasLineEnd IsPlain Apart)

def twoDigits (n : Nat) : Bytes := [digitOf (n / 10 % 10), digitOf (n % 10)]

/-- `std::to_string`. -/
def signedDecimal : Int → Bytes
  | .ofNat n => decimal n
  | .negSucc n => 45 :: decimal (n + 1)

structure Date where
  year : Int
  month : Nat
  day : Nat
  deriving DecidableEq, Repr

/-- Days since 1970, counted in eras of 400 years from the first of March. -/
def dateOfDays (days : Int) : Date :=
  let shifted := days + 719468
  let dayOfEra := (shifted.fmod 146097).toNat
  let yearOfEra := (dayOfEra - dayOfEra / 1460 + dayOfEra / 36524 - dayOfEra / 146096) / 365
  let dayOfYear := dayOfEra - (365 * yearOfEra + yearOfEra / 4 - yearOfEra / 100)
  let shiftedMonth := (5 * dayOfYear + 2) / 153
  let month := if shiftedMonth < 10 then shiftedMonth + 3 else shiftedMonth - 9
  { year := yearOfEra + shifted.fdiv 146097 * 400 + if month ≤ 2 then 1 else 0
    month := month
    day := dayOfYear - (153 * shiftedMonth + 2) / 5 + 1 }

def weekdayName : Nat → String
  | 0 => "Sun"
  | 1 => "Mon"
  | 2 => "Tue"
  | 3 => "Wed"
  | 4 => "Thu"
  | 5 => "Fri"
  | _ => "Sat"

def monthName : Nat → String
  | 1 => "Jan"
  | 2 => "Feb"
  | 3 => "Mar"
  | 4 => "Apr"
  | 5 => "May"
  | 6 => "Jun"
  | 7 => "Jul"
  | 8 => "Aug"
  | 9 => "Sep"
  | 10 => "Oct"
  | 11 => "Nov"
  | _ => "Dec"

/-- `"%a, %d %b %Y %H:%M:%S %Z"`. -/
def gmtFormatTime (t : Int) : Bytes :=
  let days := t.fdiv 86400
  let second := (t.fmod 86400).toNat
  let date := dateOfDays days
  Bytes.ofAscii (weekdayName ((days + 4).fmod 7).toNat) ++ Bytes.ofAscii ", " ++
    twoDigits date.day ++ [32] ++ Bytes.ofAscii (monthName date.month) ++ [32] ++
    signedDecimal date.year ++ [32] ++ twoDigits (second / 3600) ++ [58] ++
    twoDigits (second / 60 % 60) ++ [58] ++ twoDigits (second % 60) ++ Bytes.ofAscii " GMT"

example : gmtFormatTime 951782400 = Bytes.ofAscii "Tue, 29 Feb 2000 00:00:00 GMT" := by decide

inductive SameSite where
  | none | lax | strict
  deriving DecidableEq, Repr

def expiresAfterBrowerClose : Int := -2147483648

def expiresImmediately : Int := -2147483647

structure Cookie where
  oldVersion : Bool := false
  name : Bytes
  value : Bytes
  domain : Bytes := []
  path : Bytes := []
  maxAge : Int := expiresAfterBrowerClose
  httpOnly : Bool := false
  secure : Bool := false
  sameSite : SameSite := .none
  deriving DecidableEq, Repr

namespace Cookie

/-- `QV`, with the quotation mark of the old version. -/
def quoted (c : Cookie) (v : Bytes) : Bytes :=
  if ¬c.oldVersion then v
  else if (find v [34]).isNone then [34] ++ v ++ [34]
  else [34] ++ replaceAll v [34] [92, 34] ++ [34]

def expiryText (c : Cookie) (now : Int) : Bytes :=
  if c.maxAge = expiresImmediately then
    Bytes.ofAscii (if ¬c.oldVersion then "; Max-Age=-1" else "; Expires=Thu, 01 Jan 1970 00:00:00 GMT")
  else if c.maxAge ≠ expiresAfterBrowerClose then
    if ¬c.oldVersion then Bytes.ofAscii "; Max-Age=" ++ c.quoted (signedDecimal c.maxAge)
    else Bytes.ofAscii "; Expires=" ++ c.quoted (gmtFormatTime (now + c.maxAge))
  else []

def domainText (c : Cookie) : Bytes :=
  if c.domain ≠ [] then Bytes.ofAscii "; Domain=" ++ c.quoted c.domain else []

def pathText (c : Cookie) : Bytes :=
  if c.path ≠ [] then Bytes.ofAscii "; Path=" ++ c.quoted c.path else []

def sameSiteText (c : Cookie) : Bytes :=
  if ¬c.oldVersion ∧ c.sameSite ≠ .none then
    Bytes.ofAscii "; SameSite=" ++
      c.quoted (Bytes.ofAscii (if c.sameSite = .lax then "Lax" else "Strict"))
  else []

/-- `operator <<`. -/
def text (c : Cookie) (now : Int) : Bytes :=
  c.name ++ ([61] ++ c.quoted c.value) ++ c.expiryText now ++ c.domainText ++ c.pathText ++
    c.sameSiteText ++ (if c.secure then Bytes.ofAscii "; Secure" else []) ++
    (if c.httpOnly then Bytes.ofAscii "; HttpOnly" else [])

end Cookie

theorem plain_append (front : IsPlain l) (back : IsPlain r) : IsPlain (l ++ r) := by
  intro c member
  rcases List.mem_append.mp member with left | right
  · exact front c left
  · exact back c right

theorem plain_of_digits (digits : ∀ c ∈ text, ResponseFraming.isDigit c = true) : IsPlain text := by
  intro c member
  have digit := digits c member
  constructor
  · rintro rfl
    cases digit
  · rintro rfl
    cases digit

theorem plain_decimal (n : Nat) : IsPlain (decimal n) :=
  plain_of_digits (ResponseFraming.isDigit_decimal n)

theorem plain_signedDecimal (n : Int) : IsPlain (signedDecimal n) := by
  cases n with
  | ofNat n => exact plain_decimal n
  | negSucc n => exact plain_append (l := [45]) (by decide) (plain_decimal (n + 1))

theorem plain_twoDigits (n : Nat) : IsPlain (twoDigits n) := by
  apply plain_of_digits
  intro c member
  rcases List.mem_cons.mp member with rfl | units
  · exact ResponseFraming.isDigit_digitOf (Nat.mod_lt _ (by decide))
  · rw [List.mem_singleton.mp units]
    exact ResponseFraming.isDigit_digitOf (Nat.mod_lt _ (by decide))

theorem plain_weekdayName (n : Nat) : IsPlain (Bytes.ofAscii (weekdayName n)) := by
  unfold weekdayName
  split <;> decide

theorem plain_monthName (n : Nat) : IsPlain (Bytes.ofAscii (monthName n)) := by
  unfold monthName
  split <;> decide

theorem plain_gmtFormatTime (t : Int) : IsPlain (gmtFormatTime t) := by
  have space : IsPlain [32] := by decide
  have colon : IsPlain [58] := by decide
  have comma : IsPlain (Bytes.ofAscii ", ") := by decide
  have zone : IsPlain (Bytes.ofAscii " GMT") := by decide
  have day := plain_append (plain_append (plain_append
    (plain_weekdayName ((t.fdiv 86400 + 4).fmod 7).toNat) comma)
    (plain_twoDigits (dateOfDays (t.fdiv 86400)).day)) space
  have date := plain_append (plain_append (plain_append
    (plain_append day (plain_monthName (dateOfDays (t.fdiv 86400)).month)) space)
    (plain_signedDecimal (dateOfDays (t.fdiv 86400)).year)) space
  have hours := plain_append (plain_append date
    (plain_twoDigits ((t.fmod 86400).toNat / 3600))) colon
  have minutes := plain_append (plain_append hours
    (plain_twoDigits ((t.fmod 86400).toNat / 60 % 60))) colon
  exact plain_append (plain_append minutes (plain_twoDigits ((t.fmod 86400).toNat % 60))) zone

namespace Cookie
variable {lenient : Bool}

/-- The mark is escaped wherever it stands. -/
theorem replaceAll_singleton (m : Bytes) (mark : UInt8) (aft : Bytes) :
    replaceAll m [mark] aft = m.flatMap fun c => if c = mark then aft else [c] := by
  have within : ([mark] : Bytes).length - 1 = 0 := rfl
  rw [replaceAll]
  induction m with
  | nil => rfl
  | cons c m ih =>
    rw [replaceFrom, List.flatMap_cons, within, ih]
    by_cases same : c = mark
    · rw [if_pos same, if_pos]
      simp [same]
    · rw [if_neg same, if_neg]
      · rfl
      · simp [Ne.symm same]

theorem hasLineEnd_escaped (v : Bytes) :
    HasLineEnd lenient (replaceAll v [34] [92, 34]) ↔ HasLineEnd lenient v := by
  rw [replaceAll_singleton]
  induction v with
  | nil => exact Iff.rfl
  | cons c v ih =>
    rw [List.flatMap_cons]
    by_cases mark : c = 34
    · rw [if_pos mark, mark, HeaderLines.hasLineEnd_plain_append (by decide), ih,
        HeaderLines.hasLineEnd_cons_plain (by decide) (by decide)]
    · have next : (v.flatMap fun c => if c = 34 then [92, 34] else [c]).head? = some 10 ↔
          v.head? = some 10 := by
        cases v with
        | nil => exact Iff.rfl
        | cons d v =>
          rw [List.flatMap_cons]
          by_cases mark : d = 34
          · rw [if_pos mark, mark]
            exact iff_of_false (by simp) (by simp)
          · rw [if_neg mark]
            rfl
      rw [if_neg mark, List.singleton_append, HeaderLines.hasLineEnd_cons,
        HeaderLines.hasLineEnd_cons, next, ih]

theorem hasLineEnd_quoted (c : Cookie) (v : Bytes) :
    HasLineEnd lenient (c.quoted v) ↔ HasLineEnd lenient v := by
  have mark : IsPlain [34] := by decide
  have apart : Apart [34] := by decide
  have alone : ¬HasLineEnd lenient [34] := HeaderLines.not_hasLineEnd_of_plain mark
  rw [quoted]
  split
  · exact Iff.rfl
  · split
    · rw [HeaderLines.hasLineEnd_append apart, HeaderLines.hasLineEnd_plain_append mark,
        or_iff_left alone]
    · rw [HeaderLines.hasLineEnd_append apart, HeaderLines.hasLineEnd_plain_append mark,
        or_iff_left alone, hasLineEnd_escaped]

/-- A label in front of a value. -/
theorem hasLineEnd_attribute (c : Cookie) (label : String) (plain : IsPlain (Bytes.ofAscii label))
    (v : Bytes) :
    HasLineEnd lenient (if v ≠ [] then Bytes.ofAscii label ++ c.quoted v else []) ↔
      HasLineEnd lenient v := by
  split
  · rw [HeaderLines.hasLineEnd_plain_append plain, hasLineEnd_quoted]
  · rename_i none
    rw [Decidable.not_not.mp none]

theorem plain_quoted (c : Cookie) (plain : IsPlain v) : ¬HasLineEnd lenient (c.quoted v) := by
  rw [hasLineEnd_quoted]
  exact HeaderLines.not_hasLineEnd_of_plain plain

theorem expiryText_open (c : Cookie) (now : Int) : ¬HasLineEnd lenient (c.expiryText now) := by
  rw [expiryText]
  split
  · apply HeaderLines.not_hasLineEnd_of_plain
    split <;> decide
  · split
    · split
      · rw [HeaderLines.hasLineEnd_plain_append (by decide)]
        exact c.plain_quoted (plain_signedDecimal _)
      · rw [HeaderLines.hasLineEnd_plain_append (by decide)]
        exact c.plain_quoted (plain_gmtFormatTime _)
    · exact HeaderLines.hasLineEnd_nil

theorem sameSiteText_open (c : Cookie) : ¬HasLineEnd lenient c.sameSiteText := by
  rw [sameSiteText]
  split
  · rw [HeaderLines.hasLineEnd_plain_append (by decide)]
    apply c.plain_quoted
    split <;> decide
  · exact HeaderLines.hasLineEnd_nil

/-- What an application sets of a cookie. -/
def Breaks (lenient : Bool) (c : Cookie) : Prop :=
  HasLineEnd lenient c.name ∨ HasLineEnd lenient c.value ∨ HasLineEnd lenient c.domain ∨
    HasLineEnd lenient c.path

instance (lenient : Bool) (c : Cookie) : Decidable (c.Breaks lenient) :=
  inferInstanceAs (Decidable (_ ∨ _ ∨ _ ∨ _))

theorem hasLineEnd_text (c : Cookie) (now : Int) :
    HasLineEnd lenient (c.text now) ↔ c.Breaks lenient := by
  have equals : Apart ([61] ++ c.quoted c.value) :=
    HeaderLines.apart_append (by decide) (by decide) _
  have expiry : Apart (c.expiryText now) := by
    rw [expiryText]
    split
    · split <;> decide
    · split
      · split
        · exact HeaderLines.apart_append (by decide) (by decide) _
        · exact HeaderLines.apart_append (by decide) (by decide) _
      · exact HeaderLines.apart_nil
  have domain : Apart c.domainText := HeaderLines.apart_labelled (by decide) (by decide) _
  have path : Apart c.pathText := HeaderLines.apart_labelled (by decide) (by decide) _
  have sameSite : Apart c.sameSiteText := HeaderLines.apart_labelled (by decide) (by decide) _
  have mark (set : Bool) (label : String) (plain : IsPlain (Bytes.ofAscii label)) :
      IsPlain (if set then Bytes.ofAscii label else []) := by
    split
    · exact plain
    · decide
  have secure := mark c.secure "; Secure" (by decide)
  have httpOnly := mark c.httpOnly "; HttpOnly" (by decide)
  rw [text, HeaderLines.hasLineEnd_append httpOnly.apart,
    HeaderLines.hasLineEnd_append secure.apart,
    HeaderLines.hasLineEnd_append sameSite, HeaderLines.hasLineEnd_append path,
    HeaderLines.hasLineEnd_append domain, HeaderLines.hasLineEnd_append expiry,
    HeaderLines.hasLineEnd_append equals, HeaderLines.hasLineEnd_plain_append (by decide),
    hasLineEnd_quoted, domainText, pathText, hasLineEnd_attribute c _ (by decide),
    hasLineEnd_attribute c _ (by decide),
    or_iff_left (HeaderLines.not_hasLineEnd_of_plain httpOnly),
    or_iff_left (HeaderLines.not_hasLineEnd_of_plain secure), or_iff_left c.sameSiteText_open,
    or_iff_left (c.expiryText_open now), or_assoc, or_assoc, Breaks]

end Cookie
end Da4qi4
