import Da4qi4.Http.ResponseLines

/-! Lifetimes of cookies. They are asked for as sizes of 64 bits and kept as integers of
32 bits; what a client reads is the `Max-Age` behind the name and the value. -/
namespace Da4qi4
open Utilities
open ResponseFraming (decimal decimalNumber isDigit)

namespace Cookie

inductive HttpOnly where
  | forHttpAndJs | forHttpOnly
  deriving DecidableEq, Repr

inductive Secure where
  | forHttpAndHttps | forHttpsOnly
  deriving DecidableEq, Repr

/-- A response of HTTP/1.0 or older. -/
def isOldVersion (httpVersionMajor httpVersionMinor : Nat) : Bool :=
  httpVersionMajor < 1 || (httpVersionMajor == 1 && httpVersionMinor == 0)

def applyHttpVersion (c : Cookie) (httpVersionMajor httpVersionMinor : Nat) : Cookie :=
  { c with oldVersion := isOldVersion httpVersionMajor httpVersionMinor }

def setHttpOnly (c : Cookie) (only : HttpOnly) : Cookie :=
  { c with httpOnly := decide (only = .forHttpOnly) }

def setMaxAge (c : Cookie) (seconds : Int) : Cookie :=
  { c with maxAge := if 0 ≤ seconds then seconds else 0 }

def setSecure (c : Cookie) (secure : Secure) : Cookie :=
  { c with secure := decide (secure = .forHttpsOnly) }

/-- The `static_cast` of a size to an `int`. -/
def toInt (size : UInt64) : Int := size.toUInt32.toInt32.toInt

end Cookie

namespace CookieResponse

def aged (r : CookieResponse) (cookie : Cookie) (maxAge : UInt64) (httpOnly : Cookie.HttpOnly) :
    Cookie :=
  ((cookie.setMaxAge (Cookie.toInt maxAge)).setHttpOnly httpOnly).applyHttpVersion
    r.versionMajor r.versionMinor

/-- The calls of `SetCookie` and `SetSecureCookie` with a lifetime differ in what the
cookie is made of, and in whether it is secure. -/
def setAged (r : CookieResponse) (cookie : Cookie) (maxAge : UInt64) (httpOnly : Cookie.HttpOnly) :
    CookieResponse :=
  { r with cookies := (r.aged cookie maxAge httpOnly).setIn r.cookies }

def setCookie (r : CookieResponse) (name value : Bytes) (maxAge : UInt64)
    (httpOnly : Cookie.HttpOnly := .forHttpAndJs) : CookieResponse :=
  r.setAged { name, value } maxAge httpOnly

def setSecureCookie (r : CookieResponse) (name value : Bytes) (maxAge : UInt64)
    (httpOnly : Cookie.HttpOnly := .forHttpAndJs) : CookieResponse :=
  r.setAged (Cookie.setSecure { name, value } .forHttpsOnly) maxAge httpOnly

def setCookieFor (r : CookieResponse) (name value domain path : Bytes) (maxAge : UInt64)
    (httpOnly : Cookie.HttpOnly := .forHttpAndJs) : CookieResponse :=
  r.setAged { name, value, domain, path } maxAge httpOnly

def setSecureCookieFor (r : CookieResponse) (name value domain path : Bytes) (maxAge : UInt64)
    (httpOnly : Cookie.HttpOnly := .forHttpAndJs) : CookieResponse :=
  r.setAged (Cookie.setSecure { name, value, domain, path } .forHttpsOnly) maxAge httpOnly

/-- Which of the four is called, and with what besides the lifetime. -/
inductive AgedCall where
  | setCookie (name value : Bytes) (httpOnly : Cookie.HttpOnly)
  | setSecureCookie (name value : Bytes) (httpOnly : Cookie.HttpOnly)
  | setCookieFor (name value domain path : Bytes) (httpOnly : Cookie.HttpOnly)
  | setSecureCookieFor (name value domain path : Bytes) (httpOnly : Cookie.HttpOnly)

namespace AgedCall

/-- The response after the call. -/
def run (r : CookieResponse) (maxAge : UInt64) : AgedCall → CookieResponse
  | .setCookie name value httpOnly => r.setCookie name value maxAge httpOnly
  | .setSecureCookie name value httpOnly => r.setSecureCookie name value maxAge httpOnly
  | .setCookieFor name value domain path httpOnly =>
    r.setCookieFor name value domain path maxAge httpOnly
  | .setSecureCookieFor name value domain path httpOnly =>
    r.setSecureCookieFor name value domain path maxAge httpOnly

/-- The cookie that the call constructs. -/
def cookie : AgedCall → Cookie
  | .setCookie name value _ => { name, value }
  | .setSecureCookie name value _ => Cookie.setSecure { name, value } .forHttpsOnly
  | .setCookieFor name value domain path _ => { name, value, domain, path }
  | .setSecureCookieFor name value domain path _ =>
    Cookie.setSecure { name, value, domain, path } .forHttpsOnly

def httpOnly : AgedCall → Cookie.HttpOnly
  | .setCookie _ _ httpOnly => httpOnly
  | .setSecureCookie _ _ httpOnly => httpOnly
  | .setCookieFor _ _ _ _ httpOnly => httpOnly
  | .setSecureCookieFor _ _ _ _ httpOnly => httpOnly

theorem run_eq (call : AgedCall) (r : CookieResponse) (maxAge : UInt64) :
    call.run r maxAge = r.setAged call.cookie maxAge call.httpOnly := by
  cases call with
  | setCookie name value httpOnly => rfl
  | setSecureCookie name value httpOnly => rfl
  | setCookieFor name value domain path httpOnly => rfl
  | setSecureCookieFor name value domain path httpOnly => rfl

end AgedCall
end CookieResponse

namespace Cookie

/-- The name and the value, with which the line begins. -/
def pairText (c : Cookie) : Bytes := c.name ++ ([61] ++ c.quoted c.value)

/-- The number behind the label, if the line has it behind the name and the value. -/
def readMaxAge (c : Cookie) (line : Bytes) : Option Nat :=
  let label := c.pairText ++ Bytes.ofAscii "; Max-Age="
  if label.isPrefixOf line then some (decimalNumber ((line.drop label.length).takeWhile isDigit))
  else none

/-- What is written behind the lifetime. -/
def attributesText (c : Cookie) : Bytes :=
  c.domainText ++ c.pathText ++ c.sameSiteText ++
    (if c.secure then Bytes.ofAscii "; Secure" else []) ++
    (if c.httpOnly then Bytes.ofAscii "; HttpOnly" else [])

theorem text_eq (c : Cookie) (now : Int) :
    c.text now = c.pairText ++ (c.expiryText now ++ c.attributesText) := by
  simp only [text, pairText, attributesText, List.append_assoc]

/-- An attribute is absent or begins with a semicolon. -/
theorem attributesText_begins (c : Cookie) : ∀ o ∈ c.attributesText.head?, isDigit o = false := by
  have labelled (label : String) (begins : (Bytes.ofAscii label).head? = some 59) (value : Bytes) :
      ∀ o ∈ (Bytes.ofAscii label ++ value).head?, isDigit o = false := by
    intro o first
    rw [List.head?_append, begins] at first
    cases first
    rfl
  have absent : ∀ o ∈ ([] : Bytes).head?, isDigit o = false := by
    intro o first
    cases first
  have joined {l r : Bytes} (front : ∀ o ∈ l.head?, isDigit o = false)
      (back : ∀ o ∈ r.head?, isDigit o = false) : ∀ o ∈ (l ++ r).head?, isDigit o = false := by
    cases l with
    | nil => exact back
    | cons c l => exact front
  have domain : ∀ o ∈ c.domainText.head?, isDigit o = false := by
    rw [domainText]
    split
    · exact labelled _ rfl _
    · exact absent
  have path : ∀ o ∈ c.pathText.head?, isDigit o = false := by
    rw [pathText]
    split
    · exact labelled _ rfl _
    · exact absent
  have sameSite : ∀ o ∈ c.sameSiteText.head?, isDigit o = false := by
    rw [sameSiteText]
    split
    · exact labelled _ rfl _
    · exact absent
  have mark (set : Bool) (label : String) (begins : (Bytes.ofAscii label).head? = some 59) :
      ∀ o ∈ (if set then Bytes.ofAscii label else []).head?, isDigit o = false := by
    split
    · rw [← List.append_nil (Bytes.ofAscii label)]
      exact labelled label begins []
    · exact absent
  exact joined (joined (joined (joined domain path) sameSite) (mark _ _ rfl)) (mark _ _ rfl)

theorem takeWhile_decimal (n : Nat) {rest : Bytes} (stop : ∀ o ∈ rest.head?, isDigit o = false) :
    (decimal n ++ rest).takeWhile isDigit = decimal n := by
  rw [List.takeWhile_append_of_pos (ResponseFraming.isDigit_decimal n)]
  cases rest with
  | nil => simp
  | cons o rest => simp [stop o rfl]

/-- A client of a newer response reads the lifetime that the cookie has. -/
theorem readMaxAge_new {c : Cookie} {now : Int} (new : c.oldVersion = false) (aged : 0 ≤ c.maxAge) :
    c.readMaxAge (c.text now) = some c.maxAge.toNat := by
  have age : c.maxAge = Int.ofNat c.maxAge.toNat := (Int.toNat_of_nonneg aged).symm
  have notExpired : c.maxAge ≠ expiresImmediately := by
    rw [expiresImmediately]
    omega
  have notClosed : c.maxAge ≠ expiresAfterBrowerClose := by
    rw [expiresAfterBrowerClose]
    omega
  have expiry : c.expiryText now = Bytes.ofAscii "; Max-Age=" ++ decimal c.maxAge.toNat := by
    rw [expiryText, if_neg notExpired, if_pos notClosed]
    simp only [quoted, new, Bool.false_eq_true, not_false_eq_true, if_true]
    rw [age]
    rfl
  rw [text_eq, expiry, List.append_assoc, ← List.append_assoc]
  have begins : (c.pairText ++ Bytes.ofAscii "; Max-Age=").isPrefixOf
      (c.pairText ++ Bytes.ofAscii "; Max-Age=" ++
        (decimal c.maxAge.toNat ++ c.attributesText)) = true :=
    List.isPrefixOf_iff_prefix.mpr (List.prefix_append _ _)
  simp only [readMaxAge, begins, if_true, List.drop_left,
    takeWhile_decimal _ c.attributesText_begins, ResponseFraming.decimalNumber_decimal]

/-- An older response has the time instead. -/
theorem readMaxAge_old {c : Cookie} {now : Int} (old : c.oldVersion = true) (aged : 0 ≤ c.maxAge) :
    c.readMaxAge (c.text now) = none := by
  have notExpired : c.maxAge ≠ expiresImmediately := by
    rw [expiresImmediately]
    omega
  have notClosed : c.maxAge ≠ expiresAfterBrowerClose := by
    rw [expiresAfterBrowerClose]
    omega
  have expiry : c.expiryText now =
      Bytes.ofAscii "; Expires=" ++ c.quoted (gmtFormatTime (now + c.maxAge)) := by
    rw [expiryText, if_neg notExpired, if_pos notClosed]
    simp only [old, not_true_eq_false, if_false]
  have other : (c.pairText ++ Bytes.ofAscii "; Max-Age=").isPrefixOf (c.text now) = false := by
    rw [text_eq, expiry, ← Bool.not_eq_true, List.isPrefixOf_iff_prefix,
      List.prefix_append_right_inj, List.append_assoc]
    rintro ⟨rest, same⟩
    have second := congrArg (fun l => l[2]?) same
    simp [Bytes.ofAscii] at second
  simp only [readMaxAge, other, Bool.false_eq_true, if_false]

/-- What a 32-bit lifetime keeps of a size. -/
def keptAge (maxAge : UInt64) : Nat :=
  if maxAge.toNat % 2 ^ 32 < 2 ^ 31 then maxAge.toNat % 2 ^ 32 else 0

theorem toInt_eq (size : UInt64) :
    toInt size =
      if size.toNat % 2 ^ 32 < 2 ^ 31 then (size.toNat % 2 ^ 32 : Int)
      else size.toNat % 2 ^ 32 - 2 ^ 32 := by
  have bits : toInt size = size.toUInt32.toBitVec.toInt := rfl
  rw [bits, BitVec.toInt_eq_toNat_cond]
  simp only [UInt32.toNat_toBitVec, UInt64.toNat_toUInt32]
  split_ifs
  · rfl
  · omega
  · omega
  · rfl

theorem keptAge_of_lt {maxAge : UInt64} (small : maxAge.toNat < 2 ^ 31) :
    keptAge maxAge = maxAge.toNat := by
  have whole : maxAge.toNat % 2 ^ 32 = maxAge.toNat := Nat.mod_eq_of_lt (by omega)
  rw [keptAge, whole, if_pos small]

/-- Nothing above the greatest lifetime is kept. -/
theorem keptAge_le (maxAge : UInt64) : keptAge maxAge ≤ 2 ^ 31 - 1 := by
  rw [keptAge]
  split
  · omega
  · omega

theorem keptAge_le_self (maxAge : UInt64) : keptAge maxAge ≤ maxAge.toNat := by
  rw [keptAge]
  split
  · exact Nat.mod_le _ _
  · exact Nat.zero_le _

theorem keptAge_eq_greatest_iff (maxAge : UInt64) :
    keptAge maxAge = 2 ^ 31 - 1 ↔ maxAge.toNat % 2 ^ 32 = 2 ^ 31 - 1 := by
  rw [keptAge]
  split
  · rfl
  · omega

theorem maxAge_setMaxAge (c : Cookie) (maxAge : UInt64) :
    (c.setMaxAge (toInt maxAge)).maxAge = keptAge maxAge := by
  simp only [setMaxAge, keptAge, toInt_eq]
  split_ifs
  · rfl
  · omega
  · omega
  · rfl

theorem replaces_self (c : Cookie) : c.replaces c = true := by
  simp [replaces, iEquals_iff]

theorem find?_setIn (cookie : Cookie) (cookies : List Cookie) :
    (cookie.setIn cookies).find? cookie.replaces = some cookie := by
  induction cookies with
  | nil => simp [setIn, replaces_self]
  | cons c cookies ih =>
    rw [setIn]
    split
    · simp [replaces_self]
    · rename_i other
      rw [List.find?_cons_of_neg other, ih]

end Cookie

namespace CookieResponse
namespace AgedCall

/-- The `Max-Age` on the line of the cookie after the call. -/
def writtenMaxAge (call : AgedCall) (r : CookieResponse) (now : Int) (maxAge : UInt64) :
    Option Nat :=
  ((call.run r maxAge).cookies.find? call.cookie.replaces).bind fun c => c.readMaxAge (c.text now)

/-- What is written is what was asked for, or the greatest lifetime at least, and is not
below what is written for less. -/
structure KeepsAge (call : AgedCall) (r : CookieResponse) (now : Int) (maxAge : UInt64) : Prop where
  same : maxAge.toNat ≤ 2 ^ 31 - 1 →
    ∀ n ∈ call.writtenMaxAge r now maxAge, n = maxAge.toNat
  long : 2 ^ 31 - 1 < maxAge.toNat → ∀ n ∈ call.writtenMaxAge r now maxAge, 2 ^ 31 - 1 ≤ n
  monotone : ∀ shorter ≤ maxAge, ∀ n ∈ call.writtenMaxAge r now maxAge,
    ∀ less ∈ call.writtenMaxAge r now shorter, less ≤ n

theorem writtenMaxAge_eq (call : AgedCall) (r : CookieResponse) (now : Int) (maxAge : UInt64) :
    call.writtenMaxAge r now maxAge =
      if Cookie.isOldVersion r.versionMajor r.versionMinor then none
      else some (Cookie.keptAge maxAge) := by
  have age : (r.aged call.cookie maxAge call.httpOnly).maxAge = Cookie.keptAge maxAge :=
    Cookie.maxAge_setMaxAge call.cookie maxAge
  have found : (call.run r maxAge).cookies.find? call.cookie.replaces =
      some (r.aged call.cookie maxAge call.httpOnly) := by
    rw [run_eq]
    exact Cookie.find?_setIn (r.aged call.cookie maxAge call.httpOnly) r.cookies
  rw [writtenMaxAge, found, Option.bind_some]
  cases old : Cookie.isOldVersion r.versionMajor r.versionMinor with
  | true => exact Cookie.readMaxAge_old old (age.symm ▸ Int.natCast_nonneg _)
  | false =>
    rw [Cookie.readMaxAge_new old (age.symm ▸ Int.natCast_nonneg _)]
    exact congrArg (fun n : Int => some n.toNat) age

end AgedCall
end CookieResponse
end Da4qi4
