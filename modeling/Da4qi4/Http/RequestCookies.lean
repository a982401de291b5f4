import Da4qi4.Foundation.FirstSplit
import Da4qi4.Foundation.ResponseFraming
import Da4qi4.Http.Request

/-! The cookies of a request. They come in one header, as names and values that are
separated by semicolons; a value may have the sign in it that stands between the two. -/
namespace Da4qi4
open Utilities
open ResponseFraming (isTokenChar)

/-- No semicolon, no blank and no control character. -/
def isCookieOctet (c : UInt8) : Bool := 32 < c && c != 127 && c != 59

/-- A cookie that a client sends. -/
structure RequestCookie where
  name : Bytes
  value : Bytes
  named : name ≠ []
  token : name.all isTokenChar = true
  octets : value.all isCookieOctet = true

namespace RequestCookie

def text (c : RequestCookie) : Bytes := c.name ++ equals :: c.value

/-- The value of the header. -/
def headerText (cookies : List RequestCookie) : Bytes :=
  (Bytes.ofAscii "; ").intercalate (cookies.map text)

end RequestCookie

namespace Request

def cookieField : Bytes := Bytes.ofAscii "Cookie"

def getCookie (r : Request) (name : Bytes) : Bytes := getHeader r.cookies name

/-- Every cookie has its whole value, and there is no other one. -/
structure HasCookies (r : Request) (cookies : List RequestCookie) : Prop where
  values : ∀ c ∈ cookies, r.getCookie c.name = c.value
  only : ∀ e ∈ r.cookies.entries, ∃ c ∈ cookies, e = (c.name, c.value)

theorem isTokenChar_plain (token : isTokenChar c = true) :
    isSpace c = false ∧ c ≠ equals ∧ c ≠ 59 := by
  simp [isTokenChar, ResponseFraming.isDigit, ResponseFraming.isLetter, isSpace,
    UInt8.le_iff_toNat_le, ← UInt8.toNat_inj, equals] at token ⊢
  omega

theorem isCookieOctet_plain (octet : isCookieOctet c = true) : isSpace c = false ∧ c ≠ 59 := by
  simp [isCookieOctet, isSpace, UInt8.lt_iff_toNat_lt, UInt8.le_iff_toNat_le,
    ← UInt8.toNat_inj] at octet ⊢
  omega

theorem name_plain (c : RequestCookie) :
    ∀ o ∈ c.name, isSpace o = false ∧ o ≠ equals ∧ o ≠ 59 := by
  intro o member
  exact isTokenChar_plain (List.all_eq_true.mp c.token o member)

theorem value_plain (c : RequestCookie) : ∀ o ∈ c.value, isSpace o = false ∧ o ≠ 59 := by
  intro o member
  exact isCookieOctet_plain (List.all_eq_true.mp c.octets o member)

/-- One part of the header. -/
def insertCookie (cookies : ICCookies) (part : Bytes) : ICCookies :=
  match split part 61 .trimAll with
  | [] => cookies
  | k :: kv => cookies.insert k (kv.head?.getD [])

theorem transferHeadersToCookies_eq (r : Request) :
    r.transferHeadersToCookies =
      if getHeader r.headers cookieField = [] then r
      else { r with
        cookies := (split (getHeader r.headers cookieField) 59).foldl insertCookie r.cookies } :=
  rfl

/-- What is taken of a cookie: the value up to an equals sign in it. -/
def taken (c : RequestCookie) : Bytes × Bytes := (c.name, c.value.takeWhile (· != equals))

theorem insertCookie_text {front : Bytes} (spaces : ∀ c ∈ front, isSpace c = true)
    (cookies : ICCookies) (c : RequestCookie) :
    insertCookie cookies (front ++ c.text) = cookies.insert (taken c).1 (taken c).2 := by
  have free : equals ∉ front ++ c.name := by
    intro member
    rcases List.mem_append.mp member with blank | inside
    · exact absurd (spaces _ blank) (by decide)
    · exact (name_plain c _ inside).2.1 rfl
  have pieces : split (front ++ c.text) 61 .trimAll =
      trim (front ++ c.name) :: (c.value.splitOn equals).map trim := by
    rw [RequestCookie.text, ← List.append_assoc, split]
    exact congrArg (List.map trim) (List.splitOn_append_cons_self_of_not_mem free c.value)
  have name : trim (front ++ c.name) = c.name := by
    rw [trim_spaces spaces, trim_black fun o member => (name_plain c o member).1]
  have value : trim (c.value.takeWhile (· != equals)) = c.value.takeWhile (· != equals) := by
    apply trim_black
    intro o member
    exact (value_plain c o (List.takeWhile_subset _ member)).1
  simp only [insertCookie, pieces, name, List.head?_map, FirstSplit.head?_splitOn,
    Option.map_some, value, Option.getD_some, taken]

theorem split_headerText (c : RequestCookie) (cookies : List RequestCookie) :
    split (RequestCookie.headerText (c :: cookies)) 59 =
      c.text :: cookies.map fun d => 32 :: d.text := by
  have free (d : RequestCookie) : (59 : UInt8) ∉ d.text := by
    intro member
    rcases List.mem_append.mp member with inside | behind
    · exact (name_plain d _ inside).2.2 rfl
    · rcases List.mem_cons.mp behind with sign | inside
      · exact absurd sign (by decide)
      · exact (value_plain d _ inside).2 rfl
  have joined : RequestCookie.headerText (c :: cookies) =
      [59].intercalate (c.text :: (cookies.map RequestCookie.text).map (32 :: ·)) :=
    FirstSplit.intercalate_pair 59 32 c.text (cookies.map RequestCookie.text)
  rw [joined, List.map_map]
  refine List.splitOn_intercalate 59 ?_ (List.cons_ne_nil _ _)
  intro part member
  rcases List.mem_cons.mp member with rfl | later
  · exact free c
  · obtain ⟨d, -, rfl⟩ := List.mem_map.mp later
    intro inside
    rcases List.mem_cons.mp inside with blank | inside
    · exact absurd blank (by decide)
    · exact free d inside

theorem foldl_insertCookie (m : ICCookies) (c : RequestCookie) (cookies : List RequestCookie) :
    (c.text :: cookies.map fun d => 32 :: d.text).foldl insertCookie m =
      m.insertAll ((c :: cookies).map taken) := by
  have first : insertCookie m ([] ++ c.text) = m.insert (taken c).1 (taken c).2 :=
    insertCookie_text (by simp) m c
  have later (m : ICCookies) (d : RequestCookie) : insertCookie m ([32] ++ d.text) =
      m.insert (taken d).1 (taken d).2 :=
    insertCookie_text (List.forall_mem_singleton.mpr rfl) m d
  rw [List.foldl_cons, List.foldl_map]
  simp only [List.singleton_append] at later
  simp only [later]
  rw [List.nil_append] at first
  rw [first, OrderedMap.insertAll, List.map_cons, List.foldl_cons, List.foldl_map]

/-- The cookies of the header, each as far as it is taken, and the first one of a name. -/
theorem cookies_transferred (r : Request) (cookies : List RequestCookie)
    (given : getHeader r.headers cookieField = RequestCookie.headerText cookies) :
    r.transferHeadersToCookies.cookies = r.cookies.insertAll (cookies.map taken) := by
  rw [transferHeadersToCookies_eq, given]
  cases cookies with
  | nil => rfl
  | cons c cookies =>
    have some_ : RequestCookie.headerText (c :: cookies) ≠ [] := by
      intro none
      have parts := split_headerText c cookies
      rw [none] at parts
      have empty : [] = c.text := (List.cons.inj parts).1
      exact c.named (List.append_eq_nil_iff.mp empty.symm).1
    rw [if_neg some_, split_headerText, foldl_insertCookie]

theorem getCookie_transferred {r : Request} {cookies : List RequestCookie} (fresh : r.cookies = .empty)
    (given : getHeader r.headers cookieField = RequestCookie.headerText cookies)
    (name : Bytes) :
    r.transferHeadersToCookies.getCookie name =
      (((cookies.map taken).find? (OrderedMap.isAt foldCase name)).map Prod.snd).getD [] := by
  rw [getCookie, getHeader, OrderedMap.lookup, cookies_transferred r cookies given,
    OrderedMap.find_insertAll, fresh, OrderedMap.find_empty, Option.none_or]

/-- What a name leads to is taken of the first cookie whose name is the same but for case. -/
theorem getCookie_member {r : Request} {cookies : List RequestCookie} {c : RequestCookie}
    (fresh : r.cookies = .empty)
    (given : getHeader r.headers cookieField = RequestCookie.headerText cookies)
    (member : c ∈ cookies) :
    ∃ d ∈ cookies, foldCase d.name = foldCase c.name ∧
      r.transferHeadersToCookies.getCookie c.name = (taken d).2 := by
  have known : ((cookies.map taken).find? (OrderedMap.isAt foldCase c.name)).isSome :=
    List.find?_isSome.mpr ⟨taken c, List.mem_map_of_mem member, OrderedMap.isAt_iff.mpr rfl⟩
  obtain ⟨e, found⟩ := Option.isSome_iff_exists.mp known
  obtain ⟨d, there, rfl⟩ := List.mem_map.mp (List.mem_of_find?_eq_some found)
  refine ⟨d, there, OrderedMap.isAt_iff.mp (List.find?_some found), ?_⟩
  rw [getCookie_transferred fresh given, found]
  rfl

/-- A cookie of the request was taken of one of the header. -/
theorem mem_cookies_transferred {r : Request} {cookies : List RequestCookie} {e : Bytes × Bytes}
    (fresh : r.cookies = .empty)
    (given : getHeader r.headers cookieField = RequestCookie.headerText cookies)
    (stored : e ∈ r.transferHeadersToCookies.cookies.entries) :
    ∃ c ∈ cookies, taken c = e := by
  have found := (OrderedMap.mem_iff_find? (OrderedMap.sorted _) e).mp stored
  change r.transferHeadersToCookies.cookies.find e.1 = some e at found
  rw [cookies_transferred r cookies given, OrderedMap.find_insertAll, fresh,
    OrderedMap.find_empty, Option.none_or] at found
  exact List.mem_map.mp (List.mem_of_find?_eq_some found)

theorem taken_whole {c : RequestCookie} (plain : equals ∉ c.value) : taken c = (c.name, c.value) :=
  congrArg (Prod.mk c.name) ((FirstSplit.takeWhile_eq_self_iff _ _).mpr plain)

theorem equals_not_mem_taken (c : RequestCookie) : equals ∉ (taken c).2 := by
  intro inside
  have other := List.mem_takeWhile_imp (p := fun o => o != equals) inside
  exact bne_iff_ne.mp other rfl

/-- The cookies of the header are those of the request exactly if no value has an equals
sign in it, and names that differ in case only have one value. -/
theorem hasCookies_iff (r : Request) (cookies : List RequestCookie) (fresh : r.cookies = .empty)
    (given : getHeader r.headers cookieField = RequestCookie.headerText cookies) :
    r.transferHeadersToCookies.HasCookies cookies ↔
      (∀ c ∈ cookies, equals ∉ c.value) ∧
      ∀ c ∈ cookies, ∀ d ∈ cookies, iEquals c.name d.name = true → c.value = d.value := by
  constructor
  · intro has
    constructor
    · intro c member
      obtain ⟨d, -, -, value⟩ := getCookie_member fresh given member
      rw [← has.values c member, value]
      exact equals_not_mem_taken d
    · intro c member d other same
      have fold := (iEquals_iff _ _).mp same
      rw [← has.values c member, ← has.values d other, getCookie, getCookie, getHeader, getHeader,
        OrderedMap.lookup_congr _ fold]
  · rintro ⟨plain, agree⟩
    constructor
    · intro c member
      obtain ⟨d, other, same, value⟩ := getCookie_member fresh given member
      rw [value, taken_whole (plain d other)]
      exact agree d other c member ((iEquals_iff _ _).mpr same)
    · intro e stored
      obtain ⟨c, member, rfl⟩ := mem_cookies_transferred fresh given stored
      exact ⟨c, member, taken_whole (plain c member)⟩

def sessionCookie : RequestCookie where
  name := Bytes.ofAscii "sid"
  value := Bytes.ofAscii "a1"
  named := by decide
  token := by decide
  octets := by decide

/-- A token in base 64 with padding. -/
def paddedCookie : RequestCookie where
  name := Bytes.ofAscii "token"
  value := Bytes.ofAscii "YQ=="
  named := by decide
  token := by decide
  octets := by decide

def withCookies (cookies : List RequestCookie) : Request :=
  { headers := OrderedMap.empty.insert cookieField (RequestCookie.headerText cookies) }

def languageCookie : RequestCookie where
  name := Bytes.ofAscii "lang"
  value := Bytes.ofAscii "en"
  named := by decide
  token := by decide
  octets := by decide

theorem hasCookies_iff_plain :
    (withCookies [sessionCookie, languageCookie]).transferHeadersToCookies.HasCookies
      [sessionCookie, languageCookie] := by
  apply (hasCookies_iff (withCookies [sessionCookie, languageCookie])
    [sessionCookie, languageCookie] rfl (by decide)).mpr
  decide

theorem padding_lost :
    (withCookies [sessionCookie, paddedCookie]).transferHeadersToCookies.getCookie
        (Bytes.ofAscii "token") = Bytes.ofAscii "YQ" ∧
      ¬(withCookies [sessionCookie, paddedCookie]).transferHeadersToCookies.HasCookies
        [sessionCookie, paddedCookie] := by
  constructor
  · decide
  · intro has
    have whole := has.values paddedCookie (by simp)
    exact absurd whole (by decide)

end Request
end Da4qi4
