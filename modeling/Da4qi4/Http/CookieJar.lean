import Da4qi4.Foundation.KeyedList
import Da4qi4.Foundation.Transition
import Da4qi4.Http.ResponseLines

/-! The cookies of a response over any sequence of calls. A cookie is known by its name,
its domain and its path up to case, and both calls search for these three; what the
second one does to a cookie that it finds goes through the setters of cookies. -/
namespace Da4qi4
open Utilities

namespace Cookie

/-- The setter of the value writes the name. -/
def setValue (c : Cookie) (value : Bytes) : Cookie := { c with name := value }

def setExpiredImmediately (c : Cookie) : Cookie := { c with maxAge := expiresImmediately }

/-- The constructor of the four texts. -/
def ofTexts (name value domain path : Bytes) : Cookie := { name, value, domain, path }

/-- Whether a cookie is the one with these texts. -/
def isNamed (c : Cookie) (name domain path : Bytes) : Bool :=
  iEquals c.name name && iEquals c.domain domain && iEquals c.path path

/-- `Response::SetCookieExpiredImmediately`. -/
def expireIn (name domain path : Bytes) : List Cookie → List Cookie
  | [] => [(ofTexts name [] domain path).setExpiredImmediately]
  | c :: cookies =>
    if c.isNamed name domain path then (c.setValue []).setExpiredImmediately :: cookies
    else c :: expireIn name domain path cookies

/-- Names, domains and paths up to case. -/
abbrev Key := List Int × List Int × List Int

def keyOf (name domain path : Bytes) : Key := (foldCase name, foldCase domain, foldCase path)

def key (c : Cookie) : Key := keyOf c.name c.domain c.path

theorem isNamed_iff {c : Cookie} {name domain path : Bytes} :
    c.isNamed name domain path = true ↔ c.key = keyOf name domain path := by
  simp only [isNamed, Bool.and_eq_true, iEquals_iff, key, keyOf, Prod.mk.injEq, and_assoc]

theorem replaces_iff {c cookie : Cookie} : cookie.replaces c = true ↔ c.key = cookie.key :=
  isNamed_iff

/-- `SetCookie` puts the cookie where the old one of its key was. -/
theorem setIn_eq_update (cookie : Cookie) (cookies : List Cookie) :
    cookie.setIn cookies = KeyedList.update key cookie.key (fun _ => cookie) cookie cookies := by
  induction cookies with
  | nil => rfl
  | cons c cookies ih =>
    rw [setIn, KeyedList.update, ih]
    exact if_congr replaces_iff rfl rfl

theorem expireIn_eq_update (name domain path : Bytes) (cookies : List Cookie) :
    expireIn name domain path cookies =
      KeyedList.update key (keyOf name domain path)
        (fun c => (c.setValue []).setExpiredImmediately)
        (ofTexts name [] domain path).setExpiredImmediately cookies := by
  induction cookies with
  | nil => rfl
  | cons c cookies ih =>
    rw [expireIn, KeyedList.update, ih]
    exact if_congr isNamed_iff rfl rfl

end Cookie

namespace CookieJar
open Cookie (keyOf)

abbrev Jar := List Cookie

inductive Call where
  | setCookie (cookie : Cookie)
  | setCookieExpiredImmediately (name domain path : Bytes)
  deriving DecidableEq, Repr

def apply (jar : Jar) : Call → Jar
  | .setCookie cookie => cookie.setIn jar
  | .setCookieExpiredImmediately name domain path => Cookie.expireIn name domain path jar

def step (jar : Jar) (call : Call) : Option Jar := some (apply jar call)

/-- The key that a call is about. -/
def Call.key : Call → Cookie.Key
  | .setCookie cookie => cookie.key
  | .setCookieExpiredImmediately name domain path => keyOf name domain path

/-- The cookie that a call asks for. -/
def Call.Asks : Call → Cookie → Prop
  | .setCookie cookie, c => c = cookie
  | .setCookieExpiredImmediately _ _ _, c => c.value = [] ∧ c.maxAge = expiresImmediately

/-- What a call should leave: no key twice, under its key what it asks for, and the
cookies of all other keys as they were. -/
structure Obeyed (before : Jar) (call : Call) (after : Jar) : Prop where
  unique : KeyedList.Unique Cookie.key after
  held : ∃ c ∈ after, c.key = call.key ∧ call.Asks c
  kept : KeyedList.others Cookie.key call.key after = KeyedList.others Cookie.key call.key before

/-- A call that expires finds no cookie, or one that has neither a name nor a value. -/
def Suits (jar : Jar) (call : Call) (_ : Jar) : Prop :=
  match call with
  | .setCookie _ => True
  | .setCookieExpiredImmediately name domain path =>
    ∀ c ∈ jar, c.key = keyOf name domain path → c.name = [] ∧ c.value = []

theorem obeyed_setCookie {jar : Jar} (unique : KeyedList.Unique Cookie.key jar)
    (cookie : Cookie) : Obeyed jar (.setCookie cookie) (cookie.setIn jar) := by
  have changed : ∀ c ∈ jar, c.key = cookie.key → cookie.key = cookie.key := fun _ _ _ => rfl
  rw [Cookie.setIn_eq_update]
  constructor
  · exact KeyedList.update_unique unique rfl changed
  · rcases KeyedList.absent_or_front Cookie.key cookie.key jar with
      absent | ⟨front, c, back, rfl, found, before⟩
    · rw [KeyedList.update_absent absent]
      exact ⟨cookie, List.mem_append_right _ List.mem_cons_self, rfl, rfl⟩
    · rw [KeyedList.update_front before found]
      exact ⟨cookie, List.mem_append_right _ List.mem_cons_self, rfl, rfl⟩
  · exact KeyedList.update_others rfl changed

/-- The call does to a cookie that it finds what it should only if the name, which is
taken away instead of the value, and the value were empty. -/
theorem obeyed_expired_iff {jar : Jar} (unique : KeyedList.Unique Cookie.key jar)
    (name domain path : Bytes) :
    Obeyed jar (.setCookieExpiredImmediately name domain path)
        (Cookie.expireIn name domain path jar) ↔
      ∀ c ∈ jar, c.key = keyOf name domain path → c.name = [] ∧ c.value = [] := by
  rw [Cookie.expireIn_eq_update]
  constructor
  · intro obeyed c member found
    obtain ⟨front, d, back, rfl, found', before⟩ := (KeyedList.absent_or_front Cookie.key
      (keyOf name domain path) jar).resolve_left fun absent => absent c member found
    have isThere : d ∈ front ++ d :: back := List.mem_append_right _ List.mem_cons_self
    have same := List.inj_on_of_nodup_map unique member isThere (found.trans found'.symm)
    subst same
    obtain ⟨e, held, keyed, empty, -⟩ := obeyed.held
    rw [KeyedList.update_front before found] at held
    -- no other cookie had the key, so the one that has it now is the one that was changed
    rcases List.mem_append.mp held with early | late
    · exact absurd keyed (before e early)
    · rcases List.mem_cons.mp late with rfl | later
      · have unnamed := congrArg Prod.fst (keyed.trans found.symm)
        exact ⟨List.map_eq_nil_iff.mp unnamed.symm, empty⟩
      · exact absurd (keyed.trans found.symm) (unique.behind later)
  · intro suits
    have keeps : ∀ c ∈ jar, c.key = keyOf name domain path →
        (c.setValue []).setExpiredImmediately.key = keyOf name domain path := by
      intro c member found
      have unnamed := (suits c member found).1
      rw [← found, Cookie.key, Cookie.key, unnamed]
      rfl
    constructor
    · exact KeyedList.update_unique unique rfl keeps
    · rcases KeyedList.absent_or_front Cookie.key (keyOf name domain path) jar with
        absent | ⟨front, c, back, rfl, found, before⟩
      · rw [KeyedList.update_absent absent]
        exact ⟨_, List.mem_append_right _ List.mem_cons_self, rfl, rfl, rfl⟩
      · have isThere : c ∈ front ++ c :: back := List.mem_append_right _ List.mem_cons_self
        rw [KeyedList.update_front before found]
        exact ⟨_, List.mem_append_right _ List.mem_cons_self, keeps c isThere found,
          (suits c isThere found).2, rfl⟩
    · exact KeyedList.update_others rfl keeps

theorem obeyed_iff {jar after : Jar} {call : Call} (unique : KeyedList.Unique Cookie.key jar)
    (called : step jar call = some after) : Obeyed jar call after ↔ Suits jar call after := by
  cases called
  cases call with
  | setCookie cookie => exact iff_of_true (obeyed_setCookie unique cookie) trivial
  | setCookieExpiredImmediately name domain path =>
    exact obeyed_expired_iff unique name domain path

/-- The jar does what it is asked for over a sequence of calls exactly if none of those
that expire finds a cookie with a name or a value. -/
theorem jar_obeys_iff (calls : List Call) :
    Transition.Steps step Obeyed [] calls ↔ Transition.Steps step Suits [] calls :=
  Transition.steps_congr (I := KeyedList.Unique Cookie.key)
    (fun unique called suits => ((obeyed_iff unique called).mpr suits).unique)
    (fun unique called => obeyed_iff unique called) List.nodup_nil

/-- A cookie `a=1`, expired by its name. -/
def expiring : List Call :=
  [.setCookie (Cookie.ofTexts [97] [49] [] []), .setCookieExpiredImmediately [97] [] []]

/-- The jar is left with the value under no name. -/
theorem expiring_disobeyed : ¬Transition.Steps step Obeyed [] expiring := by
  intro obeyed
  obtain ⟨-, later⟩ := obeyed _ rfl
  obtain ⟨expired, -⟩ := later _ rfl
  obtain ⟨c, member, keyed, -⟩ := expired.held
  have left : step (apply [] (.setCookie (Cookie.ofTexts [97] [49] [] [])))
      (.setCookieExpiredImmediately [97] [] []) =
      some [(Cookie.ofTexts [] [49] [] []).setExpiredImmediately] := by decide
  cases List.mem_singleton.mp (Option.some.inj left ▸ member)
  revert keyed
  decide

end CookieJar
end Da4qi4
