import Da4qi4.Utilities.Strings

/-! The applications of a server under their URL roots. The name and the root of an
application never change, so they go with the pointer to it; loggers are left out. -/
namespace Da4qi4
open Utilities

/-- Which object a pointer leads to: the abortive application of the manager, the
default application that the manager makes, or one of the caller's. -/
inductive Origin where
  | abortive
  | default
  | customized (n : Nat)
  deriving DecidableEq, Repr

structure ApplicationPtr where
  origin : Origin
  name : Bytes
  urlRoot : Bytes
  deriving DecidableEq, Repr

def defaultAppName : Bytes := Bytes.ofAscii "DAQI-APP"

def abortiveAppName : Bytes := Bytes.ofAscii "ABORTIVE-APP"

def slash : Bytes := [47]

/-- `Application::Default`. -/
def ApplicationPtr.default (name : Bytes) : ApplicationPtr := ⟨.default, name, slash⟩

/-- `Application::Abortive`. -/
def ApplicationPtr.abortive : ApplicationPtr := ⟨.abortive, abortiveAppName, slash⟩

abbrev ApplicationMap := DescendingMap ApplicationPtr

/-- An application is stored under its root, and the abortive one is never stored. -/
structure ApplicationMgr where
  ndebug : Bool
  map : ApplicationMap := .empty
  mounted : Bool := false
  keyed : ∀ e ∈ map.entries, e.1 = e.2.urlRoot
  apart : ndebug = true → ∀ e ∈ map.entries, e.2 ≠ .abortive

namespace ApplicationMgr

def initial (ndebug : Bool) : ApplicationMgr where
  ndebug := ndebug
  keyed := by intro e member; cases member
  apart := by intro _ e member; cases member

def applications (s : ApplicationMgr) : List ApplicationPtr := s.map.entries.map Prod.snd

/-- What `FindByURL` returns when no root fits. -/
def noMatch (s : ApplicationMgr) : Option ApplicationPtr :=
  if s.ndebug then some .abortive else none

def findByURL (s : ApplicationMgr) (url : Bytes) : Option ApplicationPtr :=
  match s.map.lowerBound url with
  | [] => s.noMatch
  | l :: rest =>
    if iStartsWith url l.1 then some l.2
    else
      match rest.find? fun l => iStartsWith url l.1 with
      | some l => some l.2
      | none => s.noMatch

def findByName (s : ApplicationMgr) (name : Bytes) : Option ApplicationPtr :=
  match s.map.entries.find? fun a => a.2.name = name with
  | some a => some a.2
  | none => if s.ndebug ∧ name = abortiveAppName then some .abortive else none

def isExists (s : ApplicationMgr) (name : Bytes) : Bool := (s.findByName name).isSome

def isEmpty (s : ApplicationMgr) : Bool := s.map.entries.isEmpty

/-- `_map.insert`. -/
def insert (s : ApplicationMgr) (app : ApplicationPtr) (apart : s.ndebug = true → app ≠ .abortive) :
    ApplicationMgr :=
  { s with
    map := s.map.insert app.urlRoot app
    keyed := by
      intro e member
      rcases OrderedMap.mem_insert member with rfl | old
      · rfl
      · exact s.keyed e old
    apart := by
      intro ndebug e member
      rcases OrderedMap.mem_insert member with rfl | old
      · exact apart ndebug
      · exact s.apart ndebug e old }

def createDefault (s : ApplicationMgr) (appName : Bytes := []) : ApplicationMgr :=
  s.insert (.default (if appName ≠ [] then appName else defaultAppName)) (by
    intro _ same
    cases congrArg ApplicationPtr.origin same)

/-- The name of the abortive application is taken. -/
theorem not_abortive_of_free {s : ApplicationMgr} {app : ApplicationPtr}
    (free : s.isExists app.name = false) (ndebug : s.ndebug = true) : app ≠ .abortive := by
  rintro rfl
  simp only [isExists, findByName] at free
  split at free
  · cases free
  · rw [if_pos ⟨ndebug, rfl⟩] at free
    cases free

/-- `none` is a failed assertion. -/
def mountApplication (s : ApplicationMgr) (app : ApplicationPtr) : Option (ApplicationMgr × Bool) :=
  if s.mounted then some (s, false)
  else if ¬ s.ndebug ∧ app.name = [] then none
  else if free : s.isExists app.name = false then
    some (s.insert app (not_abortive_of_free free), true)
  else some (s, false)

def mount (s : ApplicationMgr) : ApplicationMgr := { s with mounted := true }

theorem findByURL_eq_find? (s : ApplicationMgr) (url : Bytes) :
    s.findByURL url =
      match s.map.entries.find? fun e => iStartsWith url e.1 with
      | some e => some e.2
      | none => s.noMatch := by
  have whole : (s.map.lowerBound url).find? (fun e => iStartsWith url e.1) =
      s.map.entries.find? fun e => iStartsWith url e.1 :=
    OrderedMap.find?_begins fun e => iStartsWith_iff url e.1
  rw [← whole, findByURL]
  split
  · rename_i empty
    rw [empty]
    rfl
  · rename_i l rest found
    rw [found, List.find?_cons]
    cases iStartsWith url l.1 with
    | true => rfl
    | false => rfl

/-- The application that `FindByURL` finds is stored and its root begins the target. -/
theorem findByURL_cases (s : ApplicationMgr) (url : Bytes) :
    (∃ e ∈ s.map.entries, iStartsWith url e.1 = true ∧ s.findByURL url = some e.2 ∧
      ∀ f ∈ s.map.entries, iStartsWith url f.1 = true → f = e ∨ f.1.length < e.1.length) ∨
    ((∀ e ∈ s.map.entries, iStartsWith url e.1 = false) ∧ s.findByURL url = s.noMatch) := by
  rw [findByURL_eq_find?]
  cases found : s.map.entries.find? fun e => iStartsWith url e.1 with
  | none =>
    apply Or.inr
    constructor
    · intro e member
      exact Bool.eq_false_iff.mpr (List.find?_eq_none.mp found e member)
    · rfl
  | some e =>
    have begins := List.find?_some found
    refine .inl ⟨e, List.mem_of_find?_eq_some found, begins, rfl, ?_⟩
    intro f member begins
    have longest := OrderedMap.find?_longest (fun e => iStartsWith_iff url e.1) found member begins
    simpa only [foldCase_length] using longest

theorem noMatch_apart {s : ApplicationMgr} {e : Bytes × ApplicationPtr}
    (member : e ∈ s.map.entries) : some e.2 ≠ s.noMatch := by
  rw [noMatch]
  split
  · rename_i ndebug
    intro same
    exact s.apart ndebug e member (Option.some.inj same)
  · intro same
    cases same

theorem mem_applications {s : ApplicationMgr} {app : ApplicationPtr} :
    app ∈ s.applications ↔ (app.urlRoot, app) ∈ s.map.entries := by
  rw [applications, List.mem_map]
  constructor
  · rintro ⟨e, member, rfl⟩
    have key := s.keyed e member
    rw [← key]
    exact member
  · intro member
    exact ⟨_, member, rfl⟩

/-- A target goes to the application with the longest root that begins it, and to no
stored application exactly if no root does. -/
theorem findByURL_longest (s : ApplicationMgr) (url : Bytes) :
    (∀ app ∈ s.applications, iStartsWith url app.urlRoot = true →
      ∃ longest ∈ s.applications, s.findByURL url = some longest ∧
        iStartsWith url longest.urlRoot = true ∧
        ∀ other ∈ s.applications, iStartsWith url other.urlRoot = true →
          other = longest ∨ other.urlRoot.length < longest.urlRoot.length) ∧
    (s.findByURL url = s.noMatch ↔
      ∀ app ∈ s.applications, iStartsWith url app.urlRoot = false) := by
  rcases findByURL_cases s url with ⟨e, member, begins, found, longest⟩ | ⟨none, found⟩
  · have key := s.keyed e member
    have stored : e.2 ∈ s.applications := List.mem_map.mpr ⟨e, member, rfl⟩
    constructor
    · intro _ _ _
      refine ⟨e.2, stored, found, key ▸ begins, ?_⟩
      intro other known fits
      rcases longest _ (mem_applications.mp known) fits with same | shorter
      · exact .inl (congrArg Prod.snd same)
      · exact .inr (key ▸ shorter)
    · constructor
      · intro nothing
        exact absurd (found.symm.trans nothing) (noMatch_apart member)
      · intro none
        have fails := none e.2 stored
        rw [← key, begins] at fails
        cases fails
  · constructor
    · intro app known fits
      have fails := none _ (mem_applications.mp known)
      rw [fits] at fails
      cases fails
    · constructor
      · intro _ app known
        exact none _ (mem_applications.mp known)
      · intro _
        exact found

end ApplicationMgr
end Da4qi4
