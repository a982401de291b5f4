import Da4qi4.Foundation.Transition
import Da4qi4.Server.Server

/-! The application of the root target. It is looked up while the server is set up,
and made where it is not found; what is found then should be what requests find. -/
namespace Da4qi4
open Utilities

/-- The only roots that begin the root target. -/
theorem iStartsWith_slash_iff (root : Bytes) :
    iStartsWith slash root = true ↔ root = slash ∨ root = [] := by
  constructor
  · intro begins
    cases root with
    | nil => exact .inr rfl
    | cons c rest =>
      cases rest with
      | nil =>
        simp only [slash, iStartsWith, Bool.and_true, toUpper] at begins
        have same : c = 47 := by
          split at begins <;> split at begins <;> grind
        exact .inl (by rw [same, slash])
      | cons d rest => simp [slash, iStartsWith] at begins
  · rintro (rfl | rfl)
    · rfl
    · rfl

namespace ApplicationMgr

/-- The application under a root. -/
def under (s : ApplicationMgr) (root : Bytes) : Option ApplicationPtr := s.map.lookup root

/-- The root target goes to the application of the root `/`, else to that of the empty
root. -/
theorem findByURL_slash (s : ApplicationMgr) :
    s.findByURL slash = (s.under slash).or ((s.under []).or s.noMatch) := by
  have stored : ∀ {root app}, s.under root = some app → ∃ e ∈ s.map.entries,
      foldCase e.1 = foldCase root ∧ e.2 = app := by
    intro root app found
    obtain ⟨e, member, same, value⟩ := OrderedMap.mem_of_lookup found
    exact ⟨e, member, OrderedMap.descending_inj.mp same, value⟩
  have begins : ∀ {root} {e : Bytes × ApplicationPtr}, root = slash ∨ root = [] →
      foldCase e.1 = foldCase root → iStartsWith slash e.1 = true := by
    intro root e fits same
    rw [startsWith_congr same]
    exact (iStartsWith_slash_iff root).mpr fits
  rcases s.findByURL_cases slash with ⟨e, member, fits, found, longest⟩ | ⟨none, missed⟩
  · have here : s.under e.1 = some e.2 := OrderedMap.lookup_of_mem member
    rw [found]
    rcases (iStartsWith_slash_iff e.1).mp fits with root | root
    · rw [root] at here
      rw [here]
      rfl
    · rw [root] at here
      cases other : s.under slash with
      | none =>
        rw [here]
        rfl
      | some app =>
        -- The longer root would have been found.
        obtain ⟨f, known, same, rfl⟩ := stored other
        rcases longest f known (begins (.inl rfl) same) with rfl | shorter
        · rfl
        · have lengths := congrArg List.length same
          rw [foldCase_length, foldCase_length] at lengths
          rw [root, lengths] at shorter
          cases shorter
  · have absent : ∀ {root}, root = slash ∨ root = [] → s.under root = Option.none := by
      intro root fits
      apply Option.eq_none_iff_forall_ne_some.mpr
      intro app found
      obtain ⟨e, member, same, -⟩ := stored found
      have holds := begins fits same
      rw [none e member] at holds
      cases holds
    rw [missed, absent (.inl rfl), absent (.inr rfl)]
    rfl

/-- Applications are added and stay. -/
structure Grows (s t : ApplicationMgr) : Prop where
  ndebug : t.ndebug = s.ndebug
  stays : ∀ root app, s.under root = some app → t.under root = some app
  filled : s.isEmpty = false → t.isEmpty = false

theorem Grows.refl (s : ApplicationMgr) : Grows s s := ⟨rfl, fun _ _ => id, id⟩

theorem Grows.trans {s t u : ApplicationMgr} (first : Grows s t) (second : Grows t u) :
    Grows s u :=
  ⟨second.ndebug.trans first.ndebug,
    fun root app found => second.stays root app (first.stays root app found),
    fun some_ => second.filled (first.filled some_)⟩

theorem insert_isEmpty (s : ApplicationMgr) (app : ApplicationPtr) (apart) :
    (s.insert app apart).isEmpty = false := by
  change (OrderedMap.place _ id app.urlRoot app s.map.entries).isEmpty = false
  cases s.map.entries with
  | nil => rfl
  | cons e rest =>
    rw [OrderedMap.place]
    split
    · rfl
    · split
      · rfl
      · rfl

theorem grows_insert (s : ApplicationMgr) (app : ApplicationPtr) (apart) :
    Grows s (s.insert app apart) := by
  refine ⟨rfl, ?_, ?_⟩
  · intro root other found
    simp only [under] at found ⊢
    simp only [insert, OrderedMap.lookup_insert]
    split
    · rename_i same
      rw [OrderedMap.lookup_congr _ same, found]
      rfl
    · exact found
  · intro _
    exact insert_isEmpty s app apart

theorem under_insert_self {s : ApplicationMgr} {app : ApplicationPtr} {apart}
    (free : s.under app.urlRoot = none) : (s.insert app apart).under app.urlRoot = some app := by
  simp only [under] at free ⊢
  simp only [insert, OrderedMap.lookup_insert, free]
  exact if_pos trivial

theorem grows_createDefault (s : ApplicationMgr) (name : Bytes) :
    Grows s (s.createDefault name) := by
  apply grows_insert

theorem grows_mountApplication {s : ApplicationMgr} {mounted : ApplicationMgr × Bool}
    (called : s.mountApplication app = some mounted) : Grows s mounted.1 := by
  rw [mountApplication] at called
  split at called
  · cases called
    exact .refl s
  · split at called
    · cases called
    · split at called
      · rename_i free
        cases called
        exact grows_insert s app (not_abortive_of_free free)
      · cases called
        exact .refl s

end ApplicationMgr

namespace Server
variable {H : Type}

inductive SetUp (H : Type) where
  | mount (app : ApplicationPtr)
  | defaultApp (name : Bytes)
  | addHandler (methods : Methods) (kind : RouterKind) (text : Bytes) (h : H)

def setUp (regex : Regex) (s : Server H) : SetUp H → Option (Server H)
  | .mount app => (s.mount app).map Prod.fst
  | .defaultApp name => (s.defaultApp name).map fun called =>
      { called.1 with returned := called.1.returned ++ called.2.toList }
  | .addHandler methods kind text h => (s.addHandler regex methods kind text h).map Prod.fst

/-- What a search for the root target finds now is what it finds when the server that
`last` has become is running. -/
def Settled (now last : ApplicationMgr) : Prop :=
  (now.under slash).isSome ∨
    ((now.under []).isSome ∧ last.under slash = none) ∨
    (now.under slash = none ∧ now.under [] = none ∧
      (now.ndebug = false ∨
        (last.isEmpty = false ∧ last.under slash = none ∧ last.under [] = none)))

instance (now last : ApplicationMgr) : Decidable (Settled now last) :=
  inferInstanceAs (Decidable (_ ∨ _ ∨ _))

theorem grows_makeDefaultAppIfEmpty (s : Server H) : s.mgr.Grows s.makeDefaultAppIfEmpty.mgr := by
  rw [makeDefaultAppIfEmpty]
  split
  · exact s.mgr.grows_createDefault []
  · exact .refl _

theorem grows_addHandler {s : Server H} {called : Server H × Option ApplicationPtr}
    (added : s.addHandler regex methods kind text h = some called) : s.mgr.Grows called.1.mgr := by
  rw [(addHandler_kept added).1]
  exact s.grows_makeDefaultAppIfEmpty

/-- What requests for the root target find once the server is running. -/
theorem run_findByURL_slash (s : Server H) :
    s.run.mgr.findByURL slash =
      if s.mgr.isEmpty then some (.default defaultAppName) else s.mgr.findByURL slash := by
  split
  · rename_i empty
    have kept : s.mgr.mount.isEmpty = true := empty
    have free : s.mgr.mount.under slash = none := by
      rw [ApplicationMgr.under, OrderedMap.lookup, OrderedMap.find, List.isEmpty_iff.mp kept]
      rfl
    rw [run, makeDefaultAppIfEmpty, if_pos kept, ApplicationMgr.findByURL_slash]
    have made : s.mgr.mount.createDefault.under slash = some (.default defaultAppName) :=
      ApplicationMgr.under_insert_self free
    rw [made]
    rfl
  · rename_i some_
    rw [run_mgr (Bool.eq_false_iff.mpr some_)]
    rfl

theorem under_ne {s : ApplicationMgr} {a b : ApplicationPtr} (first : s.under slash = some a)
    (second : s.under [] = some b) : a ≠ b := by
  rintro rfl
  obtain ⟨e, memberE, sameE, valueE⟩ := OrderedMap.mem_of_lookup first
  obtain ⟨f, memberF, sameF, valueF⟩ := OrderedMap.mem_of_lookup second
  have key : e.1 = f.1 := by rw [s.keyed e memberE, s.keyed f memberF, valueE, valueF]
  rw [key] at sameE
  exact absurd (OrderedMap.descending_inj.mp (sameE.symm.trans sameF)) (by decide)

theorem under_ne_abortive {s : ApplicationMgr} {app : ApplicationPtr} (ndebug : s.ndebug = true)
    (found : s.under root = some app) : app ≠ .abortive := by
  obtain ⟨e, member, -, value⟩ := OrderedMap.mem_of_lookup found
  exact value ▸ s.apart ndebug e member

theorem isEmpty_of_under {s : ApplicationMgr} {app : ApplicationPtr}
    (found : s.under root = some app) : s.isEmpty = false := by
  obtain ⟨e, member, -⟩ := OrderedMap.mem_of_lookup found
  exact List.isEmpty_eq_false_iff_exists_mem.mpr ⟨e, member⟩

/-- An application that `DefaultApp` has found is the one of the root target in the
end, if no better one comes. -/
theorem found_settled_iff {now : ApplicationMgr} {last : Server H} {app : ApplicationPtr}
    (found : now.findByURL slash = some app) (grows : now.Grows last.mgr) :
    last.run.mgr.findByURL slash = some app ↔ Settled now last.mgr := by
  rw [ApplicationMgr.findByURL_slash] at found
  rw [run_findByURL_slash, ApplicationMgr.findByURL_slash]
  cases slashed : now.under slash with
  | some a =>
    rw [slashed] at found
    cases found
    have stays := grows.stays _ _ slashed
    rw [isEmpty_of_under stays, stays]
    exact iff_of_true rfl (.inl (by rw [slashed]; rfl))
  | none =>
    rw [slashed] at found
    cases rootless : now.under [] with
    | some a =>
      rw [rootless] at found
      cases found
      have stays := grows.stays _ _ rootless
      rw [isEmpty_of_under stays, stays]
      simp only [Settled, slashed, rootless, Bool.false_eq_true, if_false]
      cases later : last.mgr.under slash with
      | none => simp
      | some b => simp [under_ne later stays]
    | none =>
      rw [rootless] at found
      simp only [Option.none_or, ApplicationMgr.noMatch] at found
      split at found
      · rename_i ndebug
        cases found
        have lastNdebug : last.mgr.ndebug = true := grows.ndebug.trans ndebug
        simp only [Settled, slashed, rootless, ndebug, ApplicationMgr.noMatch, lastNdebug]
        cases last.mgr.isEmpty with
        | true => simp [ApplicationPtr.default, ApplicationPtr.abortive]
        | false =>
          cases later : last.mgr.under slash with
          | some b => simp [under_ne_abortive lastNdebug later]
          | none =>
            cases other : last.mgr.under [] with
            | some b => simp [under_ne_abortive lastNdebug other]
            | none => simp
      · cases found

/-- `DefaultApp` returns an application, which is that of the root target in the end
exactly if what it found was settled. -/
theorem defaultApp_cases {s : Server H} {name : Bytes} {called : Server H × Option ApplicationPtr}
    (returned : s.defaultApp name = some called) :
    s.mgr.Grows called.1.mgr ∧ called.1.returned = s.returned ∧ ∃ app, called.2 = some app ∧
      ∀ last : Server H, called.1.mgr.Grows last.mgr →
        (last.run.mgr.findByURL slash = some app ↔ Settled s.mgr last.mgr) := by
  rw [defaultApp] at returned
  cases found : s.mgr.findByURL slash with
  | some app =>
    rw [found] at returned
    simp only [reduceCtorEq, and_false, if_false] at returned
    cases returned
    exact ⟨.refl _, rfl, app, rfl, fun last grows => found_settled_iff found grows⟩
  | none =>
    -- No root fits, and there is no abortive application.
    rw [ApplicationMgr.findByURL_slash] at found
    obtain ⟨slashed, rest⟩ := Option.or_eq_none_iff.mp found
    obtain ⟨rootless, nothing⟩ := Option.or_eq_none_iff.mp rest
    have debug : s.mgr.ndebug = false := by
      rw [ApplicationMgr.noMatch] at nothing
      split at nothing
      · cases nothing
      · rename_i debug
        exact Bool.eq_false_iff.mpr debug
    rw [ApplicationMgr.findByURL_slash, slashed, rootless, nothing] at returned
    simp only [Option.or_none] at returned
    split at returned
    · cases returned
    · cases returned
      have grows := s.mgr.grows_createDefault name
      have made : (s.mgr.createDefault name).under slash =
          some (.default (if name ≠ [] then name else defaultAppName)) :=
        ApplicationMgr.under_insert_self slashed
      refine ⟨grows, rfl, .default (if name ≠ [] then name else defaultAppName), ?_, ?_⟩
      · rw [makeDefaultApp, ApplicationMgr.findByURL_slash, made]
        rfl
      · intro last later
        have stays := later.stays _ _ made
        rw [run_findByURL_slash, isEmpty_of_under stays, ApplicationMgr.findByURL_slash, stays]
        exact iff_of_true rfl (.inr (.inr ⟨slashed, rootless, .inl debug⟩))

theorem grows_setUp {s t : Server H} {call : SetUp H} (called : s.setUp regex call = some t) :
    s.mgr.Grows t.mgr := by
  cases call with
  | mount app =>
    obtain ⟨mounted, given, rfl⟩ := Option.map_eq_some_iff.mp called
    obtain ⟨result, stored, rfl⟩ := Option.map_eq_some_iff.mp given
    exact ApplicationMgr.grows_mountApplication stored
  | defaultApp name =>
    obtain ⟨returned, given, rfl⟩ := Option.map_eq_some_iff.mp called
    exact (defaultApp_cases given).1
  | addHandler methods kind text h =>
    obtain ⟨added, given, rfl⟩ := Option.map_eq_some_iff.mp called
    exact grows_addHandler given

theorem grows_run {s t : Server H} {calls : List (SetUp H)}
    (ran : Transition.run (setUp regex) s calls = some t) : s.mgr.Grows t.mgr :=
  Transition.run_invariant (I := fun t => s.mgr.Grows t.mgr)
    (fun grows called => grows.trans (grows_setUp called)) (.refl _) ran

/-- Whether a call of `DefaultApp` finds what is settled. -/
def Finds (last : Server H) (s : Server H) (call : SetUp H) (_ : Server H) : Prop :=
  ∀ name, call = .defaultApp name → Settled s.mgr last.mgr

theorem setUp_returned {s t last : Server H} {call : SetUp H}
    (called : s.setUp regex call = some t) (grows : t.mgr.Grows last.mgr) :
    (∀ app ∈ t.returned, last.run.mgr.findByURL slash = some app) ↔
      (∀ app ∈ s.returned, last.run.mgr.findByURL slash = some app) ∧ Finds last s call t := by
  cases call with
  | mount app =>
    obtain ⟨mounted, given, rfl⟩ := Option.map_eq_some_iff.mp called
    obtain ⟨result, given, rfl⟩ := Option.map_eq_some_iff.mp given
    simp [Finds]
  | addHandler methods kind text h =>
    obtain ⟨added, given, rfl⟩ := Option.map_eq_some_iff.mp called
    simp [Finds, (addHandler_kept given).2]
  | defaultApp name =>
    obtain ⟨returned, given, rfl⟩ := Option.map_eq_some_iff.mp called
    obtain ⟨-, kept, app, isApp, settled⟩ := defaultApp_cases given
    have iff := settled last grows
    simp only [kept, isApp, Option.toList_some, List.mem_append, List.mem_singleton]
    constructor
    · intro all
      refine ⟨fun other known => all other (.inl known), ?_⟩
      intro _ _
      exact iff.mp (all app (.inr rfl))
    · rintro ⟨before, finds⟩ other (known | rfl)
      · exact before other known
      · exact iff.mpr (finds name rfl)

theorem run_returned_iff {s last : Server H} {calls : List (SetUp H)}
    (ran : Transition.run (setUp regex) s calls = some last) :
    (∀ app ∈ last.returned, last.run.mgr.findByURL slash = some app) ↔
      (∀ app ∈ s.returned, last.run.mgr.findByURL slash = some app) ∧
        Transition.Steps (setUp regex) (Finds last) s calls := by
  induction calls generalizing s with
  | nil =>
    cases ran
    exact (and_iff_left trivial).symm
  | cons call calls ih =>
    obtain ⟨t, called, rest⟩ := Option.bind_eq_some_iff.mp ran
    rw [ih rest, setUp_returned called (grows_run rest), and_assoc]
    apply and_congr_right
    intro _
    constructor
    · rintro ⟨finds, steps⟩ u again
      cases called.symm.trans again
      exact ⟨finds, steps⟩
    · intro steps
      exact steps t called

/-- Every application that `DefaultApp` returns is the one that requests for the root
target find, exactly if every call of it finds what is settled. -/
theorem defaultApp_reachable_iff {ndebug : Bool} {regex : Regex} {calls : List (SetUp H)}
    {last : Server H} (ran : Transition.run (setUp regex) (initial ndebug) calls = some last) :
    (∀ app ∈ last.returned, last.run.mgr.findByURL slash = some app) ↔
      Transition.Steps (setUp regex) (Finds last) (initial ndebug) calls := by
  rw [run_returned_iff ran]
  apply and_iff_right
  intro app known
  cases known

/-- The set-up that only asks for the default application. -/
def onlyDefault (ndebug : Bool) : Option (Server Nat) :=
  Transition.run (setUp fun _ => .error []) (initial ndebug) [.defaultApp [97]]

theorem defaultApp_reachable_iff_onlyDefault : ∃ last, onlyDefault false = some last ∧
    ∀ app ∈ last.returned, last.run.mgr.findByURL slash = some app := by
  have runs : (onlyDefault false).isSome = true := by decide
  obtain ⟨last, ran⟩ := Option.isSome_iff_exists.mp runs
  refine ⟨last, ran, (defaultApp_reachable_iff ran).mpr ?_⟩
  intro t _
  refine ⟨?_, trivial⟩
  intro name _
  exact .inr (.inr ⟨rfl, rfl, .inl rfl⟩)

/-- With NDEBUG the abortive application is returned, and requests go to another one. -/
theorem defaultApp_abortive : ∃ last, onlyDefault true = some last ∧
    last.returned = [.abortive] ∧
    last.run.mgr.findByURL slash = some (.default defaultAppName) := by
  have runs : (onlyDefault true).map (fun last => (last.returned, last.run.mgr.findByURL slash)) =
      some ([.abortive], some (.default defaultAppName)) := by decide
  obtain ⟨last, ran, same⟩ := Option.map_eq_some_iff.mp runs
  obtain ⟨returned, found⟩ := Prod.mk.inj same
  exact ⟨last, ran, returned, found⟩

end Server
end Da4qi4
