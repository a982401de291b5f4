import Da4qi4.Foundation.Transition
import Da4qi4.Server.Templates

/-! Templates whose files are written while they are loaded and checked. A file counts
as changed when it was written behind the second in which the last load ended, so that
a write before the end of that second may never be found. -/
namespace Da4qi4

/-- How far a call has come: it loads, and may look for new files if that fails; or it
has items left to check; or it looks for new files. -/
inductive TemplatesPhase where
  | idle
  | loading (flag : TemplateFlag) (checksNew : Bool)
  | checkingExists (items : List TemplateItem)
  | checkingNew

namespace TemplatesPhase

def isLoading : TemplatesPhase → Bool
  | .loading _ _ => true
  | .idle | .checkingExists _ | .checkingNew => false

end TemplatesPhase

/-- The clock counts whole seconds. A file is its content with the time of its last
write. -/
structure TemplatesWatch where
  clock : Int
  files : Bytes → Option (Bytes × Int)
  templates : Templates
  phase : TemplatesPhase := .idle

namespace TemplatesWatch

def fileAt (s : TemplatesWatch) (path : Bytes) : Option TemplateFile :=
  (s.files path).map fun found => ⟨path, found.1, some found.2⟩

/-- `Preload` up to its first walk. -/
def beginLoad (checksNew : Bool) (s : TemplatesWatch) : TemplatesWatch :=
  if s.templates.Undesired then { s with phase := .idle }
  else { s with templates := s.templates.cleared, phase := .loading .forInclude checksNew }

def beginReload (checksNew : Bool) (s : TemplatesWatch) : TemplatesWatch :=
  beginLoad checksNew
    { s with templates := { s.templates with reloads := s.templates.reloads + 1 } }

inductive Event where
  | tick
  | write (path content : Bytes)
  | remove (path : Bytes)
  | preload
  | visit (path : Bytes) (accepted : Bool)
  | nextWalk
  | loaded
  | loadFailed
  | checkTemplatesUpdate
  | checkItem
  | checkFile (path : Bytes)
  | checkEnd

/-- `none` for what cannot happen. The iterators come upon files in any order; a walk
that throws ends the load, or the check. -/
def step (s : TemplatesWatch) : Event → Option TemplatesWatch
  | .tick => some { s with clock := s.clock + 1 }
  | .write path content =>
    some { s with files := Function.update s.files path (some (content, s.clock)) }
  | .remove path => some { s with files := Function.update s.files path none }
  | .preload =>
    match s.phase with
    | .idle => some (s.beginLoad false)
    | _ => none
  | .visit path accepted =>
    match s.phase with
    | .loading flag _ => (s.fileAt path).map fun file =>
      { s with templates := s.templates.visit (fun _ _ => accepted) flag file }
    | _ => none
  | .nextWalk =>
    match s.phase with
    | .loading .forInclude checksNew => some { s with phase := .loading .forNormal checksNew }
    | _ => none
  | .loaded =>
    match s.phase with
    | .loading .forNormal _ =>
      some { s with templates := { s.templates with loadedTime := s.clock }, phase := .idle }
    | _ => none
  | .loadFailed =>
    match s.phase with
    | .loading _ checksNew => some { s with phase := if checksNew then .checkingNew else .idle }
    | _ => none
  | .checkTemplatesUpdate =>
    match s.phase with
    | .idle =>
      some (if s.templates.disabled then s
        else { s with phase := .checkingExists s.templates.items })
    | _ => none
  | .checkItem =>
    match s.phase with
    | .checkingExists [] => some { s with phase := .checkingNew }
    | .checkingExists (item :: items) =>
      some (if Templates.checkItem s.fileAt s.templates.loadedTime item = .none then
          { s with phase := .checkingExists items }
        else s.beginReload true)
    | _ => none
  | .checkFile path =>
    match s.phase with
    | .checkingNew => (s.fileAt path).map fun _ =>
      if s.templates.isNew path then s.beginReload false else s
    | _ => none
  | .checkEnd =>
    match s.phase with
    | .checkingNew => some { s with phase := .idle }
    | _ => none

def initial (clock : Int) (files : Bytes → Option (Bytes × Int)) (p : TemplatePaths)
    (disabled : Bool) : TemplatesWatch where
  clock := clock
  files := files
  templates := .constructed p disabled

/-- Every loaded template was made from what its file contains. -/
def Current (s : TemplatesWatch) : Prop :=
  ∀ item ∈ s.templates.items, ∃ file, s.fileAt item.filename = some file ∧
    item.templ.content = file.content

/-- A check without a write in between calls no `reload` only if the templates are
current. -/
def Fresh (s : TemplatesWatch) : Prop :=
  s.phase.isLoading = false → ∀ disk : TemplateDisk, disk.file = s.fileAt →
    ∀ t, s.templates.checkTemplatesUpdate disk = some t → t.reloads = s.templates.reloads →
      s.Current

theorem reload_reloads (disk : TemplateDisk) (t : Templates) :
    (t.reload disk).1.reloads = t.reloads + 1 :=
  (Templates.preload_fixed disk _).2

theorem reloads_reloadIfFindNew {disk : TemplateDisk} {t : Templates} {v : Templates × Bool}
    (found : t.reloadIfFindNew disk = some v) : t.reloads ≤ v.1.reloads := by
  rw [Templates.reloadIfFindNew] at found
  split at found
  · cases found
    exact Nat.le_refl _
  · obtain ⟨action, -, rfl⟩ := Option.map_eq_some_iff.mp found
    split
    · exact Nat.le_refl _
    · rw [reload_reloads]
      exact Nat.le_succ _

/-- It has looked at every loaded template. -/
theorem checkExistsTemplate_of_quiet {disk : TemplateDisk} {t u : Templates}
    (checked : t.checkTemplatesUpdate disk = some u) (quiet : u.reloads = t.reloads) :
    t.disabled = true ∨ t.checkExistsTemplate disk = .none := by
  by_contra both
  obtain ⟨on, found⟩ := not_or.mp both
  have loads : (t.reloadIfFindUpdate disk).1.reloads = t.reloads + 1 := by
    rw [Templates.reloadIfFindUpdate, if_neg on, if_neg found, reload_reloads]
  have more : t.reloads + 1 ≤ u.reloads := by
    rw [Templates.checkTemplatesUpdate] at checked
    split at checked
    · cases checked
      exact loads.ge
    · obtain ⟨v, new, rfl⟩ := Option.map_eq_some_iff.mp checked
      exact loads ▸ reloads_reloadIfFindNew new
  omega

/-- A template whose file says something else is one that the next check finds, unless
a load is to end first. -/
def Tracked (s : TemplatesWatch) (item : TemplateItem) : Prop :=
  ∀ found, s.files item.filename = some found → item.templ.content = found.1 ∨
    s.phase.isLoading = false ∧ s.templates.loadedTime < found.2

/-- Of a file that has been read into a template nothing else is written before the
load has ended and the second in which it ended is over. -/
def Timely (s : TemplatesWatch) (e : Event) (_ : TemplatesWatch) : Prop :=
  match e with
  | .write path content => ∀ item ∈ s.templates.items, item.filename = path →
    item.templ.content = content ∨
      s.phase.isLoading = false ∧ s.templates.loadedTime < s.clock
  | _ => True

/-- What steps keep. -/
structure Watched (s : TemplatesWatch) : Prop where
  bare : s.templates.Bare
  desired : s.phase.isLoading = true → ¬s.templates.Undesired
  tracked : ∀ item ∈ s.templates.items, s.Tracked item

theorem fresh_of_watched {s : TemplatesWatch} (watched : s.Watched) : s.Fresh := by
  intro _ disk shown t checked quiet item member
  rcases checkExistsTemplate_of_quiet checked quiet with disabled | none
  · rw [watched.bare (.inl disabled)] at member
    cases member
  · have fine := Templates.checkItems_eq_none.mp none item member
    rw [shown, Templates.checkItem] at fine
    cases there : s.files item.filename with
    | none => simp [fileAt, there] at fine
    | some found =>
      have file : s.fileAt item.filename = some ⟨item.filename, found.1, some found.2⟩ := by
        rw [fileAt, there, Option.map_some]
      refine ⟨_, file, ?_⟩
      rcases watched.tracked item member found there with same | ⟨-, later⟩
      · exact same
      · simp [file, later] at fine

theorem watched_beginLoad {s : TemplatesWatch} (bare : s.templates.Bare) (checksNew : Bool) :
    (s.beginLoad checksNew).Watched := by
  rw [beginLoad]
  split
  · rename_i undesired
    refine ⟨bare, nofun, fun item member => ?_⟩
    rw [bare undesired] at member
    cases member
  · rename_i desired
    exact ⟨fun _ => rfl, fun _ => desired, nofun⟩

theorem watched_beginReload {s : TemplatesWatch} (bare : s.templates.Bare) (checksNew : Bool) :
    (s.beginReload checksNew).Watched := by
  rw [beginReload]
  exact watched_beginLoad (s := { s with
    templates := { s.templates with reloads := s.templates.reloads + 1 } }) bare checksNew

/-- Outside of loads the phase does not matter. -/
theorem Watched.withPhase {s : TemplatesWatch} (watched : s.Watched) {phase : TemplatesPhase}
    (still : phase.isLoading = s.phase.isLoading) : { s with phase := phase }.Watched := by
  refine ⟨watched.bare, fun loading => watched.desired (still.symm.trans loading), ?_⟩
  intro item member found there
  rcases watched.tracked item member found there with same | ⟨idle, later⟩
  · exact .inl same
  · exact .inr ⟨still.trans idle, later⟩

/-- Only the templates made from the file matter. -/
theorem Watched.put {s : TemplatesWatch} (watched : s.Watched) (path : Bytes)
    (entry : Option (Bytes × Int))
    (fits : ∀ item ∈ s.templates.items, item.filename = path → ∀ found, entry = some found →
      item.templ.content = found.1 ∨
        s.phase.isLoading = false ∧ s.templates.loadedTime < found.2) :
    { s with files := Function.update s.files path entry }.Watched := by
  refine ⟨watched.bare, watched.desired, fun item member found there => ?_⟩
  change Function.update s.files path entry item.filename = some found at there
  by_cases here : item.filename = path
  · rw [here, Function.update_self] at there
    exact fits item member here found there
  · rw [Function.update_of_ne here] at there
    exact watched.tracked item member found there

/-- While templates are loaded, each is made from what its file contains. -/
theorem Watched.endLoad {s : TemplatesWatch} (watched : s.Watched)
    (loading : s.phase.isLoading = true) (time : Int) (phase : TemplatesPhase)
    (idle : phase.isLoading = false) :
    { s with templates := { s.templates with loadedTime := time }, phase := phase }.Watched := by
  refine ⟨watched.bare, fun other => ?_, fun item member found there => .inl ?_⟩
  · rw [idle] at other
    cases other
  · rcases watched.tracked item member found there with same | ⟨other, -⟩
    · exact same
    · rw [loading] at other
      cases other

theorem watched_visit {s : TemplatesWatch} (watched : s.Watched)
    (loading : s.phase.isLoading = true) (flag : TemplateFlag) {file : TemplateFile}
    (there : s.fileAt path = some file) (accepts : Bytes → Bytes → Bool) :
    { s with templates := s.templates.visit accepts flag file }.Watched := by
  have kept := Templates.settings_visit accepts flag s.templates file
  have fixed : (s.templates.visit accepts flag file).fixed = s.templates.fixed :=
    congrArg (fun t => (t.1, t.2.1)) kept
  have desired := watched.desired loading
  have still : ¬(s.templates.visit accepts flag file).Undesired := by
    rw [Templates.undesired_congr fixed]
    exact desired
  refine ⟨fun undesired => absurd undesired still, fun _ => still, ?_⟩
  intro item member found here
  rcases Templates.mem_items_visit member with old | rfl
  · rcases watched.tracked item old found here with same | ⟨other, -⟩
    · exact .inl same
    · rw [loading] at other
      cases other
  · obtain ⟨content, stored, rfl⟩ := Option.map_eq_some_iff.mp there
    left
    change s.files path = some found at here
    rw [stored] at here
    cases here
    rfl

theorem watched_step {s t : TemplatesWatch} (watched : s.Watched) (stepped : s.step e = some t)
    (timely : s.Timely e t) : t.Watched := by
  cases e with
  | tick =>
    cases stepped
    exact ⟨watched.bare, watched.desired, watched.tracked⟩
  | write path content =>
    cases stepped
    refine watched.put path (some (content, s.clock)) fun item member same found there => ?_
    cases there
    exact timely item member same
  | remove path =>
    cases stepped
    exact watched.put path none nofun
  | preload =>
    rw [step] at stepped
    split at stepped
    · cases stepped
      exact watched_beginLoad watched.bare false
    · cases stepped
  | visit path accepted =>
    rw [step] at stepped
    split at stepped
    · rename_i flag checksNew phase
      obtain ⟨file, there, rfl⟩ := Option.map_eq_some_iff.mp stepped
      exact watched_visit watched (by rw [phase]; rfl) flag there _
    · cases stepped
  | nextWalk =>
    rw [step] at stepped
    split at stepped
    · rename_i checksNew phase
      cases stepped
      exact watched.withPhase (by rw [phase]; rfl)
    · cases stepped
  | loaded =>
    rw [step] at stepped
    split at stepped
    · rename_i checksNew phase
      cases stepped
      exact watched.endLoad (by rw [phase]; rfl) s.clock .idle rfl
    · cases stepped
  | loadFailed =>
    rw [step] at stepped
    split at stepped
    · rename_i flag checksNew phase
      cases stepped
      have idle : (if checksNew then TemplatesPhase.checkingNew else .idle).isLoading = false := by
        cases checksNew
        · rfl
        · rfl
      exact watched.endLoad (by rw [phase]; rfl) s.templates.loadedTime _ idle
    · cases stepped
  | checkTemplatesUpdate =>
    rw [step] at stepped
    split at stepped
    · rename_i phase
      cases stepped
      split
      · exact watched
      · exact watched.withPhase (by rw [phase]; rfl)
    · cases stepped
  | checkItem =>
    rw [step] at stepped
    split at stepped
    · rename_i phase
      cases stepped
      exact watched.withPhase (by rw [phase]; rfl)
    · rename_i item items phase
      cases stepped
      split
      · exact watched.withPhase (by rw [phase]; rfl)
      · exact watched_beginReload watched.bare true
    · cases stepped
  | checkFile path =>
    rw [step] at stepped
    split at stepped
    · obtain ⟨file, -, rfl⟩ := Option.map_eq_some_iff.mp stepped
      split
      · exact watched_beginReload watched.bare false
      · exact watched
    · cases stepped
  | checkEnd =>
    rw [step] at stepped
    split at stepped
    · rename_i phase
      cases stepped
      exact watched.withPhase (by rw [phase]; rfl)
    · cases stepped

/-- In a run all of whose writes can be found, the templates are current whenever a
check finds nothing. -/
theorem fresh_throughout (clock : Int) (files : Bytes → Option (Bytes × Int)) (p : TemplatePaths)
    (disabled : Bool) (events : List Event)
    (timely : Transition.Steps step Timely (initial clock files p disabled) events) :
    Transition.Throughout step Fresh (initial clock files p disabled) events := by
  refine Transition.throughout_of_steps (I := Watched) ?_ ?_ ?_ timely
  · exact fun watched stepped timely => watched_step watched stepped timely
  · exact fresh_of_watched
  · exact ⟨fun _ => rfl, nofun, nofun⟩

def pagePath : Bytes := Bytes.ofAscii "/v/a.daqi.HTML"

/-- At time 0 there is one file. -/
def onePageWatched : TemplatesWatch :=
  initial 0 (Function.update (fun _ => none) pagePath (some (Bytes.ofAscii "one", 0)))
    ⟨Bytes.ofAscii "/v", Bytes.ofAscii "/", Bytes.ofAscii ".daqi.HTML"⟩ false

/-- It is loaded. -/
def loadPage : List Event := [.preload, .nextWalk, .visit pagePath true, .loaded]

/-- The file is written a second after it was loaded. -/
theorem fresh_throughout_edit :
    Transition.Throughout step Fresh onePageWatched
      (loadPage ++ [.tick, .write pagePath (Bytes.ofAscii "two")]) := by
  apply fresh_throughout
  refine .cons rfl trivial (.cons rfl trivial (.cons rfl trivial (.cons rfl trivial
    (.cons rfl trivial (.cons rfl ?_ trivial)))))
  exact fun item member same => .inr ⟨rfl, by decide⟩

/-- What a check finds there. -/
def pageDisk (s : TemplatesWatch) : TemplateDisk where
  file := s.fileAt
  forInclude := some ⟨(s.fileAt pagePath).toList, true⟩
  forNormal := some ⟨(s.fileAt pagePath).toList, true⟩
  forCheck := some ⟨(s.fileAt pagePath).toList, true⟩
  accepts _ _ := true
  now := s.clock

/-- The file is written in the second in which it was loaded. -/
theorem editTooSoon_missed :
    ¬Transition.Throughout step Fresh onePageWatched
      (loadPage ++ [.write pagePath (Bytes.ofAscii "two")]) := by
  intro holds
  have current := holds.final rfl rfl (pageDisk _) rfl _ rfl rfl
  obtain ⟨file, there, same⟩ := current ⟨⟨Bytes.ofAscii "one"⟩, pagePath⟩ (by decide)
  cases there
  exact absurd same (by decide)

end TemplatesWatch
end Da4qi4
