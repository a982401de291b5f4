import Da4qi4.Foundation.Transition
import Mathlib.Logic.Function.Iterate
import Mathlib.Tactic.Ring

/-! The idle timer of a running server. Each expiry calls the idle functions that are
due and arms the timer again while `_idle_running` is set. Arming it cancels a wait
that is pending, whose handler then runs later and clears the flag. -/
namespace Da4qi4

structure IdleFunctionStatus where
  intervalSeconds : Int := 0
  nextTimepoint : Int := 0

/-- What `AppendIdleFunction` takes. -/
abbrev IdleFunction := { status : IdleFunctionStatus // 0 < status.intervalSeconds }

namespace IdleFunctionStatus

/-- `call_idle_function_if_timeout`: the seconds until the next call. The second time
is read behind the call of the function. The difference is cut to an `int`. -/
def callIfTimeout (now later : Int) (status : IdleFunctionStatus) : Int × IdleFunctionStatus :=
  let distance := (status.nextTimepoint - now).bmod (2 ^ 32)
  if distance ≤ 0 then
    (status.intervalSeconds, { status with nextTimepoint := later + status.intervalSeconds })
  else (distance, status)

theorem callIfTimeout_intervalSeconds (now later : Int) (status : IdleFunctionStatus) :
    (status.callIfTimeout now later).2.intervalSeconds = status.intervalSeconds := by
  rw [callIfTimeout]
  split
  · rfl
  · rfl

/-- The next call lies ahead. -/
theorem callIfTimeout_pos (now later : Int) (status : IdleFunctionStatus)
    (positive : 0 < status.intervalSeconds) : 0 < (status.callIfTimeout now later).1 := by
  rw [callIfTimeout]
  split
  · exact positive
  · rename_i ahead
    exact Int.not_le.mp ahead

end IdleFunctionStatus

def IdleFunction.callIfTimeout (now later : Int) (function : IdleFunction) : IdleFunction :=
  ⟨(function.1.callIfTimeout now later).2, by
    rw [IdleFunctionStatus.callIfTimeout_intervalSeconds]
    exact function.2⟩

def updateMinDistanceSeconds (min distance : Int) : Int :=
  if min ≤ 0 ∨ distance < min then distance else min

theorem updateMinDistanceSeconds_pos {min distance : Int} (positive : 0 < distance) :
    0 < updateMinDistanceSeconds min distance := by
  rw [updateMinDistanceSeconds]
  split
  · exact positive
  · omega

/-- The loop over the idle functions. The `k`-th of them, called, reads the clock as
`clock k`. -/
def callIdleFunctions (now : Int) (clock : Nat → Int) : Nat → Int → List IdleFunction → Int
  | _, min, [] => min
  | k, min, function :: functions =>
    callIdleFunctions now clock (k + 1)
      (updateMinDistanceSeconds min (function.1.callIfTimeout now (clock k)).1) functions

theorem callIdleFunctions_pos (now : Int) (clock : Nat → Int) (functions : List IdleFunction) :
    ∀ k min, functions ≠ [] ∨ 0 < min → 0 < callIdleFunctions now clock k min functions := by
  induction functions with
  | nil =>
    intro k min some
    exact some.resolve_left fun empty => empty rfl
  | cons function functions ih =>
    intro k min _
    apply ih
    right
    exact updateMinDistanceSeconds_pos (function.1.callIfTimeout_pos now (clock k) function.2)

/-- The requests that say whether the timer is to run. -/
inductive IdleRequest where
  | run
  | pause
  | resume
  deriving DecidableEq

/-- `pending` is a wait that has not expired; `due` counts waits that have, but whose
handler has not ended, and `cancelled` those whose handler is to be called with
`operation_canceled`. The last field records the latest request, also where
`EnableDetectTemplates` makes it. -/
structure IdleTimer where
  running : Bool := false
  idleRunning : Bool := false
  idleIntervalSeconds : Int := 10
  detectTemplates : Bool := false
  detectTemplatesStatus : IdleFunctionStatus := {}
  idleFunctions : List IdleFunction
  pending : Bool := false
  due : Nat := 0
  cancelled : Nat := 0
  latest : Option IdleRequest := none

namespace IdleTimer

def startIdleTimer (s : IdleTimer) : IdleTimer :=
  if s.idleRunning then
    { s with cancelled := s.cancelled + s.pending.toNat, pending := true }
  else s

/-- `none` is the assertion. -/
def run (ndebug : Bool) (s : IdleTimer) : Option IdleTimer :=
  if s.running then
    if ndebug then some { s with latest := some .run } else none
  else
    some (startIdleTimer { s with running := true, idleRunning := true, latest := some .run })

def pauseIdleTimer (s : IdleTimer) : IdleTimer :=
  { s with idleRunning := false, latest := some .pause }

def resumeIdleTimer (s : IdleTimer) : IdleTimer :=
  if s.idleRunning then { s with latest := some .resume }
  else startIdleTimer { s with idleRunning := true, latest := some .resume }

/-- `none` is the assertion. -/
def enableDetectTemplates (ndebug : Bool) (intervalSeconds now : Int) (s : IdleTimer) :
    Option IdleTimer :=
  if ¬ndebug ∧ intervalSeconds ≤ 0 then none
  else
    let s := { s with
      detectTemplatesStatus := ⟨intervalSeconds, now + intervalSeconds⟩
      detectTemplates := true }
    some (if s.running ∧ ¬s.idleRunning then s.resumeIdleTimer else s)

def disableDetectTemplates (s : IdleTimer) : IdleTimer := { s with detectTemplates := false }

/-- The time of a pending wait comes. -/
def expire (s : IdleTimer) : IdleTimer :=
  { s with pending := false, due := s.due + s.pending.toNat }

/-- The interval where none is given to `EnableDetectTemplates`. -/
def detectTemplatesIntervalSeconds (ndebug : Bool) : Int := if ndebug then 15 * 60 else 15

/-- The templates first, where they are watched. -/
def callDetectTemplates (ndebug : Bool) (now later : Int) (s : IdleTimer) :
    Int × IdleFunctionStatus :=
  if s.detectTemplates then
    let status := s.detectTemplatesStatus
    let status := if status.intervalSeconds ≤ 0 then
        { status with intervalSeconds := detectTemplatesIntervalSeconds ndebug }
      else status
    let called := status.callIfTimeout now later
    (updateMinDistanceSeconds (-1) called.1, called.2)
  else (-1, s.detectTemplatesStatus)

/-- `on_idle_timer` of a wait that expired. What the called functions ask of the timer
has been done before: nothing is read of it until they have returned. -/
def onIdleTimer (ndebug : Bool) (now : Int) (clock : Nat → Int) (s : IdleTimer) : IdleTimer :=
  let (detected, status) := s.callDetectTemplates ndebug now (clock 0)
  let min := callIdleFunctions now clock 1 detected s.idleFunctions
  let s := { s with
    due := s.due - 1
    detectTemplatesStatus := status
    idleFunctions := s.idleFunctions.mapIdx fun k (f : IdleFunction) =>
      f.callIfTimeout now (clock (k + 1)) }
  if min ≤ 0 then { s with idleRunning := false }
  else startIdleTimer { s with idleIntervalSeconds := min }

/-- `on_idle_timer` of a wait that was cancelled. -/
def onCanceled (s : IdleTimer) : IdleTimer :=
  { s with cancelled := s.cancelled - 1, idleRunning := false }

inductive Event where
  | run
  | pauseIdleTimer
  | resumeIdleTimer
  | enableDetectTemplates (intervalSeconds now : Int)
  | disableDetectTemplates
  | expired
  | onIdleTimer (now : Int) (clock : Nat → Int)
  | onCanceled

/-- `none` for what cannot happen: a failed assertion, or a wait that there is not. -/
def step (ndebug : Bool) (s : IdleTimer) : Event → Option IdleTimer
  | .run => s.run ndebug
  | .pauseIdleTimer => some s.pauseIdleTimer
  | .resumeIdleTimer => some s.resumeIdleTimer
  | .enableDetectTemplates intervalSeconds now => s.enableDetectTemplates ndebug intervalSeconds now
  | .disableDetectTemplates => some s.disableDetectTemplates
  | .expired => if s.pending then some s.expire else none
  | .onIdleTimer now clock => if 0 < s.due then some (s.onIdleTimer ndebug now clock) else none
  | .onCanceled => if 0 < s.cancelled then some s.onCanceled else none

/-- A server that does not run, with idle functions appended to it. -/
def initial (idleFunctions : List IdleFunction) : IdleTimer := { idleFunctions }

/-- The latest request was for the timer to run. -/
def Wanted (s : IdleTimer) : Prop := s.latest = some .run ∨ s.latest = some .resume

instance (s : IdleTimer) : Decidable s.Wanted := inferInstanceAs (Decidable (_ ∨ _))

/-- The handlers of all cancelled waits have been called. -/
def delivered (s : IdleTimer) : IdleTimer := onCanceled^[s.cancelled] s

/-- There is a wait, and at whatever time its handler is called it leaves another. -/
def Ticks (ndebug : Bool) (s : IdleTimer) : Prop :=
  s.idleRunning = true ∧ (s.pending = true ∨ 0 < s.due) ∧
    ∀ now clock, (s.expire.onIdleTimer ndebug now clock).pending = true

def Alive (ndebug : Bool) (s : IdleTimer) : Prop := s.Wanted → s.delivered.Ticks ndebug

/-- With a function to call there is always a next time, so that the handler arms the
timer again unless it was paused. -/
theorem onIdleTimer_eq (ndebug : Bool) (now : Int) (clock : Nat → Int) (s : IdleTimer)
    (some : s.idleFunctions ≠ []) :
    ∃ min status functions, functions ≠ [] ∧
      s.onIdleTimer ndebug now clock = startIdleTimer { s with
        due := s.due - 1, detectTemplatesStatus := status, idleFunctions := functions,
        idleIntervalSeconds := min } := by
  have ahead := callIdleFunctions_pos now clock s.idleFunctions 1
    (s.callDetectTemplates ndebug now (clock 0)).1 (.inl some)
  refine ⟨_, _, s.idleFunctions.mapIdx fun k (f : IdleFunction) =>
    f.callIfTimeout now (clock (k + 1)), ?_, if_neg (Int.not_le.mpr ahead)⟩
  intro empty
  exact some (List.mapIdx_eq_nil_iff.mp empty)

/-- A handler that finds the flag set leaves a pending wait. -/
theorem onIdleTimer_pending (ndebug : Bool) (now : Int) (clock : Nat → Int) (s : IdleTimer)
    (some : s.idleFunctions ≠ []) (flagged : s.idleRunning = true) :
    (s.onIdleTimer ndebug now clock).pending = true := by
  obtain ⟨min, status, functions, -, ended⟩ := onIdleTimer_eq ndebug now clock s some
  rw [ended, startIdleTimer, if_pos flagged]

/-- There is something to call, and the flag is not set without a wait. -/
structure Backed (s : IdleTimer) : Prop where
  some : s.idleFunctions ≠ []
  waits : s.idleRunning = true → s.pending = true ∨ 0 < s.due

/-- Arming leaves a pending wait behind the flag. -/
theorem backed_startIdleTimer {s : IdleTimer} (some : s.idleFunctions ≠ []) :
    s.startIdleTimer.Backed := by
  rw [startIdleTimer]
  split
  · exact ⟨some, fun _ => .inl rfl⟩
  · rename_i off
    exact ⟨some, fun flagged => absurd flagged off⟩

theorem Backed.resumeIdleTimer {s : IdleTimer} (backed : s.Backed) : s.resumeIdleTimer.Backed := by
  rw [IdleTimer.resumeIdleTimer]
  split
  · exact ⟨backed.some, backed.waits⟩
  · exact backed_startIdleTimer backed.some

/-- What each event does. -/
inductive Does (ndebug : Bool) (s : IdleTimer) : Event → IdleTimer → Prop
  | runAgain (running : s.running = true) : Does ndebug s .run { s with latest := some .run }
  | run (idle : s.running ≠ true) : Does ndebug s .run
      (startIdleTimer { s with running := true, idleRunning := true, latest := some .run })
  | pause : Does ndebug s .pauseIdleTimer s.pauseIdleTimer
  | resume : Does ndebug s .resumeIdleTimer s.resumeIdleTimer
  | detectPaused {intervalSeconds now : Int} {status : IdleFunctionStatus}
      (paused : s.running = true ∧ ¬s.idleRunning) :
      Does ndebug s (.enableDetectTemplates intervalSeconds now) (resumeIdleTimer { s with
        detectTemplatesStatus := status, detectTemplates := true })
  | detect {intervalSeconds now : Int} {status : IdleFunctionStatus}
      (runs : ¬(s.running = true ∧ ¬s.idleRunning)) :
      Does ndebug s (.enableDetectTemplates intervalSeconds now) { s with
        detectTemplatesStatus := status, detectTemplates := true }
  | noDetect : Does ndebug s .disableDetectTemplates s.disableDetectTemplates
  | expire (waiting : s.pending = true) : Does ndebug s .expired s.expire
  | handle {now : Int} {clock : Nat → Int} :
      Does ndebug s (.onIdleTimer now clock) (s.onIdleTimer ndebug now clock)
  | cancel (some : 0 < s.cancelled) : Does ndebug s .onCanceled s.onCanceled

theorem does_of_step {s t : IdleTimer} (stepped : s.step ndebug e = some t) :
    s.Does ndebug e t := by
  cases e with
  | run =>
    rw [step, IdleTimer.run] at stepped
    split at stepped
    · rename_i running
      split at stepped
      · cases stepped
        exact .runAgain running
      · cases stepped
    · rename_i idle
      cases stepped
      exact .run idle
  | pauseIdleTimer =>
    cases stepped
    exact .pause
  | resumeIdleTimer =>
    cases stepped
    exact .resume
  | enableDetectTemplates intervalSeconds now =>
    rw [step, enableDetectTemplates] at stepped
    split at stepped
    · cases stepped
    · cases stepped
      split
      · rename_i paused
        exact .detectPaused paused
      · rename_i runs
        exact .detect runs
  | disableDetectTemplates =>
    cases stepped
    exact .noDetect
  | expired =>
    obtain ⟨waiting, same⟩ := Option.ite_none_right_eq_some.mp stepped
    cases same
    exact .expire waiting
  | onIdleTimer now clock =>
    obtain ⟨-, same⟩ := Option.ite_none_right_eq_some.mp stepped
    cases same
    exact .handle
  | onCanceled =>
    obtain ⟨some, same⟩ := Option.ite_none_right_eq_some.mp stepped
    cases same
    exact .cancel some

theorem backed_step {s t : IdleTimer} (backed : s.Backed) (stepped : s.step ndebug e = some t) :
    t.Backed := by
  cases does_of_step stepped with
  | runAgain running => exact ⟨backed.some, backed.waits⟩
  | run idle => exact backed_startIdleTimer backed.some
  | pause => exact ⟨backed.some, fun flagged => nomatch flagged⟩
  | resume => exact backed.resumeIdleTimer
  | detectPaused paused => exact Backed.resumeIdleTimer ⟨backed.some, backed.waits⟩
  | detect runs => exact ⟨backed.some, backed.waits⟩
  | noDetect => exact ⟨backed.some, backed.waits⟩
  | expire waiting =>
    refine ⟨backed.some, fun _ => .inr ?_⟩
    rw [IdleTimer.expire, waiting]
    exact Nat.succ_pos s.due
  | @handle now clock =>
    obtain ⟨min, status, functions, some, ended⟩ := onIdleTimer_eq ndebug now clock s backed.some
    rw [ended]
    exact backed_startIdleTimer some
  | cancel some => exact ⟨backed.some, fun flagged => nomatch flagged⟩

theorem iterate_onCanceled (n : Nat) (s : IdleTimer) :
    onCanceled^[n] s =
      { s with cancelled := s.cancelled - n, idleRunning := s.idleRunning && n == 0 } := by
  induction n generalizing s with
  | zero => simp
  | succ n ih =>
    rw [Function.iterate_succ_apply, ih, onCanceled]
    have fewer : s.cancelled - 1 - n = s.cancelled - (n + 1) := by omega
    simp [fewer]

/-- The flag is set, and no handler is to come that clears it. -/
def Quiet (s : IdleTimer) : Prop := s.idleRunning = true ∧ s.cancelled = 0

theorem alive_iff {s : IdleTimer} (backed : s.Backed) :
    s.Alive ndebug ↔ (s.Wanted → s.Quiet) := by
  refine imp_congr_right fun _ => ?_
  rw [delivered, iterate_onCanceled, Nat.sub_self]
  constructor
  · rintro ⟨flagged, -, -⟩
    simpa [Quiet] using flagged
  · rintro ⟨flagged, none⟩
    have still : (s.idleRunning && s.cancelled == 0) = true := by simp [flagged, none]
    refine ⟨still, backed.waits flagged, fun now clock => ?_⟩
    exact onIdleTimer_pending ndebug now clock _ backed.some still

/-- The flag is set by arming a timer that is not armed, and while no handler of a
cancelled wait is to come; a handler that arms the timer again finds it not armed. -/
def Timely (s : IdleTimer) (e : Event) (_ : IdleTimer) : Prop :=
  match e with
  | .run => s.cancelled = 0 ∧ if s.running then s.idleRunning = true else s.pending = false
  | .pauseIdleTimer => True
  | .resumeIdleTimer => s.cancelled = 0 ∧ (s.idleRunning = true ∨ s.pending = false)
  | .enableDetectTemplates _ _ =>
    s.running = true ∧ ¬s.idleRunning → s.cancelled = 0 ∧ s.pending = false
  | .disableDetectTemplates => True
  | .expired => True
  | .onIdleTimer _ _ => s.Wanted → s.pending = false
  | .onCanceled => True

/-- Arming a timer that is armed cancels its wait. -/
theorem quiet_startIdleTimer {s : IdleTimer} (flagged : s.idleRunning = true) :
    s.startIdleTimer.Quiet ↔ s.cancelled = 0 ∧ s.pending = false := by
  rw [startIdleTimer, if_pos flagged, Quiet]
  cases armed : s.pending with
  | false => simp [flagged]
  | true => simp [flagged]

theorem wanted_startIdleTimer (s : IdleTimer) : s.startIdleTimer.Wanted ↔ s.Wanted := by
  rw [startIdleTimer]
  split
  · exact Iff.rfl
  · exact Iff.rfl

theorem wanted_resumeIdleTimer (s : IdleTimer) : s.resumeIdleTimer.Wanted := by
  rw [resumeIdleTimer]
  split
  · exact .inr rfl
  · exact (wanted_startIdleTimer _).mpr (.inr rfl)

theorem quiet_resumeIdleTimer (s : IdleTimer) :
    s.resumeIdleTimer.Quiet ↔ s.cancelled = 0 ∧ (s.idleRunning = true ∨ s.pending = false) := by
  rw [resumeIdleTimer]
  split
  · rename_i flagged
    exact ⟨fun quiet => ⟨quiet.2, .inl flagged⟩, fun clear => ⟨flagged, clear.1⟩⟩
  · rename_i off
    rw [quiet_startIdleTimer rfl]
    exact and_congr_right fun _ => (or_iff_right off).symm

theorem timely_iff {s t : IdleTimer} (backed : s.Backed) (quiet : s.Wanted → s.Quiet)
    (stepped : s.step ndebug e = some t) : s.Timely e t ↔ (t.Wanted → t.Quiet) := by
  cases does_of_step stepped with
  | runAgain running =>
    rw [Timely, if_pos running]
    constructor
    · exact fun clear _ => ⟨clear.2, clear.1⟩
    · intro clear
      obtain ⟨flagged, none⟩ := clear (.inl rfl)
      exact ⟨none, flagged⟩
  | run idle =>
    rw [Timely, if_neg idle, quiet_startIdleTimer rfl, wanted_startIdleTimer]
    exact ⟨fun clear _ => clear, fun clear => clear (.inl rfl)⟩
  | pause => exact iff_of_true trivial fun wanted => wanted.elim nofun nofun
  | resume =>
    rw [Timely, quiet_resumeIdleTimer]
    exact ⟨fun clear _ => clear, fun clear => clear (wanted_resumeIdleTimer s)⟩
  | detectPaused paused =>
    rw [Timely, quiet_resumeIdleTimer]
    constructor
    · intro clear _
      exact ⟨(clear paused).1, .inr (clear paused).2⟩
    · intro clear _
      obtain ⟨none, flagged⟩ := clear (wanted_resumeIdleTimer _)
      exact ⟨none, flagged.resolve_left paused.2⟩
  | detect runs => exact iff_of_true (fun paused => absurd paused runs) quiet
  | noDetect => exact iff_of_true trivial quiet
  | expire waiting => exact iff_of_true trivial quiet
  | @handle now clock =>
    obtain ⟨min, status, functions, -, ended⟩ := onIdleTimer_eq ndebug now clock s backed.some
    rw [ended, wanted_startIdleTimer, Timely]
    refine forall_congr' fun wanted => ?_
    symm
    apply (quiet_startIdleTimer ?_).trans
    · exact and_iff_right (quiet wanted).2
    · exact (quiet wanted).1
  | cancel some =>
    refine iff_of_true trivial fun wanted => ?_
    have none : s.cancelled = 0 := (quiet wanted).2
    omega

/-- One idle function, to be called every five seconds. -/
def everyFiveSeconds : IdleFunction := ⟨⟨5, 5⟩, by decide⟩

/-- A pause and, before the wait has expired, a resumption. -/
def pauseAndResume : List Event := [.run, .pauseIdleTimer, .resumeIdleTimer]

end IdleTimer
end Da4qi4
