import Da4qi4.Foundation.Transition
import Da4qi4.Http.Connection

/-! Requests that are read while responses are written. The interim response to
`Expect: 100-continue` is written with the handler of all other responses, which
resets the connection and reads on; a request that is half read then is lost. -/
namespace Da4qi4
open Utilities

inductive ParserPhase where
  | start | block | body
  deriving DecidableEq, Repr

namespace ParserPhase

/-- A header field behind the header block is a trailer of a chunked body. -/
def after : ParserPhase → ParserCallback → Option ParserPhase
  | .start, .messageBegin => some .block
  | .block, .url _ => some .block
  | .block, .headerField _ => some .block
  | .block, .headerValue _ => some .block
  | .block, .headersComplete _ => some .body
  | .body, .headerField _ => some .body
  | .body, .headerValue _ => some .body
  | .body, .body _ => some .body
  | .body, .messageComplete => some .start
  | _, _ => none

def afterAll (phase : ParserPhase) : List ParserCallback → Option ParserPhase
  | [] => some phase
  | callback :: rest => (phase.after callback).bind fun next => next.afterAll rest

/-- No header field comes behind a header block. -/
def Trailerless (phase : ParserPhase) : List ParserCallback → Prop
  | [] => True
  | callback :: rest =>
    (phase = .body → ∀ data, callback ≠ .headerField data) ∧
      ∀ next, phase.after callback = some next → next.Trailerless rest

end ParserPhase

/-- What a request takes from its header block, and how far it is read. -/
structure Taken where
  readComplete : ReadCompletePart
  url : Url
  method : Nat
  headers : ICHeaders
  app : Option Application
  additionFlags : AdditionFlags
  parserFields : ParserFields

structure Outside where
  reads : Nat
  dispatched : List Dispatch

/-- What matters of a connection while a request is being read. -/
structure Progress extends Taken, Outside where
  block : Option HeaderBlock

namespace Reading

def taken (r : Reading) : Taken :=
  ⟨r.readComplete, r.request.url, r.request.method, r.request.headers, r.app,
    r.request.additionFlags, r.parserFields⟩

theorem taken_initMultipartParser (r : Reading) (boundary : Bytes) :
    (r.initMultipartParser boundary).taken = r.taken := by
  rw [initMultipartParser]
  split <;> rfl

theorem taken_onMultipart (r : Reading) (callback : MultipartCallback) :
    (r.onMultipart callback).taken = r.taken := by
  have committed (next : ReadingHeaderPart) :
      (r.tryCommitReadingPartHeader next).taken = r.taken := by
    rw [tryCommitReadingPartHeader]
    split <;> rfl
  cases callback with
  | headerField data => exact committed .headerFieldPart
  | headersComplete => exact committed .headerNonePart
  | headerValue data => rfl
  | dataBegin => rfl
  | data data => rfl
  | dataEnd => rfl
  | bodyEnd => rfl

theorem taken_foldl_onMultipart (r : Reading) (callbacks : List MultipartCallback) :
    (callbacks.foldl onMultipart r).taken = r.taken := by
  induction callbacks generalizing r with
  | nil => rfl
  | cons callback callbacks ih =>
    exact (ih (r.onMultipart callback)).trans (taken_onMultipart r callback)

theorem taken_tryFix (r : Reading) :
    r.tryFixMultipartBadRequestWithoutBoundary.taken = r.taken := by
  rw [tryFixMultipartBadRequestWithoutBoundary]
  split
  · split
    · rfl
    · exact taken_initMultipartParser _ _
  · rfl

theorem taken_feedMultipartParser (env : Environment) (r : Reading) :
    (r.feedMultipartParser env).1.taken = r.taken := by
  simp only [feedMultipartParser]
  split
  · rfl
  · split
    · exact taken_foldl_onMultipart _ _
    · exact taken_foldl_onMultipart { r with mpParser := some _ } _

theorem taken_takeBody (env : Environment) (r : Reading) (data : Bytes) :
    (r.takeBody env data).1.taken = r.taken := by
  simp only [takeBody]
  split
  · rw [doMultipartParse, taken_feedMultipartParser]
    split
    · exact taken_tryFix { r with bodyBuffer := r.bodyBuffer ++ data }
    · rfl
  · rfl

theorem readComplete_onHeaderField (r : Reading) (data : Bytes) :
    (r.onHeaderField data).readComplete = r.readComplete := by
  have committed : r.tryCommitReadingRequestHeader.readComplete = r.readComplete := by
    rw [tryCommitReadingRequestHeader]
    split <;> rfl
  rw [onHeaderField]
  split <;> exact committed

end Reading

namespace Connection

def outside (c : Connection) : Outside := ⟨c.reads, c.dispatched⟩

def progress (c : Connection) : Progress := { c.toReading.taken, c.outside with block := c.block }

theorem progress_congr {c : Connection} {r : Reading} (same : r.taken = c.toReading.taken) :
    ({ c with toReading := r } : Connection).progress = c.progress := by
  simp only [progress, same]
  rfl

theorem progress_startWrite {c d : Connection} (started : c.startWrite = some d) :
    d.progress = c.progress := by
  obtain ⟨-, response, operation, rfl⟩ := startWrite_cases started
  rfl

theorem progress_reply {c d : Connection} {response : Response}
    (started : { c with response := response }.startWrite = some d) : d.progress = c.progress :=
  (progress_startWrite started).trans rfl

theorem errno_startWrite {c d : Connection} (started : c.startWrite = some d) :
    d.parserErrno = c.parserErrno := by
  obtain ⟨-, response, operation, rfl⟩ := startWrite_cases started
  rfl

theorem progress_onBody {c : Connection} {answer : Connection × Returned}
    (answered : c.onBody env data = some answer) : answer.1.progress = c.progress := by
  rw [onBody] at answered
  split at answered
  · obtain ⟨d, written, rfl⟩ := Option.map_eq_some_iff.mp answered
    exact progress_reply written
  · cases answered
    exact progress_congr (Reading.taken_takeBody env c.toReading data)

theorem progress_onRouted {c : Connection} {answer : Connection × Returned}
    (answered : c.onRouted routed = some answer) : answer.1.progress = c.progress := by
  rw [onRouted] at answered
  split at answered
  · obtain ⟨d, written, rfl⟩ := Option.map_eq_some_iff.mp answered
    exact progress_reply written
  · split at answered
    · obtain ⟨d, written, rfl⟩ := Option.map_eq_some_iff.mp answered
      exact progress_reply written
    · split at answered
      · cases answered
        apply progress_congr
        rw [Reading.tryInitMultipartParser]
        split
        · exact Reading.taken_initMultipartParser _ _
        · rfl
      · cases answered
        rfl

theorem outside_onHeadersComplete {c : Connection} {answer : Connection × Returned}
    (answered : c.onHeadersComplete env p = some answer) : answer.1.outside = c.outside := by
  have parsed : (c.headerParsed env p).outside = c.outside := rfl
  have outcome := onHeadersComplete_cases answered
  generalize c.headerParsed env p = d at parsed outcome
  rcases outcome with ⟨app, url, routed⟩ | ⟨-, app, written⟩
  · exact (congrArg Progress.toOutside (progress_onRouted routed)).trans parsed
  · exact (congrArg Progress.toOutside (progress_reply written)).trans parsed

/-- No callback starts a read or a context. -/
theorem outside_callback {c : Connection} {answer : Connection × Returned}
    (answered : c.callback env made = some answer) : answer.1.outside = c.outside := by
  cases made with
  | headersComplete p => exact outside_onHeadersComplete answered
  | body data => exact congrArg Progress.toOutside (progress_onBody answered)
  | _ =>
    cases answered
    rfl

theorem outside_callbacks {c d : Connection} (executed : c.callbacks env errno made = some d) :
    d.outside = c.outside := by
  induction made generalizing c with
  | nil =>
    cases executed
    rfl
  | cons callback made ih =>
    obtain ⟨answer, answered, rest⟩ := Option.bind_eq_some_iff.mp executed
    rw [← outside_callback answered]
    split at rest
    · exact ih rest
    · cases rest
      rfl

theorem outside_execute {c d : Connection} (executed : c.execute env errno made = some d) :
    d.outside = c.outside := by
  rw [execute] at executed
  split at executed
  · exact outside_callbacks executed
  · cases executed
    rfl

end Connection

/-- The request is as it was at the end of its header block. -/
def Dispatch.Intact (d : Dispatch) : Prop :=
  d.block = some ⟨d.request.url, d.request.method, d.request.headers, d.app⟩

namespace Progress

def Matches (f : Progress) : Prop :=
  ∀ app, f.app = some app → f.block = some ⟨f.url, f.method, f.headers, app⟩

/-- What is known where the parser is. -/
def Tracked (f : Progress) : ParserPhase → Prop
  | .start => f.readComplete = .readMessageComplete → f.Matches
  | .block => f.readComplete ≠ .readMessageComplete
  | .body => f.readComplete ≠ .readMessageComplete ∧ f.Matches

theorem Tracked.matches {f : Progress} (tracked : f.Tracked phase)
    (complete : f.readComplete = .readMessageComplete) : f.Matches := by
  cases phase with
  | start => exact tracked complete
  | block => exact absurd complete tracked
  | body => exact tracked.2

end Progress

namespace Connection

theorem tracked_onHeadersComplete {c : Connection} {answer : Connection × Returned}
    (answered : c.onHeadersComplete env p = some answer) (accepted : answer.2 = .ok) :
    answer.1.progress.Tracked .body := by
  have complete : (c.headerParsed env p).readComplete = .readHeaderComplete := rfl
  have outcome := onHeadersComplete_cases answered
  generalize c.headerParsed env p = d at complete outcome
  rcases outcome with ⟨app, url, routed⟩ | ⟨refused, -⟩
  · rw [progress_onRouted routed]
    constructor
    · change d.readComplete ≠ _
      rw [complete]
      decide
    · intro other same
      cases same
      rfl
  · rw [accepted] at refused
    cases refused

theorem tracked_callback {c : Connection} {answer : Connection × Returned}
    (follows : phase.after made = some next)
    (noTrailer : phase = .body → ∀ data, made ≠ .headerField data)
    (tracked : c.progress.Tracked phase)
    (answered : c.callback env made = some answer) (accepted : answer.2 = .ok) :
    answer.1.progress.Tracked next := by
  cases phase with
  | start =>
    cases made with
    | messageBegin =>
      cases follows
      cases answered
      exact ReadCompletePart.noConfusion
    | _ => cases follows
  | block =>
    cases made with
    | url data =>
      cases follows
      cases answered
      exact tracked
    | headerField data =>
      cases follows
      cases answered
      change (c.toReading.onHeaderField data).readComplete ≠ _
      rw [Reading.readComplete_onHeaderField]
      exact tracked
    | headerValue data =>
      cases follows
      cases answered
      exact tracked
    | headersComplete p =>
      cases follows
      exact tracked_onHeadersComplete answered accepted
    | _ => cases follows
  | body =>
    cases made with
    | headerField data => exact absurd rfl (noTrailer rfl data)
    | headerValue data =>
      cases follows
      cases answered
      exact tracked
    | body data =>
      cases follows
      rw [progress_onBody answered]
      exact tracked
    | messageComplete =>
      cases follows
      cases answered
      intro _
      exact tracked.2
    | _ => cases follows

theorem tracked_callbacks {c d : Connection} (follows : phase.afterAll made = some next)
    (trailerless : phase.Trailerless made) (tracked : c.progress.Tracked phase)
    (executed : c.callbacks env errno made = some d) (sound : d.parserErrno ≠ .error) :
    d.progress.Tracked next := by
  induction made generalizing c phase with
  | nil =>
    cases follows
    cases executed
    exact tracked
  | cons callback made ih =>
    obtain ⟨middle, first, others⟩ := Option.bind_eq_some_iff.mp follows
    obtain ⟨answer, answered, rest⟩ := Option.bind_eq_some_iff.mp executed
    cases accepted : answer.2 with
    | ok =>
      simp only [accepted] at rest
      exact ih others (trailerless.2 middle first)
        (tracked_callback first trailerless.1 tracked answered accepted) rest
    | refused =>
      simp only [accepted] at rest
      cases rest
      exact absurd rfl sound

theorem progress_doWriteNextChunkedBody {c d : Connection}
    (popped : c.doWriteNextChunkedBody startWaitClock now = some d) :
    d.progress = c.progress ∧ d.parserErrno = c.parserErrno := by
  simp only [doWriteNextChunkedBody] at popped
  split at popped
  · cases popped
    exact ⟨rfl, rfl⟩
  · split at popped
    · split at popped
      · cases popped
        exact ⟨rfl, rfl⟩
      · cases popped
        exact ⟨rfl, rfl⟩
    · rw [asyncWrite] at popped
      split at popped
      · cases popped
        exact ⟨rfl, rfl⟩
      · cases popped

/-- A message that was read to its end starts a context, or nothing. -/
theorem onMessageRead_cases {c d : Connection} (handled : c.onMessageRead env = some d) :
    d.reads = c.reads ∧ (d.dispatched = c.dispatched ∨
      ∃ app, c.app = some app ∧ d.dispatched = c.dispatched ++ [⟨c.request, app, c.block⟩]) := by
  simp only [onMessageRead] at handled
  split at handled
  · cases handled
  · split at handled
    · rw [doUpgrade] at handled
      split at handled
      · cases handled
      · split at handled
        · cases handled
          exact ⟨rfl, .inl rfl⟩
        · split at handled
          · cases handled
            exact ⟨rfl, .inl rfl⟩
          · obtain ⟨app, -, rfl⟩ := Option.map_eq_some_iff.mp handled
            split
            · exact ⟨rfl, .inl rfl⟩
            · exact ⟨rfl, .inl rfl⟩
    · obtain ⟨app, found, rfl⟩ := Option.map_eq_some_iff.mp handled
      exact ⟨rfl, .inr ⟨app, found, rfl⟩⟩

end Connection

/-- A connection and where its parser is. -/
structure Exchange where
  connection : Connection
  phase : ParserPhase
  deriving DecidableEq

namespace Exchange

/-- The parser makes its callbacks in their order, also across reads. -/
def step (env : Environment) (e : Exchange) : Connection.Event → Option Exchange
  | .read errno made =>
    (e.phase.afterAll made).bind fun phase =>
      (e.connection.step env (.read errno made)).map fun c => ⟨c, phase⟩
  | event => (e.connection.step env event).map fun c => ⟨c, e.phase⟩

def started : Exchange := ⟨.started, .start⟩

/-- At most one read is outstanding, and every context was started with the request
that the header block made. -/
def Intact (e : Exchange) : Prop :=
  e.connection.reads ≤ 1 ∧ ∀ d ∈ e.connection.dispatched, d.Intact

/-- No response is written to its end, with both sides keeping the connection,
while a read is outstanding. -/
def Undisturbed (e : Exchange) : Connection.Event → Exchange → Prop
  | .wrote index _, _ => ∀ written, e.connection.writes[index]? = some (.response written) →
      e.connection.keepsAlive = true → e.connection.reads = 0
  | _, _ => True

def Trailerless (e : Exchange) : Connection.Event → Exchange → Prop
  | .read _ made, _ => e.phase.Trailerless made
  | _, _ => True

structure Sound (e : Exchange) : Prop where
  reads : e.connection.reads ≤ 1
  dispatched : ∀ d ∈ e.connection.dispatched, d.Intact
  waiting : e.connection.reads = 1 → e.connection.readComplete ≠ .readMessageComplete
  tracked : e.connection.reads = 1 → e.connection.parserErrno = .ok →
    e.connection.progress.Tracked e.phase

theorem Sound.congr {c d : Connection} {phase : ParserPhase} (sound : Sound ⟨c, phase⟩)
    (same : d.progress = c.progress)
    (errno : d.parserErrno = c.parserErrno) : Sound ⟨d, phase⟩ where
  reads := (congrArg (fun f => f.reads) same).trans_le sound.reads
  dispatched := by
    have kept : d.dispatched = c.dispatched := congrArg (fun f => f.dispatched) same
    change ∀ entry ∈ d.dispatched, _
    rw [kept]
    exact sound.dispatched
  waiting := by
    intro reading
    have kept : d.readComplete = c.readComplete := congrArg (fun f => f.readComplete) same
    change d.readComplete ≠ _
    rw [kept]
    exact sound.waiting ((congrArg (fun f => f.reads) same).symm.trans reading)
  tracked := by
    intro reading clean
    change d.progress.Tracked phase
    rw [same]
    exact sound.tracked ((congrArg (fun f => f.reads) same).symm.trans reading)
      (errno.symm.trans clean)

/-- Without a read there is nothing to know but what was dispatched. -/
theorem Sound.resting {c : Connection} {phase : ParserPhase} (idle : c.reads = 0)
    (dispatched : ∀ d ∈ c.dispatched, d.Intact) :
    Sound ⟨c, phase⟩ where
  reads := by
    change c.reads ≤ 1
    omega
  dispatched := dispatched
  waiting := fun reading => absurd (idle.symm.trans reading) Nat.zero_ne_one
  tracked := fun reading => absurd (idle.symm.trans reading) Nat.zero_ne_one

/-- What the callbacks of a read leave behind. -/
theorem Sound.executed {c d : Connection} {phase next : ParserPhase} (sound : Sound ⟨c, phase⟩)
    (reading : c.reads = 1) (follows : phase.afterAll made = some next)
    (trailerless : phase.Trailerless made)
    (executed : { c with reads := 0 }.execute env errno made = some d) :
    (d.parserErrno ≠ .error → d.readComplete = .readMessageComplete → d.progress.Matches) ∧
      (d.parserErrno = .ok → d.progress.Tracked next) := by
  rw [Connection.execute] at executed
  split at executed
  · rename_i clean
    have tracked : ({ c with reads := 0 } : Connection).progress.Tracked phase := by
      have before := sound.tracked reading clean
      cases phase <;> exact before
    have behind := Connection.tracked_callbacks follows trailerless tracked executed
    refine ⟨fun alive complete => (behind alive).matches complete, fun alive => behind ?_⟩
    rw [alive]
    decide
  · rename_i broken
    cases executed
    exact ⟨fun _ complete => absurd complete (sound.waiting reading),
      fun clean => absurd clean broken⟩

theorem Sound.read {c d : Connection} {phase next : ParserPhase} (sound : Sound ⟨c, phase⟩)
    (reading : c.reads = 1) (follows : phase.afterAll made = some next)
    (trailerless : phase.Trailerless made)
    (handled : { c with reads := 0 }.onRead env errno made = some d) : Sound ⟨d, next⟩ := by
  obtain ⟨e, executed, rest⟩ := Option.bind_eq_some_iff.mp handled
  obtain ⟨complete, tracked⟩ := sound.executed reading follows trailerless executed
  have outside := Connection.outside_execute executed
  have idle : e.reads = 0 := congrArg Outside.reads outside
  have dispatched : ∀ d ∈ e.dispatched, d.Intact := by
    have kept : e.dispatched = c.dispatched := congrArg Outside.dispatched outside
    rw [kept]
    exact sound.dispatched
  split at rest
  · cases rest
    exact .resting idle dispatched
  · rename_i alive
    split at rest
    · rename_i incomplete
      simp only [Connection.doRead, Connection.asyncReadSome] at rest
      split at rest
      · cases rest
        refine ⟨?_, dispatched, fun _ => incomplete, fun _ clean => ?_⟩
        · change e.reads + 1 ≤ 1
          omega
        · have behind := tracked clean
          cases next <;> exact behind
      · cases rest
    · rename_i ended
      have found := complete alive (not_not.mp ended)
      obtain ⟨reads, same | ⟨app, routed, added⟩⟩ := Connection.onMessageRead_cases rest
      · exact .resting (reads.trans idle) (same ▸ dispatched)
      · refine .resting (reads.trans idle) ?_
        rw [added]
        intro entry member
        rcases List.mem_append.mp member with old | new
        · exact dispatched entry old
        · rw [List.mem_singleton.mp new]
          exact found app routed

theorem Sound.wrote {c d : Connection} {phase : ParserPhase} {operation : WriteOperation}
    (sound : Sound ⟨c, phase⟩)
    (undisturbed : ∀ written, operation = .response written → c.keepsAlive = true → c.reads = 0)
    (handled : c.onWrote now operation = some d) : Sound ⟨d, phase⟩ := by
  cases operation with
  | response written =>
    rw [Connection.onWrote] at handled
    split at handled
    · rename_i keeps
      have idle := undisturbed written rfl keeps
      simp only [Connection.doRead, Connection.asyncReadSome] at handled
      split at handled
      · cases handled
        refine ⟨?_, sound.dispatched, fun _ => ReadCompletePart.noConfusion, fun _ _ => ?_⟩
        · change c.reads + 1 ≤ 1
          omega
        · cases phase with
          | start => exact ReadCompletePart.noConfusion
          | block => exact ReadCompletePart.noConfusion
          | body => exact ⟨ReadCompletePart.noConfusion, fun app routed => by cases routed⟩
      · cases handled
    · cases handled
      exact sound
  | chunkedHeader written =>
    obtain ⟨same, errno⟩ := Connection.progress_doWriteNextChunkedBody handled
    exact sound.congr same errno
  | chunkedBody data =>
    obtain ⟨same, errno⟩ := Connection.progress_doWriteNextChunkedBody handled
    exact sound.congr same errno

theorem sound_step {e t : Exchange} (sound : Sound e) (stepped : step env e event = some t)
    (kept : Undisturbed e event t ∧ Trailerless e event t) : Sound t := by
  obtain ⟨c, phase⟩ := e
  obtain ⟨undisturbed, trailerless⟩ := kept
  cases event with
  | read errno made =>
    obtain ⟨next, follows, rest⟩ := Option.bind_eq_some_iff.mp stepped
    obtain ⟨d, handled, rfl⟩ := Option.map_eq_some_iff.mp rest
    rw [Connection.step] at handled
    split at handled
    · cases handled
    · rename_i reading
      have one : c.reads = 1 := Nat.le_antisymm sound.reads (Nat.pos_of_ne_zero reading)
      rw [one] at handled
      exact sound.read one follows trailerless handled
  | readFailed =>
    obtain ⟨d, handled, rfl⟩ := Option.map_eq_some_iff.mp stepped
    rw [Connection.step] at handled
    split at handled
    · cases handled
    · cases handled
      refine .resting ?_ sound.dispatched
      have one := sound.reads
      change c.reads - 1 = 0
      change c.reads ≤ 1 at one
      omega
  | wrote index now =>
    obtain ⟨d, handled, rfl⟩ := Option.map_eq_some_iff.mp stepped
    obtain ⟨operation, found, wrote⟩ := Option.bind_eq_some_iff.mp handled
    have before : Sound ⟨{ c with writes := c.writes.eraseIdx index }, phase⟩ := sound.congr rfl rfl
    exact before.wrote (fun written same => undisturbed written (same ▸ found)) wrote
  | writeFailed index =>
    obtain ⟨d, handled, rfl⟩ := Option.map_eq_some_iff.mp stepped
    obtain ⟨operation, -, rfl⟩ := Option.map_eq_some_iff.mp handled
    exact sound.congr rfl rfl
  | posted index now =>
    obtain ⟨d, handled, rfl⟩ := Option.map_eq_some_iff.mp stepped
    obtain ⟨start, -, popped⟩ := Option.bind_eq_some_iff.mp handled
    obtain ⟨same, errno⟩ := Connection.progress_doWriteNextChunkedBody popped
    exact sound.congr same errno
  | respond response =>
    obtain ⟨d, handled, rfl⟩ := Option.map_eq_some_iff.mp stepped
    rw [Connection.step] at handled
    split at handled
    · cases handled
    · have before : Sound ⟨{ c with response := response, contexts := c.contexts - 1 }, phase⟩ :=
        sound.congr rfl rfl
      exact before.congr (Connection.progress_startWrite handled)
        (Connection.errno_startWrite handled)
  | pushChunkedBody body isLast =>
    cases stepped
    exact sound.congr rfl rfl

/-- A read that is outstanding when the connection is reset is joined by another. -/
theorem undisturbed_of_intact {e t : Exchange} (stepped : step env e event = some t)
    (intact : t.Intact) : Undisturbed e event t := by
  cases event with
  | wrote index now =>
    intro written found keeps
    obtain ⟨d, handled, rfl⟩ := Option.map_eq_some_iff.mp stepped
    rw [Connection.step, found] at handled
    have keeping : ({ e.connection with writes := e.connection.writes.eraseIdx index } :
      Connection).keepsAlive = true := keeps
    simp only [Option.bind_some, Connection.onWrote, keeping, if_true, Connection.doRead,
      Connection.asyncReadSome] at handled
    split at handled
    · cases handled
      have one := intact.1
      change e.connection.reads + 1 ≤ 1 at one
      omega
    · cases handled
  | _ => trivial

/-- Whatever is sent and whenever writes complete: requests stay intact if responses
complete without a read outstanding and messages have no trailers. The first of the
two conditions is necessary in every run. -/
theorem requests_intact (env : Environment) (events : List Connection.Event) :
    (Transition.Steps (step env) (fun e event t => Undisturbed e event t ∧ Trailerless e event t)
        started events →
      Transition.Throughout (step env) Intact started events) ∧
    (Transition.Throughout (step env) Intact started events →
      Transition.Steps (step env) Undisturbed started events) := by
  constructor
  · intro kept
    refine Transition.throughout_of_steps (I := Sound) sound_step ?_ ?_ kept
    · intro e sound
      exact ⟨sound.reads, sound.dispatched⟩
    · refine ⟨Nat.le_refl 1, ?_, fun _ => ReadCompletePart.noConfusion, fun _ _ => ?_⟩
      · intro d member
        cases member
      · exact ReadCompletePart.noConfusion
  · intro holds
    exact Transition.steps_of_throughout undisturbed_of_intact holds

/-- A request that expects to be asked for its body of one octet, and the interim
response. -/
def interimRun : List Connection.Event :=
  [.read .ok [.messageBegin, .url [47], .headerField Reading.expectField,
      .headerValue Reading.continueValue,
      .headersComplete { method := 3, httpMajor := 1, httpMinor := 1, flags := 32, contentLength := 1 }],
    .wrote 0 0]

/-- Two reads are outstanding behind it, the request is empty, and the rest of the
message ends the program. -/
theorem interimRun_loses_request :
    ¬ Transition.Throughout (step (.single .root)) Intact started interimRun ∧
      (Transition.run (step (.single .root)) started interimRun).map (fun e =>
        (e.connection.reads, e.connection.request.url.full, e.connection.app)) =
          some (2, [], none) ∧
      (Transition.run (step (.single .root)) started
        (interimRun ++ [.read .ok [.body [88], .messageComplete]])).isNone = true := by
  have lost : (Transition.run (step (.single .root)) started interimRun).map (fun e =>
      (e.connection.reads, e.connection.request.url.full, e.connection.app)) =
        some (2, [], none) := by decide
  refine ⟨?_, lost, by decide⟩
  intro holds
  obtain ⟨e, ran, same⟩ := Option.map_eq_some_iff.mp lost
  have two : e.connection.reads = 2 := congrArg Prod.fst same
  have one := (holds.final ran).1
  omega

end Exchange
end Da4qi4
