import Da4qi4.Client.ConnectionReading
import Da4qi4.Foundation.Transition

/-! A request with calls that do not block. Each completion handler passes a notifier
on, and the error code that the last one gets is the one of the request. -/
namespace Da4qi4.Client
open Transition

/-- The functions that are called with an error code: the three in `Request` and the one
in `Connect`, which has another one inside. -/
inductive Notifier where
  | connected | wrote | read
  | resolved (notify : Notifier)
  deriving DecidableEq, Repr

inductive Operation where
  | resolve (notify : Notifier)
  | connect (notify : Notifier)
  | write (notify : Notifier)
  | read (notify : Notifier)
  deriving DecidableEq, Repr

inductive Resolution where
  | failed
  | empty
  | found (port : UInt16)

/-- What an operation ends with. The socket can fail to close behind a read. -/
inductive Outcome where
  | resolved (results : Resolution)
  | connected (ok : Bool)
  | wrote (ok : Bool)
  | read (outcome : ReadOutcome) (closes : Bool)

/-- A request with the operation that it waits for, with the calls of the function that
it was given, each with or without an error, and with what was parsed. -/
structure AsyncRequest where
  connection : Connection := {}
  pending : Option Operation := none
  notified : List Bool := []
  callbacks : List ParserCallback := []
  deriving DecidableEq

namespace AsyncRequest

def notify (s : AsyncRequest) (ec : Bool) : AsyncRequest :=
  { s with pending := none, notified := s.notified ++ [ec] }

def wait (s : AsyncRequest) (operation : Operation) : AsyncRequest :=
  { s with pending := some operation }

def withError (s : AsyncRequest) (error : Error) : AsyncRequest :=
  { s with connection := { s.connection with error := error } }

section Handlers
variable (ndebug : Bool) (action : ActionAfterRequest)

/-- `do_connect`, with what the call of the notifier does. A failed assertion leaves
nothing to wait for. -/
def doConnect (s : AsyncRequest) (notify : Notifier) (notified : AsyncRequest → AsyncRequest) :
    AsyncRequest :=
  if ¬ndebug ∧ ¬s.connection.serverEndpoint then { s with pending := none }
  else if s.connection.isConnected then notified s
  else s.wait (.connect notify)

def doClose (s : AsyncRequest) (closes : Bool) : AsyncRequest :=
  { s with connection := s.connection.doClose { reads := [], closes := closes } }

def call (closes : Bool) : Notifier → Bool → AsyncRequest → AsyncRequest
  | .connected, ec, s => if ec then s.notify ec else s.wait (.write .wrote)
  | .wrote, ec, s => if ec then s.notify ec else s.wait (.read .read)
  | .read, ec, s =>
    if action = .closeConnection then (s.notify ec).doClose closes else s.notify ec
  | .resolved notify, ec, s =>
    if ec then call closes notify ec s else doConnect ndebug s notify (call closes notify false)

/-- `Connect`. -/
def connect (s : AsyncRequest) (notify : Notifier) : AsyncRequest :=
  if s.connection.serverEndpoint then
    doConnect ndebug s notify (call ndebug action true notify false)
  else s.wait (.resolve (.resolved notify))

/-- `Request`. -/
def request (s : AsyncRequest) : AsyncRequest := connect ndebug action s .connected

def onResolve (s : AsyncRequest) (notify : Notifier) : Resolution → AsyncRequest
  | .failed => call ndebug action true notify true (s.withError .onResolver)
  -- The error code is that of a success.
  | .empty => call ndebug action true notify false (s.withError .onResolver)
  | .found port =>
    doConnect ndebug { s with connection := { s.connection with serverEndpoint := port ≠ 0 } }
      notify (call ndebug action true notify false)

def onConnect (s : AsyncRequest) (notify : Notifier) (ok : Bool) : AsyncRequest :=
  if ok then
    call ndebug action true notify false
      { s with connection := Connection.reset { s.connection with isConnected := true } }
  else call ndebug action true notify true (s.withError .onConnect)

def onWrite (s : AsyncRequest) (notify : Notifier) (ok : Bool) : AsyncRequest :=
  if ok then call ndebug action true notify false s
  else call ndebug action true notify true (s.withError .onWrite)

def parse (s : AsyncRequest) (callbacks : List ParserCallback) : AsyncRequest :=
  { s with
    connection := s.connection.execute callbacks
    callbacks := s.callbacks ++ callbacks }

def onRead (s : AsyncRequest) (notify : Notifier) (closes : Bool) : ReadOutcome → AsyncRequest
  | .failed => call ndebug action closes notify true (s.withError .onRead)
  | .parsed callbacks false =>
    call ndebug action closes notify false ((s.parse callbacks).withError .onRead)
  | .parsed callbacks true =>
    let s := s.parse callbacks
    if s.connection.readComplete ≠ .readMessageComplete then s.wait (.read notify)
    else call ndebug action closes notify false s

/-- An operation comes to its end. -/
def step (s : AsyncRequest) (outcome : Outcome) : Option AsyncRequest :=
  match s.pending, outcome with
  | some (.resolve notify), .resolved results => some (onResolve ndebug action s notify results)
  | some (.connect notify), .connected ok => some (onConnect ndebug action s notify ok)
  | some (.write notify), .wrote ok => some (onWrite ndebug action s notify ok)
  | some (.read notify), .read outcome closes =>
    some (onRead ndebug action s notify closes outcome)
  | _, _ => none

end Handlers

/-- When nothing is waited for the function was called, and it is called once at most;
without an error only when a whole message was parsed. -/
structure Told (s : AsyncRequest) : Prop where
  once : s.pending = none → s.notified.length = 1
  single : s.notified.length ≤ 1
  truthful : false ∈ s.notified → .messageComplete ∈ s.callbacks

/-- A parser fails behind a whole message only, and a resolver that succeeds has found an
address, as long as assertions are checked. -/
def Fits (ndebug : Bool) (s : AsyncRequest) : Outcome → Prop
  | .resolved .empty => ndebug = true
  | .resolved (.found port) => ndebug = true ∨ port ≠ 0
  | .read (.parsed callbacks false) _ => .messageComplete ∈ s.callbacks ++ callbacks
  | _ => True

/-- The operations that a request waits for. -/
inductive Awaited : Operation → Prop
  | resolve : Awaited (.resolve (.resolved .connected))
  | first : Awaited (.connect (.resolved .connected))
  | second : Awaited (.connect .connected)
  | write : Awaited (.write .wrote)
  | read : Awaited (.read .read)

/-- Nothing was told so far. -/
structure Untold (s : AsyncRequest) : Prop where
  none : s.notified = []
  parsed : s.connection.readComplete = .readMessageComplete → .messageComplete ∈ s.callbacks

/-- The address can be asserted. -/
def Addressed (ndebug : Bool) (s : AsyncRequest) : Prop :=
  ndebug = true ∨ s.connection.serverEndpoint = true

/-- What is known of the address during an operation. -/
def Placed (ndebug : Bool) (s : AsyncRequest) : Operation → Prop
  | .resolve _ => s.connection.serverEndpoint = false
  | .connect _ => s.Addressed ndebug
  | _ => True

structure Kept (ndebug : Bool) (s : AsyncRequest) : Prop where
  parsed : s.connection.readComplete = .readMessageComplete → .messageComplete ∈ s.callbacks
  waits : ∀ operation, s.pending = some operation →
    s.notified = [] ∧ Awaited operation ∧ s.Placed ndebug operation
  told : s.pending = none →
    ∃ ec, s.notified = [ec] ∧ (ec = false → .messageComplete ∈ s.callbacks)

theorem Kept.isTold {s : AsyncRequest} (kept : s.Kept ndebug) : s.Told := by
  cases pending : s.pending with
  | none =>
    obtain ⟨ec, told, truthful⟩ := kept.told pending
    refine ⟨fun _ => by rw [told]; rfl, by rw [told]; exact le_rfl, ?_⟩
    intro success
    rw [told, List.mem_singleton] at success
    exact truthful success.symm
  | some operation =>
    obtain ⟨none, -, -⟩ := kept.waits operation pending
    refine ⟨?_, by rw [none]; exact Nat.zero_le 1, ?_⟩
    · intro nothing
      rw [pending] at nothing
      cases nothing
    · intro success
      rw [none] at success
      cases success

theorem Kept.untold {s : AsyncRequest} {operation : Operation} (kept : s.Kept ndebug)
    (pending : s.pending = some operation) : s.Untold :=
  ⟨(kept.waits operation pending).1, kept.parsed⟩

theorem Kept.doClose {s : AsyncRequest} (kept : s.Kept ndebug) (closes : Bool) :
    (s.doClose closes).Kept ndebug := by
  have same : ((s.connection.doClose { reads := [], closes := closes }).readComplete =
      s.connection.readComplete) ∧ ((s.connection.doClose { reads := [], closes := closes
        }).serverEndpoint = s.connection.serverEndpoint) := by
    rw [Connection.doClose]
    split
    · exact ⟨rfl, rfl⟩
    · exact ⟨rfl, rfl⟩
  refine ⟨fun complete => kept.parsed (same.1.symm.trans complete), ?_, kept.told⟩
  intro operation pending
  obtain ⟨none, awaited, placed⟩ := kept.waits operation pending
  refine ⟨none, awaited, ?_⟩
  cases operation with
  | resolve notify => exact same.2.trans placed
  | connect notify => exact placed.imp id same.2.trans
  | write notify => trivial
  | read notify => trivial

namespace Untold
variable {ndebug : Bool} {action : ActionAfterRequest} {s : AsyncRequest}

theorem withError (untold : s.Untold) (error : Error) : (s.withError error).Untold :=
  ⟨untold.none, untold.parsed⟩

theorem found (untold : s.Untold) (port : UInt16) :
    AsyncRequest.Untold { s with
      connection := { s.connection with serverEndpoint := port ≠ 0 } } :=
  ⟨untold.none, untold.parsed⟩

theorem reset (untold : s.Untold) :
    AsyncRequest.Untold { s with
      connection := Connection.reset { s.connection with isConnected := true } } :=
  ⟨untold.none, fun wrong => by cases wrong⟩

theorem notify (untold : s.Untold) {ec : Bool}
    (truthful : ec = false → .messageComplete ∈ s.callbacks) : (s.notify ec).Kept ndebug := by
  refine ⟨untold.parsed, ?_, ?_⟩
  · intro _ pending
    cases pending
  · intro _
    exact ⟨ec, by simp [AsyncRequest.notify, untold.none], truthful⟩

theorem wait (untold : s.Untold) {operation : Operation} (awaited : Awaited operation)
    (placed : s.Placed ndebug operation) : (s.wait operation).Kept ndebug := by
  refine ⟨untold.parsed, ?_, ?_⟩
  · intro _ pending
    cases pending
    refine ⟨untold.none, awaited, ?_⟩
    cases operation <;> exact placed
  · intro pending
    cases pending

theorem doConnect (untold : s.Untold) (addressed : s.Addressed ndebug) {notify : Notifier}
    (awaited : Awaited (.connect notify)) {notified : AsyncRequest → AsyncRequest}
    (called : (notified s).Kept ndebug) : (s.doConnect ndebug notify notified).Kept ndebug := by
  have asserted : ¬(¬ndebug = true ∧ ¬s.connection.serverEndpoint = true) := by
    rintro ⟨checked, missing⟩
    exact addressed.elim checked missing
  rw [AsyncRequest.doConnect, if_neg asserted]
  split
  · exact called
  · exact untold.wait awaited addressed

theorem connected (untold : s.Untold) (closes : Bool) :
    (call ndebug action closes .connected false s).Kept ndebug :=
  untold.wait .write trivial

theorem resolved (untold : s.Untold) (addressed : s.Addressed ndebug) (closes : Bool) :
    (call ndebug action closes (.resolved .connected) false s).Kept ndebug :=
  untold.doConnect addressed .second (untold.connected closes)

/-- The last function is called with the code of the read. -/
theorem read (untold : s.Untold) (closes : Bool) {ec : Bool}
    (truthful : ec = false → .messageComplete ∈ s.callbacks) :
    (call ndebug action closes .read ec s).Kept ndebug := by
  have kept : (s.notify ec).Kept ndebug := untold.notify truthful
  rw [call]
  split
  · exact kept.doClose closes
  · exact kept

theorem parse (untold : s.Untold) (callbacks : List ParserCallback) :
    (s.parse callbacks).Untold := by
  refine ⟨untold.none, ?_⟩
  intro complete
  by_contra absent
  obtain ⟨before, now⟩ := not_or.mp fun there => absent (List.mem_append.mpr there)
  exact Connection.readComplete_execute (fun old => before (untold.parsed old)) now complete

theorem onResolve (untold : s.Untold) {results : Resolution}
    (fits : s.Fits ndebug (.resolved results)) :
    (s.onResolve ndebug action (.resolved .connected) results).Kept ndebug := by
  cases results with
  | failed => exact (untold.withError .onResolver).notify fun wrong => by cases wrong
  | empty => exact (untold.withError .onResolver).resolved (.inl fits) true
  | found port =>
    have addressed : AsyncRequest.Addressed ndebug { s with
        connection := { s.connection with serverEndpoint := port ≠ 0 } } :=
      fits.imp id decide_eq_true
    have found := untold.found port
    exact found.doConnect addressed .first (found.resolved addressed true)

theorem onConnect (untold : s.Untold) {notify : Notifier} (awaited : Awaited (.connect notify))
    (addressed : s.Addressed ndebug) (ok : Bool) :
    (s.onConnect ndebug action notify ok).Kept ndebug := by
  have failed := untold.withError .onConnect
  cases awaited with
  | first =>
    cases ok with
    | false => exact failed.notify fun wrong => by cases wrong
    | true => exact untold.reset.resolved addressed true
  | second =>
    cases ok with
    | false => exact failed.notify fun wrong => by cases wrong
    | true => exact untold.reset.wait .write trivial

theorem onWrite (untold : s.Untold) (ok : Bool) :
    (s.onWrite ndebug action .wrote ok).Kept ndebug := by
  cases ok with
  | false => exact (untold.withError .onWrite).notify fun wrong => by cases wrong
  | true => exact untold.wait .read trivial

theorem onRead (untold : s.Untold) {outcome : ReadOutcome} {closes : Bool}
    (fits : s.Fits ndebug (.read outcome closes)) :
    (s.onRead ndebug action .read closes outcome).Kept ndebug := by
  cases outcome with
  | failed => exact (untold.withError .onRead).read closes fun wrong => by cases wrong
  | parsed callbacks ok =>
    have parsed := untold.parse callbacks
    cases ok with
    | false => exact (parsed.withError .onRead).read closes fun _ => fits
    | true =>
      simp only [AsyncRequest.onRead]
      split
      · exact parsed.wait .read trivial
      · rename_i complete
        exact parsed.read closes fun _ => parsed.parsed (not_not.mp complete)

end Untold

section Steps
variable {ndebug : Bool} {action : ActionAfterRequest} {s t : AsyncRequest} {outcome : Outcome}

theorem Kept.step (kept : s.Kept ndebug) (stepped : s.step ndebug action outcome = some t)
    (fits : s.Fits ndebug outcome) : t.Kept ndebug := by
  cases pending : s.pending with
  | none =>
    simp only [AsyncRequest.step, pending] at stepped
    cases stepped
  | some operation =>
    have untold := kept.untold pending
    obtain ⟨-, awaited, placed⟩ := kept.waits operation pending
    simp only [AsyncRequest.step, pending] at stepped
    cases awaited with
    | resolve =>
      cases outcome with
      | resolved results =>
        cases stepped
        exact untold.onResolve fits
      | _ => cases stepped
    | first =>
      cases outcome with
      | connected ok =>
        cases stepped
        exact untold.onConnect .first placed ok
      | _ => cases stepped
    | second =>
      cases outcome with
      | connected ok =>
        cases stepped
        exact untold.onConnect .second placed ok
      | _ => cases stepped
    | write =>
      cases outcome with
      | wrote ok =>
        cases stepped
        exact untold.onWrite ok
      | _ => cases stepped
    | read =>
      cases outcome with
      | read outcome closes =>
        cases stepped
        exact untold.onRead fits
      | _ => cases stepped

/-- A failed assertion leaves a request of which nothing is told. -/
theorem not_told_doConnect {notify : Notifier} {notified : AsyncRequest → AsyncRequest}
    (untold : s.Untold) (checked : ndebug = false) (missing : s.connection.serverEndpoint = false) :
    ¬(s.doConnect ndebug notify notified).Told := by
  intro told
  have failed : s.doConnect ndebug notify notified = { s with pending := none } := by
    simp [AsyncRequest.doConnect, checked, missing]
  rw [failed] at told
  have once := told.once rfl
  rw [untold.none] at once
  cases once

theorem call_read (ndebug : Bool) (action : ActionAfterRequest) (s : AsyncRequest)
    (closes ec : Bool) :
    (call ndebug action closes .read ec s).notified = s.notified ++ [ec] ∧
      (call ndebug action closes .read ec s).callbacks = s.callbacks := by
  rw [call]
  split
  · exact ⟨rfl, rfl⟩
  · exact ⟨rfl, rfl⟩

theorem fits_of_told (kept : s.Kept ndebug) (stepped : s.step ndebug action outcome = some t)
    (told : t.Told) : s.Fits ndebug outcome := by
  cases pending : s.pending with
  | none =>
    simp only [AsyncRequest.step, pending] at stepped
    cases stepped
  | some operation =>
    have untold := kept.untold pending
    obtain ⟨-, awaited, placed⟩ := kept.waits operation pending
    simp only [AsyncRequest.step, pending] at stepped
    cases awaited with
    | resolve =>
      cases outcome with
      | resolved results =>
        cases stepped
        cases results with
        | failed => trivial
        | empty =>
          by_contra checked
          exact not_told_doConnect (untold.withError .onResolver) (by simpa [Fits] using checked)
            placed told
        | found port =>
          by_contra unfit
          obtain ⟨checked, zero⟩ := not_or.mp unfit
          exact not_told_doConnect (untold.found port) (by simpa using checked)
            (by simpa using zero) told
      | _ => cases stepped
    | read =>
      cases outcome with
      | read outcome closes =>
        cases stepped
        cases outcome with
        | failed => trivial
        | parsed callbacks ok =>
          cases ok with
          | true => trivial
          | false =>
            obtain ⟨notified, parsed⟩ :=
              call_read ndebug action ((s.parse callbacks).withError .onRead) closes false
            have truth := told.truthful
            rw [onRead, notified, parsed] at truth
            exact truth (List.mem_append_right _ List.mem_cons_self)
      | _ => cases stepped
    | _ =>
      cases outcome with
      | connected ok => trivial
      | wrote ok => trivial
      | _ => cases stepped

/-- A request tells the truth once exactly if no read ends with an error of the parser
before a message is complete, and if the addresses that are found can be asserted. -/
theorem told_throughout_iff (ndebug : Bool) (action : ActionAfterRequest)
    (outcomes : List Outcome) :
    Throughout (AsyncRequest.step ndebug action) Told (request ndebug action {}) outcomes ↔
      Steps (AsyncRequest.step ndebug action) (fun s outcome _ => s.Fits ndebug outcome)
        (request ndebug action {}) outcomes := by
  refine throughout_iff_steps Kept.step fits_of_told Kept.isTold ?_
  have untold : AsyncRequest.Untold {} := ⟨rfl, fun wrong => by cases wrong⟩
  exact untold.wait .resolve rfl

/-- What a server sends is no response; the function is called without an error. -/
theorem told_of_garbage :
    ∃ s, run (AsyncRequest.step false .keepConnection) (request false .keepConnection {})
        [.resolved (.found 80), .connected true, .wrote true,
          .read (.parsed [.messageBegin] false) true] = some s ∧
      s.pending = none ∧ s.notified = [false] ∧ s.callbacks = [.messageBegin] ∧ ¬s.Told := by
  refine ⟨_, rfl, rfl, rfl, rfl, ?_⟩
  intro told
  have parsed := told.truthful List.mem_cons_self
  exact absurd parsed (by decide)

end Steps
end AsyncRequest
end Da4qi4.Client
