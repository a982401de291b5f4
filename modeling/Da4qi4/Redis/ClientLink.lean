import Da4qi4.Redis.ClientQueue

/-! The connection of a client, apart from its commands: the status, and whether
a wait that will start a new attempt is pending on the timer. -/
namespace Da4qi4.Redis

/-- What reconnecting depends on. -/
structure Link where
  status : ConnectStatus
  armed : Bool
  deriving DecidableEq, Repr

namespace Link

def call (l : Link) : Call → Link
  | .connect _ _ _ => if l.status = .notConnect then { l with status := .isConnectting } else l
  | .reconnect _ => if l.status = .notConnect then { l with armed := true } else l
  | .disconnect =>
    if l.status = .isConnected then { l with status := .notConnect } else { l with armed := false }
  | .command _ _ _ => l

def callAll (l : Link) (inside : List Call) : Link := inside.foldl call l

/-- A new connection is under way, or will be. -/
def Attempting (l : Link) : Prop := l.status = .isConnectting ∨ l.armed = true

end Link

namespace RedisClient

def armed (s : RedisClient) : Bool := s.waits.any fun wait => !wait.cancelled

def link (s : RedisClient) : Link := ⟨s.connectStatus, s.armed⟩

/-- It is connecting, or a reconnect timer is armed. -/
def Attempting (s : RedisClient) : Prop :=
  s.connectStatus = .isConnectting ∨ ∃ wait ∈ s.waits, wait.cancelled = false

theorem attempting_iff (s : RedisClient) : s.Attempting ↔ s.link.Attempting := by
  simp [Attempting, Link.Attempting, link, armed]

theorem link_startReconnectTimer (s : RedisClient) (on : Option Callback) :
    (s.startReconnectTimer on).link = ⟨s.connectStatus, true⟩ := by
  simp [link, armed, startReconnectTimer, cancelTimer]

theorem link_reconnect (s : RedisClient) (on : Option Callback) :
    (s.reconnect on).link = s.link.call (.reconnect on) := by
  rw [reconnect]
  cases status : s.connectStatus with
  | notConnect =>
    apply (link_startReconnectTimer s.cancelTimer on).trans
    simp [link, cancelTimer, Link.call, status]
  | isConnectting => simp [notifyConnect, link, armed, Link.call, status]
  | isConnected => simp [notifyConnect, link, armed, Link.call, status]

/-- The calls of the client move its link. -/
theorem link_call {s t : RedisClient} (called : s.call ndebug c = some t) :
    t.link = s.link.call c := by
  cases c with
  | connect on host port =>
    cases called
    rw [connect]
    cases status : s.connectStatus <;> simp [link, armed, doAsyncConnect, Link.call, status]
  | reconnect on =>
    cases called
    exact link_reconnect s on
  | disconnect =>
    cases called
    rw [disconnect]
    cases status : s.connectStatus <;>
      simp [link, armed, doDisconnect, cancelTimer, Link.call, status]
  | command cmd args on =>
    simp only [call, command] at called
    split at called
    · cases called
      split
      · rw [startAsyncWrite]
        split <;> rfl
      · rfl
    · cases called

theorem link_callAll {s t : RedisClient} (called : s.callAll ndebug inside = some t) :
    t.link = s.link.callAll inside := by
  induction inside generalizing s with
  | nil =>
    cases called
    rfl
  | cons c inside ih =>
    obtain ⟨u, first, rest⟩ := Option.bind_eq_some_iff.mp called
    rw [ih rest, link_call first]
    rfl

theorem link_tryOnRedisHandler {s t : RedisClient}
    (handled : s.tryOnRedisHandler ndebug on notice inside = some t) :
    t.link = s.link.callAll inside := by
  cases on with
  | none =>
    simp only [tryOnRedisHandler] at handled
    split at handled
    · rename_i none
      cases handled
      rw [none]
      rfl
    · cases handled
  | some on =>
    exact link_callAll (s := { s with notices := s.notices ++ [notice on] }) handled

theorem link_popFront {s t : RedisClient} (popped : s.popFront = some t) : t.link = s.link := by
  rw [popFront] at popped
  split at popped
  · cases popped
  · cases popped
    rfl

theorem link_moveFront (s : RedisClient) : s.moveFront.link = s.link := by
  rw [moveFront]
  split <;> rfl

/-- Nothing of the connection changes. -/
structure SameConnection (s t : RedisClient) : Prop where
  policy : t.errorHandlePolicy = s.errorHandlePolicy
  status : t.connectStatus = s.connectStatus
  connects : t.connects = s.connects
  waits : t.waits = s.waits
  attempts : t.attempts = s.attempts

theorem sameConnection_startAsyncWrite (s : RedisClient) : SameConnection s s.startAsyncWrite := by
  rw [startAsyncWrite]
  split
  · constructor <;> rfl
  · constructor <;> rfl

theorem sameConnection_popFront {s t : RedisClient} (popped : s.popFront = some t) :
    SameConnection s t := by
  rw [popFront] at popped
  split at popped
  · cases popped
  · cases popped
    constructor <;> rfl

theorem sameConnection_moveFront (s : RedisClient) : SameConnection s s.moveFront := by
  rw [moveFront]
  split
  · constructor <;> rfl
  · constructor <;> rfl

theorem sameConnection_command {s t : RedisClient}
    (called : s.command ndebug cmd args on = some t) :
    SameConnection s t := by
  simp only [command] at called
  split at called
  · cases called
    split
    · obtain ⟨policy, status, connects, waits, attempts⟩ :=
        sameConnection_startAsyncWrite (s.enqueue ⟨makeCommand (cmd :: args), on⟩)
      exact ⟨policy, status, connects, waits, attempts⟩
    · constructor <;> rfl
  · cases called

/-- A property of the connection that the allowed calls keep. -/
structure Keeps (ndebug : Bool) (allowed : Call → Prop) (I : RedisClient → Prop) : Prop where
  same : ∀ {s t}, I s → SameConnection s t → I t
  call : ∀ {s t c}, allowed c → I s → s.call ndebug c = some t → I t

namespace Keeps
variable {allowed : Call → Prop} {I : RedisClient → Prop}

theorem callAll (keeps : Keeps ndebug allowed I) (calls : ∀ c ∈ inside, allowed c) (holds : I s)
    (called : s.callAll ndebug inside = some t) : I t := by
  induction inside generalizing s with
  | nil =>
    cases called
    exact holds
  | cons c inside ih =>
    obtain ⟨u, first, rest⟩ := Option.bind_eq_some_iff.mp called
    have here := keeps.call (calls c (List.mem_cons_self ..)) holds first
    exact ih (fun d member => calls d (List.mem_cons_of_mem c member)) here rest

theorem tryOnRedisHandler (keeps : Keeps ndebug allowed I) (calls : ∀ c ∈ inside, allowed c)
    (holds : I s) (handled : s.tryOnRedisHandler ndebug on notice inside = some t) : I t := by
  cases on with
  | none =>
    simp only [RedisClient.tryOnRedisHandler] at handled
    split at handled
    · cases handled
      exact holds
    · cases handled
  | some on => exact keeps.callAll calls (keeps.same holds (by constructor <;> rfl)) handled

theorem deliver (keeps : Keeps ndebug allowed I) (calls : ∀ c ∈ inside, allowed c) (holds : I s)
    (delivered : s.deliver ndebug on value inside = some t) : I t := by
  obtain ⟨u, called, started⟩ := Option.bind_eq_some_iff.mp delivered
  obtain ⟨v, popped, rfl⟩ := Option.map_eq_some_iff.mp started
  have popped := keeps.same (keeps.tryOnRedisHandler calls holds called)
    (sameConnection_popFront popped)
  exact keeps.same popped (sameConnection_startAsyncWrite v)

theorem onRead (keeps : Keeps ndebug allowed I) (calls : ∀ c ∈ inside, allowed c) (holds : I s)
    (handled : s.onRead ndebug op result inside = some t) : I t := by
  cases result with
  | error ec =>
    obtain ⟨u, called, popped⟩ := Option.bind_eq_some_iff.mp handled
    exact keeps.same (keeps.tryOnRedisHandler calls holds called) (sameConnection_popFront popped)
  | ok data =>
    simp only [RedisClient.onRead] at handled
    split at handled
    · split at handled
      · cases handled
        exact keeps.same holds (by constructor <;> rfl)
      · cases handled
    · obtain ⟨answer, -, handled⟩ := Option.bind_eq_some_iff.mp handled
      have parsed : I { s with
          replyBuf := s.replyBuf ++ data, replyParseBeg := answer.consumed } :=
        keeps.same holds (by constructor <;> rfl)
      split at handled
      · exact keeps.deliver calls parsed handled
      · exact keeps.deliver calls parsed handled
      · split at handled
        · cases handled
          exact keeps.same parsed (by constructor <;> rfl)
        · cases handled

/-- After a failed write, the policy may call `Reconnect`. -/
theorem onWrite (keeps : Keeps ndebug allowed I) (calls : ∀ c ∈ inside, allowed c) (holds : I s)
    (reconnects : ∀ {u}, ec ≠ none → I u → u.link = s.link.callAll inside →
      u.errorHandlePolicy = .autoReconnect → I (u.reconnect none))
    (handled : s.onWrite ndebug ec inside = some t) : I t := by
  rw [RedisClient.onWrite] at handled
  split at handled
  · cases handled
  · have moved := keeps.same holds (sameConnection_moveFront s)
    cases ec with
    | none =>
      simp only at handled
      split at handled
      · cases handled
        exact keeps.same moved (by constructor <;> rfl)
      · cases handled
    | some ec =>
      obtain ⟨u, called, handled⟩ := Option.bind_eq_some_iff.mp handled
      obtain ⟨v, popped, rfl⟩ := Option.map_eq_some_iff.mp handled
      have left := keeps.same (keeps.tryOnRedisHandler calls moved called)
        (sameConnection_popFront popped)
      split
      · rename_i policy
        refine reconnects (Option.some_ne_none ec) left ?_ policy
        rw [link_popFront popped, link_tryOnRedisHandler called, link_moveFront]
      · exact left

end Keeps

theorem keeps_policy (ndebug : Bool) (policy : RedisClientErrorHandlePolicy) :
    Keeps ndebug (fun _ => True) fun s => s.errorHandlePolicy = policy := by
  constructor
  · exact fun holds same => same.policy.trans holds
  · intro s t c _ holds called
    cases c with
    | connect on host port =>
      cases called
      exact (appends_connect s on host port).policy.trans holds
    | reconnect on =>
      cases called
      exact (appends_reconnect s on).policy.trans holds
    | disconnect =>
      cases called
      exact (appends_disconnect s).policy.trans holds
    | command cmd args on => exact (sameConnection_command called).policy.trans holds

theorem policy_step {s t : RedisClient} (stepped : s.step ndebug e = some t) :
    t.errorHandlePolicy = s.errorHandlePolicy := by
  have keeps := keeps_policy ndebug s.errorHandlePolicy
  cases e with
  | call c => exact keeps.call trivial rfl stepped
  | connected index ec inside =>
    obtain ⟨op, -, handled⟩ := Option.bind_eq_some_iff.mp stepped
    obtain ⟨u, called, rfl⟩ := Option.map_eq_some_iff.mp handled
    have after : u.errorHandlePolicy = s.errorHandlePolicy := by
      refine keeps.tryOnRedisHandler (fun _ _ => trivial) ?_ called
      cases ec <;> rfl
    split
    · exact (appends_startReconnectTimer u op.on).policy.trans after
    · exact after
  | expired index =>
    obtain ⟨wait, -, rfl⟩ := Option.map_eq_some_iff.mp stepped
    rw [onTimer]
    split <;> rfl
  | wrote index ec inside =>
    obtain ⟨data, -, handled⟩ := Option.bind_eq_some_iff.mp stepped
    refine keeps.onWrite (fun _ _ => trivial) ?_ ?_ handled
    · rfl
    · exact fun _ holds _ _ => (appends_reconnect _ none).policy.trans holds
  | read index result inside =>
    obtain ⟨op, -, handled⟩ := Option.bind_eq_some_iff.mp stepped
    split at handled
    · refine keeps.onRead (fun _ _ => trivial) ?_ handled
      rfl
    · cases handled

/-- After a failed write or read, a new connection is under way or will be. -/
def Reconnects (_ : RedisClient) (e : Event) (t : RedisClient) : Prop := e.Failed → t.Attempting

/-- What the handler of a failure needs from the link as the callback leaves it:
only a failed write starts an attempt, and only without a connection. -/
def Recoverable (s : RedisClient) (e : Event) (_ : RedisClient) : Prop :=
  match e with
  | .wrote _ (some _) inside =>
    (s.link.callAll inside).status ≠ .isConnected ∨ (s.link.callAll inside).armed = true
  | .read _ (.error _) inside => (s.link.callAll inside).Attempting
  | _ => True

theorem link_onWrite_error {s t : RedisClient}
    (handled : s.onWrite ndebug (some ec) inside = some t)
    (policy : s.errorHandlePolicy = .autoReconnect) :
    t.link = (s.link.callAll inside).call (.reconnect none) := by
  rw [onWrite] at handled
  split at handled
  · cases handled
  · obtain ⟨u, called, handled⟩ := Option.bind_eq_some_iff.mp handled
    obtain ⟨v, popped, rfl⟩ := Option.map_eq_some_iff.mp handled
    have same : v.errorHandlePolicy = .autoReconnect := by
      have keeps := keeps_policy ndebug .autoReconnect
      have moved := keeps.same policy (sameConnection_moveFront s)
      exact keeps.same (keeps.tryOnRedisHandler (fun _ _ => trivial) moved called)
        (sameConnection_popFront popped)
    rw [if_pos same, link_reconnect, link_popFront popped, link_tryOnRedisHandler called,
      link_moveFront]

theorem link_onRead_error {s t : RedisClient}
    (handled : s.onRead ndebug op (.error ec) inside = some t) :
    t.link = s.link.callAll inside := by
  obtain ⟨u, called, popped⟩ := Option.bind_eq_some_iff.mp handled
  rw [link_popFront popped, link_tryOnRedisHandler called]

/-- `Reconnect` leaves an attempt unless the client counts as connected. -/
theorem attempting_reconnect (l : Link) (on : Option Callback) :
    (l.call (.reconnect on)).Attempting ↔ l.status ≠ .isConnected ∨ l.armed = true := by
  rw [Link.call, Link.Attempting]
  cases status : l.status <;> simp [status]

theorem reconnects_iff_step {s t : RedisClient} (policy : s.errorHandlePolicy = .autoReconnect)
    (stepped : s.step ndebug e = some t) : Reconnects s e t ↔ Recoverable s e t := by
  cases e with
  | call c => exact iff_of_true (fun failed => failed.elim) trivial
  | connected index ec inside => exact iff_of_true (fun failed => failed.elim) trivial
  | expired index => exact iff_of_true (fun failed => failed.elim) trivial
  | wrote index ec inside =>
    cases ec with
    | none => exact iff_of_true (fun failed => absurd rfl failed) trivial
    | some ec =>
      obtain ⟨data, -, handled⟩ := Option.bind_eq_some_iff.mp stepped
      have left := link_onWrite_error handled policy
      have failed : (Event.wrote index (some ec) inside).Failed := by simp [Event.Failed]
      rw [Reconnects, attempting_iff, left, attempting_reconnect]
      exact forall_prop_of_true failed
  | read index result inside =>
    cases result with
    | ok data => exact iff_of_true (fun ⟨_, failed⟩ => nomatch failed) trivial
    | error ec =>
      obtain ⟨op, -, handled⟩ := Option.bind_eq_some_iff.mp stepped
      split at handled
      · have left := link_onRead_error handled
        rw [Reconnects, attempting_iff, left]
        exact forall_prop_of_true ⟨ec, rfl⟩
      · cases handled

/-- In a run with the policy to reconnect, every failure is followed by an
attempt exactly if each finds the link so that there is one. -/
theorem reconnects_iff (ndebug : Bool) (events : List Event) :
    Transition.Steps (step ndebug) Reconnects (constructed .autoReconnect) events ↔
      Transition.Steps (step ndebug) Recoverable (constructed .autoReconnect) events :=
  Transition.steps_congr (I := fun s => s.errorHandlePolicy = .autoReconnect)
    (fun policy stepped _ => (policy_step stepped).trans policy)
    (fun policy stepped => reconnects_iff_step policy stepped) rfl

/-- A connected client whose first write fails. -/
def brokenConnection : List Event :=
  [.call (.connect none "127.0.0.1" 6379), .connected 0 none [], .call (.command [80] [] none),
    .wrote 0 (some ⟨[]⟩) []]

/-- It stays connected, without an attempt. -/
theorem brokenConnection_stays :
    ¬Transition.Steps (step false) Reconnects (constructed .autoReconnect) brokenConnection := by
  intro holds
  obtain ⟨-, connecting⟩ := holds _ rfl
  obtain ⟨-, connected⟩ := connecting _ rfl
  obtain ⟨-, writing⟩ := connected _ rfl
  obtain ⟨reconnects, -⟩ := writing _ rfl
  rcases reconnects (by simp [Event.Failed]) with status | ⟨wait, member, -⟩
  · cases status
  · cases member

end RedisClient
end Da4qi4.Redis
