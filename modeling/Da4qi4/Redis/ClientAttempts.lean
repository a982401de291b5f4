import Da4qi4.Redis.ClientLink
import Mathlib.Data.List.Perm.Basic

/-! Attempts to connect. A call starts one only when the client is not connected;
a reconnect timer that expires starts one in whatever status it finds. -/
namespace Da4qi4.Redis

namespace Link

/-- A timer that expires now finds the client not connected. -/
def Clear (l : Link) : Prop := l.armed = true → l.status = .notConnect

/-- `Reconnect` arms the timer only of a client that is not connected. -/
theorem clear_reconnect (l : Link) (on : Option Callback) :
    (l.call (.reconnect on)).Clear ↔ l.Clear := by
  rw [call]
  split
  · rename_i idle
    exact iff_of_true (fun _ => idle) fun _ => idle
  · exact Iff.rfl

end Link

namespace RedisClient

/-- No attempt was started while the client was connecting or connected. -/
def Apart (s : RedisClient) : Prop := ∀ status ∈ s.attempts, status = .notConnect

/-- Nor will one be by what happens next. -/
def StaysApart (ndebug : Bool) (s : RedisClient) : Prop :=
  s.Apart ∧ ∀ e t, s.step ndebug e = some t → t.Apart

/-- The link as the calls of a step leave it: the timer is armed only without a
connection. A failed connect under the policy to reconnect arms it, so there the
callback must not have started an attempt of its own. -/
def KeepsClear (s : RedisClient) (e : Event) (_ : RedisClient) : Prop :=
  match e with
  | .call c => (s.link.call c).Clear
  | .connected _ none inside => (Link.callAll ⟨.isConnected, s.armed⟩ inside).Clear
  | .connected _ (some _) inside =>
    if s.errorHandlePolicy = .autoReconnect then
      (Link.callAll ⟨.notConnect, s.armed⟩ inside).status = .notConnect
    else (Link.callAll ⟨.notConnect, s.armed⟩ inside).Clear
  | .expired _ => True
  | .wrote _ _ inside => (s.link.callAll inside).Clear
  | .read _ _ inside => (s.link.callAll inside).Clear

/-- Attempts are only added, each in the given status. -/
def Starts (allowed : ConnectStatus → Prop) (s t : RedisClient) : Prop :=
  ∃ more, t.attempts = s.attempts ++ more ∧ ∀ status ∈ more, allowed status

variable {allowed : ConnectStatus → Prop}

theorem Starts.refl (s : RedisClient) : Starts allowed s s :=
  ⟨[], (List.append_nil _).symm, fun _ member => nomatch member⟩

theorem Starts.of_same {s t : RedisClient} (same : t.attempts = s.attempts) : Starts allowed s t :=
  ⟨[], by rw [same, List.append_nil], fun _ member => nomatch member⟩

theorem Starts.trans {s t u : RedisClient} (first : Starts allowed s t)
    (second : Starts allowed t u) :
    Starts allowed s u := by
  obtain ⟨more, added, kept⟩ := first
  obtain ⟨others, addedOn, keptOn⟩ := second
  refine ⟨more ++ others, by rw [addedOn, added, List.append_assoc], fun status member => ?_⟩
  rcases List.mem_append.mp member with front | back
  · exact kept status front
  · exact keptOn status back

theorem attempts_startReconnectTimer (s : RedisClient) (on : Option Callback) :
    (s.startReconnectTimer on).attempts = s.attempts := rfl

theorem attempts_reconnect (s : RedisClient) (on : Option Callback) :
    (s.reconnect on).attempts = s.attempts := by
  rw [reconnect]
  split
  · rfl
  · split
    · rfl
    · rfl

theorem attempts_disconnect (s : RedisClient) : s.disconnect.attempts = s.attempts := by
  rw [disconnect]
  split
  · rfl
  · rfl

/-- Calls that may start an attempt only if one may be started without a
connection. -/
def Permits (allowed : ConnectStatus → Prop) (c : Call) : Prop :=
  ∀ on host port, c = .connect on host port → allowed .notConnect

theorem keeps_starts (ndebug : Bool) (allowed : ConnectStatus → Prop) (s : RedisClient) :
    Keeps ndebug (Permits allowed) (Starts allowed s) := by
  constructor
  · exact fun started same => started.trans (.of_same same.attempts)
  · intro t u c permits started called
    apply started.trans
    cases c with
    | connect on host port =>
      cases called
      rw [connect]
      cases status : t.connectStatus with
      | notConnect =>
        refine ⟨[.notConnect], ?_, ?_⟩
        · simp [doAsyncConnect]
        · rintro _ (_ | ⟨_, ⟨⟩⟩)
          exact permits on host port rfl
      | isConnectting => exact .refl t
      | isConnected => exact .refl t
    | reconnect on =>
      cases called
      exact .of_same (attempts_reconnect t on)
    | disconnect =>
      cases called
      exact .of_same (attempts_disconnect t)
    | command cmd args on => exact .of_same (sameConnection_command called).attempts

/-- The calls of a step, from outside or by a callback. -/
def Event.calls : Event → List Call
  | .call c => [c]
  | .connected _ _ inside => inside
  | .expired _ => []
  | .wrote _ _ inside => inside
  | .read _ _ inside => inside

/-- The attempts that a step starts: by a call of `Connect` without a connection,
or by a timer, in the status that it finds. -/
theorem starts_step {s t : RedisClient} (stepped : s.step ndebug e = some t)
    (permits : ∀ c ∈ e.calls, Permits allowed c)
    (timers : s.armed = true → allowed s.connectStatus) : Starts allowed s t := by
  have keeps := keeps_starts ndebug allowed s
  cases e with
  | call c => exact keeps.call (permits c (List.mem_singleton_self c)) (.refl s) stepped
  | connected index ec inside =>
    obtain ⟨op, -, handled⟩ := Option.bind_eq_some_iff.mp stepped
    obtain ⟨u, called, rfl⟩ := Option.map_eq_some_iff.mp handled
    have after : Starts allowed s u := by
      refine keeps.tryOnRedisHandler permits ?_ called
      cases ec <;> exact .of_same rfl
    split
    · exact after.trans (.of_same (attempts_startReconnectTimer u op.on))
    · exact after
  | expired index =>
    obtain ⟨wait, outstanding, rfl⟩ := Option.map_eq_some_iff.mp stepped
    rw [onTimer]
    split
    · exact .of_same rfl
    · rename_i live
      have armed : s.armed = true := by
        refine List.any_eq_true.mpr ⟨wait, List.mem_of_getElem? outstanding, ?_⟩
        simpa using live
      refine ⟨[s.connectStatus], rfl, ?_⟩
      rintro _ (_ | ⟨_, ⟨⟩⟩)
      exact timers armed
  | wrote index ec inside =>
    obtain ⟨data, -, handled⟩ := Option.bind_eq_some_iff.mp stepped
    refine keeps.onWrite permits ?_ ?_ handled
    · exact .of_same rfl
    · exact fun _ started _ _ => started.trans (.of_same (attempts_reconnect _ none))
  | read index result inside =>
    obtain ⟨op, -, handled⟩ := Option.bind_eq_some_iff.mp stepped
    split at handled
    · refine keeps.onRead permits ?_ handled
      exact .of_same rfl
    · cases handled

/-- Setting the timer cancels its waits, so no two of them are live. -/
def OneTimer (s : RedisClient) : Prop := s.waits.countP (fun wait => !wait.cancelled) ≤ 1

theorem countP_cancelTimer (s : RedisClient) :
    s.cancelTimer.waits.countP (fun wait => !wait.cancelled) = 0 := by
  rw [List.countP_eq_zero]
  intro wait member
  obtain ⟨live, -, rfl⟩ := List.mem_map.mp member
  intro live
  cases live

theorem oneTimer_startReconnectTimer (s : RedisClient) (on : Option Callback) :
    (s.startReconnectTimer on).OneTimer := by
  change List.countP _ (s.cancelTimer.waits ++ [_]) ≤ 1
  rw [List.countP_append, countP_cancelTimer, Nat.zero_add]
  exact List.countP_le_length

theorem oneTimer_reconnect {s : RedisClient} (one : s.OneTimer) (on : Option Callback) :
    (s.reconnect on).OneTimer := by
  rw [reconnect]
  split
  · exact one
  · split
    · exact oneTimer_startReconnectTimer s.cancelTimer on
    · exact one

theorem keeps_oneTimer (ndebug : Bool) : Keeps ndebug (fun _ => True) OneTimer := by
  constructor
  · intro s t one same
    rw [OneTimer, same.waits]
    exact one
  · intro s t c _ one called
    cases c with
    | connect on host port =>
      cases called
      rw [connect]
      split
      · exact one
      · exact one
    | reconnect on =>
      cases called
      exact oneTimer_reconnect one on
    | disconnect =>
      cases called
      rw [disconnect]
      split
      · exact one
      · rw [OneTimer, countP_cancelTimer]
        exact Nat.zero_le _
    | command cmd args on =>
      rw [OneTimer, (sameConnection_command called).waits]
      exact one

theorem oneTimer_eraseIdx {s : RedisClient} (one : s.OneTimer) (index : Nat) :
    OneTimer { s with waits := s.waits.eraseIdx index } :=
  (List.Sublist.countP_le (List.eraseIdx_sublist s.waits index)).trans one

theorem oneTimer_step {s t : RedisClient} (one : s.OneTimer) (stepped : s.step ndebug e = some t) :
    t.OneTimer := by
  have keeps := keeps_oneTimer ndebug
  cases e with
  | call c => exact keeps.call trivial one stepped
  | connected index ec inside =>
    obtain ⟨op, -, handled⟩ := Option.bind_eq_some_iff.mp stepped
    obtain ⟨u, called, rfl⟩ := Option.map_eq_some_iff.mp handled
    split
    · exact oneTimer_startReconnectTimer u op.on
    · refine keeps.tryOnRedisHandler (fun _ _ => trivial) ?_ called
      cases ec <;> exact one
  | expired index =>
    obtain ⟨wait, -, rfl⟩ := Option.map_eq_some_iff.mp stepped
    have erased := oneTimer_eraseIdx one index
    rw [onTimer]
    split
    · exact erased
    · exact erased
  | wrote index ec inside =>
    obtain ⟨data, -, handled⟩ := Option.bind_eq_some_iff.mp stepped
    refine keeps.onWrite (fun _ _ => trivial) ?_ ?_ handled
    · exact one
    · exact fun _ one _ _ => oneTimer_reconnect one none
  | read index result inside =>
    obtain ⟨op, -, handled⟩ := Option.bind_eq_some_iff.mp stepped
    split at handled
    · refine keeps.onRead (fun _ _ => trivial) ?_ handled
      exact one
    · cases handled

/-- A timer that has expired is not armed any more. -/
theorem armed_of_expired {s : RedisClient} (one : s.OneTimer)
    (outstanding : s.waits[index]? = some wait)
    (live : wait.cancelled = false) : armed { s with waits := s.waits.eraseIdx index } = false := by
  have counted : s.waits.countP (fun wait => !wait.cancelled) =
      (s.waits.eraseIdx index).countP (fun wait => !wait.cancelled) + 1 := by
    obtain ⟨bound, rfl⟩ := List.getElem?_eq_some_iff.mp outstanding
    rw [← (List.getElem_cons_eraseIdx_perm bound).countP_eq, List.countP_cons, live]
    rfl
  rw [OneTimer] at one
  have none : (s.waits.eraseIdx index).countP (fun wait => !wait.cancelled) = 0 := by omega
  rw [List.countP_eq_zero] at none
  exact List.any_eq_false.mpr none

theorem link_startAsyncWrite (s : RedisClient) : s.startAsyncWrite.link = s.link := by
  rw [startAsyncWrite]
  split
  · rfl
  · rfl

theorem link_deliver {s t : RedisClient} (delivered : s.deliver ndebug on value inside = some t) :
    t.link = s.link.callAll inside := by
  obtain ⟨u, called, started⟩ := Option.bind_eq_some_iff.mp delivered
  obtain ⟨v, popped, rfl⟩ := Option.map_eq_some_iff.mp started
  rw [link_startAsyncWrite, link_popFront popped, link_tryOnRedisHandler called]

theorem link_onRead {s t : RedisClient} (handled : s.onRead ndebug op result inside = some t) :
    t.link = s.link.callAll inside := by
  cases result with
  | error ec => exact link_onRead_error handled
  | ok data =>
    simp only [onRead] at handled
    split at handled
    · split at handled
      · rename_i silent
        cases handled
        rw [silent]
        rfl
      · cases handled
    · obtain ⟨answer, -, handled⟩ := Option.bind_eq_some_iff.mp handled
      split at handled
      · have delivered := link_deliver handled
        exact delivered
      · have delivered := link_deliver handled
        exact delivered
      · split at handled
        · rename_i silent
          cases handled
          rw [silent]
          rfl
        · cases handled

/-- A failed write reconnects under the policy, after the callback. -/
theorem link_onWrite {s t : RedisClient} (handled : s.onWrite ndebug ec inside = some t) :
    t.link = if ec ≠ none ∧ s.errorHandlePolicy = .autoReconnect then
        (s.link.callAll inside).call (.reconnect none)
      else s.link.callAll inside := by
  cases ec with
  | none =>
    rw [if_neg fun both => both.1 rfl]
    rw [onWrite] at handled
    split at handled
    · cases handled
    · simp only at handled
      split at handled
      · rename_i silent
        cases handled
        rw [silent]
        exact link_moveFront s
      · cases handled
  | some ec =>
    by_cases policy : s.errorHandlePolicy = .autoReconnect
    · rw [if_pos ⟨Option.some_ne_none ec, policy⟩]
      exact link_onWrite_error handled policy
    · rw [if_neg fun both => policy both.2]
      rw [onWrite] at handled
      split at handled
      · cases handled
      · obtain ⟨u, called, handled⟩ := Option.bind_eq_some_iff.mp handled
        obtain ⟨v, popped, rfl⟩ := Option.map_eq_some_iff.mp handled
        have keeps := keeps_policy ndebug s.errorHandlePolicy
        have same : v.errorHandlePolicy = s.errorHandlePolicy :=
          keeps.same (keeps.tryOnRedisHandler (fun _ _ => trivial)
            (keeps.same rfl (sameConnection_moveFront s)) called) (sameConnection_popFront popped)
        rw [same, if_neg policy, link_popFront popped, link_tryOnRedisHandler called,
          link_moveFront]

/-- A failed connect sets the timer under the policy, after the callback. -/
theorem link_onConnectFinished {s t : RedisClient}
    (handled : s.onConnectFinished ndebug on ec inside = some t) :
    t.link =
      let finished := Link.callAll
        ⟨if ec = none then .isConnected else .notConnect, s.armed⟩ inside
      if ec ≠ none ∧ s.errorHandlePolicy = .autoReconnect then ⟨finished.status, true⟩
      else finished := by
  obtain ⟨u, called, rfl⟩ := Option.map_eq_some_iff.mp handled
  have keeps := keeps_policy ndebug s.errorHandlePolicy
  have policy : u.errorHandlePolicy = s.errorHandlePolicy := by
    refine keeps.tryOnRedisHandler (fun _ _ => trivial) ?_ called
    cases ec <;> rfl
  have linked : u.link = Link.callAll
      ⟨if ec = none then .isConnected else .notConnect, s.armed⟩ inside := by
    have called := link_tryOnRedisHandler called
    cases ec <;> exact called
  rw [policy]
  simp only
  split
  · rw [link_startReconnectTimer, ← linked]
    rfl
  · exact linked

structure Timely (s : RedisClient) : Prop where
  one : s.OneTimer
  clear : s.link.Clear
  apart : s.Apart

theorem keepsClear_iff {s t : RedisClient} (timely : s.Timely)
    (stepped : s.step ndebug e = some t) :
    KeepsClear s e t ↔ t.link.Clear := by
  cases e with
  | call c =>
    rw [link_call stepped]
    exact Iff.rfl
  | connected index ec inside =>
    obtain ⟨op, -, handled⟩ := Option.bind_eq_some_iff.mp stepped
    rw [link_onConnectFinished handled]
    cases ec with
    | none => exact Iff.rfl
    | some ec =>
      by_cases policy : s.errorHandlePolicy = .autoReconnect
      · simp only [KeepsClear, policy, if_true, reduceCtorEq, if_false, ne_eq, not_false_eq_true,
          and_self, Link.Clear, forall_const]
        exact Iff.rfl
      · simp only [KeepsClear, policy, if_false, reduceCtorEq, and_false]
        exact Iff.rfl
  | expired index =>
    obtain ⟨wait, outstanding, rfl⟩ := Option.map_eq_some_iff.mp stepped
    apply iff_of_true trivial
    rw [onTimer]
    split
    · intro armed
      obtain ⟨other, member, live⟩ := List.any_eq_true.mp armed
      exact timely.clear (List.any_eq_true.mpr ⟨other, List.mem_of_mem_eraseIdx member, live⟩)
    · rename_i live
      have disarmed := armed_of_expired timely.one outstanding (by simpa using live)
      intro armed
      exact absurd armed (Bool.eq_false_iff.mp disarmed)
  | wrote index ec inside =>
    obtain ⟨data, -, handled⟩ := Option.bind_eq_some_iff.mp stepped
    rw [link_onWrite handled]
    split
    · exact (Link.clear_reconnect _ none).symm
    · exact Iff.rfl
  | read index result inside =>
    obtain ⟨op, -, handled⟩ := Option.bind_eq_some_iff.mp stepped
    split at handled
    · rw [link_onRead handled]
      exact Iff.rfl
    · cases handled

theorem Timely.next {s t : RedisClient} (timely : s.Timely) (stepped : s.step ndebug e = some t) :
    t.Apart := by
  have started : Starts (· = .notConnect) s t :=
    starts_step stepped (fun _ _ _ _ _ _ => rfl) timely.clear
  obtain ⟨more, added, idle⟩ := started
  intro status member
  rw [added, List.mem_append] at member
  rcases member with before | started
  · exact timely.apart status before
  · exact idle status started

/-- An armed timer can expire. -/
theorem clear_of_staysApart {s : RedisClient} (stays : s.StaysApart ndebug) : s.link.Clear := by
  intro armed
  obtain ⟨wait, member, live⟩ := List.any_eq_true.mp armed
  obtain ⟨index, outstanding⟩ := List.mem_iff_getElem?.mp member
  have expired : s.step ndebug (.expired index) =
      some ({ s with waits := s.waits.eraseIdx index }.doAsyncConnect wait.on) := by
    have notCancelled : wait.cancelled = false := by simpa using live
    simp only [step, outstanding, Option.map_some, onTimer, notCancelled, Bool.false_eq_true,
      if_false]
  apply stays.2 _ _ expired s.connectStatus
  exact List.mem_append_right _ (List.mem_singleton_self _)

/-- In a run, and whatever comes next in any of its states, no attempt is started
while the client is connecting or connected exactly if the calls of every step
leave the timer armed only without a connection. -/
theorem attempts_apart_iff (ndebug : Bool) (policy : RedisClientErrorHandlePolicy)
    (events : List Event) :
    Transition.Throughout (step ndebug) (StaysApart ndebug) (constructed policy) events ↔
      Transition.Steps (step ndebug) KeepsClear (constructed policy) events := by
  refine Transition.throughout_iff_steps (I := Timely) ?_ ?_ ?_ ?_
  · intro s e t timely stepped keeps
    exact ⟨oneTimer_step timely.one stepped, (keepsClear_iff timely stepped).mp keeps,
      timely.next stepped⟩
  · intro s e t timely stepped stays
    exact (keepsClear_iff timely stepped).mpr (clear_of_staysApart stays)
  · exact fun timely => ⟨timely.apart, fun e t stepped => timely.next stepped⟩
  · exact ⟨Nat.zero_le _, (fun armed => nomatch armed), fun status member => nomatch member⟩

/-- `Connect` while the timer of a `Reconnect` is armed. -/
def connectBehindReconnect : List Event :=
  [.call (.reconnect none), .call (.connect none "127.0.0.1" 6379), .expired 0]

/-- The timer starts a second attempt during the first. -/
theorem connectBehindReconnect_overlaps :
    ¬Transition.Throughout (step false) Apart (constructed .doNothing) connectBehindReconnect := by
  intro holds
  have second := holds.final rfl .isConnectting (List.mem_cons_of_mem _ (List.mem_cons_self ..))
  cases second

end RedisClient
end Da4qi4.Redis
