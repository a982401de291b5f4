import Da4qi4.Redis.ClientAttempts

/-! What comes after a `Disconnect`. It closes the socket of a connected client and
cancels the timer of any other one, so an attempt that is under way, a timer that
is armed while the client is connected, and the policy to reconnect all survive
it. -/
namespace Da4qi4.Redis

namespace RedisClient

/-- The only call is `Disconnect` again. -/
def Event.Silent (e : Event) : Prop := ∀ c ∈ e.calls, c = .disconnect

instance (e : Event) : Decidable e.Silent :=
  inferInstanceAs (Decidable (∀ c ∈ e.calls, c = .disconnect))

/-- A step in which nobody asks for a connection. -/
def stepSilently (ndebug : Bool) (s : RedisClient) (e : Event) : Option RedisClient :=
  if e.Silent then s.step ndebug e else none

/-- No attempt was started, and when the outstanding ones have completed the client
is not connected. -/
def Down (attempts : List ConnectStatus) (s : RedisClient) : Prop :=
  s.attempts = attempts ∧ (s.connects = [] → s.connectStatus = .notConnect)

/-- Nor does what happens next start an attempt. -/
def StaysDown (ndebug : Bool) (attempts : List ConnectStatus) (s : RedisClient) : Prop :=
  s.Down attempts ∧ ∀ e t, s.stepSilently ndebug e = some t → t.attempts = attempts

/-- No outstanding attempt succeeds, unless another one is still outstanding or the
callback disconnects; and no failure meets the policy to reconnect, unless a write
fails during an attempt. -/
def Harmless (s : RedisClient) (e : Event) (_ : RedisClient) : Prop :=
  match e with
  | .connected _ none inside => 1 < s.connects.length ∨ .disconnect ∈ inside
  | .connected _ (some _) _ => s.errorHandlePolicy = .doNothing
  | .wrote _ (some _) inside =>
    s.errorHandlePolicy = .doNothing ∨ (s.link.callAll inside).status ≠ .notConnect
  | _ => True

def Pending (s : RedisClient) : Prop := s.connectStatus = .isConnectting → s.connects ≠ []

theorem pending_doAsyncConnect (s : RedisClient) (on : Option Callback) :
    (s.doAsyncConnect on).Pending := by
  intro _
  exact List.append_ne_nil_of_right_ne_nil _ (List.cons_ne_nil _ _)

theorem pending_reconnect {s : RedisClient} (pending : s.Pending) (on : Option Callback) :
    (s.reconnect on).Pending := by
  rw [reconnect]
  split
  · exact pending
  · split
    · exact pending
    · exact pending

theorem keeps_pending (ndebug : Bool) : Keeps ndebug (fun _ => True) Pending := by
  constructor
  · intro s t pending same
    rw [Pending, same.status, same.connects]
    exact pending
  · intro s t c _ pending called
    cases c with
    | connect on host port =>
      cases called
      rw [connect]
      split
      · exact pending
      · exact pending_doAsyncConnect _ on
    | reconnect on =>
      cases called
      exact pending_reconnect pending on
    | disconnect =>
      cases called
      rw [disconnect]
      split
      · intro connecting
        cases connecting
      · exact pending
    | command cmd args on =>
      have same := sameConnection_command called
      rw [Pending, same.status, same.connects]
      exact pending

theorem pending_step {s t : RedisClient} (pending : s.Pending)
    (stepped : s.step ndebug e = some t) :
    t.Pending := by
  have keeps := keeps_pending ndebug
  cases e with
  | call c => exact keeps.call trivial pending stepped
  | connected index ec inside =>
    obtain ⟨op, -, handled⟩ := Option.bind_eq_some_iff.mp stepped
    obtain ⟨u, called, rfl⟩ := Option.map_eq_some_iff.mp handled
    have after : u.Pending := by
      refine keeps.tryOnRedisHandler (fun _ _ => trivial) ?_ called
      cases ec with
      | none => exact fun connecting => nomatch connecting
      | some ec => exact fun connecting => nomatch connecting
    split
    · exact after
    · exact after
  | expired index =>
    obtain ⟨wait, -, rfl⟩ := Option.map_eq_some_iff.mp stepped
    rw [onTimer]
    split
    · exact pending
    · exact pending_doAsyncConnect _ _
  | wrote index ec inside =>
    obtain ⟨data, -, handled⟩ := Option.bind_eq_some_iff.mp stepped
    refine keeps.onWrite (fun _ _ => trivial) ?_ ?_ handled
    · exact pending
    · exact fun _ pending _ _ => pending_reconnect pending none
  | read index result inside =>
    obtain ⟨op, -, handled⟩ := Option.bind_eq_some_iff.mp stepped
    split at handled
    · refine keeps.onRead (fun _ _ => trivial) ?_ handled
      exact pending
    · cases handled

theorem pending_run (ran : Transition.run (step ndebug) (constructed policy) before = some s) :
    s.Pending :=
  Transition.run_invariant pending_step (fun connecting => by cases connecting) ran

theorem link_silent {inside : List Call} (silent : ∀ c ∈ inside, c = .disconnect) (l : Link)
    (idle : l.armed = false) :
    l.callAll inside =
      if .disconnect ∈ inside ∧ l.status = .isConnected then ⟨.notConnect, false⟩ else l := by
  induction inside generalizing l with
  | nil =>
    rw [if_neg fun both => nomatch both.1]
    rfl
  | cons c inside ih =>
    obtain rfl := silent c (List.mem_cons_self ..)
    have rest := fun d member => silent d (List.mem_cons_of_mem Call.disconnect member)
    have first : l.callAll (.disconnect :: inside) = (l.call .disconnect).callAll inside := rfl
    have here : Call.disconnect ∈ Call.disconnect :: inside := List.mem_cons_self ..
    rw [first]
    obtain ⟨status, armed⟩ := l
    subst idle
    cases status with
    | isConnected =>
      rw [if_pos ⟨here, rfl⟩]
      refine (ih rest ⟨.notConnect, false⟩ rfl).trans (if_neg ?_)
      intro both
      cases both.2
    | notConnect =>
      rw [if_neg fun both => nomatch both.2]
      refine (ih rest ⟨.notConnect, false⟩ rfl).trans (if_neg ?_)
      intro both
      cases both.2
    | isConnectting =>
      rw [if_neg fun both => nomatch both.2]
      refine (ih rest ⟨.isConnectting, false⟩ rfl).trans (if_neg ?_)
      intro both
      cases both.2

theorem connects_reconnect (s : RedisClient) (on : Option Callback) :
    (s.reconnect on).connects = s.connects := by
  rw [reconnect]
  split
  · rfl
  · split
    · rfl
    · rfl

theorem connects_disconnect (s : RedisClient) : s.disconnect.connects = s.connects := by
  rw [disconnect]
  split
  · rfl
  · rfl

theorem keeps_connects (ndebug : Bool) (connects : List ConnectOperation) :
    Keeps ndebug (· = .disconnect) fun s => s.connects = connects := by
  constructor
  · exact fun holds same => same.connects.trans holds
  · rintro s t _ rfl holds called
    cases called
    exact (connects_disconnect s).trans holds

structure Quitted (earlier : List ConnectStatus) (s : RedisClient) : Prop where
  down : s.Down earlier
  idle : s.armed = false

variable {earlier : List ConnectStatus}

theorem silent_of_stepSilently {s t : RedisClient} (stepped : s.stepSilently ndebug e = some t) :
    e.Silent ∧ s.step ndebug e = some t := by
  rw [stepSilently] at stepped
  split at stepped
  · rename_i silent
    exact ⟨silent, stepped⟩
  · cases stepped

/-- Nothing is started without an armed timer. -/
theorem Quitted.next {s t : RedisClient} (quitted : s.Quitted earlier)
    (stepped : s.stepSilently ndebug e = some t) : t.attempts = earlier := by
  obtain ⟨silent, stepped⟩ := silent_of_stepSilently stepped
  have started : Starts (fun _ => False) s t := by
    refine starts_step stepped (fun c member on host port same => ?_) fun armed => ?_
    · rw [silent c member] at same
      cases same
    · rw [quitted.idle] at armed
      cases armed
  obtain ⟨more, added, none⟩ := started
  rw [List.eq_nil_iff_forall_not_mem.mpr none, List.append_nil] at added
  exact added.trans quitted.down.1

/-- Given the attempts, the rest is about the link. -/
theorem quitted_iff {t : RedisClient} (same : t.attempts = earlier) :
    t.Quitted earlier ↔
      (t.connects = [] → t.link.status = .notConnect) ∧ t.link.armed = false :=
  ⟨fun quitted => ⟨quitted.down.2, quitted.idle⟩, fun both => ⟨⟨same, both.1⟩, both.2⟩⟩

/-- Callbacks that only disconnect leave the client as it should be. -/
theorem quitted_callAll {s t : RedisClient} (quitted : s.Quitted earlier)
    (same : t.attempts = earlier) (silent : ∀ c ∈ inside, c = .disconnect)
    (connects : t.connects = s.connects) (linked : t.link = s.link.callAll inside) :
    t.Quitted earlier := by
  rw [quitted_iff same, linked, link_silent silent s.link quitted.idle, connects]
  split
  · exact ⟨fun _ => rfl, rfl⟩
  · exact ⟨quitted.down.2, quitted.idle⟩

theorem connects_onConnectFinished {s t : RedisClient} (silent : ∀ c ∈ inside, c = .disconnect)
    (handled : s.onConnectFinished ndebug on ec inside = some t) : t.connects = s.connects := by
  obtain ⟨u, called, rfl⟩ := Option.map_eq_some_iff.mp handled
  have after : u.connects = s.connects := by
    refine (keeps_connects ndebug s.connects).tryOnRedisHandler silent ?_ called
    cases ec with
    | none => rfl
    | some ec => rfl
  split
  · exact after
  · exact after

theorem connects_onWrite {s t : RedisClient} (silent : ∀ c ∈ inside, c = .disconnect)
    (handled : s.onWrite ndebug ec inside = some t) : t.connects = s.connects := by
  refine (keeps_connects ndebug s.connects).onWrite silent rfl ?_ handled
  exact fun _ same _ _ => (connects_reconnect _ none).trans same

theorem quitted_connected {s t : RedisClient} (quitted : s.Quitted earlier)
    (same : t.attempts = earlier) (silent : ∀ c ∈ inside, c = .disconnect)
    (outstanding : s.connects[index]? = some op)
    (handled : onConnectFinished ndebug { s with connects := s.connects.eraseIdx index } on ec
      inside = some t) :
    Harmless s (.connected index ec inside) t ↔ t.Quitted earlier := by
  obtain ⟨bound, -⟩ := List.getElem?_eq_some_iff.mp outstanding
  have connects : t.connects = s.connects.eraseIdx index :=
    connects_onConnectFinished silent handled
  have last : t.connects = [] ↔ s.connects.length ≤ 1 := by
    rw [connects, ← List.length_eq_zero_iff, List.length_eraseIdx, if_pos bound]
    omega
  have linked := link_onConnectFinished handled
  have idle : armed { s with connects := s.connects.eraseIdx index } = false := quitted.idle
  rw [idle] at linked
  rw [quitted_iff same, linked, last]
  cases ec with
  | none =>
    have alone := link_silent silent ⟨.isConnected, false⟩ rfl
    simp only [Harmless, ne_eq, not_true_eq_false, false_and, if_false, if_true, alone, and_true]
    by_cases told : Call.disconnect ∈ inside
    · rw [if_pos told]
      exact iff_of_true (.inr told) ⟨fun _ => rfl, rfl⟩
    · rw [if_neg told]
      simp only [told, or_false, reduceCtorEq, imp_false, Nat.not_le, and_true]
  | some ec =>
    have alone := link_silent silent ⟨.notConnect, false⟩ rfl
    simp only [reduceCtorEq, and_false, if_false] at alone
    cases policy : s.errorHandlePolicy with
    | doNothing => simp [Harmless, policy, alone]
    | autoReconnect => simp [Harmless, policy, alone]

theorem quitted_wrote {s t : RedisClient} (quitted : s.Quitted earlier)
    (same : t.attempts = earlier) (silent : ∀ c ∈ inside, c = .disconnect)
    (handled : onWrite ndebug { s with writes := s.writes.eraseIdx index } ec inside = some t) :
    Harmless s (.wrote index ec inside) t ↔ t.Quitted earlier := by
  have connects := connects_onWrite silent handled
  have linked : t.link = if ec ≠ none ∧ s.errorHandlePolicy = .autoReconnect then
      (s.link.callAll inside).call (.reconnect none) else s.link.callAll inside := by
    have after := link_onWrite handled
    exact after
  have alone := link_silent silent s.link quitted.idle
  cases ec with
  | none => exact iff_of_true trivial (quitted_callAll quitted same silent connects linked)
  | some ec =>
    cases policy : s.errorHandlePolicy with
    | doNothing =>
      rw [policy] at linked
      exact iff_of_true (.inl policy) (quitted_callAll quitted same silent connects linked)
    | autoReconnect =>
      rw [policy, if_pos ⟨Option.some_ne_none ec, rfl⟩] at linked
      simp only [Harmless, policy, reduceCtorEq, false_or]
      by_cases idle : (s.link.callAll inside).status = .notConnect
      · rw [quitted_iff same, linked, Link.call, if_pos idle]
        refine iff_of_false (fun busy => busy idle) ?_
        intro both
        cases both.2
      · rw [Link.call, if_neg idle] at linked
        exact iff_of_true idle (quitted_callAll quitted same silent connects linked)

theorem harmless_iff {s t : RedisClient} (quitted : s.Quitted earlier)
    (stepped : s.stepSilently ndebug e = some t) : Harmless s e t ↔ t.Quitted earlier := by
  have same := quitted.next stepped
  obtain ⟨silent, stepped⟩ := silent_of_stepSilently stepped
  cases e with
  | call c =>
    obtain rfl := silent c (List.mem_singleton_self c)
    have called : s.call ndebug .disconnect = some t := stepped
    have linked : t.link = s.link.callAll [.disconnect] := link_call called
    cases stepped
    exact iff_of_true trivial (quitted_callAll quitted same silent (connects_disconnect s) linked)
  | connected index ec inside =>
    obtain ⟨op, outstanding, handled⟩ := Option.bind_eq_some_iff.mp stepped
    exact quitted_connected quitted same silent outstanding handled
  | expired index =>
    obtain ⟨wait, outstanding, rfl⟩ := Option.map_eq_some_iff.mp stepped
    apply iff_of_true trivial
    have cancelled : wait.cancelled = true := by
      have none := List.any_eq_false.mp quitted.idle wait (List.mem_of_getElem? outstanding)
      simpa using none
    rw [onTimer, if_pos cancelled]
    refine ⟨⟨quitted.down.1, quitted.down.2⟩, List.any_eq_false.mpr fun other member => ?_⟩
    exact List.any_eq_false.mp quitted.idle other (List.mem_of_mem_eraseIdx member)
  | wrote index ec inside =>
    obtain ⟨data, -, handled⟩ := Option.bind_eq_some_iff.mp stepped
    exact quitted_wrote quitted same silent handled
  | read index result inside =>
    obtain ⟨op, -, handled⟩ := Option.bind_eq_some_iff.mp stepped
    split at handled
    · have linked := link_onRead handled
      refine iff_of_true trivial (quitted_callAll quitted same silent ?_ linked)
      refine (keeps_connects ndebug s.connects).onRead silent ?_ handled
      rfl
    · cases handled

/-- An armed timer can expire. -/
theorem quitted_of_staysDown {s : RedisClient} (stays : s.StaysDown ndebug earlier) :
    s.Quitted earlier := by
  refine ⟨stays.1, Bool.eq_false_iff.mpr fun armed => ?_⟩
  obtain ⟨wait, member, live⟩ := List.any_eq_true.mp armed
  obtain ⟨index, outstanding⟩ := List.mem_iff_getElem?.mp member
  have notCancelled : wait.cancelled = false := by simpa using live
  have expired : s.stepSilently ndebug (.expired index) =
      some ({ s with waits := s.waits.eraseIdx index }.doAsyncConnect wait.on) := by
    have silent : Event.Silent (.expired index) := fun _ member => nomatch member
    simp only [stepSilently, silent, if_true, step, outstanding, Option.map_some, onTimer,
      notCancelled, Bool.false_eq_true, if_false]
  have more := stays.2 _ _ expired
  have longer : (s.attempts ++ [s.connectStatus]).length = earlier.length := congrArg _ more
  rw [List.length_append, stays.1.1] at longer
  exact Nat.succ_ne_self _ longer

theorem quitted_disconnect {s : RedisClient} (pending : s.Pending) :
    s.disconnect.Quitted s.attempts ↔ ¬(s.connectStatus = .isConnected ∧ s.armed = true) := by
  have called : s.call false .disconnect = some s.disconnect := rfl
  have linked := link_call called
  rw [quitted_iff (attempts_disconnect s), connects_disconnect, linked, Link.call]
  cases status : s.connectStatus with
  | isConnected => simp [link, status]
  | notConnect => simp [link, status]
  | isConnectting =>
    have outstanding := pending status
    simp [link, status, outstanding]

/-- The client of a failed attempt is told to disconnect; a write is still under way. -/
def quitIdle : List Event :=
  [.call (.connect none "127.0.0.1" 6379), .call (.command [80] [] none),
    .connected 0 (some ⟨[]⟩) []]

end RedisClient
end Da4qi4.Redis
