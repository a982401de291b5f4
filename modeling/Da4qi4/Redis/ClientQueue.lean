import Da4qi4.Foundation.Transition
import Da4qi4.Redis.Client

/-! The command queue and the operation that serves it. Commands only start the
queue when they find it empty, so a completion handler that neither goes on with
the next command nor leaves an empty queue strands what is queued. -/
namespace Da4qi4.Redis.RedisClient

/-- The commands among the calls of a callback. -/
def Call.command? : Call → Option CommandNode
  | .command cmd args on => some ⟨makeCommand (cmd :: args), on⟩
  | _ => none

def commandsOf (inside : List Call) : List CommandNode := inside.filterMap Call.command?

/-- Calls that only queued commands, as far as commands are concerned. -/
structure Appends (s : RedisClient) (more : List CommandNode) (t : RedisClient) : Prop where
  queue : t.commandQueue = s.commandQueue ++ more
  issued : t.issued = s.issued ++ more
  writes : t.writes = s.writes
  reads : t.reads = s.reads
  written : t.written = s.written
  buf : t.replyBuf = s.replyBuf
  beg : t.replyParseBeg = s.replyParseBeg
  policy : t.errorHandlePolicy = s.errorHandlePolicy

namespace Appends

theorem refl (s : RedisClient) : Appends s [] s := by
  constructor <;> simp

theorem trans (first : Appends s more t) (second : Appends t others u) :
    Appends s (more ++ others) u := by
  constructor
  · rw [second.queue, first.queue, List.append_assoc]
  · rw [second.issued, first.issued, List.append_assoc]
  · exact second.writes.trans first.writes
  · exact second.reads.trans first.reads
  · exact second.written.trans first.written
  · exact second.buf.trans first.buf
  · exact second.beg.trans first.beg
  · exact second.policy.trans first.policy

end Appends

theorem appends_connect (s : RedisClient) (on : Option Callback) (host : String) (port : UInt16) :
    Appends s [] (s.connect on host port) := by
  rw [connect]
  split
  · exact .refl s
  · constructor <;> simp [doAsyncConnect]

theorem appends_doAsyncConnect (s : RedisClient) (on : Option Callback) :
    Appends s [] (s.doAsyncConnect on) := by
  constructor <;> simp [doAsyncConnect]

theorem appends_cancelTimer (s : RedisClient) : Appends s [] s.cancelTimer := by
  constructor <;> simp [cancelTimer]

theorem appends_startReconnectTimer (s : RedisClient) (on : Option Callback) :
    Appends s [] (s.startReconnectTimer on) := by
  constructor <;> simp [startReconnectTimer, cancelTimer]

theorem appends_notices (s : RedisClient) (notices : List Notice) :
    Appends s [] { s with notices := notices } := by
  constructor <;> simp

theorem appends_notifyConnect (s : RedisClient) (on : Option Callback) (ec : Option ErrorCode) :
    Appends s [] (s.notifyConnect on ec) := by
  constructor <;> simp [notifyConnect]

theorem appends_reconnect (s : RedisClient) (on : Option Callback) :
    Appends s [] (s.reconnect on) := by
  rw [reconnect]
  split
  · exact appends_notifyConnect s on _
  · split
    · exact (appends_cancelTimer s).trans (appends_startReconnectTimer _ on)
    · exact appends_notifyConnect s on _

theorem appends_disconnect (s : RedisClient) : Appends s [] s.disconnect := by
  rw [disconnect]
  split
  · constructor <;> simp [doDisconnect]
  · exact appends_cancelTimer s

/-- A command that finds the queue busy only joins it. -/
theorem appends_call {s t : RedisClient} (busy : s.commandQueue ≠ [])
    (called : s.call ndebug c = some t) :
    Appends s (commandsOf [c]) t := by
  cases c with
  | connect on host port =>
    cases called
    exact appends_connect s on host port
  | reconnect on =>
    cases called
    exact appends_reconnect s on
  | disconnect =>
    cases called
    exact appends_disconnect s
  | command cmd args on =>
    simp only [call, command, if_neg busy] at called
    split at called
    · cases called
      constructor <;> simp [enqueue, commandsOf, Call.command?]
    · cases called

theorem appends_callAll {s t : RedisClient} (busy : s.commandQueue ≠ [])
    (called : s.callAll ndebug inside = some t) : Appends s (commandsOf inside) t := by
  induction inside generalizing s with
  | nil =>
    cases called
    exact .refl _
  | cons c inside ih =>
    obtain ⟨u, first, rest⟩ := Option.bind_eq_some_iff.mp called
    have here := appends_call busy first
    have still : u.commandQueue ≠ [] := by
      intro empty
      exact busy (List.append_eq_nil_iff.mp (here.queue.symm.trans empty)).1
    have there := here.trans (ih still rest)
    rw [commandsOf, commandsOf, ← List.filterMap_append] at there
    exact there

theorem appends_tryOnRedisHandler {s t : RedisClient} (busy : s.commandQueue ≠ [])
    (handled : s.tryOnRedisHandler ndebug on notice inside = some t) :
    Appends s (commandsOf inside) t := by
  cases on with
  | none =>
    simp only [tryOnRedisHandler] at handled
    split at handled
    · rename_i none
      cases handled
      rw [none]
      exact .refl s
    · cases handled
  | some on =>
    have called :=
      appends_callAll (s := { s with notices := s.notices ++ [notice on] }) busy handled
    exact ⟨called.queue, called.issued, called.writes, called.reads, called.written, called.buf,
      called.beg, called.policy⟩

/-- The command that the front of the queue was made for is being served: its
write is outstanding, or the read of its reply. -/
structure Serving (s : RedisClient) (node : CommandNode) (rest : List CommandNode) : Prop where
  issued : ∃ past, s.issued = past ++ node :: rest
  operation :
    s.commandQueue = node :: rest ∧ s.writes = [node.data] ∧ s.reads = [] ∨
      (∃ front, s.commandQueue = front :: rest) ∧ s.writes = [] ∧
        ∃ parser, s.reads = [⟨parser, node.on⟩]

/-- No command is stranded. -/
def Served (s : RedisClient) : Prop :=
  s.commandQueue = [] ∨ ∃ node rest, s.Serving node rest

/-- Served, and nothing outstanding when the queue is empty. -/
def Quiet (s : RedisClient) : Prop :=
  s.commandQueue = [] ∧ s.writes = [] ∧ s.reads = [] ∨ ∃ node rest, s.Serving node rest

theorem Quiet.served {s : RedisClient} (quiet : Quiet s) : Served s := quiet.imp_left And.left

theorem Serving.busy {s : RedisClient} (serving : Serving s node rest) : s.commandQueue ≠ [] := by
  rcases serving.operation with ⟨queue, -⟩ | ⟨⟨front, queue⟩, -⟩
  all_goals
    rw [queue]
    exact List.cons_ne_nil _ _

theorem Appends.serving {s t : RedisClient} (appends : Appends s more t)
    (serving : Serving s node rest) : Serving t node (rest ++ more) := by
  obtain ⟨⟨past, issued⟩, operation⟩ := serving
  refine ⟨⟨past, by rw [appends.issued, issued, List.append_assoc, List.cons_append]⟩, ?_⟩
  rw [appends.queue, appends.writes, appends.reads]
  refine operation.imp ?_ ?_
  · rintro ⟨queue, outstanding⟩
    exact ⟨by rw [queue, List.cons_append], outstanding⟩
  · rintro ⟨⟨front, queue⟩, outstanding⟩
    exact ⟨⟨front, by rw [queue, List.cons_append]⟩, outstanding⟩

/-- Calls without a command leave an idle queue idle. -/
theorem Appends.quiet {s t : RedisClient} (appends : Appends s [] t) (quiet : Quiet s) :
    Quiet t := by
  rcases quiet with ⟨queue, writes, reads⟩ | ⟨node, rest, serving⟩
  · refine .inl ⟨?_, appends.writes.trans writes, appends.reads.trans reads⟩
    rw [appends.queue, queue, List.append_nil]
  · exact .inr ⟨node, _, appends.serving serving⟩

/-- The next command in the queue is written. -/
theorem serving_startAsyncWrite {s : RedisClient} (issued : ∃ past, s.issued = past ++ node :: rest)
    (queue : s.commandQueue = node :: rest) (writes : s.writes = []) (reads : s.reads = []) :
    Serving s.startAsyncWrite node rest := by
  simp only [startAsyncWrite, queue]
  exact ⟨issued, .inl ⟨rfl, by rw [writes, List.nil_append], reads⟩⟩

theorem quiet_call {s t : RedisClient} (quiet : Quiet s) (called : s.call ndebug c = some t) :
    Quiet t := by
  by_cases busy : s.commandQueue = []
  · cases c with
    | connect on host port =>
      cases called
      exact (appends_connect s on host port).quiet quiet
    | reconnect on =>
      cases called
      exact (appends_reconnect s on).quiet quiet
    | disconnect =>
      cases called
      exact (appends_disconnect s).quiet quiet
    | command cmd args on =>
      obtain ⟨-, writes, reads⟩ := quiet.resolve_right fun ⟨_, _, serving⟩ => serving.busy busy
      simp only [call, command, if_pos busy] at called
      split at called
      · cases called
        refine .inr ⟨_, [], serving_startAsyncWrite ⟨s.issued, rfl⟩ ?_ writes reads⟩
        simp only [enqueue, busy, List.nil_append]
      · cases called
  · obtain ⟨node, rest, serving⟩ := quiet.resolve_left fun idle => busy idle.1
    exact .inr ⟨node, _, (appends_call busy called).serving serving⟩

theorem quiet_callAll {s t : RedisClient} (quiet : Quiet s)
    (called : s.callAll ndebug inside = some t) : Quiet t := by
  induction inside generalizing s with
  | nil =>
    cases called
    exact quiet
  | cons c inside ih =>
    obtain ⟨u, first, rest⟩ := Option.bind_eq_some_iff.mp called
    exact ih (quiet_call quiet first) rest

theorem quiet_tryOnRedisHandler {s t : RedisClient} (quiet : Quiet s)
    (handled : s.tryOnRedisHandler ndebug on notice inside = some t) : Quiet t := by
  cases on with
  | none =>
    simp only [tryOnRedisHandler] at handled
    split at handled
    · cases handled
      exact quiet
    · cases handled
  | some on => exact quiet_callAll ((appends_notices s _).quiet quiet) handled

theorem quiet_onConnectFinished {s t : RedisClient} (quiet : Quiet s)
    (handled : s.onConnectFinished ndebug on ec inside = some t) : Quiet t := by
  obtain ⟨u, called, rfl⟩ := Option.map_eq_some_iff.mp handled
  have after : Quiet u := by
    refine quiet_tryOnRedisHandler (Appends.quiet ?_ quiet) called
    cases ec <;> constructor <;> simp
  split
  · exact (appends_startReconnectTimer u on).quiet after
  · exact after

theorem quiet_onTimer {s : RedisClient} (quiet : Quiet s) (wait : TimerWait) :
    Quiet (s.onTimer wait) := by
  rw [onTimer]
  split
  · exact quiet
  · exact (appends_doAsyncConnect s wait.on).quiet quiet

/-- The state in a completion handler: no operation is outstanding, and the front
of the queue has been moved out or is about to be. -/
structure Handling (s : RedisClient) (node : CommandNode) (rest : List CommandNode) : Prop where
  issued : ∃ past, s.issued = past ++ node :: rest
  queue : ∃ front, s.commandQueue = front :: rest
  writes : s.writes = []
  reads : s.reads = []

theorem Appends.handling {s t : RedisClient} (appends : Appends s more t)
    (handling : Handling s node rest) : Handling t node (rest ++ more) := by
  obtain ⟨⟨past, issued⟩, ⟨front, queue⟩, writes, reads⟩ := handling
  refine ⟨⟨past, ?_⟩, ⟨front, ?_⟩, appends.writes.trans writes, appends.reads.trans reads⟩
  · rw [appends.issued, issued, List.append_assoc, List.cons_append]
  · rw [appends.queue, queue, List.cons_append]

theorem Handling.busy {s : RedisClient} (handling : Handling s node rest) :
    s.commandQueue ≠ [] := by
  obtain ⟨front, queue⟩ := handling.queue
  rw [queue]
  exact List.cons_ne_nil _ _

theorem Handling.moveFront {s : RedisClient} (handling : Handling s node rest) :
    Handling s.moveFront node rest := by
  obtain ⟨front, queue⟩ := handling.queue
  simp only [RedisClient.moveFront, queue]
  exact ⟨handling.issued, ⟨_, rfl⟩, handling.writes, handling.reads⟩

/-- Reading starts once the command is written. -/
theorem Handling.startAysncReadAndParse {s : RedisClient} (handling : Handling s node rest) :
    Serving (s.startAysncReadAndParse node.on) node rest := by
  refine ⟨handling.issued, .inr ⟨handling.queue, handling.writes, .fresh, ?_⟩⟩
  simp only [RedisClient.startAysncReadAndParse, handling.reads, List.nil_append]

/-- After the callback of a completed reply, the next command is written. -/
theorem Handling.deliver {s t : RedisClient} (handling : Handling s node rest)
    (delivered : s.deliver ndebug on value inside = some t) : Quiet t := by
  obtain ⟨u, called, popped⟩ := Option.bind_eq_some_iff.mp delivered
  have after := (appends_tryOnRedisHandler handling.busy called).handling handling
  obtain ⟨front, queue⟩ := after.queue
  rw [popFront, queue, Option.map_some, Option.some.injEq] at popped
  rw [← popped]
  cases left : rest ++ commandsOf inside with
  | nil => exact .inl ⟨rfl, after.writes, after.reads⟩
  | cons next others =>
    obtain ⟨past, issued⟩ := after.issued
    refine .inr ⟨next, others,
      serving_startAsyncWrite ⟨past ++ [node], ?_⟩ rfl after.writes after.reads⟩
    rw [issued, left, List.append_assoc, List.singleton_append]

/-- A failed command leaves the queue behind it, and nothing outstanding. -/
structure Dropped (s : RedisClient) (rest : List CommandNode) : Prop where
  queue : s.commandQueue = rest
  writes : s.writes = []
  reads : s.reads = []

theorem Handling.popFront {s t : RedisClient} (handling : Handling s node rest)
    (popped : s.popFront = some t) : Dropped t rest := by
  obtain ⟨front, queue⟩ := handling.queue
  rw [RedisClient.popFront, queue, Option.some.injEq] at popped
  rw [← popped]
  exact ⟨rfl, handling.writes, handling.reads⟩

theorem Handling.onWrite_ok {s t : RedisClient} (handling : Handling s node rest)
    (queue : s.commandQueue = node :: rest) (handled : s.onWrite ndebug none inside = some t) :
    Serving t node rest := by
  simp only [onWrite, queue] at handled
  split at handled
  · cases handled
    exact handling.moveFront.startAysncReadAndParse
  · cases handled

theorem Handling.onWrite_error {s t : RedisClient} (handling : Handling s node rest)
    (handled : s.onWrite ndebug (some ec) inside = some t) :
    Dropped t (rest ++ commandsOf inside) := by
  obtain ⟨front, queue⟩ := handling.queue
  simp only [onWrite, queue] at handled
  obtain ⟨u, called, handled⟩ := Option.bind_eq_some_iff.mp handled
  obtain ⟨v, popped, rfl⟩ := Option.map_eq_some_iff.mp handled
  have moved := handling.moveFront
  have dropped := ((appends_tryOnRedisHandler moved.busy called).handling moved).popFront popped
  split
  · have again := appends_reconnect v none
    refine ⟨?_, again.writes.trans dropped.writes, again.reads.trans dropped.reads⟩
    rw [again.queue, dropped.queue, List.append_nil]
  · exact dropped

theorem Handling.onRead_error {s t : RedisClient} (handling : Handling s node rest)
    (handled : s.onRead ndebug op (.error ec) inside = some t) :
    Dropped t (rest ++ commandsOf inside) := by
  obtain ⟨u, called, popped⟩ := Option.bind_eq_some_iff.mp handled
  exact ((appends_tryOnRedisHandler handling.busy called).handling handling).popFront popped

theorem Handling.onRead_ok {s t : RedisClient} (handling : Handling s node rest)
    (handled : s.onRead ndebug ⟨parser, node.on⟩ (.ok data) inside = some t) : Quiet t := by
  have reading : ∀ (buf : Bytes) (beg : Nat) (parser : RedisParser),
      Quiet { s with
        replyBuf := buf, replyParseBeg := beg, reads := s.reads ++ [⟨parser, node.on⟩] } := by
    intro buf beg parser
    refine .inr ⟨node, rest, handling.issued, .inr ⟨handling.queue, handling.writes, parser, ?_⟩⟩
    simp only [handling.reads, List.nil_append]
  simp only [onRead] at handled
  split at handled
  · split at handled
    · cases handled
      exact reading s.replyBuf s.replyParseBeg parser
    · cases handled
  · obtain ⟨answer, -, handled⟩ := Option.bind_eq_some_iff.mp handled
    have parsed : Handling { s with
        replyBuf := s.replyBuf ++ data, replyParseBeg := answer.consumed } node rest :=
      ⟨handling.issued, handling.queue, handling.writes, handling.reads⟩
    cases result : answer.result with
    | completed =>
      simp only [result] at handled
      exact parsed.deliver handled
    | error =>
      simp only [result] at handled
      exact parsed.deliver handled
    | incompleted =>
      simp only [result] at handled
      split at handled
      · cases handled
        exact reading _ _ _
      · cases handled

/-- A completion with an error. -/
def Event.Failed : Event → Prop
  | .wrote _ ec _ => ec ≠ none
  | .read _ result _ => ∃ ec, result = .error ec
  | _ => False

/-- The commands that the callback of a completion issues. -/
def Event.commands : Event → List CommandNode
  | .wrote _ _ inside => commandsOf inside
  | .read _ _ inside => commandsOf inside
  | _ => []

/-- No operation fails unless its command is the only one in the queue, and stays
so until its callback returns. -/
def FailsAlone (s : RedisClient) (e : Event) (_ : RedisClient) : Prop :=
  e.Failed → s.commandQueue.length = 1 ∧ e.commands = []

theorem Quiet.wrote {s : RedisClient} (quiet : Quiet s)
    (outstanding : s.writes[index]? = some data) :
    ∃ node rest, s.commandQueue = node :: rest ∧
      Handling { s with writes := s.writes.eraseIdx index } node rest := by
  rcases quiet with ⟨-, writes, -⟩ | ⟨node, rest, issued, operation⟩
  · simp [writes] at outstanding
  · rcases operation with ⟨queue, writes, reads⟩ | ⟨-, writes, -⟩
    · have first : index = 0 := by
        rw [writes] at outstanding
        have bound := (List.getElem?_eq_some_iff.mp outstanding).1
        simpa using bound
      refine ⟨node, rest, queue, issued, ⟨node, queue⟩, ?_, reads⟩
      rw [first, writes]
      rfl
    · simp [writes] at outstanding

theorem Quiet.read {s : RedisClient} (quiet : Quiet s) (outstanding : s.reads[index]? = some op) :
    ∃ node rest, (∃ front, s.commandQueue = front :: rest) ∧ (∃ parser, op = ⟨parser, node.on⟩) ∧
      Handling { s with reads := s.reads.eraseIdx index } node rest := by
  rcases quiet with ⟨-, -, reads⟩ | ⟨node, rest, issued, operation⟩
  · simp [reads] at outstanding
  · rcases operation with ⟨-, -, reads⟩ | ⟨queue, writes, parser, reads⟩
    · simp [reads] at outstanding
    · have first : index = 0 := by
        rw [reads] at outstanding
        have bound := (List.getElem?_eq_some_iff.mp outstanding).1
        simpa using bound
      have same : op = ⟨parser, node.on⟩ := by
        rw [first, reads] at outstanding
        exact (Option.some.inj outstanding).symm
      refine ⟨node, rest, queue, ⟨parser, same⟩, issued, queue, writes, ?_⟩
      rw [first, reads]
      rfl

/-- A step without a failure keeps every command served. -/
theorem step_quiet {s t : RedisClient} (quiet : Quiet s) (stepped : s.step ndebug e = some t)
    (succeeds : ¬e.Failed) : Quiet t := by
  cases e with
  | call c => exact quiet_call quiet stepped
  | connected index ec inside =>
    obtain ⟨op, -, handled⟩ := Option.bind_eq_some_iff.mp stepped
    refine quiet_onConnectFinished (Appends.quiet ?_ quiet) handled
    constructor <;> simp
  | expired index =>
    obtain ⟨wait, -, rfl⟩ := Option.map_eq_some_iff.mp stepped
    refine quiet_onTimer (Appends.quiet ?_ quiet) wait
    constructor <;> simp
  | wrote index ec inside =>
    obtain ⟨data, outstanding, handled⟩ := Option.bind_eq_some_iff.mp stepped
    obtain ⟨node, rest, queue, handling⟩ := quiet.wrote outstanding
    have success : ec = none := by
      by_contra failed
      exact succeeds failed
    rw [success] at handled
    exact .inr ⟨node, rest, handling.onWrite_ok queue handled⟩
  | read index result inside =>
    obtain ⟨op, outstanding, handled⟩ := Option.bind_eq_some_iff.mp stepped
    obtain ⟨node, rest, -, ⟨parser, rfl⟩, handling⟩ := quiet.read outstanding
    split at handled
    · cases result with
      | error ec => exact absurd ⟨ec, rfl⟩ succeeds
      | ok data => exact handling.onRead_ok handled
    · cases handled

/-- What a failed completion leaves. -/
theorem step_failed {s t : RedisClient} (quiet : Quiet s) (stepped : s.step ndebug e = some t)
    (failed : e.Failed) :
    ∃ front rest, s.commandQueue = front :: rest ∧ Dropped t (rest ++ e.commands) := by
  cases e with
  | call c => exact failed.elim
  | connected index ec inside => exact failed.elim
  | expired index => exact failed.elim
  | wrote index ec inside =>
    obtain ⟨data, outstanding, handled⟩ := Option.bind_eq_some_iff.mp stepped
    obtain ⟨node, rest, queue, handling⟩ := quiet.wrote outstanding
    obtain ⟨ec, rfl⟩ := Option.ne_none_iff_exists'.mp failed
    exact ⟨node, rest, queue, handling.onWrite_error handled⟩
  | read index result inside =>
    obtain ⟨op, outstanding, handled⟩ := Option.bind_eq_some_iff.mp stepped
    obtain ⟨node, rest, ⟨front, queue⟩, -, handling⟩ := quiet.read outstanding
    obtain ⟨ec, rfl⟩ := failed
    split at handled
    · exact ⟨front, rest, queue, handling.onRead_error handled⟩
    · cases handled

theorem Dropped.empties_iff {s : RedisClient} (dropped : Dropped s rest) :
    Served s ↔ rest = [] := by
  constructor
  · rintro (empty | ⟨node, others, -, operation⟩)
    · exact dropped.queue.symm.trans empty
    · rcases operation with ⟨-, writes, -⟩ | ⟨-, -, parser, reads⟩
      · rw [dropped.writes] at writes
        cases writes
      · rw [dropped.reads] at reads
        cases reads
  · intro empty
    exact .inl (dropped.queue.trans empty)

/-- In a run every queued command is served, in every state, exactly if no
operation fails while another command is queued. -/
theorem served_iff (ndebug : Bool) (policy : RedisClientErrorHandlePolicy) (events : List Event) :
    Transition.Throughout (step ndebug) Served (constructed policy) events ↔
      Transition.Steps (step ndebug) FailsAlone (constructed policy) events := by
  refine Transition.throughout_iff_steps (I := Quiet) ?_ ?_ Quiet.served (.inl ⟨rfl, rfl, rfl⟩)
  · intro s e t quiet stepped alone
    by_cases failed : e.Failed
    · obtain ⟨front, rest, queue, dropped⟩ := step_failed quiet stepped failed
      obtain ⟨single, silent⟩ := alone failed
      rw [queue, List.length_cons] at single
      have last : rest = [] := List.eq_nil_of_length_eq_zero (by omega)
      rw [last, silent] at dropped
      exact .inl ⟨dropped.queue, dropped.writes, dropped.reads⟩
    · exact step_quiet quiet stepped failed
  · intro s e t quiet stepped served failed
    obtain ⟨front, rest, queue, dropped⟩ := step_failed quiet stepped failed
    obtain ⟨last, silent⟩ := List.append_eq_nil_iff.mp (dropped.empties_iff.mp served)
    exact ⟨by rw [queue, last]; rfl, silent⟩

/-- The write of the first of two commands fails. -/
def failedWrite : List Event :=
  [.call (.command [80] [] (some 0)), .call (.command [80] [] (some 1)), .wrote 0 (some ⟨[]⟩) []]

/-- The second command stays in the queue, and no operation serves it. -/
theorem failedWrite_strands :
    ¬Transition.Throughout (step false) Served (constructed .doNothing) failedWrite := by
  intro holds
  rcases holds.final rfl with empty | ⟨node, rest, -, ⟨-, writes, -⟩ | ⟨-, -, parser, reads⟩⟩
  · cases empty
  · cases writes
  · cases reads

end Da4qi4.Redis.RedisClient
