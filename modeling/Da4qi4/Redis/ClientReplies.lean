import Da4qi4.Redis.ClientQueue
import Da4qi4.Redis.ParserOctets

/-! A connected client and a server that answers every command, in order, with
one reply. The network cuts the replies into reads anywhere. -/
namespace Da4qi4.Redis

structure CommandCall where
  cmd : Bytes
  args : List Bytes
  on : Option Callback
  deriving DecidableEq

namespace CommandCall

def call (c : CommandCall) : Call := .command c.cmd c.args c.on

def node (c : CommandCall) : CommandNode := ⟨makeCommand (c.cmd :: c.args), c.on⟩

end CommandCall

/-- The client, how many replies the server has sent, their octets that are still
on the wire, and how many the client has received. -/
structure System where
  client : RedisClient
  served : Nat := 0
  wire : Bytes := []
  received : Nat := 0

/-- A command, a write that succeeds, a reply of the server, or a read that
succeeds. -/
inductive Action where
  | command (c : CommandCall)
  | wrote (index : Nat)
  | serve
  | read (index count : Nat) (inside : List CommandCall)

namespace System

def start (policy : RedisClientErrorHandlePolicy) : System :=
  ⟨{ RedisClient.constructed policy with connectStatus := .isConnected }, 0, [], 0⟩

def step (ndebug : Bool) (reply : Nat → Bytes) (s : System) : Action → Option System
  | .command c =>
    (s.client.step ndebug (.call c.call)).map fun client => { s with client := client }
  | .wrote index =>
    (s.client.step ndebug (.wrote index none [])).map fun client => { s with client := client }
  | .serve =>
    if s.served < s.client.written.length then
      some { s with served := s.served + 1, wire := s.wire ++ reply s.served }
    else none
  | .read index count inside =>
    if count ≤ s.wire.length then
      (s.client.step ndebug
        (.read index (.ok (s.wire.take count)) (inside.map CommandCall.call))).map fun client =>
          { s with client := client, wire := s.wire.drop count, received := s.received + count }
    else none

/-- The octets of the first replies. -/
def octets (reply : Nat → Bytes) : Nat → Nat
  | 0 => 0
  | count + 1 => octets reply count + (reply count).length

/-- The callbacks of commands, each with the value of its own reply. -/
def calledBack (value : Nat → RedisValue) (commands : List CommandNode) : List Notice :=
  commands.zipIdx.filterMap fun item => item.1.on.map fun on => .reply on (value item.2)

/-- How many commands have left the queue. -/
def answered (s : System) : Nat := s.client.issued.length - s.client.commandQueue.length

/-- Commands and replies keep step. -/
structure Orderly (ndebug : Bool) (reply : Nat → Bytes) (value : Nat → RedisValue) (s : System) :
    Prop where
  oneUnanswered : s.client.written.length ≤ s.answered + 1
  inOrder : s.client.notices = calledBack value (s.client.issued.take s.answered)
  inTime : ∀ k, octets reply (k + 1) ≤ s.received → k < s.answered
  handled : ∀ count, s.client.reads ≠ [] → count ≤ s.wire.length →
    count ≤ RedisClient.readBufferSize → ∃ t, s.step ndebug reply (.read 0 count []) = some t

/-- What has not been received of the reply to the command in front. -/
def remaining (reply : Nat → Bytes) (s : System) (answered : Nat) : Bytes :=
  s.wire ++ if s.served ≤ answered then reply answered else []

/-- Earlier replies leave nothing behind in the buffer. -/
def Drained (s : RedisClient) : Prop := s.replyBuf = [] ∨ s.replyBuf.length ≤ s.replyParseBeg

/-- Between two commands: every command before the queue is answered, and no
operation is outstanding. -/
structure Resting (reply : Nat → Bytes) (value : Nat → RedisValue) (s : System)
    (past rest : List CommandNode) : Prop where
  issued : s.client.issued = past ++ rest
  queue : s.client.commandQueue = rest
  writes : s.client.writes = []
  reads : s.client.reads = []
  written : s.client.written.length = past.length
  served : s.served = past.length
  wire : s.wire = []
  received : s.received = octets reply past.length
  drained : Drained s.client
  notices : s.client.notices = calledBack value past

/-- The write of the command in front is outstanding, or the read of its reply. -/
inductive Operates (ndebug : Bool) (reply : Nat → Bytes) (value : Nat → RedisValue) (s : System)
    (answered : Nat) (node : CommandNode) (rest : List CommandNode) : Prop
  | writing (queue : s.client.commandQueue = node :: rest) (writes : s.client.writes = [node.data])
      (reads : s.client.reads = []) (remaining : s.remaining reply answered = reply answered)
      (drained : Drained s.client)
  | reading (queue : ∃ front, s.client.commandQueue = front :: rest) (writes : s.client.writes = [])
      (parser : RedisParser) (reads : s.client.reads = [⟨parser, node.on⟩])
      (remaining : RedisParser.Awaits ndebug parser (s.remaining reply answered) (value answered))
      (parsed : s.client.replyParseBeg = s.client.replyBuf.length)

structure Busy (ndebug : Bool) (reply : Nat → Bytes) (value : Nat → RedisValue) (s : System)
    (past : List CommandNode) (node : CommandNode) (rest : List CommandNode) : Prop where
  issued : s.client.issued = past ++ node :: rest
  written : s.client.written.length = past.length + 1
  served : past.length ≤ s.served ∧ s.served ≤ past.length + 1
  received : s.received + (s.remaining reply past.length).length = octets reply (past.length + 1)
  notices : s.client.notices = calledBack value past
  operates : Operates ndebug reply value s past.length node rest

def InStep (ndebug : Bool) (reply : Nat → Bytes) (value : Nat → RedisValue) (s : System) : Prop :=
  (∃ past, Resting reply value s past []) ∨
    ∃ past node rest, Busy ndebug reply value s past node rest

theorem commandsOf_map (inside : List CommandCall) :
    RedisClient.commandsOf (inside.map CommandCall.call) = inside.map CommandCall.node := by
  rw [RedisClient.commandsOf, List.filterMap_map]
  exact congrFun List.filterMap_eq_map inside

theorem notices_startAsyncWrite (s : RedisClient) : s.startAsyncWrite.notices = s.notices := by
  rw [RedisClient.startAsyncWrite]
  split <;> rfl

theorem notices_command {s t : RedisClient} (called : s.call ndebug (CommandCall.call c) = some t) :
    t.notices = s.notices := by
  simp only [CommandCall.call, RedisClient.call, RedisClient.command] at called
  split at called
  · cases called
    split
    · exact notices_startAsyncWrite _
    · rfl
  · cases called

theorem notices_callAll {s t : RedisClient} {inside : List CommandCall}
    (called : s.callAll ndebug (inside.map CommandCall.call) = some t) : t.notices = s.notices := by
  induction inside generalizing s with
  | nil =>
    cases called
    rfl
  | cons c inside ih =>
    obtain ⟨u, first, rest⟩ := Option.bind_eq_some_iff.mp called
    exact (ih rest).trans (notices_command first)

theorem Busy.enqueue {s : System} (busy : Busy ndebug reply value s past node rest)
    (appends : s.client.Appends more t) (same : t.notices = s.client.notices) :
    Busy ndebug reply value { s with client := t } past node (rest ++ more) := by
  obtain ⟨issued, written, served, received, notices, operates⟩ := busy
  refine ⟨?_, ?_, served, received, same.trans notices, ?_⟩
  · rw [appends.issued, issued, List.append_assoc, List.cons_append]
  · rw [appends.written, written]
  · cases operates with
    | writing queue writes reads remaining drained =>
      refine .writing ?_ (appends.writes.trans writes) (appends.reads.trans reads) remaining ?_
      · rw [appends.queue, queue, List.cons_append]
      · rw [Drained, appends.buf, appends.beg]
        exact drained
    | reading queue writes parser reads remaining parsed =>
      obtain ⟨front, queue⟩ := queue
      refine .reading ⟨front, ?_⟩ (appends.writes.trans writes) parser (appends.reads.trans reads)
        remaining ?_
      · rw [appends.queue, queue, List.cons_append]
      · rw [appends.buf, appends.beg, parsed]

/-- The next command, if there is one, is written. -/
theorem Resting.startAsyncWrite {s : System} (resting : Resting reply value s past rest) :
    InStep ndebug reply value { s with client := s.client.startAsyncWrite } := by
  obtain ⟨issued, queue, writes, reads, written, served, wire, received, drained, notices⟩ :=
    resting
  rw [RedisClient.startAsyncWrite]
  cases rest with
  | nil =>
    rw [queue]
    exact .inl ⟨past, issued, queue, writes, reads, written, served, wire, received, drained,
      notices⟩
  | cons node rest =>
    have pending : remaining reply s past.length = reply past.length := by
      rw [remaining, wire, if_pos (Nat.le_of_eq served), List.nil_append]
    simp only [queue]
    refine .inr ⟨past, node, rest, issued, ?_, ?_, ?_, notices, ?_⟩
    · rw [List.length_append, written, List.length_singleton]
    · simp only [served]
      omega
    · rw [octets, ← received]
      exact congrArg (fun octets => s.received + octets.length) pending
    · refine .writing rfl ?_ reads pending drained
      rw [writes, List.nil_append]

theorem inStep_command {s t : System} (inStep : InStep ndebug reply value s)
    (stepped : s.step ndebug reply (.command c) = some t) : InStep ndebug reply value t := by
  obtain ⟨client, called, rfl⟩ := Option.map_eq_some_iff.mp stepped
  have same := notices_command called
  rcases inStep with ⟨past, resting⟩ | ⟨past, node, rest, busy⟩
  · simp only [RedisClient.step, CommandCall.call, RedisClient.call, RedisClient.command,
      if_pos resting.queue] at called
    split at called
    · cases called
      obtain ⟨issued, queue, writes, reads, written, served, wire, received, drained, notices⟩ :=
        resting
      have queued :
          Resting reply value { s with client := s.client.enqueue (CommandCall.node c) } past
          [CommandCall.node c] := by
        refine ⟨?_, ?_, writes, reads, written, served, wire, received, drained, notices⟩
        · simp only [RedisClient.enqueue, issued, List.append_nil]
        · simp only [RedisClient.enqueue, queue, List.nil_append]
      exact queued.startAsyncWrite
    · cases called
  · have front : s.client.commandQueue ≠ [] := by
      cases busy.operates with
      | writing queue => simp [queue]
      | reading queue =>
        obtain ⟨front, queue⟩ := queue
        simp [queue]
    have appends := RedisClient.appends_call (c := c.call) front called
    exact .inr ⟨past, node, _, busy.enqueue appends same⟩

theorem calledBack_append (value : Nat → RedisValue) (past : List CommandNode)
    (node : CommandNode) :
    calledBack value (past ++ [node]) =
      calledBack value past ++
        (node.on.map fun on => Notice.reply on (value past.length)).toList := by
  rw [calledBack, List.zipIdx_append, List.filterMap_append, calledBack]
  cases on : node.on <;> simp [on]

theorem replyBuf_start {s : RedisClient} (drained : Drained s) (on : Option Callback) :
    (s.startAysncReadAndParse on).replyBuf = [] := by
  rw [RedisClient.startAysncReadAndParse]
  by_cases empty : s.replyBuf = []
  · exact (if_pos empty).trans empty
  · exact (if_neg empty).trans (if_pos (drained.resolve_left empty))

/-- Only the operation in front is outstanding. -/
theorem index_eq_zero {operations : List α} (only : operations = [operation])
    (outstanding : operations[index]? = some other) : index = 0 ∧ other = operation := by
  have bound := (List.getElem?_eq_some_iff.mp outstanding).1
  rw [only, List.length_singleton] at bound
  have first : index = 0 := by omega
  rw [first, only] at outstanding
  exact ⟨first, (Option.some.inj outstanding).symm⟩

theorem inStep_wrote {s t : System} (accepted : ∀ k, RedisParser.Accepts ndebug (reply k) (value k))
    (inStep : InStep ndebug reply value s) (stepped : s.step ndebug reply (.wrote index) = some t) :
    InStep ndebug reply value t := by
  obtain ⟨client, handled, rfl⟩ := Option.map_eq_some_iff.mp stepped
  obtain ⟨data, outstanding, handled⟩ := Option.bind_eq_some_iff.mp handled
  rcases inStep with ⟨past, resting⟩ | ⟨past, node, rest, busy⟩
  · simp [resting.writes] at outstanding
  · obtain ⟨issued, written, served, received, notices, operates⟩ := busy
    cases operates with
    | reading queue writes => simp [writes] at outstanding
    | writing queue writes reads remaining drained =>
      obtain ⟨rfl, -⟩ := index_eq_zero writes outstanding
      simp only [RedisClient.onWrite, queue, if_true, Option.some.injEq] at handled
      have buf : client.replyBuf = [] := by
        rw [← handled]
        exact replyBuf_start drained node.on
      rw [← handled] at buf ⊢
      refine .inr ⟨past, node, rest, issued, written, served, received, notices, ?_⟩
      refine .reading ⟨_, rfl⟩ ?_ .fresh ?_ ?_ ?_
      · simp only [RedisClient.startAysncReadAndParse, RedisClient.moveFront, writes]
        rfl
      · simp only [RedisClient.startAysncReadAndParse, RedisClient.moveFront, reads]
        rfl
      · have whole := (accepted past.length).awaits
        rw [← remaining] at whole
        exact whole
      · rw [buf]
        rfl

theorem inStep_serve {s t : System} (inStep : InStep ndebug reply value s)
    (stepped : s.step ndebug reply .serve = some t) : InStep ndebug reply value t := by
  simp only [step] at stepped
  split at stepped
  · rename_i behind
    cases stepped
    rcases inStep with ⟨past, resting⟩ | ⟨past, node, rest, busy⟩
    · rw [resting.served, resting.written] at behind
      exact absurd behind (Nat.lt_irrefl _)
    · obtain ⟨issued, written, served, received, notices, operates⟩ := busy
      have now : s.served = past.length := by omega
      have same : remaining reply
            { s with served := s.served + 1, wire := s.wire ++ reply s.served } past.length =
          s.remaining reply past.length := by
        rw [remaining, remaining, if_neg (by simp only; omega), if_pos (Nat.le_of_eq now),
          List.append_nil, now]
      refine .inr ⟨past, node, rest, issued, written, ?_, ?_, notices, ?_⟩
      · simp only
        omega
      · rw [same]
        exact received
      · cases operates with
        | writing queue writes reads remaining drained =>
          exact .writing queue writes reads (same.trans remaining) drained
        | reading queue writes parser reads remaining parsed =>
          exact .reading queue writes parser reads (same ▸ remaining) parsed
  · cases stepped

theorem parseReply_incompleted {parser q : RedisParser}
    (parsed : parser.parse ndebug data = some ⟨data.length, .incompleted, q⟩) (more : data ≠ [])
    (buf : Bytes) :
    RedisClient.parseReply ndebug ((buf ++ data).length + 1) parser (buf ++ data) buf.length =
      some ⟨(buf ++ data).length, .incompleted, q⟩ := by
  have some_octet : 0 < data.length := List.length_pos_iff.mpr more
  obtain ⟨fuel, fuels⟩ : ∃ fuel, (buf ++ data).length = fuel + 1 :=
    ⟨(buf ++ data).length - 1, by rw [List.length_append]; omega⟩
  have all : buf.length + data.length = (buf ++ data).length := List.length_append.symm
  rw [RedisClient.parseReply, if_pos (by omega), List.drop_left, parsed, Option.bind_some,
    if_pos rfl, all, fuels, RedisClient.parseReply, if_neg (by omega)]

theorem parseReply_completed {parser q : RedisParser}
    (parsed : parser.parse ndebug data = some ⟨data.length, .completed, q⟩) (more : data ≠ [])
    (buf : Bytes) :
    RedisClient.parseReply ndebug ((buf ++ data).length + 1) parser (buf ++ data) buf.length =
      some ⟨(buf ++ data).length, .completed, q⟩ := by
  have some_octet : 0 < data.length := List.length_pos_iff.mpr more
  have all : buf.length + data.length = (buf ++ data).length := List.length_append.symm
  rw [RedisClient.parseReply, if_pos (by omega), List.drop_left, parsed, Option.bind_some,
    if_neg (by simp), all]

/-- A reply's callback is called once, and may issue commands. -/
theorem tryOnRedisHandler_commands {s t : RedisClient} {inside : List CommandCall}
    (busy : s.commandQueue ≠ [])
    (handled : s.tryOnRedisHandler ndebug on (fun on => .reply on value)
      (inside.map CommandCall.call) = some t) :
    s.Appends (inside.map CommandCall.node) t ∧
      t.notices = s.notices ++ (on.map fun on => Notice.reply on value).toList := by
  have appends := RedisClient.appends_tryOnRedisHandler busy handled
  rw [commandsOf_map] at appends
  refine ⟨appends, ?_⟩
  cases on with
  | none =>
    simp only [RedisClient.tryOnRedisHandler] at handled
    split at handled
    · cases handled
      exact (List.append_nil _).symm
    · cases handled
  | some on =>
    exact notices_callAll (s := { s with notices := s.notices ++ [.reply on value] }) handled

/-- The read that completes a reply ends with the next command, if there is one. -/
theorem inStep_deliver {s : System} {u t : RedisClient} {inside : List CommandCall}
    (delivered : u.deliver ndebug node.on (value past.length) (inside.map CommandCall.call) = some t)
    (issued : u.issued = past ++ node :: rest) (queue : u.commandQueue = front :: rest)
    (writes : u.writes = []) (reads : u.reads = []) (written : u.written.length = past.length + 1)
    (served : s.served = past.length + 1) (wire : s.wire = [])
    (received : s.received = octets reply (past.length + 1)) (drained : Drained u)
    (notices : u.notices = calledBack value past) :
    InStep ndebug reply value { s with client := t } := by
  obtain ⟨v, called, started⟩ := Option.bind_eq_some_iff.mp delivered
  obtain ⟨w, popped, rfl⟩ := Option.map_eq_some_iff.mp started
  obtain ⟨appends, notified⟩ := tryOnRedisHandler_commands (by simp [queue]) called
  have queued : v.commandQueue = front :: (rest ++ inside.map CommandCall.node) := by
    rw [appends.queue, queue, List.cons_append]
  rw [RedisClient.popFront, queued, Option.some.injEq] at popped
  have count : (past ++ [node]).length = past.length + 1 := List.length_append
  have resting : Resting reply value { s with client := w } (past ++ [node])
      (rest ++ inside.map CommandCall.node) := by
    rw [← popped]
    refine ⟨?_, rfl, appends.writes.trans writes, appends.reads.trans reads, ?_, ?_, wire, ?_, ?_,
      ?_⟩
    · simp only [appends.issued, issued, List.append_assoc, List.cons_append, List.nil_append]
    · simp only [appends.written, written, count]
    · rw [count]
      exact served
    · rw [count]
      exact received
    · rw [Drained]
      simp only [appends.buf, appends.beg]
      exact drained
    · rw [calledBack_append, ← notices]
      exact notified
  exact resting.startAsyncWrite

theorem inStep_read {s t : System} {inside : List CommandCall}
    (accepted : ∀ k, RedisParser.Accepts ndebug (reply k) (value k))
    (inStep : InStep ndebug reply value s)
    (stepped : s.step ndebug reply (.read index count inside) = some t) :
    InStep ndebug reply value t := by
  simp only [step] at stepped
  split at stepped
  case isFalse => cases stepped
  rename_i available
  obtain ⟨client, handled, rfl⟩ := Option.map_eq_some_iff.mp stepped
  obtain ⟨op, outstanding, handled⟩ := Option.bind_eq_some_iff.mp handled
  split at handled
  case isFalse => cases handled
  rcases inStep with ⟨past, resting⟩ | ⟨past, node, rest, busy⟩
  · simp [resting.reads] at outstanding
  obtain ⟨issued, written, served, received, notices, operates⟩ := busy
  cases operates with
  | writing queue writes reads => simp [reads] at outstanding
  | reading queue writes parser reads awaits parsed =>
    obtain ⟨rfl, rfl⟩ := index_eq_zero reads outstanding
    obtain ⟨front, queue⟩ := queue
    have length : (s.wire.take count).length = count := List.length_take_of_le available
    simp only [reads, List.eraseIdx_zero, List.tail_cons, RedisClient.onRead] at handled
    by_cases nothing : s.wire.take count = []
    · have zero : count = 0 := by
        rw [← length, nothing]
        rfl
      rw [zero, List.take_zero] at handled
      simp only [if_true] at handled
      split at handled
      case isFalse => cases handled
      cases handled
      rw [zero, List.drop_zero, Nat.add_zero]
      exact .inr ⟨past, node, rest, issued, written, served, received, notices,
        .reading ⟨front, queue⟩ writes parser rfl awaits parsed⟩
    · have split : s.remaining reply past.length = s.wire.take count ++
          (s.wire.drop count ++ if s.served ≤ past.length then reply past.length else []) := by
        rw [remaining, ← List.append_assoc, List.take_append_drop]
      have left : s.received + count +
          (s.wire.drop count ++ if s.served ≤ past.length then reply past.length else []).length =
            octets reply (past.length + 1) := by
        have sizes := congrArg List.length split
        rw [List.length_append, length] at sizes
        rw [← received, sizes, Nat.add_assoc]
      rw [split] at awaits
      rw [if_neg nothing, parsed] at handled
      rcases awaits.read nothing with ⟨q, parses, awaits⟩ | ⟨last, q, parses, result⟩
      · rw [parseReply_incompleted parses nothing] at handled
        simp only [Option.bind_some] at handled
        split at handled
        case isFalse => cases handled
        cases handled
        exact .inr ⟨past, node, rest, issued, written, served, left, notices,
          .reading ⟨front, queue⟩ writes q rfl awaits rfl⟩
      · rw [parseReply_completed parses nothing] at handled
        simp only [Option.bind_some, result] at handled
        obtain ⟨wire, pending⟩ := List.append_eq_nil_iff.mp last
        have sent : s.served = past.length + 1 := by
          by_contra unsent
          rw [if_pos (by omega)] at pending
          exact (accepted past.length).1 pending
        rw [last, List.length_nil, Nat.add_zero] at left
        exact inStep_deliver
          (s := { s with wire := s.wire.drop count, received := s.received + count }) handled
          issued queue writes rfl written sent wire left (.inr (Nat.le_refl _)) notices

theorem inStep_step {s t : System} (accepted : ∀ k, RedisParser.Accepts ndebug (reply k) (value k))
    (inStep : InStep ndebug reply value s) (stepped : s.step ndebug reply action = some t) :
    InStep ndebug reply value t := by
  cases action with
  | command c => exact inStep_command inStep stepped
  | wrote index => exact inStep_wrote accepted inStep stepped
  | serve => exact inStep_serve inStep stepped
  | read index count inside => exact inStep_read accepted inStep stepped

theorem octets_mono (reply : Nat → Bytes) {m n : Nat} (ordered : m ≤ n) :
    octets reply m ≤ octets reply n := by
  induction ordered with
  | refl => exact Nat.le_refl _
  | step _ ih => exact ih.trans (Nat.le_add_right _ _)

theorem answered_of_queue {s : System} (issued : s.client.issued = past ++ rest)
    (queue : s.client.commandQueue.length = rest.length) : s.answered = past.length := by
  rw [answered, issued, queue, List.length_append]
  omega

/-- Every reply that has been received completely has been handled. -/
theorem lt_answered_of_octets {s : System} {reply : Nat → Bytes} {answered : Nat}
    (short : s.received < octets reply (answered + 1)) :
    ∀ k, octets reply (k + 1) ≤ s.received → k < answered := by
  intro k complete
  by_contra later
  have bound := octets_mono reply (show answered + 1 ≤ k + 1 by omega)
  omega

theorem Resting.orderly {s : System}
    (accepted : ∀ k, RedisParser.Accepts ndebug (reply k) (value k))
    (resting : Resting reply value s past []) : Orderly ndebug reply value s := by
  have answered := answered_of_queue resting.issued (congrArg List.length resting.queue)
  constructor
  · rw [answered, resting.written]
    exact Nat.le_succ _
  · rw [answered, resting.issued, List.append_nil, List.take_length]
    exact resting.notices
  · have more : 0 < (reply past.length).length := List.length_pos_iff.mpr (accepted _).1
    rw [answered]
    apply lt_answered_of_octets
    rw [resting.received, octets]
    omega
  · intro count reading
    exact absurd resting.reads reading

theorem deliver_some {s : RedisClient} (busy : s.commandQueue ≠ []) (on : Option Callback)
    (value : RedisValue) : ∃ t, s.deliver ndebug on value [] = some t := by
  obtain ⟨front, rest, queue⟩ := List.exists_cons_of_ne_nil busy
  cases on <;>
    simp [RedisClient.deliver, RedisClient.tryOnRedisHandler, RedisClient.callAll,
      RedisClient.popFront, queue]

/-- A read of what is on the wire is handled to its end. -/
theorem read_some {s : System} {reply : Nat → Bytes} (queue : s.client.commandQueue = front :: rest)
    (reads : s.client.reads = [⟨parser, on⟩])
    (awaits : RedisParser.Awaits ndebug parser (s.remaining reply position) value)
    (parsed : s.client.replyParseBeg = s.client.replyBuf.length) (available : count ≤ s.wire.length)
    (fits : count ≤ RedisClient.readBufferSize) :
    ∃ t, s.step ndebug reply (.read 0 count []) = some t := by
  have length : (s.wire.take count).length = count := List.length_take_of_le available
  have read : (s.client.step ndebug (.read 0 (.ok (s.wire.take count)) [])) =
      { s.client with reads := [] }.onRead ndebug ⟨parser, on⟩ (.ok (s.wire.take count)) [] := by
    simp only [RedisClient.step, reads, List.getElem?_cons_zero, Option.bind_some,
      RedisClient.received, length, if_pos fits, List.eraseIdx_zero, List.tail_cons]
  have handled : ∃ client,
      { s.client with reads := [] }.onRead ndebug ⟨parser, on⟩ (.ok (s.wire.take count)) [] =
        some client := by
    by_cases nothing : s.wire.take count = []
    · simp [RedisClient.onRead, nothing]
    · rw [remaining, ← List.take_append_drop count s.wire, List.append_assoc] at awaits
      simp only [RedisClient.onRead, if_neg nothing, parsed]
      rcases awaits.read nothing with ⟨q, parses, -⟩ | ⟨-, q, parses, -⟩
      · rw [parseReply_incompleted parses nothing]
        exact ⟨_, rfl⟩
      · rw [parseReply_completed parses nothing]
        refine deliver_some ?_ on _
        simp only [queue, ne_eq, List.cons_ne_nil, not_false_eq_true]
  obtain ⟨client, handled⟩ := handled
  exact ⟨_, by rw [step, if_pos available, List.map_nil, read, handled]; rfl⟩

theorem Busy.orderly {s : System} (accepted : ∀ k, RedisParser.Accepts ndebug (reply k) (value k))
    (busy : Busy ndebug reply value s past node rest) : Orderly ndebug reply value s := by
  obtain ⟨issued, written, served, received, notices, operates⟩ := busy
  have waiting : s.remaining reply past.length ≠ [] := by
    cases operates with
    | writing _ _ _ remaining => exact remaining ▸ (accepted _).1
    | reading _ _ _ _ remaining => exact remaining.1
  have queue : s.client.commandQueue.length = (node :: rest).length := by
    cases operates with
    | writing queue => rw [queue]
    | reading queue =>
      obtain ⟨front, queue⟩ := queue
      rw [queue]
      rfl
  have answered := answered_of_queue issued queue
  have more : 0 < (s.remaining reply past.length).length := List.length_pos_iff.mpr waiting
  constructor
  · rw [answered, written]
  · rw [answered, issued, List.take_left]
    exact notices
  · rw [answered]
    exact lt_answered_of_octets (by omega)
  · intro count reading available fits
    cases operates with
    | writing _ _ reads => exact absurd reads reading
    | reading queue _ _ reads awaits parsed =>
      obtain ⟨front, queue⟩ := queue
      exact read_some queue reads awaits parsed available fits

def okReply : Bytes := [43, 79, 75, 13, 10]

theorem okReply_accepted : RedisParser.Accepts false okReply (.bytes [79, 75] false) :=
  ⟨by decide, _, rfl, rfl⟩

/-- A command whose callback issues another one, and a reply in two reads. -/
def twoCommands : List Action :=
  [.command ⟨[80], [], some 0⟩, .wrote 0, .serve, .read 0 2 [], .read 0 3 [⟨[80], [], some 1⟩]]

end System
end Da4qi4.Redis
