import Da4qi4.Redis.ClientReplies
import Da4qi4.Redis.Resp

/-! Which octets the value of a command was parsed from. The octets of all replies
are one stream, which the client parses from front to back; a reply that the
parser rejects is left in the middle, and the next command goes on from there. -/
namespace Da4qi4.Redis

/-- A system with, for every answered command, the part of the stream that its
value was parsed from. -/
structure Provenance where
  system : System
  begun : Nat := 0
  spans : List (Nat × Nat) := []

namespace System

/-- How much of the stream is parsed. -/
def position (s : System) : Nat :=
  s.received - (s.client.replyBuf.length - s.client.replyParseBeg)

end System

namespace Provenance

def start (policy : RedisClientErrorHandlePolicy) : Provenance := { system := .start policy }

/-- The octets of the replies. -/
def encoded (replies : Nat → Resp) (k : Nat) : Bytes := (replies k).encode

/-- A parser is new when a command is written, and is fed up to its answer. -/
def step (ndebug : Bool) (reply : Nat → Bytes) (p : Provenance) (action : Action) :
    Option Provenance :=
  (p.system.step ndebug reply action).map fun t =>
    { system := t
      begun := match action with
        | .wrote _ => t.position
        | _ => p.begun
      spans :=
        if p.system.answered < t.answered then p.spans ++ [(p.begun, t.position)] else p.spans }

/-- Every value comes from octets of the command's own reply. -/
def Own (reply : Nat → Bytes) (p : Provenance) : Prop :=
  ∀ k first last, p.spans[k]? = some (first, last) →
    System.octets reply k ≤ first ∧ last ≤ System.octets reply (k + 1)

/-- No command is answered behind one whose reply has a character that the parser
rejects. -/
def BehindAccepted (replies : Nat → Resp) (p : Provenance) (_ : Action) (q : Provenance) : Prop :=
  p.system.answered < q.system.answered → ∀ k < p.system.answered, (replies k).Printable

end Provenance

namespace RedisClient

/-- What a command, the end of a reply and the calls of its callback change. -/
structure Moves (s t : RedisClient) : Prop where
  buf : t.replyBuf = s.replyBuf
  beg : t.replyParseBeg = s.replyParseBeg
  reads : t.reads = s.reads

/-- Every command but the queued ones is written, and the one in front. -/
def WrittenUp (s : RedisClient) : Prop :=
  s.commandQueue.length ≤ s.issued.length ∧
    s.written.length + s.commandQueue.length =
      s.issued.length + if s.commandQueue = [] then 0 else 1

theorem moves_startAsyncWrite (s : RedisClient) : Moves s s.startAsyncWrite := by
  rw [startAsyncWrite]
  split
  · exact ⟨rfl, rfl, rfl⟩
  · exact ⟨rfl, rfl, rfl⟩

theorem issued_startAsyncWrite (s : RedisClient) :
    s.startAsyncWrite.issued = s.issued ∧ s.startAsyncWrite.commandQueue = s.commandQueue := by
  rw [startAsyncWrite]
  split
  · exact ⟨rfl, rfl⟩
  · exact ⟨rfl, rfl⟩

theorem writtenUp_startAsyncWrite {s : RedisClient}
    (count : s.written.length + s.commandQueue.length = s.issued.length)
    (some_issued : s.commandQueue.length ≤ s.issued.length) : WrittenUp s.startAsyncWrite := by
  rw [startAsyncWrite]
  cases queue : s.commandQueue with
  | nil =>
    rw [queue, List.length_nil] at count some_issued
    refine ⟨?_, ?_⟩
    · rw [queue]
      exact some_issued
    · rw [queue, if_pos rfl]
      exact count
  | cons node rest =>
    rw [queue] at count some_issued
    refine ⟨?_, ?_⟩
    · exact some_issued
    · simp only [reduceCtorEq, if_false, List.length_append, List.length_singleton]
      omega

theorem appends_writtenUp (appends : Appends s more t) (busy : s.commandQueue ≠ [])
    (up : WrittenUp s) : WrittenUp t := by
  obtain ⟨some_issued, count⟩ := up
  rw [if_neg busy] at count
  have still : t.commandQueue ≠ [] := by
    rw [appends.queue]
    exact List.append_ne_nil_of_left_ne_nil busy _
  refine ⟨?_, ?_⟩
  · rw [appends.queue, appends.issued, List.length_append, List.length_append]
    omega
  · rw [if_neg still, appends.queue, appends.issued, appends.written, List.length_append,
      List.length_append]
    omega

/-- The commands that have left the queue. -/
def left (s : RedisClient) : Nat := s.issued.length - s.commandQueue.length

theorem enqueue_moves {s : RedisClient} (idle : s.commandQueue = []) (up : WrittenUp s)
    (node : CommandNode) :
    Moves s (s.enqueue node).startAsyncWrite ∧ WrittenUp (s.enqueue node).startAsyncWrite ∧
      (s.enqueue node).startAsyncWrite.left = s.left := by
  have moves := moves_startAsyncWrite (s.enqueue node)
  have issued := issued_startAsyncWrite (s.enqueue node)
  have queued : (s.enqueue node).commandQueue.length = s.commandQueue.length + 1 :=
    List.length_append
  have counted : (s.enqueue node).issued.length = s.issued.length + 1 := List.length_append
  obtain ⟨some_issued, count⟩ := up
  rw [if_pos idle] at count
  refine ⟨⟨moves.buf, moves.beg, moves.reads⟩, writtenUp_startAsyncWrite ?_ ?_, ?_⟩
  · have written : (s.enqueue node).written = s.written := rfl
    rw [queued, counted, written]
    omega
  · omega
  · rw [left, issued.1, issued.2, queued, counted, left]
    omega

theorem command_moves {s t : RedisClient} {c : CommandCall} (up : WrittenUp s)
    (called : s.call ndebug c.call = some t) : Moves s t ∧ WrittenUp t ∧ t.left = s.left := by
  by_cases idle : s.commandQueue = []
  · simp only [CommandCall.call, call, command, if_pos idle] at called
    split at called
    · cases called
      exact enqueue_moves idle up c.node
    · cases called
  · have appends := appends_call idle called
    refine ⟨⟨appends.buf, appends.beg, appends.reads⟩, appends_writtenUp appends idle up, ?_⟩
    rw [left, left, appends.issued, appends.queue, List.length_append, List.length_append,
      Nat.add_sub_add_right]

/-- The end of a reply takes one command out of the queue. -/
theorem deliver_moves {s t : RedisClient} (busy : s.commandQueue ≠ []) (up : WrittenUp s)
    (delivered : s.deliver ndebug on value inside = some t) :
    Moves s t ∧ WrittenUp t ∧ t.left = s.left + 1 := by
  obtain ⟨u, called, started⟩ := Option.bind_eq_some_iff.mp delivered
  obtain ⟨v, popped, rfl⟩ := Option.map_eq_some_iff.mp started
  have appends := appends_tryOnRedisHandler busy called
  obtain ⟨front, rest, queue⟩ := List.exists_cons_of_ne_nil
    (List.append_ne_nil_of_left_ne_nil busy (commandsOf inside))
  rw [← appends.queue] at queue
  rw [popFront, queue, Option.some.injEq] at popped
  obtain ⟨some_issued, count⟩ := appends_writtenUp appends busy up
  rw [queue, List.length_cons] at some_issued
  rw [queue, List.length_cons, if_neg (List.cons_ne_nil _ _)] at count
  have moves := moves_startAsyncWrite v
  have issued := issued_startAsyncWrite v
  have before : s.left = u.left := by
    rw [left, left, appends.issued, appends.queue, List.length_append, List.length_append,
      Nat.add_sub_add_right]
  refine ⟨⟨?_, ?_, ?_⟩, ?_, ?_⟩
  · rw [moves.buf, ← popped]
    exact appends.buf
  · rw [moves.beg, ← popped]
    exact appends.beg
  · rw [moves.reads, ← popped]
    exact appends.reads
  · refine writtenUp_startAsyncWrite ?_ ?_
    · rw [← popped]
      simp only
      omega
    · rw [← popped]
      simp only
      omega
  · have after : u.left = u.issued.length - (rest.length + 1) := by
      rw [left, queue, List.length_cons]
    rw [before, after, left, issued.1, issued.2, ← popped]
    simp only
    omega

theorem parseReply_bounds {parser : RedisParser} {answer : Answer}
    (parsed : parseReply ndebug fuel parser buf beg = some answer) (inside : beg ≤ buf.length) :
    beg ≤ answer.consumed ∧ answer.consumed ≤ buf.length := by
  induction fuel generalizing parser beg with
  | zero => cases parsed
  | succ fuel ih =>
    rw [parseReply] at parsed
    split at parsed
    · rename_i more
      have some_octet : buf.drop beg ≠ [] := by
        apply List.ne_nil_of_length_pos
        rw [List.length_drop]
        omega
      obtain ⟨first, read, parsed⟩ := Option.bind_eq_some_iff.mp parsed
      rw [RedisParser.parse_eq_run ndebug parser some_octet] at read
      obtain ⟨r, -, rfl⟩ := Option.map_eq_some_iff.mp read
      have consumed : (r.1.answer ((buf.drop beg).length - r.2.length)).consumed ≤
          buf.length - beg := by
        rw [List.length_drop]
        cases r.1 <;> exact Nat.sub_le _ _
      split at parsed
      · have onward := ih parsed (by omega)
        omega
      · cases parsed
        simp only
        omega
    · cases parsed
      exact ⟨Nat.le_refl _, inside⟩

/-- A read goes on with the reply, or ends it. -/
theorem onRead_moves {s t : RedisClient} (busy : s.commandQueue ≠ []) (up : WrittenUp s)
    (idle : s.reads = []) (more : data ≠ [])
    (handled : s.onRead ndebug op (.ok data) inside = some t) :
    ∃ answer, parseReply ndebug ((s.replyBuf ++ data).length + 1) op.parser (s.replyBuf ++ data)
        s.replyParseBeg = some answer ∧
      t.replyBuf = s.replyBuf ++ data ∧ t.replyParseBeg = answer.consumed ∧ WrittenUp t ∧
      (answer.result = .incompleted ∧ t.reads = [⟨answer.parser, op.on⟩] ∧ t.left = s.left ∨
        answer.result ≠ .incompleted ∧ t.reads = [] ∧ t.left = s.left + 1) := by
  simp only [onRead, if_neg more] at handled
  obtain ⟨answer, parsed, handled⟩ := Option.bind_eq_some_iff.mp handled
  refine ⟨answer, parsed, ?_⟩
  have delivered (value : RedisValue) (delivery : deliver ndebug { s with
        replyBuf := s.replyBuf ++ data, replyParseBeg := answer.consumed } op.on value inside =
          some t) :
      t.replyBuf = s.replyBuf ++ data ∧ t.replyParseBeg = answer.consumed ∧ WrittenUp t ∧
        t.reads = [] ∧ t.left = s.left + 1 := by
    obtain ⟨moves, upToDate, count⟩ := deliver_moves (s := { s with
      replyBuf := s.replyBuf ++ data, replyParseBeg := answer.consumed }) busy up delivery
    exact ⟨moves.buf, moves.beg, upToDate, moves.reads.trans idle, count⟩
  cases result : answer.result with
  | incompleted =>
    simp only [result] at handled
    split at handled
    · cases handled
      refine ⟨rfl, rfl, up, .inl ⟨rfl, ?_, rfl⟩⟩
      simp only [idle, List.nil_append]
    · cases handled
  | completed =>
    simp only [result] at handled
    obtain ⟨buf, beg, upToDate, reads, count⟩ := delivered _ handled
    exact ⟨buf, beg, upToDate, .inr ⟨by decide, reads, count⟩⟩
  | error =>
    simp only [result] at handled
    obtain ⟨buf, beg, upToDate, reads, count⟩ := delivered _ handled
    exact ⟨buf, beg, upToDate, .inr ⟨by decide, reads, count⟩⟩

theorem moveFront_queue (s : RedisClient) :
    s.moveFront.commandQueue.length = s.commandQueue.length ∧
      (s.moveFront.commandQueue = [] ↔ s.commandQueue = []) := by
  rw [moveFront]
  split
  · exact ⟨rfl, Iff.rfl⟩
  · rename_i node rest queue
    simp [queue]

theorem moveFront_same (s : RedisClient) :
    Moves s s.moveFront ∧ s.moveFront.issued = s.issued ∧ s.moveFront.written = s.written := by
  rw [moveFront]
  split
  · exact ⟨⟨rfl, rfl, rfl⟩, rfl, rfl⟩
  · exact ⟨⟨rfl, rfl, rfl⟩, rfl, rfl⟩

theorem unparsed_startAysncReadAndParse (s : RedisClient) (on : Option Callback) :
    (s.startAysncReadAndParse on).replyBuf.length = s.replyBuf.length - s.replyParseBeg := by
  rw [startAysncReadAndParse]
  by_cases empty : s.replyBuf = []
  · simp [empty]
  · by_cases parsed : s.replyBuf.length ≤ s.replyParseBeg
    · simp [empty, parsed, Nat.sub_eq_zero_of_le parsed]
    · simp [empty, parsed]

/-- The reply to a written command is read by a new parser, from what is left in
the buffer on. -/
theorem wrote_moves {s t : RedisClient} (quiet : Quiet s) (up : WrittenUp s)
    (stepped : s.step ndebug (.wrote index none []) = some t) :
    s.reads = [] ∧ (∃ on, t.reads = [⟨.fresh, on⟩]) ∧
      t.replyBuf.length = s.replyBuf.length - s.replyParseBeg ∧ t.replyParseBeg = 0 ∧
      WrittenUp t ∧ t.left = s.left := by
  obtain ⟨data, outstanding, handled⟩ := Option.bind_eq_some_iff.mp stepped
  obtain ⟨node, rest, queue, handling⟩ := quiet.wrote outstanding
  simp only [onWrite, queue, if_true, Option.some.injEq] at handled
  generalize taken : { s with writes := s.writes.eraseIdx index, commandQueue := node :: rest } = u
    at handled
  have idle : s.reads = [] := handling.reads
  have fields : u.reads = s.reads ∧ u.replyBuf = s.replyBuf ∧ u.replyParseBeg = s.replyParseBeg ∧
      u.issued = s.issued ∧ u.written = s.written ∧ u.commandQueue = s.commandQueue := by
    rw [← taken, queue]
    exact ⟨rfl, rfl, rfl, rfl, rfl, rfl⟩
  obtain ⟨reads, buf, beg, issued, written, same⟩ := fields
  obtain ⟨moves, issued', written'⟩ := moveFront_same u
  obtain ⟨count, empty⟩ := moveFront_queue u
  rw [← handled]
  refine ⟨idle, ⟨node.on, ?_⟩, ?_, rfl, ?_, ?_⟩
  · simp only [startAysncReadAndParse, moves.reads, reads, idle, List.nil_append]
  · rw [unparsed_startAysncReadAndParse, moves.buf, moves.beg, buf, beg]
  · rw [WrittenUp]
    simp only [startAysncReadAndParse, count, issued', written', issued, written, same, empty]
    exact up
  · simp only [left, startAysncReadAndParse, count, issued', issued, same]

/-- A read of nothing changes nothing. -/
theorem read_moves {s t : RedisClient} (quiet : Quiet s) (up : WrittenUp s)
    (stepped : s.step ndebug (.read index (.ok data) inside) = some t) :
    ∃ op, s.reads = [op] ∧ (data = [] ∧ t = s ∨
      data ≠ [] ∧ ∃ answer, parseReply ndebug ((s.replyBuf ++ data).length + 1) op.parser
          (s.replyBuf ++ data) s.replyParseBeg = some answer ∧
        t.replyBuf = s.replyBuf ++ data ∧ t.replyParseBeg = answer.consumed ∧ WrittenUp t ∧
        (answer.result = .incompleted ∧ t.reads = [⟨answer.parser, op.on⟩] ∧ t.left = s.left ∨
          answer.result ≠ .incompleted ∧ t.reads = [] ∧ t.left = s.left + 1)) := by
  obtain ⟨op, outstanding, handled⟩ := Option.bind_eq_some_iff.mp stepped
  obtain ⟨node, rest, ⟨front, queue⟩, -, handling⟩ := quiet.read outstanding
  split at handled
  case isFalse => cases handled
  have bound := (List.getElem?_eq_some_iff.mp outstanding).1
  have alone : s.reads = [op] := by
    have others : (s.reads.eraseIdx index).length = 0 := congrArg List.length handling.reads
    rw [List.length_eraseIdx_of_lt bound] at others
    obtain ⟨only, single⟩ := List.length_eq_one_iff.mp (show s.reads.length = 1 by omega)
    rw [single, (System.index_eq_zero single outstanding).2]
  refine ⟨op, alone, ?_⟩
  by_cases nothing : data = []
  · refine .inl ⟨nothing, ?_⟩
    simp only [onRead, nothing, if_true] at handled
    split at handled
    · cases handled
      have reads : s.reads.eraseIdx index ++ [op] = s.reads := by
        have none : s.reads.eraseIdx index = [] := handling.reads
        rw [none, alone, List.nil_append]
      rw [reads]
    · cases handled
  · refine .inr ⟨nothing, ?_⟩
    exact onRead_moves (s := { s with reads := s.reads.eraseIdx index }) handling.busy up
      handling.reads nothing handled

end RedisClient

namespace Provenance
variable {ndebug : Bool} {replies : Nat → Resp}

/-- What holds whether or not a reply was rejected. -/
structure Sane (reply : Nat → Bytes) (p : Provenance) : Prop where
  quiet : RedisClient.Quiet p.system.client
  up : RedisClient.WrittenUp p.system.client
  parsed : p.system.client.replyParseBeg ≤ p.system.client.replyBuf.length
  received : p.system.client.replyBuf.length - p.system.client.replyParseBeg ≤ p.system.received
  served : p.system.served ≤ p.system.answered + 1
  counted : p.spans.length = p.system.answered
  own : Own reply p

/-- The parser is where the answered replies end, or inside the next one. -/
structure Aligned (ndebug : Bool) (replies : Nat → Resp) (p : Provenance) : Prop where
  accepted : ∀ k < p.system.answered, (replies k).Printable
  served : p.system.answered ≤ p.system.served
  received : System.octets (encoded replies) p.system.answered ≤ p.system.received
  remaining : p.system.remaining (encoded replies) p.system.answered =
    (replies p.system.answered).encode.drop
      (p.system.received - System.octets (encoded replies) p.system.answered)
  stage :
    (p.system.client.reads = [] ∧
      p.system.received = System.octets (encoded replies) p.system.answered ∧
      p.system.client.replyBuf.length ≤ p.system.client.replyParseBeg) ∨
    ∃ parser on q state, p.system.client.reads = [⟨parser, on⟩] ∧
      p.begun = System.octets (encoded replies) p.system.answered ∧
      p.system.client.replyBuf.length ≤ p.system.client.replyParseBeg ∧
      p.system.received < System.octets (encoded replies) (p.system.answered + 1) ∧
      RedisParser.run ndebug .fresh .start ((replies p.system.answered).encode.take
        (p.system.received - System.octets (encoded replies) p.system.answered)) =
          some (.more q state, []) ∧
      parser.resume = (q, state)

/-- A reply was rejected, and what is read next begins inside it. -/
structure Derailed (replies : Nat → Resp) (p : Provenance) : Prop where
  rejected : ∃ k < p.system.answered, ¬(replies k).Printable
  next : p.system.client.reads = [] →
    p.system.position < System.octets (encoded replies) p.system.answered
  present : p.system.client.reads ≠ [] →
    p.begun < System.octets (encoded replies) p.system.answered

def Tracked (ndebug : Bool) (replies : Nat → Resp) (p : Provenance) : Prop :=
  Sane (encoded replies) p ∧ (Aligned ndebug replies p ∨ Derailed replies p)

theorem Aligned.congr {p q : Provenance} (aligned : Aligned ndebug replies p)
    (answered : q.system.answered = p.system.answered)
    (same : RedisClient.Moves p.system.client q.system.client)
    (served : q.system.served = p.system.served) (wire : q.system.wire = p.system.wire)
    (received : q.system.received = p.system.received) (begun : q.begun = p.begun) :
    Aligned ndebug replies q := by
  obtain ⟨accepted, sent, arrived, remaining, stage⟩ := aligned
  constructor
  · rw [answered]
    exact accepted
  · rw [answered, served]
    exact sent
  · rw [answered, received]
    exact arrived
  · rw [System.remaining, answered, received, wire, served]
    exact remaining
  · rw [answered, received, begun, same.reads, same.buf, same.beg]
    exact stage

theorem Derailed.congr {p q : Provenance} (derailed : Derailed replies p)
    (answered : q.system.answered = p.system.answered)
    (reads : q.system.client.reads = p.system.client.reads)
    (position : q.system.position = p.system.position) (begun : q.begun = p.begun) :
    Derailed replies q := by
  obtain ⟨rejected, next, present⟩ := derailed
  constructor
  · rw [answered]
    exact rejected
  · rw [answered, reads, position]
    exact next
  · rw [answered, reads, begun]
    exact present

theorem position_congr {s t : System} (same : RedisClient.Moves s.client t.client)
    (received : t.received = s.received) : t.position = s.position := by
  rw [System.position, System.position, same.buf, same.beg, received]

theorem spans_same {p : Provenance} {t : System} (same : t.answered = p.system.answered)
    (begun : Nat) :
    (if p.system.answered < t.answered then p.spans ++ [(begun, t.position)] else p.spans) =
      p.spans := by
  rw [same, if_neg (Nat.lt_irrefl _)]

theorem written_of_up {s : RedisClient} (up : RedisClient.WrittenUp s) :
    s.left ≤ s.written.length ∧ s.written.length ≤ s.left + 1 := by
  obtain ⟨some_issued, count⟩ := up
  rw [RedisClient.left]
  split at count
  · omega
  · omega

theorem tracked_command {p q : Provenance} (tracked : Tracked ndebug replies p)
    (stepped : p.step ndebug (encoded replies) (.command c) = some q) :
    Tracked ndebug replies q := by
  obtain ⟨⟨quiet, up, parsed, received, served, counted, own⟩, stream⟩ := tracked
  obtain ⟨t, moved, rfl⟩ := Option.map_eq_some_iff.mp stepped
  obtain ⟨client, called, rfl⟩ := Option.map_eq_some_iff.mp moved
  change p.system.client.call ndebug c.call = some client at called
  obtain ⟨moves, upToDate, count⟩ := RedisClient.command_moves up called
  have answered : System.answered { p.system with client := client } = p.system.answered := count
  have spans := spans_same answered p.begun
  refine ⟨⟨RedisClient.quiet_call quiet called, upToDate, ?_, ?_, ?_, ?_, ?_⟩, ?_⟩
  · rw [moves.beg, moves.buf]
    exact parsed
  · rw [moves.beg, moves.buf]
    exact received
  · rw [answered]
    exact served
  · exact (congrArg List.length spans).trans (counted.trans answered.symm)
  · rw [Own, spans]
    exact own
  · refine stream.imp (fun aligned => ?_) fun derailed => ?_
    · exact aligned.congr answered moves rfl rfl rfl rfl
    · exact derailed.congr answered moves.reads (position_congr moves rfl) rfl

theorem Aligned.serve {p : Provenance} {t : System} (aligned : Aligned ndebug replies p)
    (behind : p.system.served ≤ p.system.answered)
    (stepped : t = { p.system with
      served := p.system.served + 1, wire := p.system.wire ++ encoded replies p.system.served }) :
    Aligned ndebug replies { p with system := t } := by
  obtain ⟨accepted, sent, arrived, remaining, stage⟩ := aligned
  have now : p.system.served = p.system.answered := by omega
  have answered : t.answered = p.system.answered := by rw [stepped]; rfl
  refine ⟨?_, ?_, ?_, ?_, ?_⟩
  · rw [answered]
    exact accepted
  · rw [answered, stepped]
    exact Nat.le_succ_of_le sent
  · rw [answered, stepped]
    exact arrived
  · rw [System.remaining, if_pos behind] at remaining
    rw [answered, stepped, System.remaining, if_neg (by simp only; omega), List.append_nil, now]
    exact remaining
  · rw [answered, stepped]
    exact stage

theorem tracked_serve {p q : Provenance} (tracked : Tracked ndebug replies p)
    (stepped : p.step ndebug (encoded replies) .serve = some q) : Tracked ndebug replies q := by
  obtain ⟨⟨quiet, up, parsed, received, served, counted, own⟩, stream⟩ := tracked
  obtain ⟨t, moved, rfl⟩ := Option.map_eq_some_iff.mp stepped
  simp only [System.step] at moved
  split at moved
  case isFalse => cases moved
  rename_i behind
  have bound : p.system.client.written.length ≤ p.system.answered + 1 := (written_of_up up).2
  cases moved
  simp only
  have spans := spans_same (p := p) (t := { p.system with
    served := p.system.served + 1, wire := p.system.wire ++ encoded replies p.system.served }) rfl
    p.begun
  rw [spans]
  refine ⟨⟨quiet, up, parsed, received, ?_, counted, own⟩, ?_⟩
  · change p.system.served + 1 ≤ p.system.answered + 1
    omega
  · refine stream.imp (fun aligned => ?_) fun derailed => ?_
    · exact aligned.serve (by omega) rfl
    · exact derailed.congr rfl rfl rfl rfl

theorem encoded_length_pos (replies : Nat → Resp) (k : Nat) : 0 < (encoded replies k).length :=
  List.length_pos_iff.mpr (RedisParser.encode_ne_nil _)

theorem tracked_wrote {p q : Provenance} (tracked : Tracked ndebug replies p)
    (stepped : p.step ndebug (encoded replies) (.wrote index) = some q) :
    Tracked ndebug replies q := by
  obtain ⟨⟨quiet, up, parsed, received, served, counted, own⟩, stream⟩ := tracked
  obtain ⟨t, moved, rfl⟩ := Option.map_eq_some_iff.mp stepped
  obtain ⟨client, handled, rfl⟩ := Option.map_eq_some_iff.mp moved
  obtain ⟨idle, ⟨on, reads⟩, buf, beg, upToDate, count⟩ :=
    RedisClient.wrote_moves quiet up handled
  have answered : System.answered { p.system with client := client } = p.system.answered := count
  have position : System.position { p.system with client := client } = p.system.position := by
    rw [System.position, System.position, buf, beg, Nat.sub_zero]
  have succeeds : ¬(RedisClient.Event.wrote index none []).Failed := fun failed => failed rfl
  simp only
  rw [spans_same answered]
  refine ⟨⟨RedisClient.step_quiet quiet handled succeeds, upToDate, ?_, ?_, ?_, ?_, own⟩, ?_⟩
  · rw [beg]
    exact Nat.zero_le _
  · rw [beg, buf, Nat.sub_zero]
    exact received
  · rw [answered]
    exact served
  · exact counted.trans answered.symm
  · refine stream.imp (fun aligned => ?_) fun derailed => ?_
    · obtain ⟨accepted, sent, arrived, remaining, stage⟩ := aligned
      have stopped := stage.resolve_right fun ⟨_, _, _, _, reading, _⟩ => by
        rw [idle] at reading
        cases reading
      obtain ⟨-, complete, drained⟩ := stopped
      have first : p.system.position =
          System.octets (encoded replies) p.system.answered := by
        rw [System.position]
        omega
      have more := encoded_length_pos replies p.system.answered
      refine ⟨?_, ?_, ?_, ?_, .inr ⟨.fresh, on, .fresh, .start, reads, ?_, ?_, ?_, ?_, rfl⟩⟩
      · rw [answered]
        exact accepted
      · rw [answered]
        exact sent
      · rw [answered]
        exact arrived
      · rw [answered]
        exact remaining
      · rw [answered]
        exact position.trans first
      · rw [buf]
        omega
      · rw [answered, System.octets]
        simp only
        omega
      · rw [answered]
        simp only
        rw [complete, Nat.sub_self, List.take_zero]
        rfl
    · obtain ⟨rejected, next, present⟩ := derailed
      refine ⟨?_, fun none => ?_, fun reading => ?_⟩
      · rw [answered]
        exact rejected
      · rw [reads] at none
        cases none
      · rw [answered]
        exact position.symm ▸ next idle

theorem parseReply_ended {parser : RedisParser} {answer : Answer}
    (parsed : parser.parse ndebug data = some answer) (ended : answer.result ≠ .incompleted)
    (more : data ≠ []) (buf : Bytes) :
    RedisClient.parseReply ndebug ((buf ++ data).length + 1) parser (buf ++ data) buf.length =
      some { answer with consumed := buf.length + answer.consumed } := by
  have some_octet : 0 < data.length := List.length_pos_iff.mpr more
  have all : (buf ++ data).length = buf.length + data.length := List.length_append
  rw [RedisClient.parseReply, if_pos (by omega), List.drop_left, parsed, Option.bind_some,
    if_neg ended]

/-- A reply ends at its last octet, or is rejected in front of it. -/
theorem run_reply (fits : ∀ k, (replies k).Fits) (lines : ∀ k, (replies k).Lines) (ndebug : Bool)
    (k : Nat) :
    (replies k).Printable ∧
        (∃ final,
          RedisParser.run ndebug .fresh .start (encoded replies k) = some (.done final, [])) ∨
      ¬(replies k).Printable ∧ ∃ q left, left ≠ [] ∧
        RedisParser.run ndebug .fresh .start (encoded replies k) = some (.failed q, left) := by
  by_cases printable : (replies k).Printable
  · obtain ⟨final, ran, -⟩ := RedisParser.run_encode ndebug (fits k) printable []
    rw [List.append_nil] at ran
    exact .inl ⟨printable, final, ran⟩
  · obtain ⟨q, left, more, ran⟩ :=
      RedisParser.rejects ndebug (replies k) (fits k) (lines k) printable
      .fresh .start [] (.inl rfl)
    rw [List.append_nil, List.append_nil] at ran
    exact .inr ⟨printable, q, left, more, ran⟩

/-- What a read does to the reply it goes on with: `front` is read already, `data`
is new, and `rest` is still to come. -/
theorem parse_reply {parser : RedisParser} (fits : ∀ k, (replies k).Fits)
    (lines : ∀ k, (replies k).Lines) {k : Nat} {front data rest : Bytes}
    (whole : encoded replies k = front ++ (data ++ rest)) (more : data ≠ [])
    (ran : RedisParser.run ndebug .fresh .start front = some (.more q state, []))
    (resumed : parser.resume = (q, state)) {buf : Bytes} {answer : Answer}
    (parsed : RedisClient.parseReply ndebug ((buf ++ data).length + 1) parser (buf ++ data)
      buf.length = some answer) :
    (answer.result = .incompleted ∧ answer.consumed = buf.length + data.length ∧ rest ≠ [] ∧
        ∃ q state, RedisParser.run ndebug .fresh .start (front ++ data) = some (.more q state, []) ∧
          answer.parser.resume = (q, state)) ∨
      (answer.result ≠ .incompleted ∧ (replies k).Printable ∧
        answer.consumed = buf.length + data.length ∧ rest = []) ∨
      (answer.result ≠ .incompleted ∧ ¬(replies k).Printable ∧
        answer.consumed < buf.length + data.length + rest.length) := by
  have opened := RedisParser.run_append ndebug .fresh .start front (data ++ rest)
  rw [← whole, ran, Option.bind_some] at opened
  have outcome := opened.trans (RedisParser.run_append ndebug q state data rest)
  have answers := RedisParser.parse_eq_run ndebug parser more
  rw [resumed] at answers
  have ends := run_reply fits lines ndebug k
  rw [outcome] at ends
  cases here : RedisParser.run ndebug q state data with
  | none =>
    rw [here] at ends
    rcases ends with ⟨-, final, none⟩ | ⟨-, q, left, -, none⟩
    · cases none
    · cases none
  | some reached =>
    obtain ⟨progress, unread⟩ := reached
    have bound := RedisParser.unread_le here
    rw [here] at ends answers
    cases progress with
    | more p after =>
      have all := RedisParser.run_more_unread here
      rw [all] at answers
      rw [System.parseReply_incompleted answers more] at parsed
      cases parsed
      refine .inl ⟨rfl, List.length_append, ?_, p, after, ?_, rfl⟩
      · rintro rfl
        rcases ends with ⟨-, final, ran⟩ | ⟨-, q, left, -, ran⟩
        · cases ran
        · cases ran
      · rw [RedisParser.run_append, ran, Option.bind_some]
        simp only [here, all]
    | done p =>
      rw [parseReply_ended answers (by exact ParseResult.noConfusion) more] at parsed
      cases parsed
      rcases ends with ⟨printable, final, ran⟩ | ⟨-, q, left, -, ran⟩
      · simp only [Option.bind_some, Option.some.injEq, Prod.mk.injEq,
          List.append_eq_nil_iff] at ran
        obtain ⟨-, read, last⟩ := ran
        refine .inr (.inl ⟨ParseResult.noConfusion, printable, ?_, last⟩)
        rw [read]
        rfl
      · cases ran
    | failed p =>
      rw [parseReply_ended answers (by exact ParseResult.noConfusion) more] at parsed
      cases parsed
      rcases ends with ⟨-, final, ran⟩ | ⟨rejected, q, left, some_octet, ran⟩
      · cases ran
      · simp only [Option.bind_some, Option.some.injEq, Prod.mk.injEq] at ran
        have unparsed : 0 < unread.length + rest.length := by
          rw [← List.length_append, ran.2]
          exact List.length_pos_iff.mpr some_octet
        have some_data : 0 < data.length := List.length_pos_iff.mpr more
        refine .inr (.inr ⟨ParseResult.noConfusion, rejected, ?_⟩)
        simp only [RedisParser.Progress.answer] at bound ⊢
        omega

/-- What a read of some octets leaves, in whatever state the stream is. -/
structure Read (ndebug : Bool) (p : Provenance) (data : Bytes) (op : ReadOperation)
    (answer : Answer) (t : System) : Prop where
  more : data ≠ []
  reads : p.system.client.reads = [op]
  parsed : RedisClient.parseReply ndebug ((p.system.client.replyBuf ++ data).length + 1) op.parser
    (p.system.client.replyBuf ++ data) p.system.client.replyParseBeg = some answer
  buf : t.client.replyBuf.length = p.system.client.replyBuf.length + data.length
  beg : t.client.replyParseBeg = answer.consumed
  received : t.received = p.system.received + data.length
  wire : p.system.wire = data ++ t.wire
  served : t.served = p.system.served
  inside : p.system.client.replyParseBeg ≤ answer.consumed ∧
    answer.consumed ≤ p.system.client.replyBuf.length + data.length

/-- The stream in front of the next octets of an unfinished reply. -/
theorem Aligned.reading {p : Provenance} {t : System} (aligned : Aligned ndebug replies p)
    (read : Read ndebug p data op answer t) :
    ∃ q state front rest, p.begun = System.octets (encoded replies) p.system.answered ∧
      encoded replies p.system.answered = front ++ (data ++ rest) ∧
      front = (encoded replies p.system.answered).take
        (p.system.received - System.octets (encoded replies) p.system.answered) ∧
      rest = t.wire ++ (if p.system.served ≤ p.system.answered then
        encoded replies p.system.answered else []) ∧
      p.system.received + data.length + rest.length =
        System.octets (encoded replies) (p.system.answered + 1) ∧
      RedisParser.run ndebug .fresh .start front = some (.more q state, []) ∧
      op.parser.resume = (q, state) ∧
      p.system.client.replyBuf.length ≤ p.system.client.replyParseBeg := by
  obtain ⟨-, -, arrived, remaining, stage⟩ := aligned
  have outstanding := stage.resolve_left fun ⟨idle, _⟩ => by
    rw [read.reads] at idle
    cases idle
  obtain ⟨parser, on, q, state, reads, begun, drained, unfinished, ran, resumed⟩ := outstanding
  rw [read.reads] at reads
  cases reads
  rw [System.remaining, read.wire, List.append_assoc] at remaining
  change _ = (encoded replies p.system.answered).drop _ at remaining
  have whole : encoded replies p.system.answered =
      (encoded replies p.system.answered).take
          (p.system.received - System.octets (encoded replies) p.system.answered) ++
        (data ++ (t.wire ++ if p.system.served ≤ p.system.answered then
          encoded replies p.system.answered else [])) := by
    rw [remaining, List.take_append_drop]
  rw [System.octets] at unfinished
  have length := congrArg List.length whole
  rw [List.length_append, List.length_append, List.length_take_of_le (by omega)] at length
  refine ⟨q, state, _, _, begun, whole, rfl, rfl, ?_, ran, resumed, drained⟩
  rw [System.octets]
  omega

/-- The reply goes on behind the octets read. -/
theorem Aligned.onward {p : Provenance} {t : System} (fits : ∀ k, (replies k).Fits)
    (lines : ∀ k, (replies k).Lines) (parsed : p.system.client.replyParseBeg ≤
      p.system.client.replyBuf.length) (aligned : Aligned ndebug replies p)
    (read : Read ndebug p data op answer t) (incompleted : answer.result = .incompleted)
    (reads : t.client.reads = [⟨answer.parser, op.on⟩])
    (answered : t.answered = p.system.answered) :
    Aligned ndebug replies { p with system := t } := by
  obtain ⟨q, state, front, rest, begun, whole, taken, left, length, ran, resumed, drained⟩ :=
    aligned.reading read
  have parses := read.parsed
  rw [Nat.le_antisymm parsed drained] at parses
  obtain ⟨accepted, sent, arrived, -, -⟩ := aligned
  have fronts : front.length =
      p.system.received - System.octets (encoded replies) p.system.answered := by
    have sizes := congrArg List.length whole
    rw [System.octets] at length
    rw [List.length_append, List.length_append] at sizes
    omega
  have behind : p.system.received + data.length -
      System.octets (encoded replies) p.system.answered = (front ++ data).length := by
    rw [List.length_append, fronts]
    omega
  rcases parse_reply fits lines whole read.more ran resumed parses with
    ⟨-, consumed, more, q, state, ranOn, resumedOn⟩ | ⟨ended, -⟩ | ⟨ended, -⟩
  · have some_rest : 0 < rest.length := List.length_pos_iff.mpr more
    refine ⟨?_, ?_, ?_, ?_, .inr ⟨answer.parser, op.on, q, state, reads, ?_, ?_, ?_, ?_, resumedOn⟩⟩
    · rw [answered]
      exact accepted
    · rw [answered, read.served]
      exact sent
    · rw [answered, read.received]
      exact Nat.le_add_right_of_le arrived
    · change t.remaining (encoded replies) t.answered = (encoded replies t.answered).drop
        (t.received - System.octets (encoded replies) t.answered)
      rw [System.remaining, answered, read.served, read.received, ← left, behind, whole,
        ← List.append_assoc, List.drop_left]
    · rw [answered]
      exact begun
    · rw [read.buf, read.beg, consumed]
    · rw [answered, read.received]
      omega
    · change RedisParser.run ndebug .fresh .start ((encoded replies t.answered).take
        (t.received - System.octets (encoded replies) t.answered)) = _
      rw [answered, read.received, behind, whole, ← List.append_assoc, List.take_left]
      exact ranOn
  · exact absurd incompleted ended
  · exact absurd incompleted ended

/-- The value comes from the reply, whether it was completed or rejected; what is
read next begins behind the reply, or inside it. -/
theorem Aligned.ended {p : Provenance} {t : System} (fits : ∀ k, (replies k).Fits)
    (lines : ∀ k, (replies k).Lines) (parsed : p.system.client.replyParseBeg ≤
      p.system.client.replyBuf.length) (aligned : Aligned ndebug replies p)
    (read : Read ndebug p data op answer t) (ended : answer.result ≠ .incompleted)
    (reads : t.client.reads = []) (answered : t.answered = p.system.answered + 1)
    (atMostNext : p.system.served ≤ p.system.answered + 1) (spans : List (Nat × Nat)) :
    System.octets (encoded replies) p.system.answered ≤ p.begun ∧
      t.position ≤ System.octets (encoded replies) (p.system.answered + 1) ∧
      (Aligned ndebug replies { p with system := t, spans := spans } ∨
        Derailed replies { p with system := t, spans := spans }) := by
  obtain ⟨q, state, front, rest, begun, whole, taken, left, length, ran, resumed, drained⟩ :=
    aligned.reading read
  have parses := read.parsed
  rw [Nat.le_antisymm parsed drained] at parses
  obtain ⟨accepted, sent, arrived, -, -⟩ := aligned
  have position : t.position = p.system.received + data.length -
      (p.system.client.replyBuf.length + data.length - answer.consumed) := by
    rw [System.position, read.received, read.buf, read.beg]
  refine ⟨Nat.le_of_eq begun.symm, by omega, ?_⟩
  rcases parse_reply fits lines whole read.more ran resumed parses with
    ⟨incompleted, -⟩ | ⟨-, printable, consumed, last⟩ | ⟨-, rejected, consumed⟩
  · exact absurd incompleted ended
  · rw [last] at left length
    obtain ⟨wire, sentAll⟩ := List.append_eq_nil_iff.mp left.symm
    have complete : p.system.received + data.length =
        System.octets (encoded replies) (p.system.answered + 1) := length
    have all : p.system.answered + 1 ≤ p.system.served := by
      by_contra unsent
      rw [if_pos (by omega)] at sentAll
      exact absurd sentAll (RedisParser.encode_ne_nil _)
    refine .inl ⟨?_, ?_, ?_, ?_, .inl ⟨reads, ?_, ?_⟩⟩
    · intro k bound
      rw [answered] at bound
      rcases Nat.lt_succ_iff_lt_or_eq.mp bound with earlier | rfl
      · exact accepted k earlier
      · exact printable
    · rw [answered, read.served]
      exact all
    · rw [answered, read.received, complete]
    · change t.remaining (encoded replies) t.answered = (encoded replies t.answered).drop
        (t.received - System.octets (encoded replies) t.answered)
      rw [System.remaining, answered, wire, List.nil_append, read.served, if_pos atMostNext,
        read.received, complete, Nat.sub_self, List.drop_zero]
    · rw [answered, read.received, complete]
    · rw [read.buf, read.beg, consumed]
  · refine .inr ⟨⟨p.system.answered, ?_, rejected⟩, fun _ => ?_, fun reading => ?_⟩
    · rw [answered]
      exact Nat.lt_succ_self _
    · rw [answered]
      simp only
      rw [position]
      have enough := read.inside
      omega
    · exact absurd reads reading

/-- A read that happens, and what it makes of the command in front. -/
theorem read_cases {p : Provenance} {t : System} (sane : Sane (encoded replies) p)
    (stepped : p.system.step ndebug (encoded replies) (.read index count inside) = some t) :
    t = p.system ∨ ∃ data op answer, Read ndebug p data op answer t ∧
      RedisClient.Quiet t.client ∧ RedisClient.WrittenUp t.client ∧
      (answer.result = .incompleted ∧ t.client.reads = [⟨answer.parser, op.on⟩] ∧
          t.answered = p.system.answered ∨
        answer.result ≠ .incompleted ∧ t.client.reads = [] ∧ t.answered = p.system.answered + 1) := by
  simp only [System.step] at stepped
  split at stepped
  case isFalse => cases stepped
  rename_i available
  obtain ⟨client, handled, rfl⟩ := Option.map_eq_some_iff.mp stepped
  have length : (p.system.wire.take count).length = count := List.length_take_of_le available
  obtain ⟨op, reads, reading⟩ := RedisClient.read_moves sane.quiet sane.up handled
  rcases reading with ⟨nothing, rfl⟩ | ⟨more, answer, parsed, buf, beg, upToDate, ended⟩
  · have zero : count = 0 := by
      rw [← length, nothing]
      rfl
    refine .inl ?_
    rw [zero]
    rfl
  · have inside := RedisClient.parseReply_bounds parsed (by
      rw [List.length_append]
      exact Nat.le_add_right_of_le sane.parsed)
    rw [List.length_append] at inside
    have succeeds : ¬(RedisClient.Event.read index (.ok (p.system.wire.take count))
        (List.map CommandCall.call ‹_›)).Failed := by
      rintro ⟨ec, failed⟩
      cases failed
    refine .inr ⟨p.system.wire.take count, op, answer, ⟨more, reads, parsed, ?_, beg, ?_, ?_, rfl,
      inside⟩, RedisClient.step_quiet sane.quiet handled succeeds, upToDate, ended⟩
    · rw [buf, List.length_append]
    · rw [length]
    · exact (List.take_append_drop count p.system.wire).symm

theorem Own.append {p : Provenance} {low high : Nat} (own : Own reply p)
    (counted : p.spans.length = k) (first : System.octets reply k ≤ low)
    (last : high ≤ System.octets reply (k + 1)) (t : System) :
    Own reply { p with system := t, spans := p.spans ++ [(low, high)] } := by
  intro j below above found
  simp only [List.getElem?_append] at found
  split at found
  · exact own j below above found
  · rename_i behind
    have here : j - p.spans.length = 0 := by
      by_contra later
      rw [List.getElem?_eq_none (by simp only [List.length_singleton]; omega)] at found
      cases found
    rw [here] at found
    cases found
    have same : j = k := by omega
    rw [same]
    exact ⟨first, last⟩

theorem tracked_read {p q : Provenance} (fits : ∀ k, (replies k).Fits)
    (lines : ∀ k, (replies k).Lines) (tracked : Tracked ndebug replies p)
    (stepped : p.step ndebug (encoded replies) (.read index count inside) = some q)
    (behind : BehindAccepted replies p (.read index count inside) q) :
    Tracked ndebug replies q := by
  obtain ⟨sane, stream⟩ := tracked
  obtain ⟨t, moved, rfl⟩ := Option.map_eq_some_iff.mp stepped
  rcases read_cases sane moved with rfl | ⟨data, op, answer, read, quiet, up, ended⟩
  · simp only [Nat.lt_irrefl, if_false]
    exact ⟨sane, stream⟩
  have parsed : t.client.replyParseBeg ≤ t.client.replyBuf.length := by
    rw [read.buf, read.beg]
    exact read.inside.2
  have received : t.client.replyBuf.length - t.client.replyParseBeg ≤ t.received := by
    have before := sane.received
    have start := read.inside.1
    rw [read.buf, read.beg, read.received]
    omega
  have served := sane.served
  rcases ended with ⟨incompleted, reads, answered⟩ | ⟨ended, reads, answered⟩
  · simp only [spans_same answered]
    refine ⟨⟨quiet, up, parsed, received, ?_, sane.counted.trans answered.symm, sane.own⟩, ?_⟩
    · rw [answered, read.served]
      exact served
    · refine stream.imp (fun aligned => ?_) fun derailed => ?_
      · exact aligned.onward fits lines sane.parsed read incompleted reads answered
      · obtain ⟨rejected, -, present⟩ := derailed
        refine ⟨?_, fun none => ?_, fun _ => ?_⟩
        · rw [answered]
          exact rejected
        · rw [reads] at none
          cases none
        · rw [answered]
          exact present (by rw [read.reads]; exact List.cons_ne_nil _ _)
  · have increased : p.system.answered < t.answered := by omega
    have accepted := behind increased
    simp only [if_pos increased]
    have aligned := stream.resolve_right fun derailed => by
      obtain ⟨k, bound, rejected⟩ := derailed.rejected
      exact rejected (accepted k bound)
    obtain ⟨first, last, next⟩ := aligned.ended fits lines sane.parsed read ended reads answered
      served (p.spans ++ [(p.begun, t.position)])
    refine ⟨⟨quiet, up, parsed, received, ?_, ?_, sane.own.append sane.counted first last t⟩, next⟩
    · rw [answered, read.served]
      omega
    · rw [List.length_append, sane.counted, answered]
      rfl

theorem tracked_step {p q : Provenance} (fits : ∀ k, (replies k).Fits)
    (lines : ∀ k, (replies k).Lines) (tracked : Tracked ndebug replies p)
    (stepped : p.step ndebug (encoded replies) action = some q)
    (behind : BehindAccepted replies p action q) : Tracked ndebug replies q := by
  cases action with
  | command c => exact tracked_command tracked stepped
  | wrote index => exact tracked_wrote tracked stepped
  | serve => exact tracked_serve tracked stepped
  | read index count inside => exact tracked_read fits lines tracked stepped behind

/-- Only a read answers a command. -/
theorem reading_of_answered {p q : Provenance} (sane : Sane (encoded replies) p)
    (stepped : p.step ndebug (encoded replies) action = some q)
    (increased : p.system.answered < q.system.answered) :
    p.system.client.reads ≠ [] ∧ q.spans = p.spans ++ [(p.begun, q.system.position)] := by
  obtain ⟨t, moved, rfl⟩ := Option.map_eq_some_iff.mp stepped
  refine ⟨?_, if_pos increased⟩
  have unchanged (same : t.client.left = p.system.client.left) : False := by
    change p.system.client.left < t.client.left at increased
    omega
  cases action with
  | command c =>
    obtain ⟨client, called, rfl⟩ := Option.map_eq_some_iff.mp moved
    exact (unchanged (RedisClient.command_moves sane.up called).2.2).elim
  | wrote index =>
    obtain ⟨client, handled, rfl⟩ := Option.map_eq_some_iff.mp moved
    exact (unchanged (RedisClient.wrote_moves sane.quiet sane.up handled).2.2.2.2.2).elim
  | serve =>
    simp only [System.step] at moved
    split at moved
    · cases moved
      exact (unchanged rfl).elim
    · cases moved
  | read index count inside =>
    rcases read_cases sane moved with rfl | ⟨data, op, answer, read, -⟩
    · exact (unchanged rfl).elim
    · rw [read.reads]
      exact List.cons_ne_nil _ _

/-- In a run against a server that sends one reply per command, every value comes
from octets of the command's own reply exactly if no command is answered behind
one whose reply has a character that the parser rejects. -/
theorem own_replies_iff (ndebug : Bool) (policy : RedisClientErrorHandlePolicy)
    (replies : Nat → Resp) (fits : ∀ k, (replies k).Fits) (lines : ∀ k, (replies k).Lines)
    (actions : List Action) :
    Transition.Throughout (step ndebug (encoded replies)) (Own (encoded replies)) (start policy)
        actions ↔
      Transition.Steps (step ndebug (encoded replies)) (BehindAccepted replies) (start policy)
        actions := by
  refine Transition.throughout_iff_steps (I := Tracked ndebug replies) ?_ ?_ ?_ ?_
  · exact tracked_step fits lines
  · intro p action q tracked stepped own increased
    obtain ⟨sane, stream⟩ := tracked
    obtain ⟨reading, spans⟩ := reading_of_answered sane stepped increased
    rcases stream with aligned | derailed
    · exact aligned.accepted
    · have last : q.spans[p.system.answered]? = some (p.begun, q.system.position) := by
        rw [spans, ← sane.counted, List.getElem?_concat_length]
      have first := (own _ _ _ last).1
      have begun := derailed.present reading
      omega
  · exact fun tracked => tracked.1.own
  · refine ⟨⟨.inl ⟨rfl, rfl, rfl⟩, ⟨Nat.le_refl _, rfl⟩, Nat.le_refl _, Nat.le_refl _,
      Nat.zero_le _,
      rfl, fun k first last found => nomatch found⟩, .inl ?_⟩
    exact ⟨fun k bound => absurd bound (Nat.not_lt_zero k), Nat.le_refl _, Nat.le_refl _, rfl,
      .inl ⟨rfl, rfl, Nat.le_refl _⟩⟩

/-- The first reply has an octet that the parser does not take. -/
def accentedReply : Nat → Resp
  | 0 => .simple [195, 58, 53]
  | _ => .integer 7

theorem accentedReply_fits : ∀ k, (accentedReply k).Fits := by
  rintro (_ | k) n member
  · cases member
  · rw [List.mem_singleton.mp member]
    decide

theorem accentedReply_lines : ∀ k, (accentedReply k).Lines := by
  rintro (_ | k) text member
  · rw [List.mem_singleton.mp member]
    decide
  · cases member

/-- Two commands; the first octet of the second reply sets off the parser. -/
def twoAnswers : List Action :=
  [.command ⟨[80], [], some 0⟩, .command ⟨[80], [], some 1⟩, .wrote 0, .serve, .read 0 6 [],
    .wrote 0, .serve, .read 0 1 []]

theorem own_replies_iff_twoAnswers :
    Transition.Throughout (step false (encoded accentedReply)) (Own (encoded accentedReply))
        (start .doNothing) twoAnswers ↔
      Transition.Steps (step false (encoded accentedReply)) (BehindAccepted accentedReply)
        (start .doNothing) twoAnswers :=
  own_replies_iff false .doNothing accentedReply accentedReply_fits accentedReply_lines twoAnswers

/-- The second command is answered with the number inside the first reply. -/
theorem twoAnswers_not_own :
    ¬Transition.Throughout (step false (encoded accentedReply)) (Own (encoded accentedReply))
      (start .doNothing) twoAnswers := by
  have spans : (Transition.run (step false (encoded accentedReply)) (start .doNothing)
      twoAnswers).map Provenance.spans = some [(0, 2), (2, 6)] := by decide +kernel
  obtain ⟨p, ran, spans⟩ := Option.map_eq_some_iff.mp spans
  intro holds
  have own := holds.final ran 1 2 6 (by rw [spans]; rfl)
  exact absurd own.1 (by decide)

end Provenance

end Da4qi4.Redis
