import Da4qi4.Http.ConnectionReading
import Mathlib.Data.List.Forall2

/-! Requests that are sent back to back. The reads take the callbacks of all messages
piece by piece; what one read takes may end anywhere. A flag says that a message was
read to its end, and the next message takes it back. -/
namespace Da4qi4
open Utilities

namespace Message

/-- The connection has no answer of its own, and the request is not an upgrade. -/
def Acceptable (env : Environment) (m : Message) : Prop :=
  (m.alone env).isSome ∧ m.fields.upgrade = false

/-- A context was started with this message, as a new connection would do. -/
structure Carries (env : Environment) (m : Message) (d : Dispatch) : Prop where
  target : d.request.url.full = m.target.flatten
  headers : m.trailers = [] → HeadersKept m.pairs → d.request.headers = headerMap m.pairs
  body : d.request.isMultiPart = false → d.request.body = m.body.flatten
  alone : ∃ r, m.alone env = some r ∧ d.request = r.request ∧ r.app = some d.app

theorem carries_alone {m : Message} {r : Reading} (read : m.alone env = some r)
    (routed : r.app = some app) (block : Option HeaderBlock) :
    m.Carries env ⟨r.request, app, block⟩ := by
  have becomes := alone_becomes read
  constructor
  · exact becomes.target
  · intro trailerless kept
    apply (becomes.headers trailerless).trans
    exact (OrderedMap.assignAll_eq_iff _ _).mpr kept
  · exact becomes.body
  · exact ⟨r, read, rfl, routed⟩

theorem messageComplete_not_mem_opening (m : Message) : .messageComplete ∉ m.opening := by
  have header (h : HeaderPieces) : .messageComplete ∉ h.callbacks := by
    intro member
    rcases List.mem_append.mp member with field | value
    · obtain ⟨data, -, same⟩ := List.mem_map.mp field
      cases same
    · obtain ⟨data, -, same⟩ := List.mem_map.mp value
      cases same
  have headers (l : List HeaderPieces) : .messageComplete ∉ l.flatMap HeaderPieces.callbacks := by
    intro member
    obtain ⟨h, -, inside⟩ := List.mem_flatMap.mp member
    exact header h inside
  intro member
  simp only [opening, headerBlock, List.mem_append, List.mem_cons, List.mem_map, List.not_mem_nil,
    reduceCtorEq, and_false, exists_false, false_or, or_false] at member
  rcases member with block | trailers
  · exact headers m.headers block
  · exact headers m.trailers trailers

theorem count_callbacks (m : Message) : m.callbacks.count .messageComplete = 1 := by
  have none : m.opening.count .messageComplete = 0 :=
    List.count_eq_zero.mpr m.messageComplete_not_mem_opening
  rw [callbacks, List.count_append, none]
  rfl

theorem count_all (messages : List Message) :
    (messages.flatMap callbacks).count .messageComplete = messages.length := by
  induction messages with
  | nil => rfl
  | cons m messages ih =>
    rw [List.flatMap_cons, List.count_append, count_callbacks, ih, List.length_cons, Nat.add_comm]

end Message

/-- A piece that has an element at most as its last one ends before the element, or
with it. -/
theorem take_cases {rest tail : List α} (unmarked : x ∉ ((rest ++ x :: tail).take count).dropLast) :
    count ≤ rest.length ∨
      ((rest ++ x :: tail).take count = rest ++ [x] ∧ (rest ++ x :: tail).drop count = tail) := by
  rcases Nat.lt_or_ge rest.length count with beyond | within
  · obtain ⟨more, rfl⟩ := Nat.exists_eq_add_of_lt beyond
    have taken :
        (rest ++ x :: tail).take (rest.length + more + 1) = rest ++ x :: tail.take more := by
      rw [Nat.add_assoc, List.take_length_add_append, List.take_succ_cons]
    have dropped : (rest ++ x :: tail).drop (rest.length + more + 1) = tail.drop more := by
      rw [Nat.add_assoc, List.drop_length_add_append, List.drop_succ_cons]
    cases back : tail.take more with
    | nil =>
      have whole := List.take_append_drop more tail
      rw [back, List.nil_append] at whole
      rw [taken, back, dropped]
      exact .inr ⟨rfl, whole⟩
    | cons y back' =>
      rw [taken, back, List.dropLast_append_of_ne_nil (List.cons_ne_nil _ _),
        List.dropLast_cons_of_ne_nil (List.cons_ne_nil _ _)] at unmarked
      exact absurd (List.mem_append_right _ List.mem_cons_self) unmarked
  · exact .inl within

/-- A piece that has an element before its end goes on behind it. -/
theorem take_beyond {rest tail : List α} (absent : x ∉ rest)
    (marked : x ∈ ((rest ++ x :: tail).take count).dropLast) : ∃ y back,
      (rest ++ x :: tail).take count = rest ++ x :: y :: back ∧ y :: back <+: tail := by
  rcases Nat.lt_or_ge rest.length count with beyond | within
  · obtain ⟨more, rfl⟩ := Nat.exists_eq_add_of_lt beyond
    have taken :
        (rest ++ x :: tail).take (rest.length + more + 1) = rest ++ x :: tail.take more := by
      rw [Nat.add_assoc, List.take_length_add_append, List.take_succ_cons]
    cases back : tail.take more with
    | nil =>
      rw [taken, back, List.dropLast_concat] at marked
      exact absurd marked absent
    | cons y others =>
      refine ⟨y, others, by rw [taken, back], ?_⟩
      rw [← back]
      exact List.take_prefix more tail
  · rw [List.take_append_of_le_length within] at marked
    exact absurd (List.mem_of_mem_take (List.dropLast_subset _ marked)) absent

namespace Connection

theorem execute_of_quiet {c : Connection} {r : Reading} (clean : c.parserErrno = .ok)
    (read : c.toReading.quietAll env made = some r) : ∃ block,
      c.execute env .ok made =
        some { c with
          toReading := r
          response := made.foldl Response.takeVersion c.response
          block := block } := by
  obtain ⟨block, executed⟩ := callbacks_of_quiet .ok read []
  refine ⟨block, ?_⟩
  rw [List.append_nil] at executed
  rw [execute, if_pos clean, executed, callbacks, ← clean]

theorem readComplete_callback {c : Connection} {answer : Connection × Returned}
    (incomplete : c.readComplete ≠ .readMessageComplete) (unended : made ≠ .messageComplete)
    (answered : c.callback env made = some answer) :
    answer.1.readComplete ≠ .readMessageComplete := by
  cases made with
  | headersComplete p =>
    have parsed : (c.headerParsed env p).readComplete ≠ .readMessageComplete := nofun
    rcases onHeadersComplete_cases answered with ⟨app, url, routed⟩ | ⟨-, app, written⟩
    · have same := congrArg (fun f => f.readComplete) (progress_onRouted routed)
      change answer.1.readComplete = _ at same
      rw [same]
      exact parsed
    · have same := congrArg (fun f => f.readComplete) (progress_reply written)
      change answer.1.readComplete = _ at same
      rw [same]
      exact parsed
  | body data =>
    have same := congrArg (fun f => f.readComplete) (progress_onBody answered)
    change answer.1.readComplete = _ at same
    rw [same]
    exact incomplete
  | headerField data =>
    cases answered
    change (c.toReading.onHeaderField data).readComplete ≠ _
    rw [Reading.readComplete_onHeaderField]
    exact incomplete
  | messageBegin =>
    cases answered
    exact nofun
  | url data =>
    cases answered
    exact incomplete
  | headerValue data =>
    cases answered
    exact incomplete
  | messageComplete => exact absurd rfl unended

/-- Only the end of a message completes it. -/
theorem readComplete_callbacks {c d : Connection}
    (incomplete : c.readComplete ≠ .readMessageComplete)
    (unended : .messageComplete ∉ made) (executed : c.callbacks env errno made = some d) :
    d.readComplete ≠ .readMessageComplete := by
  induction made generalizing c with
  | nil =>
    cases executed
    exact incomplete
  | cons callback made ih =>
    obtain ⟨answer, answered, rest⟩ := Option.bind_eq_some_iff.mp executed
    rw [List.mem_cons, not_or] at unended
    have first := readComplete_callback incomplete (Ne.symm unended.1) answered
    split at rest
    · exact ih first unended.2 rest
    · cases rest
      exact first

theorem readComplete_of_quiet {r t : Reading} (incomplete : r.readComplete ≠ .readMessageComplete)
    (unended : .messageComplete ∉ made) (read : r.quietAll env made = some t) :
    t.readComplete ≠ .readMessageComplete := by
  obtain ⟨block, executed⟩ := callbacks_of_quiet .ok (c := { toReading := r }) read []
  rw [List.append_nil, callbacks] at executed
  exact readComplete_callbacks (c := { toReading := r }) incomplete unended executed

/-- A message that has begun takes the end of the one before it back. -/
theorem readComplete_of_begun {c d : Connection} (unended : .messageComplete ∉ back)
    (executed : c.callbacks env errno (front ++ .messageBegin :: back) = some d) :
    d.parserErrno = .error ∨ d.readComplete ≠ .readMessageComplete := by
  induction front generalizing c with
  | nil =>
    have begun : ({ c with toReading := c.toReading.onMessageBegin } : Connection).readComplete ≠
        .readMessageComplete := nofun
    exact .inr (readComplete_callbacks begun unended executed)
  | cons callback front ih =>
    obtain ⟨answer, answered, rest⟩ := Option.bind_eq_some_iff.mp executed
    split at rest
    · exact ih rest
    · cases rest
      exact .inl rfl

/-- A read that ends inside a message is followed by another. -/
theorem read_of_incomplete {c : Connection} {r : Reading} (reads : c.reads = 1)
    (clean : c.parserErrno = .ok) (socket : c.socket = true)
    (read : c.toReading.quietAll env made = some r)
    (incomplete : r.readComplete ≠ .readMessageComplete) : ∃ block,
      c.step env (.read .ok made) =
        some { c with
          toReading := r
          response := made.foldl Response.takeVersion c.response
          block := block
          reads := 1 } := by
  obtain ⟨block, executed⟩ :=
    execute_of_quiet (c := { c with reads := c.reads - 1 }) clean read
  have sound : ¬c.parserErrno = .error := by
    rw [clean]
    exact nofun
  have reading : ¬c.reads = 0 := by
    rw [reads]
    exact Nat.one_ne_zero
  refine ⟨block, ?_⟩
  rw [step, if_neg reading, onRead, executed, Option.bind_some, if_neg sound, if_pos incomplete,
    doRead, asyncReadSome, if_pos socket, reads]

/-- A read that ends with a message starts a context. -/
theorem read_of_complete {c : Connection} {r : Reading} (reads : c.reads = 1)
    (clean : c.parserErrno = .ok) (read : c.toReading.quietAll env made = some r)
    (complete : r.readComplete = .readMessageComplete) (routed : r.app = some app)
    (plain : r.parserFields.upgrade = false) : ∃ block,
      c.step env (.read .ok made) = some ({ c with
        toReading := r.freeMultipartParser
        response := made.foldl Response.takeVersion c.response
        block := block
        reads := 0 }.startContext app) := by
  obtain ⟨block, executed⟩ :=
    execute_of_quiet (c := { c with reads := c.reads - 1 }) clean read
  have sound : ¬c.parserErrno = .error := by
    rw [clean]
    exact nofun
  have reading : ¬c.reads = 0 := by
    rw [reads]
    exact Nat.one_ne_zero
  have found : ¬(¬env.ndebug = true ∧ r.freeMultipartParser.app = none) := by
    rintro ⟨-, lost⟩
    exact nomatch routed.symm.trans lost
  have kept : ¬r.freeMultipartParser.parserFields.upgrade = true := Bool.eq_false_iff.mp plain
  have app : r.freeMultipartParser.app = some app := routed
  refine ⟨block, ?_⟩
  rw [step, if_neg reading, onRead, executed, Option.bind_some, if_neg sound,
    if_neg (not_not_intro complete), onMessageRead, if_neg found, if_neg kept, app, reads]
  rfl

/-- The next chunked body is written, or waited for. -/
def Continues (c : Connection) (startWaitClock now : Int) : Prop :=
  c.response.popChunkedBody.1.2 = false ∧
    ¬(c.response.popChunkedBody.1.1 = [] ∧
      0 < startWaitClock ∧ 5 < (now - startWaitClock).tdiv clocksPerSec)

theorem doWriteNextChunkedBody_cases {c d : Connection}
    (popped : c.doWriteNextChunkedBody startWaitClock now = some d) : ∃ buffer response,
      (¬c.Continues startWaitClock now ∧
          d = { c with currentChunkedBodyBuffer := buffer, response := response }) ∨
        (c.Continues startWaitClock now ∧
          ((∃ clock, d = { c with
              currentChunkedBodyBuffer := buffer
              response := response
              posts := c.posts ++ [clock] }) ∨
            d = { c with
              currentChunkedBodyBuffer := buffer
              response := response
              writes := c.writes ++ [.chunkedBody buffer] })) := by
  refine ⟨c.response.popChunkedBody.1.1, c.response.popChunkedBody.2, ?_⟩
  rw [Continues]
  simp only [doWriteNextChunkedBody] at popped
  split at popped
  · rename_i last
    cases popped
    refine .inl ⟨fun both => ?_, rfl⟩
    rw [last] at both
    cases both.1
  · rename_i going
    have more := Bool.eq_false_iff.mpr going
    split at popped
    · rename_i none
      split at popped
      · rename_i late
        cases popped
        exact .inl ⟨fun both => both.2 ⟨none, late⟩, rfl⟩
      · rename_i early
        cases popped
        exact .inr ⟨⟨more, fun both => early both.2⟩, .inl ⟨_, rfl⟩⟩
    · rename_i some_
      rw [asyncWrite] at popped
      split at popped
      · cases popped
        exact .inr ⟨⟨more, fun both => some_ both.1⟩, .inr rfl⟩
      · cases popped

end Connection

/-- A connection, the callbacks of what it has read, and those of what is still to be
read. -/
structure Session where
  connection : Connection
  delivered : List ParserCallback := []
  pending : List ParserCallback

namespace Session

/-- A read takes any number of callbacks. Reads and writes do not fail. -/
inductive Event where
  | read (count : Nat)
  | wrote (index : Nat) (now : Int)
  | posted (index : Nat) (now : Int)
  | respond (response : Response)
  | pushChunkedBody (body : Bytes) (isLast : Bool)

def step (env : Environment) (s : Session) : Event → Option Session
  | .read count =>
    (s.connection.step env (.read .ok (s.pending.take count))).map fun c =>
      { connection := c
        delivered := s.delivered ++ s.pending.take count
        pending := s.pending.drop count }
  | .wrote index now =>
    (s.connection.step env (.wrote index now)).map fun c => { s with connection := c }
  | .posted index now =>
    (s.connection.step env (.posted index now)).map fun c => { s with connection := c }
  | .respond response =>
    (s.connection.step env (.respond response)).map fun c => { s with connection := c }
  | .pushChunkedBody body isLast =>
    (s.connection.step env (.pushChunkedBody body isLast)).map fun c => { s with connection := c }

/-- All messages have been sent. -/
def start (messages : List Message) : Session :=
  { connection := .started, pending := messages.flatMap Message.callbacks }

def Outstanding (s : Session) : Prop :=
  s.connection.reads + s.connection.contexts + s.connection.writes.length +
    s.connection.posts.length ≠ 0

/-- No message ends in a read but at its end. -/
def Cut (s : Session) (count : Nat) : Prop := .messageComplete ∉ (s.pending.take count).dropLast

instance (s : Session) (count : Nat) : Decidable (s.Cut count) := inferInstanceAs (Decidable (¬_))

/-- One context for each message that was read to its end, in order and with what was
sent in it; the connection is at work until all is read; and reading does not fail. -/
structure Served (env : Environment) (messages : List Message) (s : Session) : Prop where
  dispatched : List.Forall₂ (Message.Carries env)
    (messages.take (s.delivered.count .messageComplete)) s.connection.dispatched
  going : s.pending ≠ [] → s.Outstanding
  readable : s.connection.reads ≠ 0 → ∀ count, s.Cut count → (s.step env (.read count)).isSome

/-- Both sides keep the connection, and a chunked response does not end. -/
def GoesOn (c : Connection) (now : Int) : WriteOperation → Prop
  | .response _ => c.keepsAlive = true
  | .chunkedHeader _ => c.Continues 0 now
  | .chunkedBody _ => c.Continues 0 now

/-- Every read ends where a message ends, or before, and what is written does not end
the connection while messages are to be read. -/
def Smooth (s : Session) : Event → Session → Prop
  | .read count, _ => s.Cut count
  | .wrote index now, _ => s.pending ≠ [] →
      ∀ operation, s.connection.writes[index]? = some operation → GoesOn s.connection now operation
  | .posted index now, _ => s.pending ≠ [] →
      ∀ clock, s.connection.posts[index]? = some clock → s.connection.Continues clock now
  | .respond _, _ => True
  | .pushChunkedBody _ _, _ => True

/-- What is outstanding. -/
inductive Stage where
  | reading
  | handling
  | writing (operation : WriteOperation)
  | polling (clock : Int)
  | ended

namespace Stage

def reads : Stage → Nat
  | .reading => 1
  | _ => 0

def contexts : Stage → Nat
  | .handling => 1
  | _ => 0

def writes : Stage → List WriteOperation
  | .writing operation => [operation]
  | _ => []

def posts : Stage → List Int
  | .polling clock => [clock]
  | _ => []

end Stage

/-- The first message that is not done is read up to somewhere before its end. -/
def Inside (env : Environment) (upcoming : List Message) (made : List ParserCallback)
    (s : Session) : Prop :=
  (∃ full path fields, (Reading.fresh full path fields).quietAll env made =
    some s.connection.toReading) ∧
  ((∃ m later rest, upcoming = m :: later ∧ m.opening = made ++ rest ∧
      s.pending = rest ++ .messageComplete :: later.flatMap Message.callbacks) ∨
    (upcoming = [] ∧ made = [] ∧ s.pending = []))

/-- Nothing of the messages that are not done has been read. -/
def Between (upcoming : List Message) (s : Session) : Prop :=
  s.pending = upcoming.flatMap Message.callbacks ∧ s.connection.mpParser = none

def Position (env : Environment) (upcoming : List Message) (made : List ParserCallback)
    (s : Session) : Stage → Prop
  | .reading => Inside env upcoming made s
  | _ => made = [] ∧ Between upcoming s

/-- The messages done have their contexts, and the connection is at one stage. -/
structure Pipelined (env : Environment) (stage : Stage) (done upcoming : List Message)
    (s : Session) : Prop where
  reads : s.connection.reads = stage.reads
  contexts : s.connection.contexts = stage.contexts
  writes : s.connection.writes = stage.writes
  posts : s.connection.posts = stage.posts
  clean : s.connection.parserErrno = .ok
  socket : s.connection.socket = true
  dispatched : List.Forall₂ (Message.Carries env) done s.connection.dispatched
  position : ∃ made, s.delivered = done.flatMap Message.callbacks ++ made ∧
    .messageComplete ∉ made ∧ Position env upcoming made s stage
  going : stage = .ended → s.pending = []

def Invariant (env : Environment) (messages : List Message) (s : Session) : Prop :=
  ∃ stage done upcoming, messages = done ++ upcoming ∧ Pipelined env stage done upcoming s

theorem inside_start (env : Environment) (messages : List Message) :
    Inside env messages [] (start messages) := by
  refine ⟨⟨[], [], {}, rfl⟩, ?_⟩
  cases messages with
  | nil => exact .inr ⟨rfl, rfl, rfl⟩
  | cons m later =>
    refine .inl ⟨m, later, m.opening, rfl, rfl, ?_⟩
    change m.callbacks ++ later.flatMap Message.callbacks = _
    rw [Message.callbacks, List.append_assoc]
    rfl

theorem invariant_start (env : Environment) (messages : List Message) :
    Invariant env messages (start messages) := by
  refine ⟨.reading, [], messages, rfl, ?_⟩
  constructor
  · rfl
  · rfl
  · rfl
  · rfl
  · rfl
  · rfl
  · exact .nil
  · exact ⟨[], rfl, List.not_mem_nil, inside_start env messages⟩
  · exact Stage.noConfusion

theorem Pipelined.stage_reading (pipelined : Pipelined env stage done upcoming s)
    (reading : s.connection.reads ≠ 0) : stage = .reading := by
  rw [pipelined.reads] at reading
  cases stage with
  | reading => rfl
  | handling => exact absurd rfl reading
  | writing operation => exact absurd rfl reading
  | polling clock => exact absurd rfl reading
  | ended => exact absurd rfl reading

theorem Pipelined.stage_handling (pipelined : Pipelined env stage done upcoming s)
    (running : s.connection.contexts ≠ 0) : stage = .handling := by
  rw [pipelined.contexts] at running
  cases stage with
  | handling => rfl
  | reading => exact absurd rfl running
  | writing operation => exact absurd rfl running
  | polling clock => exact absurd rfl running
  | ended => exact absurd rfl running

theorem Pipelined.stage_writing (pipelined : Pipelined env stage done upcoming s)
    (outstanding : s.connection.writes[index]? = some operation) :
    index = 0 ∧ stage = .writing operation := by
  rw [pipelined.writes] at outstanding
  cases stage with
  | writing current =>
    cases index with
    | succ index => cases outstanding
    | zero => exact ⟨rfl, congrArg Stage.writing (Option.some.inj outstanding)⟩
  | reading => cases outstanding
  | handling => cases outstanding
  | polling clock => cases outstanding
  | ended => cases outstanding

theorem Pipelined.stage_polling (pipelined : Pipelined env stage done upcoming s)
    (outstanding : s.connection.posts[index]? = some clock) :
    index = 0 ∧ stage = .polling clock := by
  rw [pipelined.posts] at outstanding
  cases stage with
  | polling current =>
    cases index with
    | succ index => cases outstanding
    | zero => exact ⟨rfl, congrArg Stage.polling (Option.some.inj outstanding)⟩
  | reading => cases outstanding
  | handling => cases outstanding
  | writing operation => cases outstanding
  | ended => cases outstanding

theorem step_read {s : Session} {c : Connection}
    (stepped : s.connection.step env (.read .ok (s.pending.take count)) = some c) :
    s.step env (.read count) = some
      { connection := c
        delivered := s.delivered ++ s.pending.take count
        pending := s.pending.drop count } := by
  rw [step, stepped]
  rfl

/-- A piece that ends no message is read, and the connection reads on. -/
theorem read_unended (pipelined : Pipelined env .reading done upcoming s)
    (delivered : s.delivered = done.flatMap Message.callbacks ++ made)
    (read : (Reading.fresh full path fields).quietAll env made = some s.connection.toReading)
    (unended : .messageComplete ∉ made ++ s.pending.take count)
    (goes : (Reading.fresh full path fields).quietAll env (made ++ s.pending.take count) = some r)
    (left : (∃ m later rest, upcoming = m :: later ∧
        m.opening = made ++ s.pending.take count ++ rest ∧
        s.pending.drop count = rest ++ .messageComplete :: later.flatMap Message.callbacks) ∨
      (upcoming = [] ∧ made ++ s.pending.take count = [] ∧ s.pending.drop count = [])) :
    ∃ t, s.step env (.read count) = some t ∧ Pipelined env .reading done upcoming t := by
  have fresh : (Reading.fresh full path fields).readComplete ≠ .readMessageComplete := nofun
  have incomplete := Connection.readComplete_of_quiet fresh unended goes
  have piece := goes
  rw [Reading.quietAll_append, read, Option.bind_some] at piece
  obtain ⟨block, stepped⟩ :=
    Connection.read_of_incomplete pipelined.reads pipelined.clean pipelined.socket piece incomplete
  refine ⟨_, step_read stepped, rfl, pipelined.contexts, pipelined.writes, pipelined.posts,
    pipelined.clean, pipelined.socket, pipelined.dispatched, ?_, Stage.noConfusion⟩
  refine ⟨made ++ s.pending.take count, ?_, unended, ⟨full, path, fields, goes⟩, left⟩
  rw [delivered, List.append_assoc]

/-- A piece that ends the next message hands it over. -/
theorem read_ended (acceptable : Message.Acceptable env m)
    (pipelined : Pipelined env .reading done (m :: later) s)
    (delivered : s.delivered = done.flatMap Message.callbacks ++ made)
    (read : (Reading.fresh full path fields).quietAll env made = some s.connection.toReading)
    (opening : m.opening = made ++ rest)
    (taken : s.pending.take count = rest ++ [.messageComplete])
    (dropped : s.pending.drop count = later.flatMap Message.callbacks) :
    ∃ t, s.step env (.read count) = some t ∧ Pipelined env .handling (done ++ [m]) later t := by
  obtain ⟨alone, plain⟩ := acceptable
  obtain ⟨whole, alone⟩ := Option.isSome_iff_exists.mp alone
  have all := m.quietAll_fresh env full path fields
  rw [alone, Message.callbacks, opening, List.append_assoc, Reading.quietAll_append, read,
    Option.bind_some, ← taken] at all
  have becomes := Message.alone_becomes alone
  obtain ⟨app, routed⟩ := Option.isSome_iff_exists.mp becomes.routed
  have kept : whole.parserFields.upgrade = false := by
    rw [becomes.fields]
    exact plain
  obtain ⟨block, stepped⟩ :=
    Connection.read_of_complete pipelined.reads pipelined.clean all becomes.complete routed kept
  refine ⟨_, step_read stepped, rfl, ?_, pipelined.writes, pipelined.posts, pipelined.clean,
    pipelined.socket, ?_, ?_, Stage.noConfusion⟩
  · exact congrArg (· + 1) pipelined.contexts
  · exact List.rel_append pipelined.dispatched (.cons (Message.carries_alone alone routed block) .nil)
  · refine ⟨[], ?_, List.not_mem_nil, rfl, dropped, rfl⟩
    rw [delivered, taken, List.flatMap_append, List.append_nil, List.append_assoc,
      List.flatMap_cons, List.flatMap_nil, List.append_nil, Message.callbacks, opening,
      List.append_assoc]

theorem read_pipelined (acceptable : ∀ m ∈ upcoming, Message.Acceptable env m)
    (pipelined : Pipelined env .reading done upcoming s) (cut : s.Cut count) :
    ∃ t stage more rest, s.step env (.read count) = some t ∧ upcoming = more ++ rest ∧
      Pipelined env stage (done ++ more) rest t := by
  obtain ⟨made, delivered, unended, ⟨full, path, fields, read⟩, inside⟩ := pipelined.position
  rcases inside with ⟨m, later, rest, rfl, opening, pending⟩ | ⟨rfl, nothing, pending⟩
  · have this := acceptable m List.mem_cons_self
    rw [Cut, pending] at cut
    rcases take_cases cut with within | ⟨taken, dropped⟩
    · have taken : s.pending.take count = rest.take count := by
        rw [pending, List.take_append_of_le_length within]
      have dropped : s.pending.drop count =
          rest.drop count ++ .messageComplete :: later.flatMap Message.callbacks := by
        rw [pending, List.drop_append_of_le_length within]
      have split : m.opening = made ++ s.pending.take count ++ rest.drop count := by
        rw [opening, taken, List.append_assoc, List.take_append_drop]
      have unended : .messageComplete ∉ made ++ s.pending.take count := by
        intro member
        apply m.messageComplete_not_mem_opening
        rw [split]
        exact List.mem_append_left _ member
      obtain ⟨whole, alone⟩ := Option.isSome_iff_exists.mp this.1
      have all := m.quietAll_fresh env full path fields
      rw [alone, Message.callbacks, split, List.append_assoc, Reading.quietAll_append] at all
      obtain ⟨r, goes, -⟩ := Option.bind_eq_some_iff.mp all
      obtain ⟨t, stepped, after⟩ := read_unended pipelined delivered read unended goes
        (.inl ⟨m, later, rest.drop count, rfl, split, dropped⟩)
      refine ⟨t, .reading, [], m :: later, stepped, rfl, ?_⟩
      rw [List.append_nil]
      exact after
    · rw [← pending] at taken dropped
      obtain ⟨t, stepped, after⟩ :=
        read_ended this pipelined delivered read opening taken dropped
      exact ⟨t, .handling, [m], later, stepped, rfl, after⟩
  · have taken : made ++ s.pending.take count = made := by
      rw [pending, List.take_nil, List.append_nil]
    have dropped : s.pending.drop count = [] := by
      rw [pending, List.drop_nil]
    have goes := read
    rw [← taken] at unended goes
    obtain ⟨t, stepped, after⟩ := read_unended pipelined delivered read unended goes
      (.inr ⟨rfl, taken.trans nothing, dropped⟩)
    refine ⟨t, .reading, [], [], stepped, rfl, ?_⟩
    rw [List.append_nil]
    exact after

/-- Nothing is outstanding, and the next message has not been touched. -/
structure Resting (env : Environment) (done upcoming : List Message) (s : Session) : Prop where
  reads : s.connection.reads = 0
  contexts : s.connection.contexts = 0
  writes : s.connection.writes = []
  posts : s.connection.posts = []
  clean : s.connection.parserErrno = .ok
  socket : s.connection.socket = true
  dispatched : List.Forall₂ (Message.Carries env) done s.connection.dispatched
  delivered : s.delivered = done.flatMap Message.callbacks
  between : Between upcoming s

theorem Resting.position (resting : Resting env done upcoming s) : ∃ made,
    s.delivered = done.flatMap Message.callbacks ++ made ∧ .messageComplete ∉ made ∧
      made = [] ∧ Between upcoming s :=
  ⟨[], resting.delivered.trans (List.append_nil _).symm, List.not_mem_nil, rfl, resting.between⟩

theorem resting_of_position {done upcoming : List Message} (position : ∃ made,
    s.delivered = done.flatMap Message.callbacks ++ made ∧ .messageComplete ∉ made ∧
      made = [] ∧ Between upcoming s) :
    s.delivered = done.flatMap Message.callbacks ∧ Between upcoming s := by
  obtain ⟨made, delivered, -, rfl, between⟩ := position
  exact ⟨delivered.trans (List.append_nil _), between⟩

theorem resting_of_writing (pipelined : Pipelined env (.writing operation) done upcoming s) :
    Resting env done upcoming { s with connection := { s.connection with writes := [] } } := by
  obtain ⟨delivered, between⟩ := resting_of_position pipelined.position
  exact ⟨pipelined.reads, pipelined.contexts, rfl, pipelined.posts, pipelined.clean,
    pipelined.socket, pipelined.dispatched, delivered, between⟩

theorem resting_of_polling (pipelined : Pipelined env (.polling clock) done upcoming s) :
    Resting env done upcoming { s with connection := { s.connection with posts := [] } } := by
  obtain ⟨delivered, between⟩ := resting_of_position pipelined.position
  exact ⟨pipelined.reads, pipelined.contexts, pipelined.writes, rfl, pipelined.clean,
    pipelined.socket, pipelined.dispatched, delivered, between⟩

/-- The next chunked body is looked for. -/
theorem Resting.looked {s : Session} {d : Connection} (resting : Resting env done upcoming s)
    (goes : s.pending ≠ [] → s.connection.Continues clock now)
    (popped : s.connection.doWriteNextChunkedBody clock now = some d) :
    ∃ next, Pipelined env next done upcoming { s with connection := d } := by
  have position := resting.position
  obtain ⟨reads, contexts, writes, posts, clean, socket, dispatched, -, -⟩ := resting
  obtain ⟨buffer, response, ⟨stops, rfl⟩ | ⟨-, ⟨clock, rfl⟩ | rfl⟩⟩ :=
    Connection.doWriteNextChunkedBody_cases popped
  · refine ⟨.ended, reads, contexts, writes, posts, clean, socket, dispatched, position,
      fun _ => ?_⟩
    exact not_not.mp fun some_ => stops (goes some_)
  · refine ⟨.polling clock, reads, contexts, writes, ?_, clean, socket, dispatched, position,
      Stage.noConfusion⟩
    exact congrArg (· ++ [clock]) posts
  · refine ⟨.writing (.chunkedBody buffer), reads, contexts, ?_, posts, clean, socket, dispatched,
      position, Stage.noConfusion⟩
    exact congrArg (· ++ [.chunkedBody buffer]) writes

theorem reset_fresh {c : Connection} (freed : c.mpParser = none) :
    c.reset.toReading =
      Reading.fresh c.request.url.fullUnderApp c.request.url.pathUnderApp c.parserFields := by
  have parser : c.reset.mpParser = none := freed
  rw [Reading.fresh, Reading.withLeftover, ← parser]
  rfl

/-- The connection is reset, and reads on. -/
theorem Resting.reads_on {s : Session} {d : Connection} (resting : Resting env done upcoming s)
    (started : s.connection.reset.doRead = some d) :
    Pipelined env .reading done upcoming { s with connection := d } := by
  obtain ⟨reads, contexts, writes, posts, clean, socket, dispatched, delivered, pending, freed⟩ :=
    resting
  rw [Connection.doRead, Connection.asyncReadSome] at started
  split at started
  · cases started
    refine ⟨congrArg (· + 1) reads, contexts, writes, posts, clean, socket, dispatched, ?_,
      Stage.noConfusion⟩
    refine ⟨[], delivered.trans (List.append_nil _).symm, List.not_mem_nil, ?_, ?_⟩
    · have fresh := congrArg some (reset_fresh freed)
      exact ⟨_, _, _, fresh.symm⟩
    · rcases (inside_start env upcoming).2 with
        ⟨m, later, rest, same, opening, whole⟩ | ⟨last, made, whole⟩
      · exact .inl ⟨m, later, rest, same, opening, pending.trans whole⟩
      · exact .inr ⟨last, made, pending.trans whole⟩
  · cases started

theorem wrote_pipelined {env : Environment} (pipelined : Pipelined env stage done upcoming s)
    (goes : s.pending ≠ [] →
      ∀ operation, s.connection.writes[index]? = some operation → GoesOn s.connection now operation)
    (stepped : s.step env (.wrote index now) = some t) :
    ∃ next, Pipelined env next done upcoming t := by
  obtain ⟨d, wrote, rfl⟩ := Option.map_eq_some_iff.mp stepped
  obtain ⟨operation, outstanding, handled⟩ := Option.bind_eq_some_iff.mp wrote
  obtain ⟨rfl, rfl⟩ := pipelined.stage_writing outstanding
  have resting := resting_of_writing pipelined
  have goes := fun some_ => goes some_ operation outstanding
  have erased : s.connection.writes.eraseIdx 0 = [] := by
    rw [pipelined.writes]
    rfl
  rw [erased] at handled
  cases operation with
  | response written =>
    rw [Connection.onWrote] at handled
    split at handled
    · exact ⟨.reading, resting.reads_on handled⟩
    · rename_i closes
      cases handled
      refine ⟨.ended, pipelined.reads, pipelined.contexts, rfl, pipelined.posts, pipelined.clean,
        pipelined.socket, pipelined.dispatched, resting.position, fun _ => ?_⟩
      exact not_not.mp fun some_ => closes (goes some_)
  | chunkedHeader written => exact resting.looked goes handled
  | chunkedBody data => exact resting.looked goes handled

theorem posted_pipelined {env : Environment} (pipelined : Pipelined env stage done upcoming s)
    (goes : s.pending ≠ [] →
      ∀ clock, s.connection.posts[index]? = some clock → s.connection.Continues clock now)
    (stepped : s.step env (.posted index now) = some t) :
    ∃ next, Pipelined env next done upcoming t := by
  obtain ⟨d, posted, rfl⟩ := Option.map_eq_some_iff.mp stepped
  obtain ⟨clock, outstanding, handled⟩ := Option.bind_eq_some_iff.mp posted
  obtain ⟨rfl, rfl⟩ := pipelined.stage_polling outstanding
  have erased : s.connection.posts.eraseIdx 0 = [] := by
    rw [pipelined.posts]
    rfl
  rw [erased] at handled
  exact (resting_of_polling pipelined).looked (fun some_ => goes some_ clock outstanding) handled

theorem respond_pipelined {env : Environment} (pipelined : Pipelined env stage done upcoming s)
    (stepped : s.step env (.respond response) = some t) :
    ∃ next, Pipelined env next done upcoming t := by
  obtain ⟨d, responded, rfl⟩ := Option.map_eq_some_iff.mp stepped
  rw [Connection.step] at responded
  split at responded
  · cases responded
  · rename_i running
    obtain rfl := pipelined.stage_handling running
    obtain ⟨-, written, operation, rfl⟩ := Connection.startWrite_cases responded
    refine ⟨.writing operation, pipelined.reads, ?_, ?_, pipelined.posts, pipelined.clean,
      pipelined.socket, pipelined.dispatched, pipelined.position, Stage.noConfusion⟩
    · exact congrArg (· - 1) pipelined.contexts
    · exact congrArg (· ++ [operation]) pipelined.writes

theorem invariant_step {env : Environment} (acceptable : ∀ m ∈ messages, m.Acceptable env)
    (holds : Invariant env messages s) (stepped : s.step env e = some t) (smooth : Smooth s e t) :
    Invariant env messages t := by
  obtain ⟨stage, done, upcoming, whole, pipelined⟩ := holds
  cases e with
  | read count =>
    have reading : s.connection.reads ≠ 0 := by
      obtain ⟨d, read, -⟩ := Option.map_eq_some_iff.mp stepped
      rw [Connection.step] at read
      split at read
      · cases read
      · assumption
    obtain rfl := pipelined.stage_reading reading
    have others : ∀ m ∈ upcoming, m.Acceptable env := by
      intro m member
      apply acceptable m
      rw [whole]
      exact List.mem_append_right done member
    obtain ⟨u, next, more, rest, taken, rfl, further⟩ := read_pipelined others pipelined smooth
    rw [stepped] at taken
    cases taken
    exact ⟨next, done ++ more, rest, whole.trans (List.append_assoc done more rest).symm, further⟩
  | wrote index now =>
    obtain ⟨next, further⟩ := wrote_pipelined pipelined smooth stepped
    exact ⟨next, done, upcoming, whole, further⟩
  | posted index now =>
    obtain ⟨next, further⟩ := posted_pipelined pipelined smooth stepped
    exact ⟨next, done, upcoming, whole, further⟩
  | respond response =>
    obtain ⟨next, further⟩ := respond_pipelined pipelined stepped
    exact ⟨next, done, upcoming, whole, further⟩
  | pushChunkedBody body isLast =>
    cases stepped
    exact ⟨stage, done, upcoming, whole, pipelined.reads, pipelined.contexts, pipelined.writes,
      pipelined.posts, pipelined.clean, pipelined.socket, pipelined.dispatched,
      pipelined.position, pipelined.going⟩

theorem count_delivered (pipelined : Pipelined env stage done upcoming s) :
    s.delivered.count .messageComplete = done.length := by
  obtain ⟨made, delivered, unended, -⟩ := pipelined.position
  have none : made.count .messageComplete = 0 := List.count_eq_zero.mpr unended
  rw [delivered, List.count_append, Message.count_all, none, Nat.add_zero]

theorem outstanding_of_pipelined (pipelined : Pipelined env stage done upcoming s)
    (going : stage ≠ .ended) : s.Outstanding := by
  rw [Outstanding, pipelined.reads, pipelined.contexts, pipelined.writes, pipelined.posts]
  cases stage with
  | reading => exact nofun
  | handling => exact nofun
  | writing operation => exact nofun
  | polling clock => exact nofun
  | ended => exact absurd rfl going

theorem served_of_invariant {env : Environment} (acceptable : ∀ m ∈ messages, m.Acceptable env)
    (holds : Invariant env messages s) : Served env messages s := by
  obtain ⟨stage, done, upcoming, rfl, pipelined⟩ := holds
  constructor
  · rw [count_delivered pipelined, List.take_left]
    exact pipelined.dispatched
  · intro some_
    exact outstanding_of_pipelined pipelined fun ending => some_ (pipelined.going ending)
  · intro reading count cut
    obtain rfl := pipelined.stage_reading reading
    have others := fun m member => acceptable m (List.mem_append_right done member)
    obtain ⟨t, next, more, rest, taken, -⟩ := read_pipelined others pipelined cut
    rw [taken]
    rfl

/-- How many contexts there have to be when a read goes on behind the end of a message. -/
theorem length_dispatched {done later : List Message} {t : Session}
    (served : Served env (done ++ m :: later) t)
    (counted : t.delivered.count .messageComplete =
      done.length + (1 + back.count .messageComplete))
    (behind : back <+: later.flatMap Message.callbacks) :
    t.connection.dispatched.length = done.length + (1 + back.count .messageComplete) := by
  have few : back.count .messageComplete ≤ later.length := by
    rw [← Message.count_all later]
    exact behind.sublist.count_le _
  have same := served.dispatched.length_eq
  rw [counted, List.length_take, List.length_append, List.length_cons] at same
  omega

/-- A read starts a context only if a message was complete at its end. -/
theorem dispatched_read {c d : Connection} (reading : c.reads ≠ 0)
    (read : c.step env (.read .ok made) = some d) :
    d.dispatched.length = c.dispatched.length ∨ (d.dispatched.length = c.dispatched.length + 1 ∧
      ∃ e, { c with reads := c.reads - 1 }.execute env .ok made = some e ∧
        e.parserErrno ≠ .error ∧ e.readComplete = .readMessageComplete) := by
  rw [Connection.step, if_neg reading] at read
  obtain ⟨e, executed, handled⟩ := Option.bind_eq_some_iff.mp read
  have kept : e.dispatched = c.dispatched :=
    congrArg Outside.dispatched (Connection.outside_execute executed)
  split at handled
  · cases handled
    exact .inl (congrArg List.length kept)
  · rename_i sound
    split at handled
    · rw [Connection.doRead, Connection.asyncReadSome] at handled
      split at handled
      · cases handled
        exact .inl (congrArg List.length kept)
      · cases handled
    · rename_i complete
      obtain ⟨-, same | ⟨app, -, added⟩⟩ := Connection.onMessageRead_cases handled
      · rw [same, kept]
        exact .inl rfl
      · rw [added, kept, List.length_append]
        exact .inr ⟨rfl, e, executed, sound, not_not.mp complete⟩

/-- A message whose end is not the end of its read is lost. -/
theorem cut_of_served {env : Environment} (holds : Invariant env messages s)
    (stepped : s.step env (.read count) = some t) (served : Served env messages t) :
    s.Cut count := by
  intro marked
  obtain ⟨stage, done, upcoming, rfl, pipelined⟩ := holds
  obtain ⟨d, read, rfl⟩ := Option.map_eq_some_iff.mp stepped
  have reading : s.connection.reads ≠ 0 := by
    intro idle
    rw [Connection.step, if_pos idle] at read
    cases read
  obtain rfl := pipelined.stage_reading reading
  obtain ⟨made, delivered, unended, -, inside⟩ := pipelined.position
  rcases inside with ⟨m, later, rest, rfl, opening, pending⟩ | ⟨-, -, pending⟩
  · have unmarked := m.messageComplete_not_mem_opening
    rw [opening] at unmarked
    have absent : .messageComplete ∉ rest := fun member => unmarked (List.mem_append_right _ member)
    rw [pending] at marked
    obtain ⟨y, back, taken, behind⟩ := take_beyond absent marked
    rw [← pending] at taken
    have counted : (s.delivered ++ s.pending.take count).count .messageComplete =
        done.length + (1 + (y :: back).count .messageComplete) := by
      have none : rest.count .messageComplete = 0 := List.count_eq_zero.mpr absent
      rw [List.count_append, count_delivered pipelined, taken, List.count_append, none,
        List.count_cons_self, Nat.zero_add, Nat.add_comm 1]
    have needed := length_dispatched served counted behind
    have before := pipelined.dispatched.length_eq
    rcases dispatched_read reading read with same | ⟨more, e, executed, sound, complete⟩
    · change d.dispatched.length = _ at needed
      omega
    · change d.dispatched.length = _ at needed
      have single : (y :: back).count .messageComplete = 0 := by omega
      have first : y = .messageBegin := by
        cases later with
        | nil => exact absurd behind.length_le (Nat.not_succ_le_zero _)
        | cons n later => exact (List.cons_prefix_cons.mp behind).1
      have split : rest ++ .messageComplete :: y :: back =
          (rest ++ [.messageComplete]) ++ .messageBegin :: back := by
        rw [first, List.append_assoc]
        rfl
      have open_ : .messageComplete ∉ back :=
        fun member => List.count_eq_zero.mp single (List.mem_cons_of_mem y member)
      have clean : s.connection.parserErrno = .ok := pipelined.clean
      rw [taken, split, Connection.execute, if_pos clean] at executed
      rcases Connection.readComplete_of_begun open_ executed with refused | incomplete
      · exact sound refused
      · exact incomplete complete
  · rw [pending, List.take_nil] at marked
    cases marked

/-- Without anything outstanding, nothing more is read. -/
theorem Resting.not_outstanding {s : Session} (resting : Resting env done upcoming s) :
    ¬s.Outstanding := by
  rw [Outstanding, resting.reads, resting.contexts, resting.writes, resting.posts]
  intro some_
  exact some_ rfl

theorem continues_of_outstanding {s : Session} {d : Connection}
    (resting : Resting env done upcoming s)
    (popped : s.connection.doWriteNextChunkedBody clock now = some d)
    (outstanding : ({ s with connection := d } : Session).Outstanding) :
    s.connection.Continues clock now := by
  obtain ⟨buffer, response, ⟨-, rfl⟩ | ⟨continues, -⟩⟩ :=
    Connection.doWriteNextChunkedBody_cases popped
  · exact absurd outstanding resting.not_outstanding
  · exact continues

theorem goesOn_of_served {env : Environment} (pipelined : Pipelined env stage done upcoming s)
    (stepped : s.step env (.wrote index now) = some t) (outstanding : t.Outstanding)
    (found : s.connection.writes[index]? = some operation) :
    GoesOn s.connection now operation := by
  obtain ⟨d, wrote, rfl⟩ := Option.map_eq_some_iff.mp stepped
  rw [Connection.step, found, Option.bind_some] at wrote
  rw [pipelined.writes] at found
  cases stage with
  | reading => cases found
  | handling => cases found
  | polling clock => cases found
  | ended => cases found
  | writing current =>
    cases index with
    | succ index => cases found
    | zero =>
      obtain rfl : current = operation := Option.some.inj found
      have resting := resting_of_writing pipelined
      have erased : s.connection.writes.eraseIdx 0 = [] := by
        rw [pipelined.writes]
        rfl
      rw [erased] at wrote
      cases current with
      | response written =>
        rw [Connection.onWrote] at wrote
        split at wrote
        · assumption
        · cases wrote
          exact absurd outstanding resting.not_outstanding
      | chunkedHeader written =>
        have goes := continues_of_outstanding resting wrote outstanding
        exact goes
      | chunkedBody data =>
        have goes := continues_of_outstanding resting wrote outstanding
        exact goes

theorem continues_of_served {env : Environment} (pipelined : Pipelined env stage done upcoming s)
    (stepped : s.step env (.posted index now) = some t) (outstanding : t.Outstanding)
    (found : s.connection.posts[index]? = some clock) : s.connection.Continues clock now := by
  obtain ⟨d, posted, rfl⟩ := Option.map_eq_some_iff.mp stepped
  rw [Connection.step, found, Option.bind_some] at posted
  rw [pipelined.posts] at found
  cases stage with
  | reading => cases found
  | handling => cases found
  | writing operation => cases found
  | ended => cases found
  | polling current =>
    cases index with
    | succ index => cases found
    | zero =>
      obtain rfl : current = clock := Option.some.inj found
      have erased : s.connection.posts.eraseIdx 0 = [] := by
        rw [pipelined.posts]
        rfl
      rw [erased] at posted
      have goes := continues_of_outstanding (resting_of_polling pipelined) posted outstanding
      exact goes

theorem smooth_of_served {env : Environment} (holds : Invariant env messages s)
    (stepped : s.step env e = some t) (served : Served env messages t) : Smooth s e t := by
  obtain ⟨stage, done, upcoming, whole, pipelined⟩ := id holds
  cases e with
  | read count => exact cut_of_served holds stepped served
  | wrote index now =>
    intro some_ operation found
    obtain ⟨d, wrote, same⟩ := Option.map_eq_some_iff.mp stepped
    have outstanding : t.Outstanding := by
      apply served.going
      rw [← same]
      exact some_
    exact goesOn_of_served pipelined stepped outstanding found
  | posted index now =>
    intro some_ clock found
    obtain ⟨d, wrote, same⟩ := Option.map_eq_some_iff.mp stepped
    have outstanding : t.Outstanding := by
      apply served.going
      rw [← same]
      exact some_
    exact continues_of_served pipelined stepped outstanding found
  | respond response => trivial
  | pushChunkedBody body isLast => trivial

/-- In every run: each message that was read starts one context, in order and with its
own parts, and the connection goes on until all is read, exactly if every read ends
where a message ends, or before, and no response ends the connection too early. -/
theorem served_iff_smooth (env : Environment) {messages : List Message}
    (acceptable : ∀ m ∈ messages, m.Acceptable env) (events : List Event) :
    Transition.Throughout (step env) (Served env messages) (start messages) events ↔
      Transition.Steps (step env) Smooth (start messages) events :=
  Transition.throughout_iff_steps (I := Invariant env messages) (invariant_step acceptable)
    smooth_of_served (served_of_invariant acceptable) (invariant_start env messages)

theorem not_served_of_lost (ended : s.delivered.count .messageComplete = n)
    (lost : s.connection.dispatched.length < n) (sent : n ≤ messages.length) :
    ¬Served env messages s := by
  intro served
  have same := served.dispatched.length_eq
  rw [ended, List.length_take] at same
  omega

/-- A request for one target, with one header field. -/
def short (target name value : UInt8) : Message where
  target := [[47, target]]
  headers := [.uncut [name] [value] (List.cons_ne_nil _ _)]
  fields := { method := httpGet, httpMajor := 1, httpMinor := 1 }
  body := []

def twoRequests : List Message := [short 97 65 49, short 98 66 50]

theorem acceptable_twoRequests : ∀ m ∈ twoRequests, m.Acceptable (.single .root) := by
  intro m member
  rcases List.mem_cons.mp member with rfl | second
  · exact ⟨by decide, rfl⟩
  · obtain rfl := List.mem_singleton.mp second
    exact ⟨by decide, rfl⟩

theorem served_iff_smooth_oneRead : Transition.Throughout (step (.single .root))
    (Served (.single .root) twoRequests) (start twoRequests) [.read 6] := by
  have cut : (start twoRequests).Cut 6 := by decide
  exact (served_iff_smooth (.single .root) acceptable_twoRequests [.read 6]).mpr
    fun t _ => ⟨cut, trivial⟩

/-- Both requests in one read are one context, with the second target and the headers
of both. -/
theorem twoRequests_merged : ∃ s, (start twoRequests).step (.single .root) (.read 12) = some s ∧
    s.delivered.count .messageComplete = 2 ∧
    (s.connection.dispatched.map fun d => (d.request.url.full, d.request.headers.entries)) =
      [([47, 98], [([65], [49]), ([66], [50])])] ∧
    ¬Served (.single .root) twoRequests s := by
  have stepped : (start twoRequests).step (.single .root) (.read 12) = some _ := rfl
  refine ⟨_, stepped, rfl, rfl, ?_⟩
  exact not_served_of_lost (n := 2) rfl (Nat.lt_succ_self 1) (Nat.le_refl 2)

end Session
end Da4qi4
