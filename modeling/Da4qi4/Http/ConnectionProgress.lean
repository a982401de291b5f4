import Da4qi4.Http.ConnectionRefusal

/-! Every request on a connection that goes on gets its answer, as long as the connection
has not refused an earlier one: whatever completes next, the work that is left before
the answer becomes less. -/
namespace Da4qi4
open Utilities

namespace Turns
open Connection (PersistsAsAnnounced Promised RefusedAs startWrite_open)

/-- A client goes on behind an answer only if that announces it. -/
def politely (env : TurnsEnvironment) (s : Turns) : Event → Option Turns
  | .send m =>
    if s.written.getLast?.all Response.announcesPersistence then step env s (.send m) else none
  | e => step env s e

/-- No request but the last is refused, and handlers answer in a way that the connection
goes on behind an answer that says so. -/
def Kept (env : TurnsEnvironment) (s : Turns) : Event → Turns → Prop
  | .send m, _ => (m.Acceptable env.toEnvironment ∨ m.Refused env.toEnvironment) ∧
      ∀ earlier ∈ s.sent, ¬earlier.Refused env.toEnvironment
  | .respond response _ _, _ => PersistsAsAnnounced s.connection.request response
  | _, _ => True

/-- A read that brings something, an answer of a handler, the completion of a write. -/
def Completes (_ : Turns) : Event → Turns → Prop
  | .read count, _ => 0 < count
  | .respond _ _ _, _ => True
  | .wrote _ _, _ => True
  | .send _, _ => False
  | .posted _ _, _ => False
  | .pushChunkedBody _ _, _ => False

/-- A chain is given what a new connection makes of the message. -/
def Presents (env : TurnsEnvironment) (m : Message) (p : Presented) : Prop :=
  ∃ r formData, m.alone env.toEnvironment = some r ∧ r.app = some p.app ∧
    p.request = (decodeForm env formData p.app r.request).2

/-- The requests are given to a chain in their order, except those that are `later`. -/
def Parsed (env : TurnsEnvironment) (done later : List Message) (s : Turns) : Prop :=
  s.sent = done ++ later ∧ List.Forall₂ (Presents env) done s.presented

/-- Every request is given to a chain or refused, and has its answer. -/
def Answered (env : TurnsEnvironment) (s : Turns) : Prop :=
  s.written.length = s.sent.length ∧
    ∃ done later, Parsed env done later s ∧ ∀ m ∈ later, m.Refused env.toEnvironment

/-- However the connection goes on, all requests get their answers. -/
def Attends (env : TurnsEnvironment) (s : Turns) : Prop :=
  Transition.Inevitable (politely env) Completes (Answered env) s

/-- A message is read, up to somewhere before its end. -/
structure Listening (env : TurnsEnvironment) (done later : List Message) (s : Turns) : Prop where
  working : Working (.reading []) s.connection
  answered : s.written.length = done.length
  position : ∃ made full path fields,
    (Reading.fresh full path fields).quietAll env.toEnvironment made =
        some s.connection.toReading ∧
      ((made = [] ∧ s.pending = [] ∧ later = []) ∨
        ∃ m, later = [m] ∧ (m.Acceptable env.toEnvironment ∨ m.Refused env.toEnvironment) ∧
          m.callbacks = made ++ s.pending ∧ s.pending ≠ [])

/-- A chain has the last request. -/
structure Handling (done later : List Message) (s : Turns) : Prop where
  working : Working .handling s.connection
  answered : s.written.length + 1 = done.length
  last : later = []
  pending : s.pending = []
  freed : s.connection.mpParser = none

/-- The header block of the answer is written; of a chain, or of the connection. -/
structure Replying (env : TurnsEnvironment) (later : List Message) (operation : WriteOperation)
    (s : Turns) : Prop where
  reads : s.connection.reads = 0
  contexts : s.connection.contexts = 0
  writes : s.connection.writes = [operation]
  posts : s.connection.posts = []
  socket : s.connection.socket = true
  header : operation.header.isSome = true
  answered : s.written.length + 1 = s.sent.length
  refused : ∀ m ∈ later, m.Refused env.toEnvironment
  rest : (s.connection.parserErrno = .error ∧ later ≠ []) ∨
    (s.connection.parserErrno = .ok ∧ later = [] ∧ s.pending = [] ∧ s.connection.mpParser = none)

/-- The last request has its answer, and none may follow. -/
structure Settled (env : TurnsEnvironment) (later : List Message) (s : Turns) : Prop where
  contexts : s.connection.contexts = 0
  headers : ∀ operation ∈ s.connection.writes, operation.header = none
  answered : s.written.length = s.sent.length
  refused : ∀ m ∈ later, m.Refused env.toEnvironment
  rest : (s.connection.parserErrno = .error ∧ later ≠ []) ∨
    (s.connection.reads = 0 ∧ s.written.getLast?.all Response.announcesPersistence = false)

/-- A request waits for its answer. -/
def Underway (env : TurnsEnvironment) (s : Turns) : Prop :=
  ∃ done later, Parsed env done later s ∧
    (Listening env done later s ∨ Handling done later s ∨
      ∃ operation, Replying env later operation s)

/-- What holds of every state. -/
def Attending (env : TurnsEnvironment) (s : Turns) : Prop :=
  ∃ done later, Parsed env done later s ∧
    (Listening env done later s ∨ Handling done later s ∨
      (∃ operation, Replying env later operation s ∧
        (later = [] → Promised s.connection operation)) ∨
      Settled env later s)

def work (s : Turns) : Nat :=
  s.pending.length + 3 * s.connection.reads + 2 * s.connection.contexts +
    s.connection.writes.length

variable {env : TurnsEnvironment} {s t : Turns}

theorem Listening.work_eq (listening : Listening env done later s) :
    s.work = s.pending.length + 3 := by
  rw [work, listening.working.reads, listening.working.contexts, listening.working.writes]
  rfl

theorem Handling.work_eq (handling : Handling done later s) : s.work = 2 := by
  rw [work, handling.pending, handling.working.reads, handling.working.contexts,
    handling.working.writes]
  rfl

theorem Replying.work_eq (replying : Replying env later operation s) :
    s.work = s.pending.length + 1 := by
  rw [work, replying.reads, replying.contexts, replying.writes]
  rfl

theorem attending_start (env : TurnsEnvironment) : Attending env start := by
  refine ⟨[], [], ⟨rfl, .nil⟩, .inl ⟨⟨rfl, rfl, rfl, rfl, rfl, rfl⟩, rfl, ?_⟩⟩
  exact ⟨[], [], [], {}, rfl, .inl ⟨rfl, rfl, rfl⟩⟩

@[simp] theorem hand_pending (env : TurnsEnvironment) (s : Turns) (c : Connection)
    (rest : List ParserCallback) : (s.hand env c rest).pending = rest := by
  rw [hand]
  cases c.dispatched.drop s.connection.dispatched.length with
  | nil => rfl
  | cons d _ => rfl

section Read
variable {made piece rest : List ParserCallback} {full path : Bytes} {fields : ParserFields}

/-- A message that is read to its end is given to a chain. -/
theorem handling_read (parsed : Parsed env done [m] s)
    (working : Working (.reading []) s.connection) (answered : s.written.length = done.length)
    (acceptable : m.Acceptable env.toEnvironment) (split : m.callbacks = made ++ piece)
    (before : (Reading.fresh full path fields).quietAll env.toEnvironment made =
      some s.connection.toReading) :
    ∃ c, s.connection.step env.toEnvironment (.read .ok piece) = some c ∧
      Parsed env (done ++ [m]) [] (s.hand env c []) ∧
      Handling (done ++ [m]) [] (s.hand env c []) := by
  obtain ⟨known, plain⟩ := acceptable
  obtain ⟨r, alone⟩ := Option.isSome_iff_exists.mp known
  have quiet := m.quietAll_fresh env.toEnvironment full path fields
  rw [split, Reading.quietAll_append, before, Option.bind_some, alone] at quiet
  have becomes := Message.alone_becomes alone
  obtain ⟨app, routed⟩ := Option.isSome_iff_exists.mp becomes.routed
  have kept : r.parserFields.upgrade = false := by
    rw [becomes.fields]
    exact plain
  obtain ⟨block, read⟩ := Connection.read_of_complete working.reads working.clean quiet
    becomes.complete routed kept
  refine ⟨_, read, ?_⟩
  rw [hand_started (by rfl)]
  constructor
  · constructor
    · exact parsed.1.trans (List.append_nil _).symm
    · exact List.rel_append parsed.2 (.cons ⟨r, s.formData, alone, routed, rfl⟩ .nil)
  · constructor
    · exact ⟨rfl, congrArg (· + 1) working.contexts, working.writes, working.posts, working.clean,
        working.socket⟩
    · rw [List.length_append]
      exact congrArg (· + 1) answered
    · rfl
    · rfl
    · rfl

/-- A message that goes on behind the read is read further. -/
theorem listening_on (parsed : Parsed env done [m] s)
    (working : Working (.reading []) s.connection) (answered : s.written.length = done.length)
    (sound : m.Acceptable env.toEnvironment ∨ m.Refused env.toEnvironment)
    (split : m.callbacks = made ++ (piece ++ rest)) (more : rest ≠ [])
    (before : (Reading.fresh full path fields).quietAll env.toEnvironment made =
      some s.connection.toReading)
    (quiet : s.connection.toReading.quietAll env.toEnvironment piece = some r) :
    ∃ c, s.connection.step env.toEnvironment (.read .ok piece) = some c ∧
      Parsed env done [m] (s.hand env c rest) ∧ Listening env done [m] (s.hand env c rest) := by
  have all : (Reading.fresh full path fields).quietAll env.toEnvironment (made ++ piece) =
      some r := by
    rw [Reading.quietAll_append, before]
    exact quiet
  have front : m.callbacks = (made ++ piece) ++ rest := by
    rw [split, List.append_assoc]
  have fresh : (Reading.fresh full path fields).readComplete ≠ .readMessageComplete :=
    ReadCompletePart.noConfusion
  have incomplete := Connection.readComplete_of_quiet fresh
    (messageComplete_not_mem_front front more) all
  obtain ⟨block, read⟩ := Connection.read_of_incomplete working.reads working.clean working.socket
    quiet incomplete
  refine ⟨_, read, ?_⟩
  rw [hand_silent (by rfl)]
  refine ⟨parsed, ?_, answered, made ++ piece, full, path, fields, all, ?_⟩
  · exact ⟨rfl, working.contexts, working.writes, working.posts, working.clean, working.socket⟩
  · exact .inr ⟨m, rfl, sound, front, more⟩

/-- A read that meets what the connection answers is the last one. -/
theorem replying_read (parsed : Parsed env done [m] s)
    (working : Working (.reading []) s.connection) (answered : s.written.length = done.length)
    (refused : m.Refused env.toEnvironment) (split : m.callbacks = made ++ (piece ++ rest))
    (before : (Reading.fresh full path fields).quietAll env.toEnvironment made =
      some s.connection.toReading)
    (loud : s.connection.toReading.quietAll env.toEnvironment piece = none) :
    ∃ c operation, s.connection.step env.toEnvironment (.read .ok piece) = some c ∧
      Parsed env done [m] (s.hand env c rest) ∧
      Replying env [m] operation (s.hand env c rest) := by
  have here : s.connection.toReading.refusesAll env.toEnvironment piece = true := by
    have whole := (m.refusesAll_fresh env.toEnvironment full path fields).mpr refused
    rw [split, Reading.refusesAll_behind before, Reading.refusesAll_within loud] at whole
    exact whole
  obtain ⟨d, operation, read, header, reading, response, block, rfl⟩ :=
    Connection.read_of_refused working.reads working.clean working.socket here
  refine ⟨_, operation, read, ?_⟩
  rw [hand_silent (by rfl)]
  refine ⟨parsed, ?_⟩
  constructor
  · rfl
  · exact working.contexts
  · exact congrArg (· ++ [operation]) working.writes
  · exact working.posts
  · exact working.socket
  · exact header
  · change s.written.length + 1 = s.sent.length
    rw [parsed.1, List.length_append, answered]
    rfl
  · intro n member
    rw [List.mem_singleton.mp member]
    exact refused
  · exact .inl ⟨rfl, List.cons_ne_nil _ _⟩

end Read

theorem listening_read (parsed : Parsed env done later s) (listening : Listening env done later s)
    (some_ : s.pending ≠ []) (count : Nat) :
    ∃ t, step env s (.read count) = some t ∧ t.pending = s.pending.drop count ∧
      ∃ done later, Parsed env done later t ∧
        (Listening env done later t ∨ Handling done later t ∨
          ∃ operation, Replying env later operation t ∧ later ≠ []) := by
  obtain ⟨working, answered, made, full, path, fields, before, position⟩ := listening
  rcases position with ⟨-, empty, -⟩ | ⟨m, rfl, sound, split, -⟩
  · exact absurd empty some_
  · have parts := (List.take_append_drop count s.pending).symm
    have read {c : Connection} (goes : s.connection.step env.toEnvironment
        (.read .ok (s.pending.take count)) = some c) :
        step env s (.read count) = some (s.hand env c (s.pending.drop count)) := by
      rw [step, if_neg some_, goes]
      rfl
    rw [parts] at split
    generalize s.pending.take count = piece at read split
    generalize s.pending.drop count = rest at read split
    cases quiet : s.connection.toReading.quietAll env.toEnvironment piece with
    | none =>
      have refused : m.Refused env.toEnvironment := by
        apply sound.resolve_left
        rintro ⟨known, -⟩
        rw [← m.quietAll_fresh env.toEnvironment full path fields, split, Reading.quietAll_append,
          before, Option.bind_some, Reading.quietAll_append, quiet] at known
        cases known
      obtain ⟨c, operation, goes, still, replying⟩ :=
        replying_read parsed working answered refused split before quiet
      exact ⟨_, read goes, hand_pending .., _, _, still, .inr (.inr ⟨operation, replying,
        List.cons_ne_nil _ _⟩)⟩
    | some r =>
      by_cases ends : rest = []
      · subst ends
        rw [List.append_nil] at split
        have acceptable : m.Acceptable env.toEnvironment := by
          apply sound.resolve_right
          intro refused
          have whole := (m.refusesAll_fresh env.toEnvironment full path fields).mpr refused
          rw [split, Reading.refusesAll_behind before] at whole
          rw [Reading.quietAll_of_refusesAll whole] at quiet
          cases quiet
        obtain ⟨c, goes, still, handling⟩ :=
          handling_read parsed working answered acceptable split before
        exact ⟨_, read goes, hand_pending .., _, _, still, .inr (.inl handling)⟩
      · obtain ⟨c, goes, still, listening⟩ :=
          listening_on parsed working answered sound split ends before quiet
        exact ⟨_, read goes, hand_pending .., _, _, still, .inl listening⟩

theorem handling_respond (parsed : Parsed env done later s) (handling : Handling done later s)
    (response : Response) (users : List Cookie) (parameters : UrlParameters) :
    ∃ t operation, step env s (.respond response users parameters) = some t ∧
      Parsed env done later t ∧ Replying env later operation t ∧
      (PersistsAsAnnounced s.connection.request response → Promised t.connection operation) := by
  obtain ⟨working, answered, rfl, empty, freed⟩ := handling
  have some_ : ¬s.connection.contexts = 0 := by
    rw [working.contexts]
    exact Nat.one_ne_zero
  obtain ⟨written, operation, started, header, promised⟩ := startWrite_open
    (c := { s.connection with response := response, contexts := s.connection.contexts - 1 })
    working.socket
  have responded : s.connection.step env.toEnvironment (.respond response) = _ :=
    (if_neg some_).trans started
  refine ⟨{ s with
    connection := { s.connection with
      response := written
      contexts := s.connection.contexts - 1
      writes := s.connection.writes ++ [operation] }
    cookies := users
    pathParameters := parameters }, operation, ?_, ?_, ?_, promised⟩
  · rw [step, responded]
    rfl
  · exact parsed
  · constructor
    · exact working.reads
    · exact congrArg (· - 1) working.contexts
    · exact congrArg (· ++ [operation]) working.writes
    · exact working.posts
    · exact working.socket
    · exact header
    · change s.written.length + 1 = s.sent.length
      rw [parsed.1, List.append_nil]
      exact answered
    · intro m member
      cases member
    · exact .inr ⟨working.clean, rfl, empty, freed⟩

theorem step_wrote {d : Connection} (outstanding : s.connection.writes[index]? = some operation)
    (completed : s.connection.step env.toEnvironment (.wrote index now) = some d) :
    ∃ formData pathParameters cookies, step env s (.wrote index now) = some { s with
      connection := d
      formData := formData
      pathParameters := pathParameters
      cookies := cookies
      written := s.written ++ operation.header.toList } := by
  rw [step, outstanding, Option.bind_some, completed]
  cases Resets s.connection operation with
  | true => exact ⟨_, _, _, rfl⟩
  | false => exact ⟨_, _, _, rfl⟩

/-- With its header block written a request has its answer. -/
theorem replying_wrote (parsed : Parsed env done later s)
    (replying : Replying env later operation s) (now : Int) :
    ∃ t, step env s (.wrote 0 now) = some t ∧ Parsed env done later t ∧
      t.written.length = t.sent.length ∧
      ((later = [] → Promised s.connection operation) →
        Listening env done later t ∨ Settled env later t) := by
  obtain ⟨reads, contexts, writes, posts, socket, header, answered, refused, rest⟩ := replying
  obtain ⟨header, sent⟩ := Option.isSome_iff_exists.mp header
  obtain ⟨d, completed, sameContexts, sameErrno, headerless, goes⟩ :=
    Connection.wrote_header env.toEnvironment now socket writes sent
  have outstanding : s.connection.writes[0]? = some operation := by
    rw [writes]
    rfl
  obtain ⟨_, _, _, stepped⟩ := step_wrote outstanding completed
  have all : (s.written ++ operation.header.toList).length = s.sent.length := by
    rw [sent, Option.toList_some, List.length_append]
    exact answered
  refine ⟨_, stepped, parsed, all, fun promised => ?_⟩
  rcases rest with ⟨error, some_⟩ | ⟨clean, rfl, empty, freed⟩
  · right
    exact ⟨sameContexts.trans contexts, headerless, all, refused,
      .inl ⟨sameErrno.trans error, some_⟩⟩
  · rcases goes with ⟨-, rfl⟩ | ⟨sameReads, announces⟩
    · left
      have count : (s.written ++ operation.header.toList).length = done.length := by
        rw [all, parsed.1, List.append_nil]
      refine ⟨?_, count, [], _, _, _, congrArg some (Session.reset_fresh freed).symm,
        .inl ⟨rfl, empty, rfl⟩⟩
      exact ⟨congrArg (· + 1) reads, contexts, rfl, posts, clean, socket⟩
    · right
      refine ⟨sameContexts.trans contexts, headerless, all, refused,
        .inr ⟨sameReads.trans reads, ?_⟩⟩
      change (s.written ++ operation.header.toList).getLast?.all _ = false
      rw [sent, Option.toList_some, List.getLast?_concat, Option.all_some]
      exact announces (promised rfl)

theorem Settled.answered_all (settled : Settled env later s) (parsed : Parsed env done later s) :
    Answered env s :=
  ⟨settled.answered, done, later, parsed, settled.refused⟩

theorem settled_looked {c d : Connection} (headers : ∀ other ∈ c.writes, other.header = none)
    (looked : c.doWriteNextChunkedBody startWaitClock now = some d) :
    d.contexts = c.contexts ∧ d.parserErrno = c.parserErrno ∧ d.reads = c.reads ∧
      ∀ other ∈ d.writes, other.header = none := by
  obtain ⟨_, buffer, ⟨-, rfl⟩ | ⟨-, ⟨_, rfl⟩ | rfl⟩⟩ :=
    Connection.doWriteNextChunkedBody_cases looked
  · exact ⟨rfl, rfl, rfl, headers⟩
  · exact ⟨rfl, rfl, rfl, headers⟩
  · refine ⟨rfl, rfl, rfl, fun other member => ?_⟩
    rcases List.mem_append.mp member with before | new
    · exact headers other before
    · rw [List.mem_singleton.mp new]
      rfl

/-- Nothing that completes behind the last answer is part of another. -/
theorem settled_read (parsed : Parsed env done later s) (settled : Settled env later s)
    (stepped : step env s (.read count) = some t) :
    Parsed env done later t ∧ Settled env later t := by
  obtain ⟨contexts, headers, answered, refused, rest⟩ := settled
  rw [step] at stepped
  split at stepped
  · cases stepped
  · obtain ⟨c, read, rfl⟩ := Option.map_eq_some_iff.mp stepped
    rw [Connection.step] at read
    split at read
    · cases read
    · rename_i reading
      obtain ⟨error, some_⟩ := rest.resolve_right fun closed => reading closed.1
      have dirty : ¬s.connection.parserErrno = .ok := by
        rw [error]
        exact ParserErrno.noConfusion
      rw [Connection.onRead, Connection.execute, if_neg dirty, Option.bind_some,
        if_pos error] at read
      cases read
      rw [hand_silent (by rfl)]
      exact ⟨parsed, contexts, headers, answered, refused, .inl ⟨error, some_⟩⟩

theorem settled_wrote (parsed : Parsed env done later s) (settled : Settled env later s)
    (stepped : step env s (.wrote index now) = some t) :
    Parsed env done later t ∧ Settled env later t := by
  obtain ⟨contexts, headers, answered, refused, rest⟩ := settled
  obtain ⟨operation, outstanding, completed⟩ := Option.bind_eq_some_iff.mp stepped
  obtain ⟨d, wrote, -⟩ := Option.map_eq_some_iff.mp completed
  have headerless := headers operation (List.mem_of_getElem? outstanding)
  obtain ⟨_, _, _, same⟩ := step_wrote outstanding wrote
  rw [same] at stepped
  cases stepped
  have written : s.written ++ operation.header.toList = s.written := by
    rw [headerless]
    exact List.append_nil _
  cases operation with
  | response header => cases headerless
  | chunkedHeader header => cases headerless
  | chunkedBody data =>
    obtain ⟨_, again, looked⟩ := Option.bind_eq_some_iff.mp wrote
    rw [outstanding] at again
    cases again
    obtain ⟨sameContexts, sameErrno, sameReads, still⟩ := settled_looked
      (c := { s.connection with writes := s.connection.writes.eraseIdx index })
      (fun other member => headers other (List.mem_of_mem_eraseIdx member)) looked
    refine ⟨parsed, sameContexts.trans contexts, still, ?_, refused, ?_⟩
    · exact (congrArg List.length written).trans answered
    · rcases rest with ⟨error, some_⟩ | ⟨reads, unannounced⟩
      · exact .inl ⟨sameErrno.trans error, some_⟩
      · right
        refine ⟨sameReads.trans reads, ?_⟩
        change (s.written ++ _).getLast?.all _ = false
        rw [written]
        exact unannounced

theorem settled_posted (parsed : Parsed env done later s) (settled : Settled env later s)
    (stepped : step env s (.posted index now) = some t) :
    Parsed env done later t ∧ Settled env later t := by
  obtain ⟨contexts, headers, answered, refused, rest⟩ := settled
  obtain ⟨c, posted, rfl⟩ := Option.map_eq_some_iff.mp stepped
  obtain ⟨startWaitClock, outstanding, looked⟩ := Option.bind_eq_some_iff.mp posted
  obtain ⟨sameContexts, sameErrno, sameReads, still⟩ := settled_looked
    (c := { s.connection with posts := s.connection.posts.eraseIdx index }) headers looked
  refine ⟨parsed, sameContexts.trans contexts, still, answered, refused, ?_⟩
  rcases rest with ⟨error, some_⟩ | ⟨reads, unannounced⟩
  · exact .inl ⟨sameErrno.trans error, some_⟩
  · exact .inr ⟨sameReads.trans reads, unannounced⟩

theorem attending_send (attending : Attending env s)
    (announced : s.written.getLast?.all Response.announcesPersistence = true)
    (kept : Kept env s (.send m) t) (stepped : step env s (.send m) = some t) :
    Attending env t := by
  obtain ⟨done, later, parsed, phase⟩ := attending
  obtain ⟨sound, earlier⟩ := kept
  rw [step] at stepped
  split at stepped
  · rename_i ready
    obtain ⟨empty, contexts, writes, -⟩ := ready
    cases stepped
    rcases phase with listening | handling | ⟨operation, replying, -⟩ | settled
    · obtain ⟨working, answered, made, full, path, fields, read, position⟩ := listening
      rcases position with ⟨rfl, -, rfl⟩ | ⟨_, -, -, -, more⟩
      · refine ⟨done, [m], ⟨?_, parsed.2⟩, .inl ⟨?_, answered, [], full, path, fields, read, ?_⟩⟩
        · change s.sent ++ [m] = done ++ [m]
          rw [parsed.1, List.append_nil]
        · exact working
        · exact .inr ⟨m, rfl, sound, rfl, callbacks_ne_nil m⟩
      · exact absurd empty more
    · rw [handling.working.contexts] at contexts
      cases contexts
    · rw [replying.writes] at writes
      cases writes
    · rcases settled.rest with ⟨-, some_⟩ | ⟨-, unannounced⟩
      · obtain ⟨n, member⟩ := List.exists_mem_of_ne_nil later some_
        have sent : n ∈ s.sent := by
          rw [parsed.1]
          exact List.mem_append_right done member
        exact absurd (settled.refused n member) (earlier n sent)
      · rw [announced] at unannounced
        cases unannounced
  · cases stepped

theorem attending_read (attending : Attending env s) (stepped : step env s (.read count) = some t) :
    Attending env t := by
  obtain ⟨done, later, parsed, phase⟩ := attending
  have some_ : s.pending ≠ [] := by
    intro empty
    rw [step, if_pos empty] at stepped
    cases stepped
  rcases phase with listening | handling | ⟨operation, replying, -⟩ | settled
  · obtain ⟨_, same, -, done, later, still, goes⟩ := listening_read parsed listening some_ count
    rw [stepped] at same
    cases same
    rcases goes with listening | handling | ⟨operation, replying, refused⟩
    · exact ⟨done, later, still, .inl listening⟩
    · exact ⟨done, later, still, .inr (.inl handling)⟩
    · refine ⟨done, later, still, .inr (.inr (.inl ⟨operation, replying, ?_⟩))⟩
      intro none
      exact absurd none refused
  · exact absurd handling.pending some_
  · rw [step, if_neg some_, Connection.step, if_pos replying.reads] at stepped
    cases stepped
  · obtain ⟨still, settled⟩ := settled_read parsed settled stepped
    exact ⟨done, later, still, .inr (.inr (.inr settled))⟩

theorem attending_respond (attending : Attending env s)
    (kept : PersistsAsAnnounced s.connection.request response)
    (stepped : step env s (.respond response users parameters) = some t) : Attending env t := by
  obtain ⟨done, later, parsed, phase⟩ := attending
  have none (contexts : s.connection.contexts = 0) : Attending env t := by
    rw [step, Connection.step, if_pos contexts] at stepped
    cases stepped
  rcases phase with listening | handling | ⟨operation, replying, -⟩ | settled
  · exact none listening.working.contexts
  · obtain ⟨_, operation, same, still, replying, promised⟩ :=
      handling_respond parsed handling response users parameters
    rw [stepped] at same
    cases same
    exact ⟨done, later, still, .inr (.inr (.inl ⟨operation, replying, fun _ => promised kept⟩))⟩
  · exact none replying.contexts
  · exact none settled.contexts

theorem attending_wrote (attending : Attending env s)
    (stepped : step env s (.wrote index now) = some t) : Attending env t := by
  obtain ⟨done, later, parsed, phase⟩ := attending
  have none (writes : s.connection.writes = []) : Attending env t := by
    rw [step, writes] at stepped
    cases stepped
  rcases phase with listening | handling | ⟨operation, replying, promised⟩ | settled
  · exact none listening.working.writes
  · exact none handling.working.writes
  · cases index with
    | succ index =>
      rw [step, replying.writes] at stepped
      cases stepped
    | zero =>
      obtain ⟨_, same, still, -, goes⟩ := replying_wrote parsed replying now
      rw [stepped] at same
      cases same
      rcases goes promised with listening | settled
      · exact ⟨done, later, still, .inl listening⟩
      · exact ⟨done, later, still, .inr (.inr (.inr settled))⟩
  · obtain ⟨still, settled⟩ := settled_wrote parsed settled stepped
    exact ⟨done, later, still, .inr (.inr (.inr settled))⟩

theorem attending_posted (attending : Attending env s)
    (stepped : step env s (.posted index now) = some t) : Attending env t := by
  obtain ⟨done, later, parsed, phase⟩ := attending
  have none (posts : s.connection.posts = []) : Attending env t := by
    rw [step, Connection.step, posts] at stepped
    cases stepped
  rcases phase with listening | handling | ⟨operation, replying, -⟩ | settled
  · exact none listening.working.posts
  · exact none handling.working.posts
  · exact none replying.posts
  · obtain ⟨still, settled⟩ := settled_posted parsed settled stepped
    exact ⟨done, later, still, .inr (.inr (.inr settled))⟩

theorem attending_pushChunkedBody (attending : Attending env s)
    (stepped : step env s (.pushChunkedBody body isLast) = some t) : Attending env t := by
  obtain ⟨done, later, parsed, phase⟩ := attending
  cases stepped
  refine ⟨done, later, parsed, ?_⟩
  rcases phase with ⟨w, answered, position⟩ | ⟨w, answered, last, pending, freed⟩ |
    ⟨operation, r, promised⟩ | settled
  · exact .inl ⟨⟨w.reads, w.contexts, w.writes, w.posts, w.clean, w.socket⟩, answered, position⟩
  · exact .inr (.inl ⟨⟨w.reads, w.contexts, w.writes, w.posts, w.clean, w.socket⟩, answered, last,
      pending, freed⟩)
  · refine .inr (.inr (.inl ⟨operation, ?_, ?_⟩))
    · exact ⟨r.reads, r.contexts, r.writes, r.posts, r.socket, r.header, r.answered, r.refused,
        r.rest⟩
    · cases operation with
      | response header => exact promised
      | chunkedHeader header => exact promised
      | chunkedBody data => exact promised
  · exact .inr (.inr (.inr ⟨settled.contexts, settled.headers, settled.answered, settled.refused,
      settled.rest⟩))

theorem attending_step (attending : Attending env s) (stepped : politely env s e = some t)
    (kept : Kept env s e t) : Attending env t := by
  cases e with
  | send m =>
    rw [politely] at stepped
    split at stepped
    · rename_i announced
      exact attending_send attending announced kept stepped
    · cases stepped
  | read count => exact attending_read attending stepped
  | respond response users parameters => exact attending_respond attending kept stepped
  | wrote index now => exact attending_wrote attending stepped
  | posted index now => exact attending_posted attending stepped
  | pushChunkedBody body isLast => exact attending_pushChunkedBody attending stepped

theorem underway_possible (underway : Underway env s) (missed : ¬Answered env s) :
    ∃ e t, politely env s e = some t ∧ Completes s e t := by
  obtain ⟨done, later, parsed, listening | handling | ⟨operation, replying⟩⟩ := underway
  · obtain ⟨_, _, _, _, -, ⟨-, -, rfl⟩ | ⟨_, -, -, -, some_⟩⟩ := listening.position
    · have all : s.written.length = s.sent.length := by
        rw [listening.answered, parsed.1, List.append_nil]
      exact absurd ⟨all, done, [], parsed, fun m member => absurd member List.not_mem_nil⟩ missed
    · obtain ⟨t, stepped, -⟩ := listening_read parsed listening some_ s.pending.length
      exact ⟨.read s.pending.length, t, stepped, List.length_pos_iff.mpr some_⟩
  · obtain ⟨t, _, stepped, -⟩ := handling_respond parsed handling .constructed [] .empty
    exact ⟨.respond .constructed [] .empty, t, stepped, trivial⟩
  · obtain ⟨t, stepped, -⟩ := replying_wrote parsed replying 0
    exact ⟨.wrote 0 0, t, stepped, trivial⟩

theorem underway_works (underway : Underway env s) (stepped : politely env s e = some t)
    (completes : Completes s e t) : Answered env t ∨ (Underway env t ∧ t.work < s.work) := by
  obtain ⟨done, later, parsed, phase⟩ := underway
  cases e with
  | read count =>
    have stepped : step env s (.read count) = some t := stepped
    have some_ : s.pending ≠ [] := by
      intro empty
      rw [step, if_pos empty] at stepped
      cases stepped
    rcases phase with listening | handling | ⟨operation, replying⟩
    · obtain ⟨_, same, left, done, later, still, goes⟩ :=
        listening_read parsed listening some_ count
      rw [stepped] at same
      cases same
      have less : t.pending.length < s.pending.length := by
        have some_ := List.length_pos_iff.mpr some_
        have counted : 0 < count := completes
        rw [left, List.length_drop]
        omega
      right
      rw [listening.work_eq]
      rcases goes with listening | handling | ⟨operation, replying, -⟩
      · rw [listening.work_eq]
        exact ⟨⟨done, later, still, .inl listening⟩, Nat.add_lt_add_right less 3⟩
      · rw [handling.work_eq]
        exact ⟨⟨done, later, still, .inr (.inl handling)⟩, by omega⟩
      · rw [replying.work_eq]
        exact ⟨⟨done, later, still, .inr (.inr ⟨operation, replying⟩)⟩, by omega⟩
    · exact absurd handling.pending some_
    · rw [step, if_neg some_, Connection.step, if_pos replying.reads] at stepped
      cases stepped
  | respond response users parameters =>
    have stepped : step env s (.respond response users parameters) = some t := stepped
    have none (contexts : s.connection.contexts = 0) :
        Answered env t ∨ (Underway env t ∧ t.work < s.work) := by
      rw [step, Connection.step, if_pos contexts] at stepped
      cases stepped
    rcases phase with listening | handling | ⟨operation, replying⟩
    · exact none listening.working.contexts
    · obtain ⟨_, operation, same, still, replying, -⟩ :=
        handling_respond parsed handling response users parameters
      rw [stepped] at same
      cases same
      right
      have empty : t.pending = [] := by
        obtain ⟨c, -, rfl⟩ := Option.map_eq_some_iff.mp stepped
        exact handling.pending
      rw [handling.work_eq, replying.work_eq, empty]
      exact ⟨⟨done, later, still, .inr (.inr ⟨operation, replying⟩)⟩, Nat.lt_succ_self 1⟩
    · exact none replying.contexts
  | wrote index now =>
    have stepped : step env s (.wrote index now) = some t := stepped
    have none (writes : s.connection.writes = []) :
        Answered env t ∨ (Underway env t ∧ t.work < s.work) := by
      rw [step, writes] at stepped
      cases stepped
    rcases phase with listening | handling | ⟨operation, replying⟩
    · exact none listening.working.writes
    · exact none handling.working.writes
    · cases index with
      | succ index =>
        rw [step, replying.writes] at stepped
        cases stepped
      | zero =>
        obtain ⟨_, same, still, all, -⟩ := replying_wrote parsed replying now
        rw [stepped] at same
        cases same
        exact .inl ⟨all, done, later, still, replying.refused⟩
  | send m => exact completes.elim
  | posted index now => exact completes.elim
  | pushChunkedBody body isLast => exact completes.elim

theorem attends_of_attending (attending : Attending env s) : Attends env s := by
  obtain ⟨done, later, parsed, phase⟩ := attending
  have goes (underway : Underway env s) : Attends env s :=
    Transition.inevitable_of_work underway_possible (fun underway _ => underway_works underway)
      underway
  rcases phase with listening | handling | ⟨operation, replying, -⟩ | settled
  · exact goes ⟨done, later, parsed, .inl listening⟩
  · exact goes ⟨done, later, parsed, .inr (.inl handling)⟩
  · exact goes ⟨done, later, parsed, .inr (.inr ⟨operation, replying⟩)⟩
  · exact .here (settled.answered_all parsed)

/-- In every run in which no request but the last is refused, and in which handlers answer
so that the connection goes on where they say so, every request gets its answer. -/
theorem attends_of_kept (env : TurnsEnvironment) {events : List Event}
    (kept : Transition.Steps (politely env) (Kept env) start events) :
    Transition.Throughout (politely env) (Attends env) start events :=
  Transition.throughout_of_steps attending_step attends_of_attending (attending_start env) kept

/-- One application, for the targets below `/a`. -/
def belowA : TurnsEnvironment :=
  { Environment.single { Application.root with urlRoot := [47, 97] } with
    transferMultiParts := fun _ parts => ([], parts) }

/-- A request, its answer, and a request that is refused. -/
def refusedLast : List Event :=
  [.send (Session.short 97 65 49), .read 6, .respond .constructed [] .empty, .wrote 0 0,
    .send (Session.short 98 66 50), .read 6]

theorem attends_of_kept_refusedLast :
    Transition.Throughout (politely belowA) (Attends belowA) start refusedLast := by
  apply attends_of_kept
  have first : (Session.short 97 65 49).Acceptable belowA.toEnvironment := ⟨by decide, rfl⟩
  have second : (Session.short 98 66 50).Refused belowA.toEnvironment := by decide
  have persists (request : Request) : PersistsAsAnnounced request .constructed := by
    rw [PersistsAsAnnounced, if_neg (by decide)]
    split
    · exact .inr fun marked => absurd marked (by decide)
    · trivial
  have unrefused : ∀ earlier ∈ [Session.short 97 65 49],
      ¬earlier.Refused belowA.toEnvironment := by
    decide
  refine .cons rfl ⟨.inl first, fun _ member => absurd member List.not_mem_nil⟩ ?_
  refine .cons rfl trivial ?_
  refine .cons rfl (persists _) ?_
  refine .cons rfl trivial ?_
  refine .cons rfl ⟨.inr second, unrefused⟩ ?_
  exact .cons rfl trivial trivial

/-- Where nothing is read, handled or written, nothing completes. -/
theorem not_completes_of_still (pending : s.pending = []) (contexts : s.connection.contexts = 0)
    (writes : s.connection.writes = []) (e : Event) (t : Turns)
    (stepped : politely env s e = some t) : ¬Completes s e t := by
  intro completes
  cases e with
  | read count =>
    have stepped : step env s (.read count) = some t := stepped
    rw [step, if_pos pending] at stepped
    cases stepped
  | respond response users parameters =>
    have stepped : step env s (.respond response users parameters) = some t := stepped
    rw [step, Connection.step, if_pos contexts] at stepped
    cases stepped
  | wrote index now =>
    have stepped : step env s (.wrote index now) = some t := stepped
    rw [step, writes] at stepped
    cases stepped
  | send m => exact completes
  | posted index now => exact completes
  | pushChunkedBody body isLast => exact completes

/-- Behind an answer of the connection that announces persistence, a request that a new
connection takes is read by nobody. -/
theorem refused_ends_all : ∃ s, Transition.run (politely belowA) start
    [.send (Session.short 98 66 50), .read 6, .wrote 0 0, .send (Session.short 97 65 49),
      .read 6] = some s ∧
    (Session.short 97 65 49).Acceptable belowA.toEnvironment ∧ ¬Attends belowA s := by
  have still : ∃ s, Transition.run (politely belowA) start
      [.send (Session.short 98 66 50), .read 6, .wrote 0 0, .send (Session.short 97 65 49),
        .read 6] = some s ∧ s.written.length = 1 ∧ s.sent.length = 2 ∧ s.pending = [] ∧
      s.connection.contexts = 0 ∧ s.connection.writes = [] :=
    ⟨_, rfl, rfl, rfl, rfl, rfl, rfl⟩
  obtain ⟨s, ran, written, sent, pending, contexts, writes⟩ := still
  refine ⟨s, ran, ⟨by decide, rfl⟩, ?_⟩
  apply Transition.not_inevitable_of_stuck
  · rintro ⟨all, -⟩
    rw [written, sent] at all
    cases all
  · exact not_completes_of_still pending contexts writes

end Turns
end Da4qi4
