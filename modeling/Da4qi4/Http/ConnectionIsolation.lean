import Da4qi4.Http.ConnectionTurns

/-! Nothing of an earlier request reaches a later one. What a chain is given for a
request is compared with what it is given when the request is the first one on a new
connection. -/
namespace Da4qi4
open Utilities

namespace Turns

/-- What a chain is given for a message on a new connection. -/
def alone (env : TurnsEnvironment) (m : Message) : Option Presented :=
  (Transition.run (step env) start [.send m, .read m.callbacks.length]).bind fun s =>
    s.presented.head?

/-- The requests are presented in the order in which they were sent, each as it would be
alone. -/
def Isolated (env : TurnsEnvironment) (s : Turns) : Prop :=
  ∃ done, done <+: s.sent ∧ List.Forall₂ (fun m p => alone env m = some p) done s.presented

/-- No header map asks for an interim response, and no response is chunked. -/
def Plain (_ : Turns) : Event → Turns → Prop
  | .send message, _ => ¬message.AsksToContinue
  | .read _, _ => True
  | .respond response _ _, _ => response.isChunked = false
  | .wrote _ _, _ => True
  | .posted _ _, _ => True
  | .pushChunkedBody _ _, _ => False

def presentedAs (env : TurnsEnvironment) (m : Message) (r : Reading) (app : Application) :
    Presented :=
  let form := decodeForm env [] app r.request
  { app := app
    request := form.2
    formData := form.1
    pathParameters := .empty
    response := (m.callbacks.foldl Response.takeVersion .constructed).setCharset app.defaultCharset
    cookies := [] }

theorem callbacks_ne_nil (m : Message) : m.callbacks ≠ [] :=
  List.append_ne_nil_of_right_ne_nil _ (List.cons_ne_nil _ _)

theorem alone_eq (env : TurnsEnvironment) {m : Message} {r : Reading}
    (read : m.alone env.toEnvironment = some r) (routed : r.app = some app)
    (plain : m.fields.upgrade = false) : alone env m = some (presentedAs env m r app) := by
  have becomes := Message.alone_becomes read
  have kept : r.parserFields.upgrade = false := by
    rw [becomes.fields]
    exact plain
  have reading : Connection.started.toReading.quietAll env.toEnvironment m.callbacks = some r :=
    read
  obtain ⟨block, stepped⟩ :=
    Connection.read_of_complete rfl rfl reading becomes.complete routed kept
  have sent : step env start (.send m) = some { start with pending := m.callbacks, sent := [m] } :=
    rfl
  have whole : m.callbacks.take m.callbacks.length = m.callbacks := List.take_length
  have handed : ({ start with pending := m.callbacks, sent := [m] } : Turns).connection.step
      env.toEnvironment (.read .ok m.callbacks) = some _ := stepped
  rw [alone, Transition.run, sent, Option.bind_some, Transition.run, step,
    if_neg (callbacks_ne_nil m), whole, handed]
  rfl

/-- What goes on: a message is read, up to somewhere before its end; it is handled; or the
answer is written. -/
inductive Doing where
  | reading (made : List ParserCallback)
  | handling
  | writing (header : Response)

namespace Doing

def reads : Doing → Nat
  | .reading _ => 1
  | _ => 0

def contexts : Doing → Nat
  | .handling => 1
  | _ => 0

def writes : Doing → List WriteOperation
  | .writing header => [.response header]
  | _ => []

end Doing

/-- The connection as it is left by a reset, and what the parser has made since then. -/
structure Refilled (env : TurnsEnvironment) (made : List ParserCallback) (s : Turns) : Prop where
  read : ∃ full path fields,
    (Reading.fresh full path fields).quietAll env.toEnvironment made = some s.connection.toReading
  response : s.connection.response = made.foldl Response.takeVersion .constructed
  formData : s.formData = []
  pathParameters : s.pathParameters = .empty
  cookies : s.cookies = []

/-- The messages that are sent but not presented: at most one that is being read. -/
def Position (env : TurnsEnvironment) (later : List Message) (s : Turns) : Doing → Prop
  | .reading made => Refilled env made s ∧
      ((made = [] ∧ s.pending = [] ∧ later = []) ∨
        ∃ m, later = [m] ∧ ¬m.AsksToContinue ∧ m.callbacks = made ++ s.pending ∧ s.pending ≠ [])
  | _ => s.pending = [] ∧ later = [] ∧ s.connection.mpParser = none

structure Working (doing : Doing) (c : Connection) : Prop where
  reads : c.reads = doing.reads
  contexts : c.contexts = doing.contexts
  writes : c.writes = doing.writes
  posts : c.posts = []
  clean : c.parserErrno = .ok
  socket : c.socket = true

/-- Nothing can start a context. -/
def Over (c : Connection) : Prop :=
  c.contexts = 0 ∧ (c.parserErrno = .error ∨ (c.reads = 0 ∧ c.writes = [] ∧ c.posts = []))

def Turning (env : TurnsEnvironment) (s : Turns) : Prop :=
  ∃ done later, s.sent = done ++ later ∧
    List.Forall₂ (fun m p => alone env m = some p) done s.presented ∧
    (Over s.connection ∨ ∃ doing, Working doing s.connection ∧ Position env later s doing)

variable {env : TurnsEnvironment} {s t : Turns}

theorem turning_start (env : TurnsEnvironment) : Turning env start := by
  refine ⟨[], [], rfl, .nil, .inr ⟨.reading [], ⟨rfl, rfl, rfl, rfl, rfl, rfl⟩, ?_⟩⟩
  exact ⟨⟨⟨[], [], {}, rfl⟩, rfl, rfl, rfl, rfl⟩, .inl ⟨rfl, rfl, rfl⟩⟩

theorem turning_send (turning : Turning env s) (unasked : ¬m.AsksToContinue)
    (stepped : step env s (.send m) = some t) : Turning env t := by
  obtain ⟨done, later, sent, presented, doing⟩ := turning
  rw [step] at stepped
  split at stepped
  · rename_i ready
    cases stepped
    refine ⟨done, later ++ [m], ?_, presented, ?_⟩
    · rw [sent, List.append_assoc]
    · rcases doing with closed | ⟨doing, working, position⟩
      · exact .inl closed
      · right
        obtain ⟨empty, contexts, writes, -⟩ := ready
        cases doing with
        | reading made =>
          obtain ⟨refilled, ⟨rfl, -, rfl⟩ | ⟨n, -, -, -, more⟩⟩ := position
          · obtain ⟨read, response, formData, pathParameters, cookies⟩ := refilled
            refine ⟨.reading [], working, ⟨read, response, formData, pathParameters, cookies⟩,
              .inr ⟨m, rfl, unasked, rfl, callbacks_ne_nil m⟩⟩
          · exact absurd empty more
        | handling =>
          rw [working.contexts] at contexts
          cases contexts
        | writing header =>
          rw [working.writes] at writes
          cases writes
  · cases stepped

theorem over_read {e : Environment} {c d : Connection} (closed : Over c)
    (read : c.step e (.read .ok made) = some d) : Over d ∧ d.dispatched = c.dispatched := by
  rw [Connection.step] at read
  split at read
  · cases read
  · rename_i reading
    obtain ⟨contexts, error | ⟨none, -, -⟩⟩ := closed
    · have dirty : ¬c.parserErrno = .ok := by
        rw [error]
        exact ParserErrno.noConfusion
      rw [Connection.onRead, Connection.execute, if_neg dirty, Option.bind_some,
        if_pos error] at read
      cases read
      exact ⟨⟨contexts, .inl error⟩, rfl⟩
    · exact absurd none reading

/-- A message that the connection has an answer to is the last one that counts. -/
theorem read_loud {e : Environment} {c d : Connection} (working : Working (.reading made) c)
    (loud : c.toReading.quietAll e piece = none)
    (unasked : ∀ front p back r, piece = front ++ .headersComplete p :: back →
      c.toReading.quietAll e front = some r →
      Reading.is100Continue (r.headerParsed e p).request = false)
    (read : c.step e (.read .ok piece) = some d) : Over d ∧ d.dispatched = c.dispatched := by
  have reading : ¬c.reads = 0 := by
    rw [working.reads]
    exact Nat.one_ne_zero
  rw [Connection.step, if_neg reading, Connection.onRead, Connection.execute,
    if_pos working.clean] at read
  obtain ⟨f, executed, handled⟩ := Option.bind_eq_some_iff.mp read
  have error : f.parserErrno = .error :=
    Connection.errno_of_loud (c := { c with reads := c.reads - 1 }) loud unasked executed
  obtain ⟨_, _, _, _, _, rfl⟩ := Connection.touches_callbacks executed
  rw [if_pos error] at handled
  cases handled
  exact ⟨⟨working.contexts, .inl error⟩, rfl⟩

/-- The end of an upgrade starts no context. -/
theorem read_upgrade {e : Environment} {c d : Connection} (working : Working (.reading made) c)
    (quiet : c.toReading.quietAll e piece = some r)
    (complete : r.readComplete = .readMessageComplete)
    (upgrade : r.parserFields.upgrade = true) (read : c.step e (.read .ok piece) = some d) :
    Over d ∧ d.dispatched = c.dispatched := by
  have reading : ¬c.reads = 0 := by
    rw [working.reads]
    exact Nat.one_ne_zero
  obtain ⟨block, executed⟩ := Connection.execute_of_quiet
    (c := { c with reads := c.reads - 1 }) working.clean quiet
  have sound : ¬c.parserErrno = .error := by
    rw [working.clean]
    exact ParserErrno.noConfusion
  rw [Connection.step, if_neg reading, Connection.onRead, executed, Option.bind_some,
    if_neg sound, if_neg (not_not_intro complete)] at read
  rcases Connection.onMessageRead_starts read with ⟨_, _, plain, -⟩ | ⟨_, _, _, rfl, -⟩
  · rw [upgrade] at plain
    cases plain
  · refine ⟨⟨working.contexts, .inr ⟨?_, working.writes, working.posts⟩⟩, rfl⟩
    change c.reads - 1 = 0
    rw [working.reads]
    rfl

theorem messageComplete_not_mem_front {m : Message} (split : m.callbacks = front ++ back)
    (more : back ≠ []) : .messageComplete ∉ front := by
  intro member
  apply m.messageComplete_not_mem_opening
  obtain ⟨init, last, rfl⟩ := List.eq_nil_or_concat' back |>.resolve_left more
  rw [Message.callbacks, ← List.append_assoc] at split
  rw [(List.append_inj' split rfl).1]
  exact List.mem_append_left _ member

/-- A message that is read to its end is presented, or is an upgrade. -/
theorem turning_ended {c : Connection} (sent : s.sent = done ++ [m])
    (presented : List.Forall₂ (fun m p => alone env m = some p) done s.presented)
    (working : Working (.reading made) s.connection) (refilled : Refilled env made s)
    (split : m.callbacks = made ++ piece)
    (quiet : s.connection.toReading.quietAll env.toEnvironment piece = some r)
    (read : s.connection.step env.toEnvironment (.read .ok piece) = some c) :
    Turning env (s.hand env c []) := by
  obtain ⟨full, path, fields, before⟩ := refilled.read
  have whole := m.quietAll_fresh env.toEnvironment full path fields
  rw [split, Reading.quietAll_append, before, Option.bind_some, quiet] at whole
  have becomes := Message.alone_becomes whole.symm
  obtain ⟨app, routed⟩ := Option.isSome_iff_exists.mp becomes.routed
  cases upgrade : m.fields.upgrade with
  | true =>
    have flagged : r.parserFields.upgrade = true := by
      rw [becomes.fields]
      exact upgrade
    obtain ⟨closed, same⟩ := read_upgrade working quiet becomes.complete flagged read
    rw [hand_silent same]
    exact ⟨done, [m], sent, presented, .inl closed⟩
  | false =>
    have plain : r.parserFields.upgrade = false := by
      rw [becomes.fields]
      exact upgrade
    obtain ⟨block, goes⟩ := Connection.read_of_complete working.reads working.clean quiet
      becomes.complete routed plain
    rw [goes] at read
    cases read
    have response : made.foldl Response.takeVersion .constructed = s.connection.response :=
      refilled.response.symm
    have whole : alone env m = some ⟨app, (decodeForm env s.formData app r.request).2,
        (decodeForm env s.formData app r.request).1, s.pathParameters,
        (piece.foldl Response.takeVersion s.connection.response).setCharset app.defaultCharset,
        s.cookies⟩ := by
      rw [alone_eq env whole.symm routed upgrade, presentedAs, split, List.foldl_append, response,
        refilled.formData, refilled.pathParameters, refilled.cookies]
    rw [hand_started (by rfl)]
    refine ⟨done ++ [m], [], ?_, ?_, .inr ⟨.handling, ?_, rfl, rfl, rfl⟩⟩
    · exact sent.trans (List.append_nil _).symm
    · exact List.rel_append presented (.cons whole .nil)
    · exact ⟨rfl, congrArg (· + 1) working.contexts, working.writes, working.posts, working.clean,
        working.socket⟩

/-- A message that goes on behind the read is read further. -/
theorem turning_unended {c : Connection} (sent : s.sent = done ++ [m])
    (presented : List.Forall₂ (fun m p => alone env m = some p) done s.presented)
    (working : Working (.reading made) s.connection) (refilled : Refilled env made s)
    (unasked : ¬m.AsksToContinue) (split : m.callbacks = made ++ (piece ++ rest)) (more : rest ≠ [])
    (quiet : s.connection.toReading.quietAll env.toEnvironment piece = some r)
    (read : s.connection.step env.toEnvironment (.read .ok piece) = some c) :
    Turning env (s.hand env c rest) := by
  obtain ⟨⟨full, path, fields, before⟩, response, formData, pathParameters, cookies⟩ := refilled
  have all : (Reading.fresh full path fields).quietAll env.toEnvironment (made ++ piece) =
      some r := by
    rw [Reading.quietAll_append, before]
    exact quiet
  have fresh : (Reading.fresh full path fields).readComplete ≠ .readMessageComplete :=
    ReadCompletePart.noConfusion
  have front : m.callbacks = (made ++ piece) ++ rest := by
    rw [split, List.append_assoc]
  have incomplete := Connection.readComplete_of_quiet fresh
    (messageComplete_not_mem_front front more) all
  obtain ⟨block, goes⟩ := Connection.read_of_incomplete working.reads working.clean working.socket
    quiet incomplete
  rw [goes] at read
  cases read
  rw [hand_silent (by rfl)]
  refine ⟨done, [m], sent, presented, .inr ⟨.reading (made ++ piece), ?_, ?_, ?_⟩⟩
  · exact ⟨rfl, working.contexts, working.writes, working.posts, working.clean, working.socket⟩
  · refine ⟨⟨full, path, fields, all⟩, ?_, formData, pathParameters, cookies⟩
    rw [List.foldl_append, ← response]
  · exact .inr ⟨m, rfl, unasked, front, more⟩

theorem turning_read (turning : Turning env s) (stepped : step env s (.read count) = some t) :
    Turning env t := by
  obtain ⟨done, later, sent, presented, doing⟩ := turning
  rw [step] at stepped
  split at stepped
  · cases stepped
  · rename_i some_
    obtain ⟨c, read, rfl⟩ := Option.map_eq_some_iff.mp stepped
    have parts := (List.take_append_drop count s.pending).symm
    generalize s.pending.take count = piece at read parts
    generalize s.pending.drop count = rest at parts
    have silent (closed : Over c) (same : c.dispatched = s.connection.dispatched) :
        Turning env (s.hand env c rest) := by
      rw [hand_silent same]
      exact ⟨done, later, sent, presented, .inl closed⟩
    rcases doing with closed | ⟨doing, working, position⟩
    · obtain ⟨still, same⟩ := over_read closed read
      exact silent still same
    · cases doing with
      | handling => exact absurd position.1 some_
      | writing header => exact absurd position.1 some_
      | reading made =>
        obtain ⟨refilled, ⟨-, empty, -⟩ | ⟨m, rfl, unasked, split, -⟩⟩ := position
        · exact absurd empty some_
        · rw [parts] at split
          cases quiet : s.connection.toReading.quietAll env.toEnvironment piece with
          | none =>
            obtain ⟨full, path, fields, before⟩ := refilled.read
            have unheard : ∀ front p back r, piece = front ++ .headersComplete p :: back →
                s.connection.toReading.quietAll env.toEnvironment front = some r →
                Reading.is100Continue (r.headerParsed env.toEnvironment p).request = false := by
              intro front p back r taken read
              have whole : m.callbacks =
                  (made ++ front) ++ .headersComplete p :: (back ++ rest) := by
                rw [split, taken, List.append_assoc, List.append_assoc, List.cons_append]
              apply Message.unasked_of_plain unasked whole
              rw [Reading.quietAll_append, before]
              exact read
            obtain ⟨closed, same⟩ := read_loud working quiet unheard read
            exact silent closed same
          | some r =>
            by_cases ends : rest = []
            · subst ends
              rw [List.append_nil] at split
              exact turning_ended sent presented working refilled split quiet read
            · exact turning_unended sent presented working refilled unasked split ends quiet read

theorem turning_respond (turning : Turning env s) (unchunked : response.isChunked = false)
    (stepped : step env s (.respond response users parameters) = some t) : Turning env t := by
  obtain ⟨done, later, sent, presented, doing⟩ := turning
  obtain ⟨c, responded, rfl⟩ := Option.map_eq_some_iff.mp stepped
  rw [Connection.step] at responded
  split at responded
  · cases responded
  · rename_i handled
    rcases doing with closed | ⟨doing, working, position⟩
    · exact absurd closed.1 handled
    · cases doing with
      | reading made => exact absurd working.contexts handled
      | writing header => exact absurd working.contexts handled
      | handling =>
        obtain ⟨empty, last, freed⟩ := position
        rw [Connection.startWrite, if_neg (Bool.eq_false_iff.mp unchunked),
          Connection.doWrite] at responded
        obtain ⟨header, prepared⟩ := Connection.prepared_response
          { s.connection with response := response, contexts := s.connection.contexts - 1 }
        rw [prepared] at responded
        obtain rfl := Connection.asyncWrite_some responded
        refine ⟨done, later, sent, presented, .inr ⟨.writing header, ?_, empty, last, freed⟩⟩
        constructor
        · exact working.reads
        · exact congrArg (· - 1) working.contexts
        · exact congrArg (· ++ [.response header]) working.writes
        · exact working.posts
        · exact working.clean
        · exact working.socket

/-- A connection that is over stays so, whatever is still written. -/
theorem over_looked {c d : Connection} (contexts : c.contexts = 0) (error : c.parserErrno = .error)
    (looked : c.doWriteNextChunkedBody startWaitClock now = some d) : Over d := by
  obtain ⟨_, _, ⟨-, rfl⟩ | ⟨-, ⟨_, rfl⟩ | rfl⟩⟩ := Connection.doWriteNextChunkedBody_cases looked
  · exact ⟨contexts, .inl error⟩
  · exact ⟨contexts, .inl error⟩
  · exact ⟨contexts, .inl error⟩

theorem over_wrote {e : Environment} {c d : Connection} (closed : Over c)
    (wrote : c.step e (.wrote index now) = some d) : Over d := by
  obtain ⟨operation, outstanding, completed⟩ := Option.bind_eq_some_iff.mp wrote
  obtain ⟨contexts, error | ⟨-, empty, -⟩⟩ := closed
  · cases operation with
    | chunkedHeader header =>
      exact over_looked (c := { c with writes := c.writes.eraseIdx index }) contexts error completed
    | chunkedBody data =>
      exact over_looked (c := { c with writes := c.writes.eraseIdx index }) contexts error completed
    | response header =>
      rw [Connection.onWrote] at completed
      split at completed
      · rw [Connection.doRead, Connection.asyncReadSome] at completed
        split at completed
        · cases completed
          exact ⟨contexts, .inl error⟩
        · cases completed
      · cases completed
        exact ⟨contexts, .inl error⟩
  · rw [empty] at outstanding
    cases outstanding

theorem over_posted {e : Environment} {c d : Connection} (closed : Over c)
    (posted : c.step e (.posted index now) = some d) : Over d := by
  obtain ⟨startWaitClock, outstanding, looked⟩ := Option.bind_eq_some_iff.mp posted
  obtain ⟨contexts, error | ⟨-, -, empty⟩⟩ := closed
  · exact over_looked (c := { c with posts := c.posts.eraseIdx index }) contexts error looked
  · rw [empty] at outstanding
    cases outstanding

/-- When the answer is written, what a reset leaves is what a new connection has. -/
theorem turning_wrote (turning : Turning env s)
    (stepped : step env s (.wrote index now) = some t) : Turning env t := by
  obtain ⟨done, later, sent, presented, doing⟩ := turning
  obtain ⟨operation, outstanding, rest⟩ := Option.bind_eq_some_iff.mp stepped
  obtain ⟨c, wrote, rfl⟩ := Option.map_eq_some_iff.mp rest
  have kept : (if Resets s.connection operation then s.reset else s).sent = done ++ later ∧
      (if Resets s.connection operation then s.reset else s).presented = s.presented := by
    split
    · exact ⟨sent, rfl⟩
    · exact ⟨sent, rfl⟩
  have presented : List.Forall₂ (fun m p => alone env m = some p) done
      (if Resets s.connection operation then s.reset else s).presented := by
    rw [kept.2]
    exact presented
  refine ⟨done, later, kept.1, presented, ?_⟩
  rcases doing with closed | ⟨doing, working, position⟩
  · exact .inl (over_wrote closed wrote)
  · cases doing with
    | reading made =>
      rw [working.writes] at outstanding
      cases outstanding
    | handling =>
      rw [working.writes] at outstanding
      cases outstanding
    | writing header =>
      obtain ⟨empty, last, freed⟩ := position
      rw [working.writes] at outstanding
      cases index with
      | succ index => cases outstanding
      | zero =>
        cases outstanding
        rcases Connection.wrote_cases working.writes wrote with ⟨keep, rfl⟩ | ⟨-, rfl⟩
        · right
          have resets : (if Resets s.connection (.response header) then s.reset else s) =
              s.reset := if_pos keep
          rw [resets]
          refine ⟨.reading [], ?_, ?_, .inl ⟨rfl, empty, last⟩⟩
          · constructor
            · exact congrArg (· + 1) working.reads
            · exact working.contexts
            · rfl
            · exact working.posts
            · exact working.clean
            · exact working.socket
          · constructor
            · exact ⟨_, _, _, congrArg some (Session.reset_fresh freed).symm⟩
            · rfl
            · rfl
            · rfl
            · rfl
        · exact .inl ⟨working.contexts, .inr ⟨working.reads, rfl, working.posts⟩⟩

theorem turning_posted (turning : Turning env s)
    (stepped : step env s (.posted index now) = some t) : Turning env t := by
  obtain ⟨done, later, sent, presented, doing⟩ := turning
  obtain ⟨c, posted, rfl⟩ := Option.map_eq_some_iff.mp stepped
  refine ⟨done, later, sent, presented, ?_⟩
  rcases doing with closed | ⟨doing, working, position⟩
  · exact .inl (over_posted closed posted)
  · obtain ⟨startWaitClock, outstanding, -⟩ := Option.bind_eq_some_iff.mp posted
    rw [working.posts] at outstanding
    cases outstanding

theorem turning_step (turning : Turning env s) (stepped : step env s e = some t)
    (plain : Plain s e t) : Turning env t := by
  cases e with
  | send m => exact turning_send turning plain stepped
  | read count => exact turning_read turning stepped
  | respond response cookies pathParameters => exact turning_respond turning plain stepped
  | wrote index now => exact turning_wrote turning stepped
  | posted index now => exact turning_posted turning stepped
  | pushChunkedBody body isLast => exact plain.elim

theorem isolated_of_turning (turning : Turning env s) : Isolated env s := by
  obtain ⟨done, later, sent, presented, -⟩ := turning
  exact ⟨done, ⟨later, sent.symm⟩, presented⟩

/-- In every run whose requests do not ask for an interim response and whose responses
are not chunked, each request is presented as it would be on a new connection. -/
theorem isolated_of_plain (env : TurnsEnvironment) {events : List Event}
    (plain : Transition.Steps (step env) Plain start events) :
    Transition.Throughout (step env) (Isolated env) start events :=
  Transition.throughout_of_steps turning_step isolated_of_turning (turning_start env) plain

/-- One application, and forms without parts. -/
def single : TurnsEnvironment :=
  { Environment.single .root with transferMultiParts := fun _ parts => ([], parts) }

def twoTurns : List Event :=
  [.send (Session.short 97 65 49), .read 6, .respond .constructed [] .empty, .wrote 0 0,
    .send (Session.short 98 66 50), .read 6]

theorem isolated_of_plain_twoTurns :
    Transition.Throughout (step single) (Isolated single) start twoTurns := by
  apply isolated_of_plain
  have first : ¬(Session.short 97 65 49).AsksToContinue := by decide
  have second : ¬(Session.short 98 66 50).AsksToContinue := by decide
  exact fun _ _ => ⟨first, fun _ _ => ⟨trivial, fun _ _ => ⟨rfl, fun _ _ => ⟨trivial, fun _ _ =>
    ⟨second, fun _ _ => ⟨trivial, trivial⟩⟩⟩⟩⟩⟩

/-- `Ex: 1`, `Ex: 2` and `pect: 100-continue`: the last one is stored as `Expect`. -/
def mergedExpect : Message where
  target := [[47, 97]]
  headers := [.uncut (Bytes.ofAscii "Ex") [49] (by decide),
    .uncut (Bytes.ofAscii "Ex") [50] (by decide),
    .uncut (Bytes.ofAscii "pect") Reading.continueValue (by decide)]
  fields := { method := httpGet, httpMajor := 1, httpMinor := 1 }
  body := []

/-- What one user gets. -/
def secret : Response := { Response.constructed.markKeepAlive with body := [115] }

/-- The answer to the first request is still there for the second one. -/
theorem answer_leaks : ∃ s, Transition.run (step single) start
    [.send mergedExpect, .read 10, .wrote 0 0, .respond secret [] .empty, .wrote 0 0,
      .send (Session.short 98 66 50), .read 6] = some s ∧ ¬Isolated single s := by
  have leaked : ∃ s, Transition.run (step single) start
      [.send mergedExpect, .read 10, .wrote 0 0, .respond secret [] .empty, .wrote 0 0,
        .send (Session.short 98 66 50), .read 6] = some s ∧
      s.sent = [mergedExpect, Session.short 98 66 50] ∧
      s.presented.map (fun p => p.response.body) = [[], [115]] := ⟨_, rfl, rfl, rfl⟩
  obtain ⟨s, ran, sent, bodies⟩ := leaked
  refine ⟨s, ran, ?_⟩
  rintro ⟨done, ⟨later, parts⟩, presented⟩
  have both : done.length = 2 := by
    have count := congrArg List.length bodies
    rw [List.length_map] at count
    rw [presented.length_eq, count]
    rfl
  have same : done = [mergedExpect, Session.short 98 66 50] := by
    have taken : (done ++ later).take done.length = done := List.take_left
    rw [parts, sent, both] at taken
    exact taken.symm
  subst same
  generalize s.presented = requests at presented bodies
  cases presented with
  | cons _ others =>
    cases others with
    | cons second _ =>
      have body : (alone single (Session.short 98 66 50)).map (fun p => p.response.body) =
          some [] := by
        decide
      rw [second] at body
      have other := congrArg (List.map some) bodies
      rw [List.map_cons, List.map_cons, List.map_cons, List.map_cons] at other
      injection other with _ other
      injection other with other _
      rw [Option.map_some, other] at body
      cases body

end Turns
end Da4qi4
