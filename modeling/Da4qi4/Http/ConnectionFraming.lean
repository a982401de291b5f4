import Da4qi4.Http.ConnectionReading
import Da4qi4.Http.ResponseText

/-! The responses of handlers on one connection, as a client frames what is written.
The serialiser knows the status code but not the method of the request. -/
namespace Da4qi4
open Utilities
open ResponseFraming (Method frames)

def httpHead : Nat := 2

def httpConnect : Nat := 5

theorem get_ne_connect : httpGet ≠ httpConnect := by decide

def framingMethod (method : Nat) : Method :=
  if method = httpHead then .head else if method = httpConnect then .connect else .other

/-- What a handler leaves to be written. -/
structure Reply where
  response : Response
  cookies : List Bytes := []
  plain : response.Plain cookies

/-- The parser marks a request to connect as an upgrade. -/
def ParserCallback.marksConnect : ParserCallback → Bool
  | .headersComplete p => p.method ≠ httpConnect || p.upgrade
  | _ => true

namespace Response

theorem sendable_appendConnection {r : Response} (sendable : r.Sendable cookies)
    (line : IsLine value) : (r.appendHeader connectionField value).Sendable cookies := by
  obtain ⟨⟨least, most, unchunked, headers, cookies⟩, major, minor⟩ := sendable
  have different : foldCase connectionField ≠ foldCase transferEncodingField := by decide
  have empty : IsLine [] := by decide
  refine ⟨⟨least, most, ?_, fun h member => ?_, cookies⟩, major, minor⟩
  · simp only [isChunked, appendHeader, tryGetHeader, Utilities.tryGetHeader, OrderedMap.lookup,
      OrderedMap.find_assign_other _ _ different] at unchunked ⊢
    exact unchunked
  · rcases OrderedMap.mem_assign member with old | ⟨same, key⟩
    · exact headers h old
    · have plainName {name : Bytes} (plain : IsPlainHeader (name, []))
          (key : h.1 = name) : IsPlainHeader h := by
        obtain ⟨some_, token, -, coding, length⟩ := plain
        refine ⟨key ▸ some_, key ▸ token, same ▸ line, key ▸ coding, key ▸ length⟩
      rcases key with key | ⟨f, old, key⟩
      · exact plainName (by decide) key
      · obtain ⟨some_, token, -, others⟩ := headers f old
        exact plainName ⟨some_, token, empty, others⟩ key

end Response

/-- The octets are those of the response, with what the connection has added. -/
def Reply.Carries (reply : Reply) (octets : Bytes) : Prop :=
  ∃ written : Response, written.Sendable reply.cookies ∧ octets = written.text reply.cookies ∧
    written.statusCode = reply.response.statusCode ∧ written.body = reply.response.body

namespace Connection

theorem prepared {c : Connection} (plain : c.response.Plain cookies) : ∃ written : Response,
    c.prepareResponseHeadersAboutConnection = { c with response := written } ∧
      written.Sendable cookies ∧ written.statusCode = c.response.statusCode ∧
      written.body = c.response.body := by
  have versioned (minor : Nat) (digit : minor < 10) :
      (c.response.setVersion 1 minor).Sendable cookies :=
    ⟨⟨plain.least, plain.most, plain.unchunked, plain.headers, plain.cookies⟩,
      show 1 < 10 by omega, digit⟩
  have old := versioned 0 (by omega)
  have current := versioned 1 (by omega)
  rw [prepareResponseHeadersAboutConnection]
  split
  · split
    · exact ⟨_, rfl, Response.sendable_appendConnection old (by decide), rfl, rfl⟩
    · exact ⟨_, rfl, old, rfl, rfl⟩
  · split
    · exact ⟨_, rfl, current, rfl, rfl⟩
    · exact ⟨_, rfl, Response.sendable_appendConnection current (by decide), rfl, rfl⟩

theorem startWrite_plain {c d : Connection} (plain : c.response.Plain cookies)
    (started : c.startWrite = some d) : ∃ written : Response,
      d = { c with response := written, writes := c.writes ++ [.response written] } ∧
        written.Sendable cookies ∧ written.statusCode = c.response.statusCode ∧
        written.body = c.response.body := by
  obtain ⟨written, same, kept⟩ := prepared plain
  have open_ : ¬c.response.isChunked = true := Bool.eq_false_iff.mp plain.unchunked
  rw [startWrite, if_neg open_, doWrite, same, asyncWrite] at started
  split at started
  · cases started
    exact ⟨written, rfl, kept⟩
  · cases started

/-- A callback fills the buffers, or starts a response. -/
def Touches (c d : Connection) : Prop :=
  ∃ reading errno response writes block,
    d = { c with
      toReading := reading
      parserErrno := errno
      response := response
      writes := writes
      block := block }

theorem Touches.trans {c d e : Connection} (first : c.Touches d) (second : d.Touches e) :
    c.Touches e := by
  obtain ⟨_, _, _, _, _, rfl⟩ := first
  obtain ⟨_, _, _, _, _, rfl⟩ := second
  exact ⟨_, _, _, _, _, rfl⟩

theorem touches_startWrite {c d : Connection} {response : Response}
    (started : { c with response := response }.startWrite = some d) : c.Touches d := by
  obtain ⟨-, written, operation, rfl⟩ := startWrite_cases started
  exact ⟨_, _, _, _, _, rfl⟩

theorem touches_onRouted {c : Connection} {answer : Connection × Returned}
    (answered : c.onRouted routed = some answer) : c.Touches answer.1 := by
  rw [onRouted] at answered
  split at answered
  · obtain ⟨d, written, rfl⟩ := Option.map_eq_some_iff.mp answered
    exact touches_startWrite written
  · split at answered
    · obtain ⟨d, written, rfl⟩ := Option.map_eq_some_iff.mp answered
      exact touches_startWrite written
    · split at answered
      · cases answered
        exact ⟨_, _, _, _, _, rfl⟩
      · cases answered
        exact ⟨_, _, _, _, _, rfl⟩

theorem touches_onHeadersComplete {c : Connection} {answer : Connection × Returned}
    (answered : c.onHeadersComplete env p = some answer) : c.Touches answer.1 := by
  have parsed : c.Touches (c.headerParsed env p) := ⟨_, _, _, _, _, rfl⟩
  rcases onHeadersComplete_cases answered with ⟨app, url, routed⟩ | ⟨-, app, written⟩
  · have placed : c.Touches ((c.headerParsed env p).placeUnder app url) := ⟨_, _, _, _, _, rfl⟩
    exact placed.trans (touches_onRouted routed)
  · have unrouted : c.Touches { c.headerParsed env p with app := app } := ⟨_, _, _, _, _, rfl⟩
    exact unrouted.trans (touches_startWrite written)

theorem touches_callback {c : Connection} {answer : Connection × Returned}
    (answered : c.callback env made = some answer) : c.Touches answer.1 := by
  cases made with
  | headersComplete p => exact touches_onHeadersComplete answered
  | body data =>
    rw [callback, onBody] at answered
    split at answered
    · obtain ⟨d, written, rfl⟩ := Option.map_eq_some_iff.mp answered
      exact touches_startWrite written
    · cases answered
      exact ⟨_, _, _, _, _, rfl⟩
  | _ =>
    cases answered
    exact ⟨_, _, _, _, _, rfl⟩

/-- A request to connect is known as an upgrade. -/
def Marked (c : Connection) : Prop :=
  c.request.method = httpConnect → c.parserFields.upgrade = true

theorem Marked.of_taken {c d : Connection} (marked : c.Marked)
    (same : d.toReading.taken = c.toReading.taken) : d.Marked := by
  have method : d.request.method = c.request.method := congrArg Taken.method same
  have fields : d.parserFields = c.parserFields := congrArg Taken.parserFields same
  rw [Marked, method, fields]
  exact marked

theorem marked_headerParsed {c : Connection} (marks : p.method = httpConnect → p.upgrade = true) :
    (c.headerParsed env p).Marked := by
  have parsed := Reading.headerParsed_spec env c.toReading p
  have method : (c.headerParsed env p).request.method = p.method := parsed.method
  have fields : (c.headerParsed env p).parserFields = p := parsed.parserFields
  rw [Marked, method, fields]
  exact marks

theorem marked_callback {c : Connection} {answer : Connection × Returned} (marked : c.Marked)
    (marks : made.marksConnect = true) (answered : c.callback env made = some answer) :
    answer.1.Marked := by
  cases made with
  | headersComplete p =>
    have upgrade : p.method = httpConnect → p.upgrade = true := by
      intro connect
      rw [ParserCallback.marksConnect, Bool.or_eq_true, decide_eq_true_eq] at marks
      exact marks.resolve_left fun other => other connect
    have parsed : (c.headerParsed env p).Marked := marked_headerParsed upgrade
    rcases onHeadersComplete_cases answered with ⟨app, url, routed⟩ | ⟨-, app, written⟩
    · have placed : ((c.headerParsed env p).placeUnder app url).Marked := parsed
      exact placed.of_taken (congrArg Progress.toTaken (progress_onRouted routed))
    · have unrouted : ({ c.headerParsed env p with app := app } : Connection).Marked := parsed
      exact unrouted.of_taken (congrArg Progress.toTaken (progress_reply written))
  | headerField data =>
    cases answered
    have committed : c.toReading.tryCommitReadingRequestHeader.request.method = c.request.method ∧
        c.toReading.tryCommitReadingRequestHeader.parserFields = c.parserFields := by
      rw [Reading.tryCommitReadingRequestHeader]
      split <;> exact ⟨rfl, rfl⟩
    change (c.toReading.onHeaderField data).request.method = _ →
      (c.toReading.onHeaderField data).parserFields.upgrade = _
    rw [Reading.onHeaderField]
    split
    · simp only [committed]
      exact marked
    · simp only [committed]
      exact marked
  | body data => exact marked.of_taken (congrArg Progress.toTaken (progress_onBody answered))
  | messageBegin | url data | headerValue data | messageComplete =>
    cases answered
    exact marked

theorem callbacks_keep {c d : Connection} (marked : c.Marked)
    (marks : made.all ParserCallback.marksConnect = true)
    (executed : c.callbacks env errno made = some d) : d.Marked ∧ c.Touches d := by
  induction made generalizing c with
  | nil =>
    cases executed
    exact ⟨marked, _, _, _, _, _, rfl⟩
  | cons callback made ih =>
    obtain ⟨answer, answered, rest⟩ := Option.bind_eq_some_iff.mp executed
    rw [List.all_cons, Bool.and_eq_true] at marks
    have first := marked_callback marked marks.1 answered
    have touched := touches_callback answered
    split at rest
    · obtain ⟨kept, further⟩ := ih first marks.2 rest
      exact ⟨kept, touched.trans further⟩
    · cases rest
      exact ⟨first, touched.trans ⟨_, _, _, _, _, rfl⟩⟩

theorem execute_keeps {c d : Connection} (marked : c.Marked)
    (marks : made.all ParserCallback.marksConnect = true)
    (executed : c.execute env errno made = some d) : d.Marked ∧ c.Touches d := by
  rw [execute] at executed
  split at executed
  · exact callbacks_keep marked marks executed
  · cases executed
    exact ⟨marked, _, _, _, _, _, rfl⟩

/-- What was read to its end starts a context, unless it is an upgrade. -/
theorem onMessageRead_starts {c d : Connection} (handled : c.onMessageRead env = some d) :
    (∃ parser app, c.parserFields.upgrade = false ∧
        d = { c with mpParser := parser }.startContext app) ∨
      ∃ parser socket request,
        d = { c with mpParser := parser, socket := socket, request := request } ∧
          request.method = c.request.method := by
  simp only [onMessageRead] at handled
  split at handled
  · cases handled
  · split at handled
    · rw [doUpgrade] at handled
      split at handled
      · cases handled
      · split at handled
        · cases handled
          exact .inr ⟨_, _, _, rfl, rfl⟩
        · split at handled
          · cases handled
            exact .inr ⟨_, _, _, rfl, rfl⟩
          · obtain ⟨app, -, rfl⟩ := Option.map_eq_some_iff.mp handled
            split
            · exact .inr ⟨_, _, _, rfl, rfl⟩
            · exact .inr ⟨_, _, _, rfl, rfl⟩
    · rename_i plain
      obtain ⟨app, -, rfl⟩ := Option.map_eq_some_iff.mp handled
      exact .inl ⟨none, app, Bool.eq_false_iff.mpr plain, rfl⟩

end Connection

/-- A connection whose responses come from handlers. The replies are kept in the
order they were given, and the octets of every write that has ended. -/
structure Serving where
  connection : Connection
  replies : List Reply := []
  writeBuffer : Bytes := []
  sent : List Bytes := []

namespace Serving

inductive Event where
  | read (errno : ParserErrno) (made : List ParserCallback)
  | respond (reply : Reply)
  | wrote (index : Nat) (now : Int)

/-- Reads that the connection answers by itself are left out. -/
def step (env : Environment) (s : Serving) : Event → Option Serving
  | .read errno made =>
    if made.all ParserCallback.marksConnect then
      (s.connection.step env (.read errno made)).bind fun c =>
        if c.writes = s.connection.writes then some { s with connection := c } else none
    else none
  | .respond reply =>
    (s.connection.step env (.respond reply.response)).map fun c =>
      { s with
        connection := c
        replies := s.replies ++ [reply]
        writeBuffer := s.writeBuffer ++ c.response.text reply.cookies }
  | .wrote index now =>
    (s.connection.step env (.wrote index now)).map fun c =>
      { s with connection := c, writeBuffer := [], sent := s.sent ++ [s.writeBuffer] }

def started : Serving := { connection := .started }

/-- The methods of the requests that handlers were started for. -/
def methods (s : Serving) : List Method :=
  s.connection.dispatched.map fun d => framingMethod d.request.method

/-- The requests whose responses were written, and what the handlers left. -/
def answered (s : Serving) : List (Method × Reply) :=
  (s.methods.take s.sent.length).zip (s.replies.take s.sent.length)

/-- Status code and body as the handler has set them, in the octets of its write. -/
def expected (reply : Reply) (octets : Bytes) : ResponseFraming.Message :=
  ⟨reply.response.statusCode, reply.response.body, octets⟩

/-- A client sees the responses of the handlers, and nothing else. -/
def Framed (s : Serving) : Prop :=
  frames (s.methods.take s.sent.length) s.sent.flatten =
    some (List.zipWith expected (s.replies.take s.sent.length) s.sent, [])

theorem framed_carried {replies : List Reply} {sent : List Bytes} {methods : List Method}
    (carried : List.Forall₂ Reply.Carries replies sent) (same : methods.length = sent.length)
    (kept : ∀ method ∈ methods, method ≠ .connect) :
    frames methods sent.flatten = some (List.zipWith expected replies sent, []) ↔
      ∀ answer ∈ methods.zip replies, answer.2.response.Framable answer.1 := by
  induction carried generalizing methods with
  | nil =>
    obtain rfl := List.length_eq_zero_iff.mp same
    exact iff_of_true rfl fun _ member => nomatch member
  | @cons reply octets replies sent first others ih =>
    cases methods with
    | nil => cases same
    | cons method methods =>
      obtain ⟨written, sendable, rfl, code, body⟩ := first
      have message :
          expected reply (written.text reply.cookies) = written.message reply.cookies := by
        rw [expected, ← code, ← body]
        rfl
      have framable : written.Framable method ↔ reply.response.Framable method := by
        rw [Response.Framable, Response.Framable, code, body]
      have further := ih (Nat.succ.inj same) fun next member =>
        kept next (List.mem_cons_of_mem method member)
      rw [List.flatten_cons, List.zipWith_cons_cons, message,
        Response.frames_text_iff sendable (kept method List.mem_cons_self), further,
        List.zip_cons_cons, List.forall_mem_cons, framable]

/-- What is outstanding. -/
inductive Stage where
  | reading
  | handling
  | writing (written : Response)
  | finished

namespace Stage

def reads : Stage → Nat
  | .reading => 1
  | _ => 0

def contexts : Stage → Nat
  | .handling => 1
  | _ => 0

def writes : Stage → List WriteOperation
  | .writing written => [.response written]
  | _ => []

/-- What is in the buffer. -/
def buffered (writeBuffer : Bytes) : Stage → List Bytes
  | .writing _ => [writeBuffer]
  | _ => []

end Stage

/-- At most one operation is outstanding, and the replies are carried in order. -/
structure Serves (stage : Stage) (s : Serving) : Prop where
  reads : s.connection.reads = stage.reads
  contexts : s.connection.contexts = stage.contexts
  writes : s.connection.writes = stage.writes
  buffer : stage.writes = [] → s.writeBuffer = []
  replies : s.connection.dispatched.length = s.replies.length + stage.contexts
  carried : List.Forall₂ Reply.Carries s.replies (s.sent ++ stage.buffered s.writeBuffer)
  kept : ∀ d ∈ s.connection.dispatched, d.request.method ≠ httpConnect
  marked : s.connection.Marked

theorem serves_started : Serves .reading started := by
  constructor
  · rfl
  · rfl
  · rfl
  · intro _
    rfl
  · rfl
  · exact .nil
  · intro _ member
    cases member
  · intro connect
    exact absurd connect get_ne_connect

theorem Stage.reads_ne_zero {stage : Stage} (outstanding : stage.reads ≠ 0) : stage = .reading := by
  cases stage with
  | reading => rfl
  | handling => exact absurd rfl outstanding
  | writing written => exact absurd rfl outstanding
  | finished => exact absurd rfl outstanding

theorem Stage.contexts_ne_zero {stage : Stage} (outstanding : stage.contexts ≠ 0) :
    stage = .handling := by
  cases stage with
  | handling => rfl
  | reading => exact absurd rfl outstanding
  | writing written => exact absurd rfl outstanding
  | finished => exact absurd rfl outstanding

/-- A stage in which nothing is written. -/
def Stage.Silent (stage : Stage) : Prop := ∀ written, stage ≠ .writing written

theorem Stage.Silent.writes {stage : Stage} (silent : stage.Silent) : stage.writes = [] := by
  cases stage with
  | writing written => exact absurd rfl (silent written)
  | reading => rfl
  | handling => rfl
  | finished => rfl

theorem Stage.Silent.buffered {stage : Stage} (silent : stage.Silent) (writeBuffer : Bytes) :
    stage.buffered writeBuffer = [] := by
  cases stage with
  | writing written => exact absurd rfl (silent written)
  | reading => rfl
  | handling => rfl
  | finished => rfl

/-- Nothing is written before a read ends, and nothing right behind it. -/
theorem serves_moved {c : Connection} (serves : Serves .reading s) (silent : next.Silent)
    (reads : c.reads = next.reads) (contexts : c.contexts = next.contexts) (writes : c.writes = [])
    (dispatched : c.dispatched.length = s.connection.dispatched.length + next.contexts)
    (kept : ∀ d ∈ c.dispatched, d.request.method ≠ httpConnect) (marked : c.Marked) :
    Serves next { s with connection := c } := by
  have replied : s.connection.dispatched.length = s.replies.length := serves.replies
  refine ⟨reads, contexts, ?_, fun _ => serves.buffer rfl, ?_, ?_, kept, marked⟩
  · rw [silent.writes]
    exact writes
  · rw [dispatched, replied]
  · rw [silent.buffered]
    exact serves.carried

/-- A message that was read to its end is handed over, or ends the connection. -/
theorem serves_handed {env : Environment} {c d : Connection} (serves : Serves .reading s)
    (handed : d.onMessageRead env = some c) (reads : d.reads = 0) (contexts : d.contexts = 0)
    (dispatched : d.dispatched = s.connection.dispatched) (marked : d.Marked)
    (writes : c.writes = []) :
    ∃ next, Serves next { s with connection := c } := by
  have kept : ∀ e ∈ d.dispatched, e.request.method ≠ httpConnect := by
    rw [dispatched]
    exact serves.kept
  have same : d.dispatched.length = s.connection.dispatched.length := by
    rw [dispatched]
  rcases Connection.onMessageRead_starts handed with
    ⟨parser, app, plain, rfl⟩ | ⟨parser, socket, request, rfl, method⟩
  · refine ⟨.handling,
      serves_moved serves (fun _ => Stage.noConfusion) reads ?_ writes ?_ ?_ marked⟩
    · exact congrArg (· + 1) contexts
    · exact List.length_append.trans (congrArg (· + 1) same)
    · intro e member
      rcases List.mem_append.mp member with old | new
      · exact kept e old
      · obtain rfl := List.mem_singleton.mp new
        intro connect
        rw [marked connect] at plain
        cases plain
  · refine ⟨.finished,
      serves_moved serves (fun _ => Stage.noConfusion) reads contexts writes same kept ?_⟩
    intro connect
    exact marked (method.symm.trans connect)

theorem serves_read {env : Environment} (serves : Serves stage s)
    (stepped : s.step env (.read errno made) = some t) : ∃ next, Serves next t := by
  rw [step] at stepped
  split at stepped
  · rename_i marks
    obtain ⟨c, read, rest⟩ := Option.bind_eq_some_iff.mp stepped
    split at rest
    · rename_i unwritten
      cases rest
      rw [Connection.step] at read
      split at read
      · cases read
      · rename_i outstanding
        rw [serves.reads] at outstanding
        obtain rfl := Stage.reads_ne_zero outstanding
        have writes : c.writes = [] := unwritten.trans serves.writes
        obtain ⟨d, executed, handled⟩ := Option.bind_eq_some_iff.mp read
        have before : ({ s.connection with reads := s.connection.reads - 1 } : Connection).Marked :=
          serves.marked
        obtain ⟨marked, reading, errno, response, others, block, rfl⟩ :=
          Connection.execute_keeps before marks executed
        have none : s.connection.reads - 1 = 0 := by
          rw [serves.reads]
          rfl
        have idle : s.connection.contexts = 0 := serves.contexts
        split at handled
        · cases handled
          exact ⟨.finished, serves_moved serves (fun _ => Stage.noConfusion) none idle writes rfl
            serves.kept marked⟩
        · split at handled
          · rw [Connection.doRead, Connection.asyncReadSome] at handled
            split at handled
            · cases handled
              refine ⟨.reading, serves_moved serves (fun _ => Stage.noConfusion) ?_ idle writes rfl
                serves.kept marked⟩
              exact congrArg (· + 1) none
            · cases handled
          · exact serves_handed serves handled none idle rfl marked writes
    · cases rest
  · cases stepped

theorem serves_respond {env : Environment} (serves : Serves stage s)
    (stepped : s.step env (.respond reply) = some t) : ∃ next, Serves next t := by
  obtain ⟨c, responded, rfl⟩ := Option.map_eq_some_iff.mp stepped
  rw [Connection.step] at responded
  split at responded
  · cases responded
  · rename_i running
    rw [serves.contexts] at running
    obtain rfl := Stage.contexts_ne_zero running
    obtain ⟨written, rfl, sendable, code, body⟩ :=
      Connection.startWrite_plain (c := { s.connection with
        response := reply.response
        contexts := s.connection.contexts - 1 }) reply.plain responded
    have empty : s.writeBuffer = [] := serves.buffer rfl
    have replied : s.connection.dispatched.length = s.replies.length + 1 := serves.replies
    have carried : List.Forall₂ Reply.Carries s.replies (s.sent ++ []) := serves.carried
    refine ⟨.writing written, serves.reads, ?_, ?_,
      (fun none => absurd none (List.cons_ne_nil _ _)), ?_, ?_, serves.kept, serves.marked⟩
    · change s.connection.contexts - 1 = 0
      rw [serves.contexts]
      rfl
    · change s.connection.writes ++ [.response written] = _
      rw [serves.writes]
      rfl
    · change s.connection.dispatched.length = (s.replies ++ [reply]).length + 0
      rw [replied, List.length_append]
      rfl
    · rw [List.append_nil] at carried
      refine List.rel_append carried (.cons ⟨written, sendable, ?_, code, body⟩ .nil)
      rw [empty, List.nil_append]

theorem serves_wrote {env : Environment} (serves : Serves stage s)
    (stepped : s.step env (.wrote index now) = some t) : ∃ next, Serves next t := by
  obtain ⟨c, completed, rfl⟩ := Option.map_eq_some_iff.mp stepped
  obtain ⟨operation, outstanding, wrote⟩ := Option.bind_eq_some_iff.mp completed
  rw [serves.writes] at outstanding
  cases stage with
  | reading => cases outstanding
  | handling => cases outstanding
  | finished => cases outstanding
  | writing written =>
    cases index with
    | succ index => cases outstanding
    | zero =>
      obtain rfl : WriteOperation.response written = operation := Option.some.inj outstanding
      have writes : s.connection.writes.eraseIdx 0 = [] := by
        rw [serves.writes]
        rfl
      have carried : List.Forall₂ Reply.Carries s.replies (s.sent ++ [s.writeBuffer] ++ []) := by
        rw [List.append_nil]
        exact serves.carried
      rw [Connection.onWrote] at wrote
      split at wrote
      · rw [Connection.doRead, Connection.asyncReadSome] at wrote
        split at wrote
        · cases wrote
          refine ⟨.reading, ?_, serves.contexts, writes, (fun _ => rfl), serves.replies, carried,
            serves.kept, fun connect => absurd connect get_ne_connect⟩
          exact congrArg (· + 1) serves.reads
        · cases wrote
      · cases wrote
        exact ⟨.finished, serves.reads, serves.contexts, writes, (fun _ => rfl), serves.replies,
          carried, serves.kept, serves.marked⟩

theorem serves_step {env : Environment} (serves : ∃ stage, Serves stage s)
    (stepped : s.step env e = some t) : ∃ stage, Serves stage t := by
  obtain ⟨stage, serves⟩ := serves
  cases e with
  | read errno made => exact serves_read serves stepped
  | respond reply => exact serves_respond serves stepped
  | wrote index now => exact serves_wrote serves stepped

theorem Stage.replied (stage : Stage) (writeBuffer : Bytes) :
    (stage.buffered writeBuffer).length = stage.writes.length := by
  cases stage <;> rfl

/-- Every request that a handler was started for is handled, being answered, or
answered; and a client sees one final response for each answered one, in order and
with nothing between them, exactly if each of them is one that it can frame. -/
theorem framed_iff (env : Environment) (ran : Transition.run (step env) started events = some s) :
    s.connection.dispatched.length =
        s.sent.length + s.connection.writes.length + s.connection.contexts ∧
      (s.Framed ↔ ∀ answer ∈ s.answered, answer.2.response.Framable answer.1) := by
  obtain ⟨stage, serves⟩ := Transition.run_invariant serves_step ⟨.reading, serves_started⟩ ran
  have count : s.replies.length = s.sent.length + s.connection.writes.length := by
    rw [serves.carried.length_eq, List.length_append, stage.replied, serves.writes]
  have dispatched : s.connection.dispatched.length =
      s.sent.length + s.connection.writes.length + s.connection.contexts := by
    rw [serves.replies, count, serves.contexts]
  refine ⟨dispatched, ?_⟩
  have carried := List.forall₂_take_append s.replies s.sent _ serves.carried
  have same : (s.methods.take s.sent.length).length = s.sent.length := by
    rw [List.length_take, methods, List.length_map]
    omega
  apply framed_carried carried same
  intro method member
  obtain ⟨d, old, rfl⟩ := List.mem_map.mp (List.mem_of_mem_take member)
  have other := serves.kept d old
  rw [framingMethod, if_neg other]
  split
  · exact nofun
  · exact nofun

/-- The default body is the name of the status. -/
theorem replyStatus_framable_iff (r : Response) (code : Nat) (body : Bytes) (method : Method) :
    (r.replyStatus code body).Framable method ↔
      ResponseFraming.isInterim code = false ∧ (ResponseFraming.isBodiless method code = true →
        body = [] ∧ Bytes.ofAscii (httpStatusSummary code) = []) := by
  cases body with
  | nil =>
    have replied : r.replyStatus code =
        { ({ r with statusCode := code } : Response).setContentType (Bytes.ofAscii "text/plain") with
          body := Bytes.ofAscii (httpStatusSummary code) } := rfl
    have status : (r.replyStatus code).statusCode = code := by
      rw [replied]
      rfl
    have default : (r.replyStatus code).body = Bytes.ofAscii (httpStatusSummary code) := by
      rw [replied]
    simp only [Response.Framable, status, default, true_and]
  | cons c body =>
    have replied : r.replyStatus code (c :: body) =
        { r with statusCode := code, body := c :: body } := rfl
    simp only [Response.Framable, replied, reduceCtorEq, false_and]

def statusReply (code : Nat) (plain : (Response.constructed.replyStatus code).Plain []) : Reply :=
  { response := Response.constructed.replyStatus code, plain := plain }

def ok : Reply := statusReply 200
  ⟨by decide, by decide, by decide, by decide, fun _ member => nomatch member⟩

def noContent : Reply := statusReply 204
  ⟨by decide, by decide, by decide, by decide, fun _ member => nomatch member⟩

/-- A read that brings one request, for the root. -/
def request (method : Nat) : Event :=
  .read .ok [.messageBegin, .url [47],
    .headersComplete { method := method, httpMajor := 1, httpMinor := 1 }, .messageComplete]

theorem framed_iff_get : ∃ s, Transition.run (step (.single .root)) started
    [request httpGet, .respond ok, .wrote 0 0] = some s ∧ s.Framed := by
  have ran : Transition.run (step (.single .root)) started
      [request httpGet, .respond ok, .wrote 0 0] = some _ := rfl
  exact ⟨_, ran, (framed_iff (.single .root) ran).2.mpr (by decide)⟩

theorem not_framed_of_none {s : Serving}
    (unframed : frames (s.methods.take s.sent.length) s.sent.flatten = none) : ¬s.Framed := by
  intro framed
  rw [Framed, unframed] at framed
  cases framed

/-- The body of a response without one is taken for the start of the next response. -/
theorem noContent_shifts : ∃ s, Transition.run (step (.single .root)) started
    [request httpGet, .respond noContent, .wrote 0 0, request httpGet, .respond ok, .wrote 0 0] =
      some s ∧ frames (s.methods.take s.sent.length) s.sent.flatten = none ∧ ¬s.Framed := by
  have unframed : (Transition.run (step (.single .root)) started
      [request httpGet, .respond noContent, .wrote 0 0,
        request httpGet, .respond ok, .wrote 0 0]).map
        (fun s => frames (s.methods.take s.sent.length) s.sent.flatten) = some none := by
    decide +kernel
  obtain ⟨s, ran, none⟩ := Option.map_eq_some_iff.mp unframed
  exact ⟨s, ran, none, not_framed_of_none none⟩

end Serving
end Da4qi4
