import Da4qi4.Http.ConnectionFraming
import Da4qi4.Http.ConnectionPersistence

/-! A client that waits for its answers: a request is sent when nothing of the answer
before it is outstanding. What a connection keeps beside its buffers goes along: form
data, path parameters, and the cookies of responses. -/
namespace Da4qi4
open Utilities

inductive DataFlag where
  | isData | isFileData | isFileTemporaryName
  deriving DecidableEq, Repr

structure FormDataItem where
  name : Bytes
  dataFlag : DataFlag := .isData
  filename : Bytes := []
  contentType : Bytes := []
  data : Bytes
  deriving DecidableEq, Repr

/-- The request and the response that a chain of interceptors is given. -/
structure Presented where
  app : Application
  request : Request
  formData : List FormDataItem
  pathParameters : UrlParameters
  response : Response
  cookies : List Cookie
  deriving DecidableEq

/-- What the items of a form and the parts that are left are made of is up to
`TransferMultiPartsToFormData`, which names its files by the clock. -/
structure TurnsEnvironment extends Environment where
  transferMultiParts : Application → List MultiPart → List FormDataItem × List MultiPart

/-- The requests sent, those presented and the header blocks written are recorded. -/
structure Turns where
  connection : Connection
  formData : List FormDataItem := []
  pathParameters : UrlParameters := .empty
  cookies : List Cookie := []
  pending : List ParserCallback := []
  sent : List Message := []
  presented : List Presented := []
  written : List Response := []

namespace Turns

inductive Event where
  | send (message : Message)
  | read (count : Nat)
  | respond (response : Response) (cookies : List Cookie) (pathParameters : UrlParameters)
  | wrote (index : Nat) (now : Int)
  | posted (index : Nat) (now : Int)
  | pushChunkedBody (body : Bytes) (isLast : Bool)

def parseFormUrlEncodedData (env : TurnsEnvironment) (body : Bytes) : List FormDataItem :=
  if body ≠ [] then
    (env.parseQueryParameters body).entries.map fun p => { name := p.1, data := p.2 }
  else []

/-- Items are added to those that are there. -/
def decodeForm (env : TurnsEnvironment) (formData : List FormDataItem) (app : Application)
    (r : Request) : List FormDataItem × Request :=
  if r.additionFlags.formurlencoded then (formData ++ parseFormUrlEncodedData env r.body, r)
  else if r.additionFlags.formdata then
    let transferred := env.transferMultiParts app r.multiparts
    (formData ++ transferred.1, { r with multiparts := transferred.2 })
  else (formData, r)

/-- A context that a read has started is given what is there. -/
def present (env : TurnsEnvironment) (s : Turns) : List Dispatch → Turns
  | [] => s
  | d :: _ =>
    let form := decodeForm env s.formData d.app d.request
    { s with
      formData := form.1
      presented := s.presented ++
        [⟨d.app, form.2, form.1, s.pathParameters, s.connection.response, s.cookies⟩] }

/-- The connection behind a read, and what is still to be read. -/
def hand (env : TurnsEnvironment) (s : Turns) (c : Connection) (rest : List ParserCallback) :
    Turns :=
  { s with connection := c, pending := rest }.present env
    (c.dispatched.drop s.connection.dispatched.length)

/-- What `Connection::reset` does to the rest. -/
def reset (s : Turns) : Turns := { s with formData := [], pathParameters := .empty, cookies := [] }

/-- Nothing of an answer is outstanding. -/
def Idle (c : Connection) : Prop := c.contexts = 0 ∧ c.writes = [] ∧ c.posts = []

instance (c : Connection) : Decidable (Idle c) := inferInstanceAs (Decidable (_ ∧ _ ∧ _))

/-- The write of a response resets the connection. -/
def Resets (c : Connection) : WriteOperation → Bool
  | .response _ => c.keepsAlive
  | _ => false

def step (env : TurnsEnvironment) (s : Turns) : Event → Option Turns
  | .send message =>
    if s.pending = [] ∧ Idle s.connection then
      some { s with pending := message.callbacks, sent := s.sent ++ [message] }
    else none
  | .read count =>
    if s.pending = [] then none
    else
      (s.connection.step env.toEnvironment (.read .ok (s.pending.take count))).map fun c =>
        s.hand env c (s.pending.drop count)
  | .respond response cookies pathParameters =>
    (s.connection.step env.toEnvironment (.respond response)).map fun c =>
      { s with connection := c, cookies := cookies, pathParameters := pathParameters }
  | .wrote index now =>
    s.connection.writes[index]?.bind fun operation =>
      (s.connection.step env.toEnvironment (.wrote index now)).map fun c =>
        let s' := if Resets s.connection operation then s.reset else s
        { s' with connection := c, written := s.written ++ operation.header.toList }
  | .posted index now =>
    (s.connection.step env.toEnvironment (.posted index now)).map fun c =>
      { s with connection := c }
  | .pushChunkedBody body isLast =>
    (s.connection.step env.toEnvironment (.pushChunkedBody body isLast)).map fun c =>
      { s with connection := c }

def start : Turns := { connection := .started }

theorem hand_silent {s : Turns} {c : Connection} (same : c.dispatched = s.connection.dispatched)
    (env : TurnsEnvironment) (rest : List ParserCallback) :
    s.hand env c rest = { s with connection := c, pending := rest } := by
  rw [hand, same, List.drop_length]
  rfl

theorem hand_started {s : Turns} {c : Connection} (same : c.dispatched = s.connection.dispatched)
    (env : TurnsEnvironment) (app : Application) (rest : List ParserCallback) :
    s.hand env (c.startContext app) rest =
      { s with
        connection := c.startContext app
        pending := rest
        formData := (decodeForm env s.formData app c.request).1
        presented := s.presented ++
          [⟨app, (decodeForm env s.formData app c.request).2,
            (decodeForm env s.formData app c.request).1, s.pathParameters,
            c.response.setCharset app.defaultCharset, s.cookies⟩] } := by
  have started : (c.startContext app).dispatched.drop s.connection.dispatched.length =
      [⟨c.request, app, c.block⟩] := by
    rw [← same]
    exact List.drop_left
  rw [hand, started]
  rfl

end Turns

namespace Message

/-- The header map that the connection makes of the fields asks for an interim response.
A field behind one whose name was repeated is stored under both names. -/
def AsksToContinue (m : Message) : Prop :=
  (tryGetHeader (headerMap (carried [] [] m.pairs)) Reading.expectField).any
    (fun value => iEquals value Reading.continueValue) = true

instance (m : Message) : Decidable m.AsksToContinue :=
  inferInstanceAs (Decidable ((_ : Bool) = true))

/-- Where no name is lost, it is a field of that name that asks. -/
theorem unasked_of_kept {m : Message} (kept : HeadersKept m.pairs)
    (unnamed : ∀ pair ∈ m.pairs, foldCase pair.1 ≠ foldCase Reading.expectField) :
    ¬m.AsksToContinue := by
  have absent : OrderedMap.entryOf foldCase m.pairs Reading.expectField = none :=
    OrderedMap.entryOf_eq_none_iff.mpr unnamed
  rw [AsksToContinue, tryGetHeader, OrderedMap.lookup, headerMap, OrderedMap.find_assignAll, kept,
    absent]
  exact Bool.false_ne_true

end Message

/-- An element of a kind that occurs once in a list is where the list has it. -/
theorem split_of_once {P : α → Prop} {front back pre post : List α} (before : ∀ z ∈ pre, ¬P z)
    (behind : ∀ z ∈ post, ¬P z) (holds : P x)
    (same : front ++ x :: back = pre ++ y :: post) : front = pre ∧ x = y ∧ back = post := by
  induction pre generalizing front with
  | nil =>
    cases front with
    | nil =>
      cases same
      exact ⟨rfl, rfl, rfl⟩
    | cons z front =>
      have member : x ∈ post := by
        rw [← (List.cons.inj same).2]
        exact List.mem_append_right _ List.mem_cons_self
      exact absurd holds (behind x member)
  | cons z pre ih =>
    cases front with
    | nil =>
      rw [(List.cons.inj same).1] at holds
      exact absurd holds (before z List.mem_cons_self)
    | cons w front =>
      obtain ⟨rfl, rest⟩ := List.cons.inj same
      obtain ⟨rfl, others⟩ := ih (fun z member => before z (List.mem_cons_of_mem w member)) rest
      exact ⟨rfl, others⟩

namespace Message

/-- What is asked for is known when the header block ends. -/
theorem unasked_of_plain {m : Message} {known : ParserFields} (plain : ¬m.AsksToContinue)
    (split : m.callbacks = front ++ .headersComplete p :: back)
    (read : (Reading.fresh full path known).quietAll env front = some r) :
    Reading.is100Continue (r.headerParsed env p).request = false := by
  have opens : ∀ callback ∈ m.before, ¬∃ p, callback = .headersComplete p := by
    rintro _ member ⟨p, rfl⟩
    exact m.isOpening_before _ member
  have closes : ∀ callback ∈ m.behind, ¬∃ p, callback = .headersComplete p := by
    rintro _ member ⟨p, rfl⟩
    rcases List.mem_append.mp member with body | others
    · obtain ⟨data, -, same⟩ := List.mem_map.mp body
      cases same
    · rcases List.mem_append.mp others with trailers | last
      · obtain ⟨h, -, inside⟩ := List.mem_flatMap.mp trailers
        rcases List.mem_append.mp inside with field | value
        · obtain ⟨data, -, same⟩ := List.mem_map.mp field
          cases same
        · obtain ⟨data, -, same⟩ := List.mem_map.mp value
          cases same
      · cases List.mem_singleton.mp last
  obtain ⟨rfl, -, -⟩ := split_of_once opens closes ⟨p, rfl⟩ (split.symm.trans m.callbacks_split)
  rw [before, Reading.quietAll, Reading.quiet, Option.bind_some, Reading.quietAll_url] at read
  have fields := Reading.quietAll_headers env
    (m.target.foldl Reading.onUrl (Reading.fresh full path known).onMessageBegin) m.headers []
  rw [List.append_nil] at fields
  rw [fields] at read
  cases read
  rw [Reading.is100Continue, (Reading.headerParsed_spec _ _ _).headers, Reading.reset_takeHeaders_headers]
  · exact Bool.eq_false_iff.mpr plain
  · rw [Reading.foldl_onUrl]
    rfl
  · rw [Reading.foldl_onUrl]
    rfl
  · rw [Reading.foldl_onUrl]
    rfl

end Message

namespace Connection

/-- A callback that the connection has an answer to, an interim response apart, ends
the reading. -/
theorem refused_of_loud {c : Connection} {answer : Connection × Returned}
    (loud : c.toReading.quiet env made = none)
    (unasked : ∀ p, made = .headersComplete p →
      Reading.is100Continue (c.toReading.headerParsed env p).request = false)
    (answered : c.callback env made = some answer) : answer.2 = .refused := by
  cases made with
  | headersComplete p =>
    cases routed : routes env (c.headerParsed env p).request with
    | none =>
      obtain ⟨app, unrouted⟩ := onHeadersComplete_unrouted routed
      rw [callback, unrouted] at answered
      obtain ⟨d, -, rfl⟩ := Option.map_eq_some_iff.mp answered
      rfl
    | some app =>
      rw [callback, onHeadersComplete_routed routed] at answered
      obtain ⟨url, placed, rest⟩ := Option.bind_eq_some_iff.mp answered
      have known : routes env (c.toReading.headerParsed env p).request = some app := routed
      have underneath : (c.toReading.headerParsed env p).request.url.underApplication env
          app.urlRoot = some url := placed
      rw [Reading.quiet, Reading.accept, known, Option.bind_some, underneath, Option.bind_some,
        Reading.acceptRouted] at loud
      split at loud
      · rename_i asked
        have small : ¬Reading.is100Continue
            (((c.toReading.headerParsed env p).placeUnder app url).request) = true :=
          Bool.eq_false_iff.mp (unasked p rfl)
        have large : app.upoadMaxSizeLimitKB <
            ((c.headerParsed env p).placeUnder app url).request.contentLength / 1024 :=
          asked.resolve_right small
        rw [onRouted, if_pos large] at rest
        obtain ⟨d, -, rfl⟩ := Option.map_eq_some_iff.mp rest
        rfl
      · cases loud
  | body data =>
    rw [Reading.quiet, Reading.acceptBody] at loud
    split at loud
    · rename_i much
      rw [callback, onBody] at answered
      split at answered
      · obtain ⟨d, -, rfl⟩ := Option.map_eq_some_iff.mp answered
        rfl
      · rename_i small
        cases answered
        exact much.resolve_left small
    · cases loud
  | messageBegin => cases loud
  | url data => cases loud
  | headerField data => cases loud
  | headerValue data => cases loud
  | messageComplete => cases loud

theorem errno_of_loud {c d : Connection} (loud : c.toReading.quietAll env made = none)
    (unasked : ∀ front p back r, made = front ++ .headersComplete p :: back →
      c.toReading.quietAll env front = some r →
      Reading.is100Continue (r.headerParsed env p).request = false)
    (executed : c.callbacks env errno made = some d) : d.parserErrno = .error := by
  induction made generalizing c with
  | nil => cases loud
  | cons callback made ih =>
    obtain ⟨answer, answered, rest⟩ := Option.bind_eq_some_iff.mp executed
    cases first : c.toReading.quiet env callback with
    | none =>
      have early : ∀ p, callback = .headersComplete p →
          Reading.is100Continue (c.toReading.headerParsed env p).request = false := by
        rintro p rfl
        exact unasked [] p made _ rfl rfl
      rw [refused_of_loud first early answered] at rest
      cases rest
      rfl
    | some r =>
      obtain ⟨block, quiet⟩ := callback_of_quiet first
      rw [answered] at quiet
      cases quiet
      rw [Reading.quietAll, first, Option.bind_some] at loud
      apply ih loud _ rest
      intro front p back s split read
      apply unasked (callback :: front) p back s
      · rw [split]
        rfl
      · rw [Reading.quietAll, first, Option.bind_some]
        exact read

theorem touches_callbacks {c d : Connection} (executed : c.callbacks env errno made = some d) :
    c.Touches d := by
  induction made generalizing c with
  | nil =>
    cases executed
    exact ⟨_, _, _, _, _, rfl⟩
  | cons callback made ih =>
    obtain ⟨answer, answered, rest⟩ := Option.bind_eq_some_iff.mp executed
    have touched := touches_callback answered
    split at rest
    · exact touched.trans (ih rest)
    · cases rest
      exact touched.trans ⟨_, _, _, _, _, rfl⟩

/-- Behind the only response the connection is reset and reads, or it is left. -/
theorem wrote_cases {c d : Connection} (writes : c.writes = [.response header])
    (wrote : c.step env (.wrote index now) = some d) :
    (c.keepsAlive = true ∧ d = { { c with writes := [] }.reset with reads := c.reads + 1 }) ∨
      (c.keepsAlive = false ∧ d = { c with writes := [] }) := by
  obtain ⟨operation, outstanding, completed⟩ := Option.bind_eq_some_iff.mp wrote
  rw [writes] at outstanding completed
  cases index with
  | succ index => cases outstanding
  | zero =>
    cases outstanding
    rw [onWrote] at completed
    split at completed
    · rename_i keep
      rw [doRead, asyncReadSome] at completed
      split at completed
      · cases completed
        exact .inl ⟨keep, rfl⟩
      · cases completed
    · rename_i close
      cases completed
      exact .inr ⟨Bool.eq_false_iff.mpr close, rfl⟩

end Connection
end Da4qi4
