import Da4qi4.Http.Request
import Da4qi4.Http.Response

/-! The server's side of a connection. The HTTP parser is known by the callbacks
that it makes for what a read has brought and by the number it returns; it stops
at a callback that refuses, and an error that it has met stays. Operations handed
to the event loop are kept until they complete. `none` is the end of the program
in a failed assertion, in an exception, or in the use of a socket that was given
away. -/
namespace Da4qi4
open Utilities

inductive ReadingHeaderPart where
  | headerNonePart | headerFieldPart | headerValuePart
  deriving DecidableEq, Repr

inductive ReadCompletePart where
  | readNoneComplete | readHeaderComplete | readMessageComplete
  deriving DecidableEq, Repr

/-- The fields of the parser behind the header block of a message. -/
structure ParserFields where
  flags : UInt16 := 0
  contentLength : Nat := 0
  method : Nat := 0
  httpMajor : Nat := 0
  httpMinor : Nat := 0
  upgrade : Bool := false
  deriving DecidableEq, Repr

namespace ParserFields

def connectionKeepAlive : UInt16 := 1

def connectionClose : UInt16 := 2

def contentLengthFlag : UInt16 := 32

/-- `llhttp_should_keep_alive`; a request never needs the end of the stream. -/
def shouldKeepAlive (p : ParserFields) : Bool :=
  if 0 < p.httpMajor ∧ 0 < p.httpMinor then p.flags &&& connectionClose = 0
  else p.flags &&& connectionKeepAlive ≠ 0

end ParserFields

inductive ParserCallback where
  | messageBegin
  | url (data : Bytes)
  | headerField (data : Bytes)
  | headerValue (data : Bytes)
  | headersComplete (fields : ParserFields)
  | body (data : Bytes)
  | messageComplete
  deriving DecidableEq, Repr

inductive ParserErrno where
  | ok | pausedUpgrade | error
  deriving DecidableEq, Repr

/-- What a callback returns: `HPE_OK`, or -1. -/
inductive Returned where
  | ok | refused
  deriving DecidableEq, Repr

structure MultipartParser where
  boundary : Bytes
  fed : List Bytes := []
  deriving DecidableEq, Repr

inductive MultpartParseStatus where
  | mpCannotInit | mpParsing | mpParseFail
  deriving DecidableEq, Repr

inductive WriteOperation where
  | response (written : Response)
  | chunkedHeader (written : Response)
  | chunkedBody (data : Bytes)
  deriving DecidableEq

/-- What a request took from its header block. -/
structure HeaderBlock where
  url : Url
  method : Nat
  headers : ICHeaders
  app : Application
  deriving DecidableEq

/-- A start of a context, with the request it is given. -/
structure Dispatch where
  request : Request
  app : Application
  block : Option HeaderBlock
  deriving DecidableEq

/-- What the callbacks of the parser fill. -/
structure Reading where
  urlBuffer : Bytes := []
  readingHeaderPart : ReadingHeaderPart := .headerNonePart
  readingHeaderField : Bytes := []
  readingHeaderValue : Bytes := []
  bodyBuffer : Bytes := []
  readComplete : ReadCompletePart := .readNoneComplete
  mpParser : Option MultipartParser := none
  readingPart : MultiPart := {}
  readingPartBuffer : Bytes := []
  request : Request := {}
  app : Option Application := none
  parserFields : ParserFields := {}
  deriving DecidableEq

/-- The last two fields only record what happened. -/
structure Connection extends Reading where
  currentChunkedBodyBuffer : Bytes := []
  response : Response := .constructed
  parserErrno : ParserErrno := .ok
  socket : Bool := true
  reads : Nat := 0
  writes : List WriteOperation := []
  posts : List Int := []
  contexts : Nat := 0
  block : Option HeaderBlock := none
  dispatched : List Dispatch := []
  deriving DecidableEq

namespace Connection

def asyncReadSome (c : Connection) : Option Connection :=
  if c.socket then some { c with reads := c.reads + 1 } else none

def asyncWrite (c : Connection) (operation : WriteOperation) : Option Connection :=
  if c.socket then some { c with writes := c.writes ++ [operation] } else none

def prepareResponseHeadersAboutConnection (c : Connection) : Connection :=
  let keepalive := c.request.isKeepAlive
  if Response.isOld c.request.versionMajor c.request.versionMinor then
    let r := c.response.setVersion 1 0
    { c with response := if keepalive then r.markKeepAlive else r }
  else
    let r := c.response.setVersion 1 1
    { c with response := if keepalive then r else r.markClose }

def doWrite (c : Connection) : Option Connection :=
  let c := c.prepareResponseHeadersAboutConnection
  c.asyncWrite (.response c.response)

def prepareResponseHeadersForChunkedWrite (c : Connection) : Connection :=
  let r := if c.response.isChunked then c.response else c.response.markChunked
  let r := if Response.isOld r.versionMajor r.versionMinor then r.setVersion 1 1 else r
  { c with response := if r.isClose then r else r.markKeepAlive }

def doWriteHeaderForChunked (c : Connection) : Option Connection :=
  let c := c.prepareResponseHeadersForChunkedWrite
  c.asyncWrite (.chunkedHeader c.response)

def startWrite (c : Connection) : Option Connection :=
  if c.response.isChunked then c.doWriteHeaderForChunked else c.doWrite

/-- Nothing but the response and the outstanding writes changes. -/
theorem startWrite_cases {c d : Connection} (started : c.startWrite = some d) :
    c.socket = true ∧ ∃ response operation,
      d = { c with response := response, writes := c.writes ++ [operation] } := by
  have asynchronous (response : Response) (operation : WriteOperation)
      (written : { c with response := response }.asyncWrite operation = some d) :
      c.socket = true ∧ ∃ response operation,
        d = { c with response := response, writes := c.writes ++ [operation] } := by
    simp only [asyncWrite] at written
    split at written
    · rename_i open_
      cases written
      exact ⟨open_, response, operation, rfl⟩
    · cases written
  rw [startWrite] at started
  split at started
  · exact asynchronous _ _ started
  · rw [doWrite, prepareResponseHeadersAboutConnection] at started
    split at started
    · exact asynchronous _ _ started
    · exact asynchronous _ _ started

def clocksPerSec : Int := 1000000

def doWriteNextChunkedBody (c : Connection) (startWaitClock now : Int) : Option Connection :=
  let popped := c.response.popChunkedBody
  let c := { c with currentChunkedBodyBuffer := popped.1.1, response := popped.2 }
  if popped.1.2 then some c
  else if c.currentChunkedBodyBuffer = [] then
    if 0 < startWaitClock ∧ 5 < (now - startWaitClock).tdiv clocksPerSec then some c
    else some { c with posts := c.posts ++ [if startWaitClock = 0 then now else startWaitClock] }
  else c.asyncWrite (.chunkedBody c.currentChunkedBodyBuffer)

end Connection

namespace Reading

/-- What is left of the two buffers depends on the path that `AppendHeader` takes. -/
def tryCommitReadingRequestHeader (r : Reading) : Reading :=
  if r.readingHeaderPart = .headerValuePart ∧ r.readingHeaderField ≠ [] then
    let appended := appendHeader r.request.headers r.readingHeaderField r.readingHeaderValue
    { r with
      request := { r.request with headers := appended.1 }
      readingHeaderField := appended.2.1
      readingHeaderValue := appended.2.2
      readingHeaderPart := .headerNonePart }
  else r

def onHeaderField (r : Reading) (data : Bytes) : Reading :=
  let r := r.tryCommitReadingRequestHeader
  if data ≠ [] then
    { r with
      readingHeaderPart := .headerFieldPart
      readingHeaderField := r.readingHeaderField ++ data }
  else r

def onHeaderValue (r : Reading) (data : Bytes) : Reading :=
  let value := if r.readingHeaderPart = .headerFieldPart then [] else r.readingHeaderValue
  { r with
    readingHeaderValue := value ++ data
    readingHeaderPart := .headerValuePart }

def multipartBoundary (boundary : Bytes) : Bytes := Bytes.ofAscii "--" ++ boundary

def initMultipartParser (r : Reading) (boundary : Bytes) : Reading :=
  if r.mpParser = none then { r with mpParser := some { boundary := multipartBoundary boundary } }
  else r

def freeMultipartParser (r : Reading) : Reading := { r with mpParser := none }

def tryInitMultipartParser (r : Reading) : Reading :=
  if r.request.boundary ≠ [] then r.initMultipartParser r.request.boundary else r

def tryFixMultipartBadRequestWithoutBoundary (r : Reading) : Reading :=
  if find r.bodyBuffer (Bytes.ofAscii "--") = some 0 then
    match find r.bodyBuffer [13, 10] 2 with
    | none => r
    | some endlnPos =>
      let boundary := (r.bodyBuffer.drop 2).take (endlnPos - 2)
      let boundary :=
        if 2 < boundary.length ∧ boundary.drop (boundary.length - 2) = Bytes.ofAscii "--" then
          boundary.take (boundary.length - 2)
        else boundary
      { r with request := { r.request with boundary := boundary } }.initMultipartParser boundary
  else r

def tryCommitReadingPartHeader (r : Reading) (next : ReadingHeaderPart) : Reading :=
  if r.readingHeaderPart = .headerValuePart ∧ r.readingHeaderField ≠ [] then
    let appended := appendHeader r.readingPart.headers r.readingHeaderField r.readingHeaderValue
    { r with
      readingPart := { r.readingPart with headers := appended.1 }
      readingHeaderField := appended.2.1
      readingHeaderValue := appended.2.2
      readingHeaderPart := next }
  else r

def onMultipart (r : Reading) : MultipartCallback → Reading
  | .headerField data =>
    let r := r.tryCommitReadingPartHeader .headerFieldPart
    { r with readingHeaderField := r.readingHeaderField ++ data }
  | .headerValue data => r.onHeaderValue data
  | .headersComplete => r.tryCommitReadingPartHeader .headerNonePart
  | .dataBegin =>
    { r with
      readingHeaderPart := .headerNonePart
      readingHeaderField := []
      readingHeaderValue := []
      readingPartBuffer := [] }
  | .data data => { r with readingPartBuffer := r.readingPartBuffer ++ data }
  | .dataEnd =>
    let part := { r.readingPart with data := r.readingPartBuffer }
    { r with
      request := { r.request with multiparts := r.request.multiparts ++ [part] }
      readingPart := {}
      readingPartBuffer := [] }
  | .bodyEnd => r

def feedMultipartParser (env : Environment) (r : Reading) : Reading × MultpartParseStatus :=
  match r.mpParser with
  | none => (r, .mpCannotInit)
  | some parser =>
    let executed := env.multipartExecute parser.boundary parser.fed r.bodyBuffer
    let fed := { parser with fed := parser.fed ++ [r.bodyBuffer] }
    let r := executed.1.foldl onMultipart { r with mpParser := some fed }
    if executed.2 ≠ r.bodyBuffer.length then (r, .mpParseFail)
    else ({ r with bodyBuffer := [] }, .mpParsing)

def doMultipartParse (env : Environment) (r : Reading) : Reading × MultpartParseStatus :=
  (if r.mpParser = none then r.tryFixMultipartBadRequestWithoutBoundary
    else r).feedMultipartParser env

def onMessageBegin (r : Reading) : Reading :=
  { r with readComplete := .readNoneComplete, bodyBuffer := [] }

def onMessageComplete (r : Reading) : Reading :=
  let swapped := r.request.setBody r.bodyBuffer
  { r with
    request := swapped.1
    bodyBuffer := swapped.2
    readComplete := .readMessageComplete }

def onUrl (r : Reading) (data : Bytes) : Reading := { r with urlBuffer := r.urlBuffer ++ data }

def parseUrlBuffer (env : Environment) (r : Reading) : Reading :=
  if r.urlBuffer ≠ [] then { r with request := r.request.parseUrl env r.urlBuffer, urlBuffer := [] }
  else r

/-- What the request gets from the fields of the parser. -/
def takeFields (r : Reading) (p : ParserFields) : Reading :=
  { r with
    request := { r.request with
      flags := p.flags
      contentLength :=
        if p.flags &&& ParserFields.contentLengthFlag ≠ 0 then p.contentLength
        else r.request.contentLength
      additionFlags := { r.request.additionFlags with
        keepalive := p.shouldKeepAlive
        upgrade := p.upgrade }
      method := p.method
      versionMajor := p.httpMajor
      versionMinor := p.httpMinor } }

def updateRequestAfterHeaderParsed (env : Environment) (r : Reading) (p : ParserFields) : Reading :=
  let committed := ((r.parseUrlBuffer env).takeFields p).tryCommitReadingRequestHeader
  { committed with request := committed.request.transferHeadersToCookies.parseContentType }

def headerParsed (env : Environment) (r : Reading) (p : ParserFields) : Reading :=
  { { r with parserFields := p }.updateRequestAfterHeaderParsed env p with
    readComplete := .readHeaderComplete }

/-- A target with a schema or a host is not looked up, and the application of
before stays. -/
def tryRouteApplication (env : Environment) (r : Reading) : Reading × Bool :=
  if r.request.url.schema ≠ [] ∨ r.request.url.host ≠ [] then (r, false)
  else
    let app := env.findByURL r.request.url.path
    ({ r with app := app }, app.isSome)

/-- `update_request_url_after_app_resolve`. -/
def placeUnder (r : Reading) (app : Application) (url : Url) : Reading :=
  { r with app := some app, request := { r.request with url := url } }

def expectField : Bytes := Bytes.ofAscii "Expect"

def continueValue : Bytes := Bytes.ofAscii "100-continue"

def is100Continue (r : Request) : Bool :=
  (tryGetHeader r.headers expectField).any fun value => iEquals value continueValue

def defaultUploadMaxSizeLimitKB : Nat := 15 * 1024

/-- Whether a piece of the body is too much. -/
def exceeds (r : Reading) (data : Bytes) : Bool :=
  (r.app.map Application.upoadMaxSizeLimitKB).getD defaultUploadMaxSizeLimitKB <
    (r.bodyBuffer.length + data.length) / 1024

def takeBody (env : Environment) (r : Reading) (data : Bytes) : Reading × Returned :=
  let r := { r with bodyBuffer := r.bodyBuffer ++ data }
  if r.request.isMultiPart then
    let parsed := r.doMultipartParse env
    (parsed.1, if parsed.2 = .mpParseFail then .refused else .ok)
  else (r, .ok)

end Reading

namespace Connection

def processAppNoFound (c : Connection) : Option Connection :=
  { c with response := c.response.replyNofound }.startWrite

def processTooLargeSizeUpload (c : Connection) : Option Connection :=
  { c with response := c.response.replyPayloadTooLarge }.startWrite

def process100ContinueRequest (c : Connection) : Option Connection :=
  { c with response := c.response.replyContinue }.startWrite

def headerParsed (env : Environment) (c : Connection) (p : ParserFields) : Connection :=
  { c with
    toReading := c.toReading.headerParsed env p
    response := c.response.setVersion p.httpMajor p.httpMinor }

/-- The header block of the request is recorded. -/
def placeUnder (c : Connection) (app : Application) (url : Url) : Connection :=
  { c with
    toReading := c.toReading.placeUnder app url
    block := some ⟨url, c.request.method, c.request.headers, app⟩ }

/-- The application is found; its limit, and what the headers ask for. -/
def onRouted (c : Connection) (app : Application) : Option (Connection × Returned) :=
  if app.upoadMaxSizeLimitKB < c.request.contentLength / 1024 then
    c.processTooLargeSizeUpload.map fun c => (c, .refused)
  else if Reading.is100Continue c.request then c.process100ContinueRequest.map fun c => (c, .ok)
  else if c.request.isMultiPart then
    some ({ c with toReading := c.toReading.tryInitMultipartParser }, .ok)
  else some (c, .ok)

def onHeadersComplete (env : Environment) (c : Connection) (p : ParserFields) :
    Option (Connection × Returned) :=
  let parsed := c.headerParsed env p
  let routed := parsed.toReading.tryRouteApplication env
  match routed.1.app, routed.2 with
  | some app, true =>
    (routed.1.request.url.underApplication env app.urlRoot).bind fun url =>
      (parsed.placeUnder app url).onRouted app
  | _, _ => { parsed with toReading := routed.1 }.processAppNoFound.map fun c => (c, .refused)

/-- The application that a request is for. -/
def routes (env : Environment) (r : Request) : Option Application :=
  if r.url.schema ≠ [] ∨ r.url.host ≠ [] then none else env.findByURL r.url.path

theorem onHeadersComplete_routed {c : Connection} {app : Application}
    (routed : routes env (c.headerParsed env p).request = some app) :
    c.onHeadersComplete env p =
      ((c.headerParsed env p).request.url.underApplication env app.urlRoot).bind fun url =>
        ((c.headerParsed env p).placeUnder app url).onRouted app := by
  rw [routes] at routed
  split at routed
  · cases routed
  · rename_i relative
    simp only [onHeadersComplete, Reading.tryRouteApplication, if_neg relative, routed,
      Option.isSome_some]

theorem onHeadersComplete_unrouted {c : Connection}
    (unrouted : routes env (c.headerParsed env p).request = none) : ∃ app,
      c.onHeadersComplete env p =
        { c.headerParsed env p with app := app }.processAppNoFound.map fun c => (c, .refused) := by
  rw [routes] at unrouted
  split at unrouted
  · rename_i absolute
    refine ⟨(c.headerParsed env p).app, ?_⟩
    simp only [onHeadersComplete, Reading.tryRouteApplication, if_pos absolute]
    split
    · contradiction
    · rfl
  · rename_i relative
    refine ⟨none, ?_⟩
    simp only [onHeadersComplete, Reading.tryRouteApplication, if_neg relative, unrouted]

theorem onHeadersComplete_cases {c : Connection} {answer : Connection × Returned}
    (answered : c.onHeadersComplete env p = some answer) :
    (∃ app url, ((c.headerParsed env p).placeUnder app url).onRouted app = some answer) ∨
      (answer.2 = .refused ∧
        ∃ app, { c.headerParsed env p with app := app }.processAppNoFound = some answer.1) := by
  cases routed : routes env (c.headerParsed env p).request with
  | some app =>
    rw [onHeadersComplete_routed routed] at answered
    obtain ⟨url, -, rest⟩ := Option.bind_eq_some_iff.mp answered
    exact .inl ⟨app, url, rest⟩
  | none =>
    obtain ⟨app, unrouted⟩ := onHeadersComplete_unrouted routed
    rw [unrouted] at answered
    obtain ⟨d, written, rfl⟩ := Option.map_eq_some_iff.mp answered
    exact .inr ⟨rfl, app, written⟩

def onBody (env : Environment) (c : Connection) (data : Bytes) : Option (Connection × Returned) :=
  if c.exceeds data then c.processTooLargeSizeUpload.map fun c => (c, .refused)
  else
    let taken := c.toReading.takeBody env data
    some ({ c with toReading := taken.1 }, taken.2)

def callback (env : Environment) (c : Connection) : ParserCallback → Option (Connection × Returned)
  | .messageBegin => some ({ c with toReading := c.toReading.onMessageBegin }, .ok)
  | .url data => some ({ c with toReading := c.toReading.onUrl data }, .ok)
  | .headerField data => some ({ c with toReading := c.toReading.onHeaderField data }, .ok)
  | .headerValue data => some ({ c with toReading := c.toReading.onHeaderValue data }, .ok)
  | .headersComplete p => c.onHeadersComplete env p
  | .body data => c.onBody env data
  | .messageComplete => some ({ c with toReading := c.toReading.onMessageComplete }, .ok)

/-- The callbacks in their order, up to one that refuses. -/
def callbacks (env : Environment) (c : Connection) (errno : ParserErrno) :
    List ParserCallback → Option Connection
  | [] => some { c with parserErrno := errno }
  | callback :: rest =>
    (c.callback env callback).bind fun answer =>
      match answer.2 with
      | .ok => answer.1.callbacks env errno rest
      | .refused => some { answer.1 with parserErrno := .error }

/-- `llhttp_execute`. -/
def execute (env : Environment) (c : Connection) (errno : ParserErrno)
    (made : List ParserCallback) : Option Connection :=
  if c.parserErrno = .ok then c.callbacks env errno made else some c

def doRead (c : Connection) : Option Connection := c.asyncReadSome

/-- The parser of bodies is not reset. -/
def reset (c : Connection) : Connection :=
  { c with
    urlBuffer := []
    bodyBuffer := []
    readingHeaderPart := .headerNonePart
    readingHeaderField := []
    readingHeaderValue := []
    readComplete := .readNoneComplete
    readingPart := {}
    readingPartBuffer := []
    request := c.request.reset
    response := c.response.reset
    app := none }

def upgradeField : Bytes := Bytes.ofAscii "Upgrade"

def websocketValue : Bytes := Bytes.ofAscii "websocket"

def webSocketKeyField : Bytes := Bytes.ofAscii "Sec-WebSocket-Key"

/-- The socket, the target, the headers and the cookies go to the new connection. -/
def doUpgrade (env : Environment) (c : Connection) : Option Connection :=
  if ¬ env.ndebug ∧ ¬ c.request.isUpgrade then none
  else if ¬ iEquals (getHeader c.request.headers upgradeField) websocketValue then some c
  else if getHeader c.request.headers webSocketKeyField = [] then some c
  else
    c.app.map fun app =>
      if env.createWebSocketHandler app c.request.url.full then
        { c with
          socket := false
          request := { c.request with url := {}, headers := .empty, cookies := .empty } }
      else c

/-- `ContextIMP::Make(shared_from_this())->Start()`. -/
def startContext (c : Connection) (app : Application) : Connection :=
  { c with
    response := c.response.setCharset app.defaultCharset
    contexts := c.contexts + 1
    dispatched := c.dispatched ++ [⟨c.request, app, c.block⟩] }

def onMessageRead (env : Environment) (c : Connection) : Option Connection :=
  let c := { c with toReading := c.toReading.freeMultipartParser }
  if ¬ env.ndebug ∧ c.app = none then none
  else if c.parserFields.upgrade then c.doUpgrade env
  else c.app.map c.startContext

def onRead (env : Environment) (c : Connection) (errno : ParserErrno) (made : List ParserCallback) :
    Option Connection :=
  (c.execute env errno made).bind fun c =>
    if c.parserErrno = .error then some c
    else if c.readComplete ≠ .readMessageComplete then c.doRead
    else c.onMessageRead env

/-- Both sides keep the connection. -/
def keepsAlive (c : Connection) : Bool := c.request.isKeepAlive && c.response.isKeepAlive

def onWrote (c : Connection) (now : Int) : WriteOperation → Option Connection
  | .response _ => if c.keepsAlive then c.reset.doRead else some c
  | .chunkedHeader _ => c.doWriteNextChunkedBody 0 now
  | .chunkedBody _ => c.doWriteNextChunkedBody 0 now

/-- The completion of an operation, or what a handler does: it ends with its
response, or adds a body to a chunked one. -/
inductive Event where
  | read (errno : ParserErrno) (made : List ParserCallback)
  | readFailed
  | wrote (index : Nat) (now : Int)
  | writeFailed (index : Nat)
  | posted (index : Nat) (now : Int)
  | respond (response : Response)
  | pushChunkedBody (body : Bytes) (isLast : Bool)

def step (env : Environment) (c : Connection) : Event → Option Connection
  | .read errno made =>
    if c.reads = 0 then none else { c with reads := c.reads - 1 }.onRead env errno made
  | .readFailed => if c.reads = 0 then none else some { c with reads := c.reads - 1 }
  | .wrote index now =>
    c.writes[index]?.bind fun operation =>
      { c with writes := c.writes.eraseIdx index }.onWrote now operation
  | .writeFailed index =>
    c.writes[index]?.map fun _ => { c with writes := c.writes.eraseIdx index }
  | .posted index now =>
    c.posts[index]?.bind fun startWaitClock =>
      { c with posts := c.posts.eraseIdx index }.doWriteNextChunkedBody startWaitClock now
  | .respond response =>
    if c.contexts = 0 then none
    else { c with response := response, contexts := c.contexts - 1 }.startWrite
  | .pushChunkedBody body isLast =>
    some { c with response := c.response.pushChunkedBody body isLast }

/-- A new connection, reading. -/
def started : Connection := { reads := 1 }

end Connection
end Da4qi4
