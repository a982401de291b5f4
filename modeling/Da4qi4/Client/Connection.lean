import Da4qi4.Http.ConnectionHeaders

/-! The client's side of a connection, with blocking calls. As on the server's side
the HTTP parser is known by the callbacks that it makes for what a read has brought. -/
namespace Da4qi4.Client

inductive Error where
  | onNone | onResolver | onConnect | onWrite | onRead | onClose
  deriving DecidableEq, Repr

inductive ParserCallback where
  | messageBegin
  | status (data : Bytes)
  | headerField (data : Bytes)
  | headerValue (data : Bytes)
  | headersComplete
  | body (data : Bytes)
  | messageComplete
  deriving DecidableEq, Repr

inductive ActionAfterRequest where
  | keepConnection | closeConnection
  deriving DecidableEq, Repr

/-- What a read ends with: an error of the socket, or the callbacks for its octets and
whether the parser has taken them all. -/
inductive ReadOutcome where
  | failed
  | parsed (callbacks : List ParserCallback) (ok : Bool)

/-- What the network does in one call. -/
structure Network where
  resolves : Bool := true
  connects : Bool := true
  writes : Bool := true
  reads : List ReadOutcome
  closes : Bool := true

/-- The address of the server is only known to be there or not. -/
structure Connection where
  isConnected : Bool := false
  serverEndpoint : Bool := false
  error : Error := .onNone
  statusBuffer : Bytes := []
  responseHeaders : ICHeaders := .empty
  responseBody : Bytes := []
  readingHeaderPart : ReadingHeaderPart := .headerNonePart
  readingHeaderField : Bytes := []
  readingHeaderValue : Bytes := []
  readComplete : ReadCompletePart := .readNoneComplete
  deriving DecidableEq

namespace Connection

def hasError (c : Connection) : Bool := c.error ≠ .onNone

/-- What was in the two buffers is moved out of them, also when the name is there
already and its value stays. -/
def tryCommitReadingResponseHeader (c : Connection) : Connection :=
  if c.readingHeaderPart = .headerValuePart ∧ c.readingHeaderField ≠ [] then
    { c with
      responseHeaders := c.responseHeaders.insert c.readingHeaderField c.readingHeaderValue
      readingHeaderField := []
      readingHeaderValue := []
      readingHeaderPart := .headerNonePart }
  else c

def onHeadersComplete (c : Connection) : Connection :=
  { c.tryCommitReadingResponseHeader with readComplete := .readHeaderComplete }

def onMessageBegin (c : Connection) : Connection :=
  { c with readComplete := .readNoneComplete, responseBody := [] }

def onMessageComplete (c : Connection) : Connection :=
  { c with readComplete := .readMessageComplete }

def onHeaderField (c : Connection) (data : Bytes) : Connection :=
  let c := c.tryCommitReadingResponseHeader
  if data ≠ [] then
    { c with
      readingHeaderPart := .headerFieldPart
      readingHeaderField := c.readingHeaderField ++ data }
  else c

def onHeaderValue (c : Connection) (data : Bytes) : Connection :=
  let value := if c.readingHeaderPart = .headerFieldPart then [] else c.readingHeaderValue
  { c with
    readingHeaderValue := value ++ data
    readingHeaderPart := .headerValuePart }

def onStatus (c : Connection) (data : Bytes) : Connection :=
  { c with statusBuffer := c.statusBuffer ++ data }

def onBody (c : Connection) (data : Bytes) : Connection :=
  { c with responseBody := c.responseBody ++ data }

def on (c : Connection) : ParserCallback → Connection
  | .messageBegin => c.onMessageBegin
  | .status data => c.onStatus data
  | .headerField data => c.onHeaderField data
  | .headerValue data => c.onHeaderValue data
  | .headersComplete => c.onHeadersComplete
  | .body data => c.onBody data
  | .messageComplete => c.onMessageComplete

/-- `llhttp_execute`. -/
def execute (c : Connection) (callbacks : List ParserCallback) : Connection :=
  callbacks.foldl on c

def reset (c : Connection) : Connection :=
  { isConnected := c.isConnected, serverEndpoint := c.serverEndpoint }

def doClose (network : Network) (c : Connection) : Connection :=
  if c.isConnected then
    { c with
      error := if network.closes then c.error else .onClose
      isConnected := false }
  else c

def doResolver (network : Network) (c : Connection) : Connection :=
  if network.resolves then { c with serverEndpoint := true } else { c with error := .onResolver }

def doConnect (network : Network) (c : Connection) : Connection :=
  if c.isConnected then c
  else if network.connects then reset { c with isConnected := true }
  else { c with error := .onConnect }

/-- The flag is `false` when the call has failed. -/
def connectSync (network : Network) (c : Connection) : Connection × Bool :=
  let resolved := if c.serverEndpoint then c else c.doResolver network
  if ¬c.serverEndpoint ∧ resolved.hasError then (resolved, false)
  else
    let connected := resolved.doConnect network
    (connected, !connected.hasError)

def doWrite (network : Network) (c : Connection) : Connection :=
  if network.writes then c else { c with error := .onWrite }

/-- It reads until a whole message was read; `none` where that takes more than there is. -/
def doRead (c : Connection) : List ReadOutcome → Option Connection
  | [] => none
  | .failed :: _ => some { c with error := .onRead }
  | .parsed callbacks false :: _ => some { c.execute callbacks with error := .onRead }
  | .parsed callbacks true :: reads =>
    let c := c.execute callbacks
    if c.readComplete = .readMessageComplete then some c else c.doRead reads

def requestSync (network : Network) (action : ActionAfterRequest) (c : Connection) :
    Option (Connection × Bool) :=
  let connected := if c.isConnected then (c, true) else c.connectSync network
  if connected.2 then
    let wrote := connected.1.doWrite network
    let after := if wrote.hasError then some wrote else wrote.doRead network.reads
    after.map fun c => (if action = .closeConnection then c.doClose network else c, !c.hasError)
  else some (connected.1, false)

end Connection
end Da4qi4.Client
