import Da4qi4.Redis.Parser

/-! The asynchronous client. Operations handed to the event loop are kept until
they complete; a completion is an event, together with the calls that the user's
callback makes while it runs. Nothing else is assumed about the order or the
result of completions, except that a cancelled wait of the timer ends in an
error. `none` is the end of the program in a failed assertion or in an access to
an empty queue, and an event that cannot happen. Addresses given to `Connect` are
numeric, as `from_string` requires. -/
namespace Da4qi4.Redis

inductive RedisClientErrorHandlePolicy where
  | doNothing | autoReconnect
  deriving DecidableEq, Repr

inductive ConnectStatus where
  | notConnect | isConnectting | isConnected
  deriving DecidableEq, Repr

structure ErrorCode where
  message : Bytes
  deriving DecidableEq, Repr

/-- A function object that the user passes; an empty one is `none`. -/
abbrev Callback := Nat

structure CommandNode where
  data : Bytes
  on : Option Callback
  deriving DecidableEq, Repr

structure ConnectOperation where
  host : String
  port : UInt16
  on : Option Callback
  deriving DecidableEq, Repr

structure TimerWait where
  seconds : Nat
  on : Option Callback
  cancelled : Bool := false
  deriving DecidableEq, Repr

structure ReadOperation where
  parser : RedisParser
  on : Option Callback

/-- An invocation of a callback. -/
inductive Notice where
  | connect (on : Callback) (ec : Option ErrorCode)
  | reply (on : Callback) (value : RedisValue)

/-- A call of the client's interface. -/
inductive Call where
  | connect (on : Option Callback) (host : String) (port : UInt16)
  | reconnect (on : Option Callback)
  | disconnect
  | command (cmd : Bytes) (args : List Bytes) (on : Option Callback)
  deriving DecidableEq

/-- The last four fields only record what happened; an attempt to connect with the
status in which it is started. -/
structure RedisClient where
  errorHandlePolicy : RedisClientErrorHandlePolicy
  host : String := ""
  port : UInt16 := 0
  reconnectCount : Nat := 0
  commandQueue : List CommandNode := []
  replyBuf : Bytes := []
  replyParseBeg : Nat := 0
  connectStatus : ConnectStatus := .notConnect
  connects : List ConnectOperation := []
  waits : List TimerWait := []
  writes : List Bytes := []
  reads : List ReadOperation := []
  issued : List CommandNode := []
  written : List Bytes := []
  notices : List Notice := []
  attempts : List ConnectStatus := []

def crlf : Bytes := [13, 10]

/-- `std::to_string` of an unsigned number. -/
def decimal (n : Nat) : Bytes := (Nat.toDigits 10 n).map fun digit => digit.toNat.toUInt8

def makeCommand (items : List Bytes) : Bytes :=
  [arrayReply] ++ decimal items.length ++ crlf ++
    items.flatMap fun item => [bulkReply] ++ decimal item.length ++ crlf ++ item ++ crlf

def redisServerReconnectIntervalSeconds (reconnectCount : Nat) : Nat :=
  if reconnectCount < 10 then 1
  else if reconnectCount < 32 then 5
  else if reconnectCount < 200 then 10
  else if reconnectCount < 260 then 30
  else 300

def operationInProgress : ErrorCode := ⟨"Operation now in progress".toUTF8.toList⟩

def alreadyConnected : ErrorCode := ⟨"Transport endpoint is already connected".toUTF8.toList⟩

namespace RedisClient

def constructed (policy : RedisClientErrorHandlePolicy) : RedisClient :=
  { errorHandlePolicy := policy }

def doAsyncConnect (s : RedisClient) (on : Option Callback) : RedisClient :=
  { s with
    connectStatus := .isConnectting
    connects := s.connects ++ [⟨s.host, s.port, on⟩]
    attempts := s.attempts ++ [s.connectStatus] }

def connect (s : RedisClient) (on : Option Callback) (host : String) (port : UInt16) :
    RedisClient :=
  if s.connectStatus = .isConnected ∨ s.connectStatus = .isConnectting then s
  else { s with host := host, port := port }.doAsyncConnect on

def cancelTimer (s : RedisClient) : RedisClient :=
  { s with waits := s.waits.map fun wait => { wait with cancelled := true } }

/-- Setting the timer cancels the waits on it. -/
def startReconnectTimer (s : RedisClient) (on : Option Callback) : RedisClient :=
  let count := (s.reconnectCount + 1) % 2 ^ 32
  { s.cancelTimer with
    reconnectCount := count
    waits := s.cancelTimer.waits ++ [⟨redisServerReconnectIntervalSeconds count, on, false⟩] }

def notifyConnect (s : RedisClient) (on : Option Callback) (ec : Option ErrorCode) : RedisClient :=
  { s with notices := s.notices ++ (on.map fun on => Notice.connect on ec).toList }

/-- What the callback of a refused call does counts as calls of its own. -/
def reconnect (s : RedisClient) (on : Option Callback) : RedisClient :=
  if s.connectStatus = .isConnectting then s.notifyConnect on (some operationInProgress)
  else if s.connectStatus ≠ .isConnected then s.cancelTimer.startReconnectTimer on
  else s.notifyConnect on (some alreadyConnected)

def doDisconnect (s : RedisClient) : RedisClient := { s with connectStatus := .notConnect }

def disconnect (s : RedisClient) : RedisClient :=
  if s.connectStatus = .isConnected then s.doDisconnect else s.cancelTimer

def startAsyncWrite (s : RedisClient) : RedisClient :=
  match s.commandQueue with
  | [] => s
  | node :: _ => { s with writes := s.writes ++ [node.data], written := s.written ++ [node.data] }

def enqueue (s : RedisClient) (node : CommandNode) : RedisClient :=
  { s with commandQueue := s.commandQueue ++ [node], issued := s.issued ++ [node] }

def command (ndebug : Bool) (s : RedisClient) (cmd : Bytes) (args : List Bytes)
    (on : Option Callback) : Option RedisClient :=
  if ndebug ∨ cmd ≠ [] then
    let queued := s.enqueue ⟨makeCommand (cmd :: args), on⟩
    some (if s.commandQueue = [] then queued.startAsyncWrite else queued)
  else none

def call (ndebug : Bool) (s : RedisClient) : Call → Option RedisClient
  | .connect on host port => some (s.connect on host port)
  | .reconnect on => some (s.reconnect on)
  | .disconnect => some s.disconnect
  | .command cmd args on => s.command ndebug cmd args on

def callAll (ndebug : Bool) (s : RedisClient) : List Call → Option RedisClient
  | [] => some s
  | c :: inside => (s.call ndebug c).bind fun s => s.callAll ndebug inside

/-- Exceptions of the callback are caught, so it may stop after any call. -/
def tryOnRedisHandler (ndebug : Bool) (s : RedisClient) (on : Option Callback)
    (notice : Callback → Notice) (inside : List Call) : Option RedisClient :=
  match on with
  | none => if inside = [] then some s else none
  | some on => { s with notices := s.notices ++ [notice on] }.callAll ndebug inside

def popFront (s : RedisClient) : Option RedisClient :=
  match s.commandQueue with
  | [] => none
  | _ :: queue => some { s with commandQueue := queue }

def onConnectFinished (ndebug : Bool) (s : RedisClient) (on : Option Callback)
    (ec : Option ErrorCode) (inside : List Call) : Option RedisClient :=
  let finished :=
    match ec with
    | some _ => { s with connectStatus := .notConnect }
    | none => { s with connectStatus := .isConnected, reconnectCount := 0 }
  (finished.tryOnRedisHandler ndebug on (fun on => .connect on ec) inside).map fun s =>
    if ec ≠ none ∧ s.errorHandlePolicy = .autoReconnect then s.startReconnectTimer on else s

def onTimer (s : RedisClient) (wait : TimerWait) : RedisClient :=
  if wait.cancelled then s else s.doAsyncConnect wait.on

/-- Moving the front out of the queue leaves an empty node there. -/
def moveFront (s : RedisClient) : RedisClient :=
  match s.commandQueue with
  | [] => s
  | _ :: queue => { s with commandQueue := ⟨[], none⟩ :: queue }

def startAysncReadAndParse (s : RedisClient) (on : Option Callback) : RedisClient :=
  { s with
    replyBuf :=
      if s.replyBuf = [] then s.replyBuf
      else if s.replyBuf.length ≤ s.replyParseBeg then []
      else s.replyBuf.drop s.replyParseBeg
    replyParseBeg := 0
    reads := s.reads ++ [⟨.fresh, on⟩] }

def onWrite (ndebug : Bool) (s : RedisClient) (ec : Option ErrorCode) (inside : List Call) :
    Option RedisClient :=
  match s.commandQueue with
  | [] => none
  | node :: _ =>
    match ec with
    | some ec =>
      (s.moveFront.tryOnRedisHandler ndebug node.on (fun on => .reply on (.bytes ec.message true))
        inside).bind fun s => s.popFront.map fun s =>
          if s.errorHandlePolicy = .autoReconnect then s.reconnect none else s
    | none => if inside = [] then some (s.moveFront.startAysncReadAndParse node.on) else none

/-- The loop over the octets not yet parsed, with fuel. -/
def parseReply (ndebug : Bool) : Nat → RedisParser → Bytes → Nat → Option Answer
  | 0, _, _, _ => none
  | fuel + 1, parser, buf, beg =>
    if beg < buf.length then
      (parser.parse ndebug (buf.drop beg)).bind fun answer =>
        if answer.result = .incompleted then
          parseReply ndebug fuel answer.parser buf (beg + answer.consumed)
        else some { answer with consumed := beg + answer.consumed }
    else some ⟨beg, .incompleted, parser⟩

/-- The callback, and the next command. -/
def deliver (ndebug : Bool) (s : RedisClient) (on : Option Callback) (value : RedisValue)
    (inside : List Call) : Option RedisClient :=
  (s.tryOnRedisHandler ndebug on (fun on => .reply on value) inside).bind fun s =>
    s.popFront.map startAsyncWrite

def parseError : Bytes := "parse error. ".toUTF8.toList

def onRead (ndebug : Bool) (s : RedisClient) (op : ReadOperation)
    (result : Except ErrorCode Bytes) (inside : List Call) : Option RedisClient :=
  match result with
  | .error ec =>
    (s.tryOnRedisHandler ndebug op.on (fun on => .reply on (.bytes ec.message true)) inside).bind
      popFront
  | .ok data =>
    if data = [] then (if inside = [] then some { s with reads := s.reads ++ [op] } else none)
    else
      let buf := s.replyBuf ++ data
      (parseReply ndebug (buf.length + 1) op.parser buf s.replyParseBeg).bind fun answer =>
        let parsed := { s with replyBuf := buf, replyParseBeg := answer.consumed }
        match answer.result with
        | .completed => parsed.deliver ndebug op.on answer.parser.result inside
        | .error => parsed.deliver ndebug op.on (.bytes (parseError ++ buf) true) inside
        | .incompleted =>
          if inside = [] then
            some { parsed with reads := parsed.reads ++ [⟨answer.parser, op.on⟩] }
          else none

/-- A call from outside, or the completion of an operation: the one at a position
among those that are outstanding. -/
inductive Event where
  | call (c : Call)
  | connected (index : Nat) (ec : Option ErrorCode) (inside : List Call)
  | expired (index : Nat)
  | wrote (index : Nat) (ec : Option ErrorCode) (inside : List Call)
  | read (index : Nat) (result : Except ErrorCode Bytes) (inside : List Call)

def readBufferSize : Nat := 1024

def received : Except ErrorCode Bytes → Nat
  | .ok data => data.length
  | .error _ => 0

def step (ndebug : Bool) (s : RedisClient) : Event → Option RedisClient
  | .call c => s.call ndebug c
  | .connected index ec inside =>
    s.connects[index]?.bind fun op =>
      { s with connects := s.connects.eraseIdx index }.onConnectFinished ndebug op.on ec inside
  | .expired index =>
    s.waits[index]?.map fun wait => { s with waits := s.waits.eraseIdx index }.onTimer wait
  | .wrote index ec inside =>
    s.writes[index]?.bind fun _ =>
      { s with writes := s.writes.eraseIdx index }.onWrite ndebug ec inside
  | .read index result inside =>
    s.reads[index]?.bind fun op =>
      if received result ≤ readBufferSize then
        { s with reads := s.reads.eraseIdx index }.onRead ndebug op result inside
      else none

end RedisClient
end Da4qi4.Redis
