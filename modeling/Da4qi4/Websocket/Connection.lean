import Da4qi4.Websocket.Frame

/-! A connection behind its handshake: what is read goes through the frame parser to
the handler of events, what is written goes through a list. A read or a write handed
to the event loop is kept until it completes. What a handler sends from inside an
event is a call of its own. `none` is the end of the program in a failed assertion,
or a call of the parser that does not return. -/
namespace Da4qi4.Websocket

inductive WriteDataType where
  | continuation | text | binary
  deriving DecidableEq, Repr

/-- `FromWriteDataType`. -/
def WriteDataType.frameType : WriteDataType → FrameType
  | .continuation => .continuation
  | .text => .text
  | .binary => .binary

inductive EventOn where
  | readEvent | writeEvent
  deriving DecidableEq, Repr

inductive ErrorCode where
  | eof
  | other (value : Int) (message : Bytes)
  deriving DecidableEq, Repr

/-- A call of the handler of events. -/
inductive Event where
  | text (data : Bytes) (finished : Bool)
  | binary (data : Bytes) (finished : Bool)
  | error (event : EventOn) (code : Int) (message : Bytes)
  | close (event : EventOn)
  deriving DecidableEq, Repr

/-- Behind the flags stand the operations that the event loop has not completed, and
records of what was put on the list, handed to the socket and told to the handler. -/
structure Connection where
  dataForWrite : List Bytes := []
  parser : FrameParser := .fresh
  lastDataType : UInt8 := 0
  errorOnParse : UInt8 := 0
  stopBySelf : Bool := false
  reads : Nat := 0
  writes : List Bytes := []
  queued : List Bytes := []
  handed : List Bytes := []
  events : List Event := []
  deriving DecidableEq

namespace Connection

def tell (c : Connection) (event : Event) : Connection := { c with events := c.events ++ [event] }

/-- What the handler is told of an operation that failed. -/
def fail (c : Connection) (event : EventOn) : ErrorCode → Connection
  | .eof => c.tell (.close event)
  | .other value message => c.tell (.error event value message)

/-- The locked part of `append_write_data`, with what it finds. -/
def pushWriteData (c : Connection) (data : Bytes) : Bool × Connection :=
  (c.dataForWrite.isEmpty,
    { c with dataForWrite := c.dataForWrite ++ [data], queued := c.queued ++ [data] })

def startWrite (c : Connection) : Option Connection :=
  match c.dataForWrite with
  | [] => none
  | data :: _ => some { c with writes := c.writes ++ [data], handed := c.handed ++ [data] }

def appendWriteData (c : Connection) (data : Bytes) : Option Connection :=
  let pushed := c.pushWriteData data
  if pushed.1 then pushed.2.startWrite else some pushed.2

/-- The locked part of the completion of a write, with what it finds. The list must not
be empty. -/
def popWriteData (c : Connection) : Option (Bool × Connection) :=
  match c.dataForWrite with
  | [] => none
  | _ :: rest => some (!rest.isEmpty, { c with dataForWrite := rest })

/-- The completion of a write. -/
def onWrote (c : Connection) : Option ErrorCode → Option Connection
  | some ec => some (c.fail .writeEvent ec)
  | none => c.popWriteData.bind fun popped =>
    if popped.1 then popped.2.startWrite else some popped.2

/-- `Connection::Write`. -/
def write (c : Connection) (data : Bytes) (type : WriteDataType) (finished : Bool) :
    Option Connection :=
  c.appendWriteData
    (((({} : FrameBuilder).setFIN finished).setFrameType type.frameType).buildString data)

def closeFrame : Bytes :=
  ((({} : FrameBuilder).setFIN true).setFrameType .connectionClose).buildEmpty

/-- `Connection::Stop`. -/
def stop (c : Connection) : Option Connection :=
  { c with stopBySelf := true }.appendWriteData closeFrame

def pongFrame : Bytes := ((({} : FrameBuilder).setFrameType .pong).setFIN true).buildEmpty

def pong (c : Connection) : Option Connection := c.appendWriteData pongFrame

/-- The second `switch` of `on_read_frame`. -/
def deliver (c : Connection) (m : Message) : Connection :=
  if c.lastDataType = FrameType.text.code then c.tell (.text m.payload m.finished)
  else if c.lastDataType = FrameType.binary.code then c.tell (.binary m.payload m.finished)
  else { c with errorOnParse := 2 }

def onReadFrame (c : Connection) (m : Message) : Option Connection :=
  let c := { c with errorOnParse := 0 }
  if m.opcode = FrameType.connectionClose.code then if c.stopBySelf then some c else c.stop
  else if m.opcode = FrameType.continuation.code then some (c.deliver m)
  else if m.opcode = FrameType.text.code then
    some ({ c with lastDataType := FrameType.text.code }.deliver m)
  else if m.opcode = FrameType.binary.code then
    some ({ c with lastDataType := FrameType.binary.code }.deliver m)
  else if m.opcode = FrameType.ping.code then c.pong
  else some { c with errorOnParse := 1 }

/-- The callbacks of one call of the parser. -/
def onReadFrames (c : Connection) : List Message → Option Connection
  | [] => some c
  | m :: messages => (c.onReadFrame m).bind fun c => c.onReadFrames messages

def startRead (c : Connection) : Connection := { c with reads := c.reads + 1 }

/-- What a read has brought goes to the parser, which makes the callbacks. -/
def parseRead (ndebug : Bool) (c : Connection) (data : Bytes) : Option (Bool × Connection) :=
  (c.parser.parse ndebug data).bind fun outcome =>
    ({ c with parser := outcome.parser }.onReadFrames outcome.messages).map fun c =>
      (outcome.success, c)

/-- The completion of a read. Nothing is parsed when nothing was read. -/
def onRead (ndebug : Bool) (c : Connection) : Except ErrorCode Bytes → Option Connection
  | .error ec => some (c.fail .readEvent ec)
  | .ok data =>
    (if data ≠ [] then c.parseRead ndebug data else some (true, c)).map fun parsed =>
      if parsed.1 ∧ parsed.2.errorOnParse = 0 then parsed.2.startRead else parsed.2

/-- What follows a handshake: its response is written, and reading begins. -/
def startHandshake (c : Connection) (response : Bytes) : Option Connection :=
  (c.appendWriteData response).map startRead

/-- A connection behind its handshake. -/
def opened (response : Bytes) : Connection :=
  { dataForWrite := [response], writes := [response], queued := [response], handed := [response]
    reads := 1 }

theorem startHandshake_constructed (response : Bytes) :
    ({} : Connection).startHandshake response = some (opened response) := rfl

/-- Whether frames of an operation code belong to messages. -/
def IsData (opcode : UInt8) : Prop :=
  opcode = FrameType.continuation.code ∨ opcode = FrameType.text.code ∨
    opcode = FrameType.binary.code

instance (opcode : UInt8) : Decidable (IsData opcode) := inferInstanceAs (Decidable (_ ∨ _ ∨ _))

/-- The data type that is remembered behind a frame. -/
def lastAfter (last opcode : UInt8) : UInt8 :=
  if opcode = FrameType.text.code ∨ opcode = FrameType.binary.code then opcode else last

/-- The event for data of a type; there is none for other types. -/
def eventOf (type : UInt8) (m : Message) : Option Event :=
  if type = FrameType.text.code then some (.text m.payload m.finished)
  else if type = FrameType.binary.code then some (.binary m.payload m.finished)
  else none

/-- What the handler is told of a frame. -/
def told (last : UInt8) (m : Message) : Option Event :=
  if IsData m.opcode then eventOf (lastAfter last m.opcode) m else none

/-- The error that is noted behind a frame. -/
def errorAfter (last : UInt8) (m : Message) : UInt8 :=
  if IsData m.opcode then if (told last m).isSome then 0 else 2
  else if m.opcode = FrameType.connectionClose.code ∨ m.opcode = FrameType.ping.code then 0
  else 1

/-- The frames that answer a frame. -/
def answers (stopBySelf : Bool) (opcode : UInt8) : List Bytes :=
  if opcode = FrameType.connectionClose.code then if stopBySelf then [] else [closeFrame]
  else if opcode = FrameType.ping.code then [pongFrame]
  else []

/-- All that a frame changes. -/
structure Handled (c : Connection) (m : Message) (d : Connection) : Prop where
  last : d.lastDataType = lastAfter c.lastDataType m.opcode
  events : d.events = c.events ++ (told c.lastDataType m).toList
  error : d.errorOnParse = errorAfter c.lastDataType m
  stopped : d.stopBySelf = (c.stopBySelf || m.opcode = FrameType.connectionClose.code)
  queued : d.queued = c.queued ++ answers c.stopBySelf m.opcode
  parser : d.parser = c.parser
  reads : d.reads = c.reads

theorem appendWriteData_eq (c : Connection) (data : Bytes) :
    c.appendWriteData data = some { c with
      dataForWrite := c.dataForWrite ++ [data]
      queued := c.queued ++ [data]
      writes := if c.dataForWrite = [] then c.writes ++ [data] else c.writes
      handed := if c.dataForWrite = [] then c.handed ++ [data] else c.handed } := by
  rw [appendWriteData, pushWriteData]
  cases none : c.dataForWrite with
  | nil => rfl
  | cons first rest => rfl

theorem lastAfter_control (control : ¬IsData opcode) (last : UInt8) :
    lastAfter last opcode = last :=
  if_neg fun typed => control (.inr typed)

theorem told_control {m : Message} (control : ¬IsData m.opcode) (last : UInt8) :
    told last m = none :=
  if_neg control

/-- A frame that is not answered changes nothing but the error. -/
theorem handled_unanswered {c : Connection} {m : Message} (control : ¬IsData m.opcode)
    (silent : answers c.stopBySelf m.opcode = [])
    (stopped : c.stopBySelf = (c.stopBySelf || m.opcode = FrameType.connectionClose.code)) :
    Handled c m { c with errorOnParse := errorAfter c.lastDataType m } := by
  constructor
  · exact (lastAfter_control control _).symm
  · rw [told_control control]
    exact (List.append_nil _).symm
  · rfl
  · exact stopped
  · rw [silent, List.append_nil]
  · rfl
  · rfl

/-- A frame that is answered changes the queue, and the flag of a stop. -/
theorem handled_answered {c : Connection} {m : Message} {frame : Bytes} (stopBySelf : Bool)
    (control : ¬IsData m.opcode) (right : errorAfter c.lastDataType m = 0)
    (answered : answers c.stopBySelf m.opcode = [frame])
    (stopped : stopBySelf = (c.stopBySelf || m.opcode = FrameType.connectionClose.code)) :
    ∃ d, { c with errorOnParse := 0, stopBySelf := stopBySelf }.appendWriteData frame = some d ∧
      Handled c m d := by
  refine ⟨_, appendWriteData_eq _ _, ?_⟩
  constructor
  · exact (lastAfter_control control _).symm
  · rw [told_control control]
    exact (List.append_nil _).symm
  · exact right.symm
  · exact stopped
  · rw [answered]
  · rfl
  · rfl

theorem deliver_eq (c : Connection) (m : Message) :
    c.deliver m = match eventOf c.lastDataType m with
      | some event => c.tell event
      | none => { c with errorOnParse := 2 } := by
  rw [deliver, eventOf]
  split
  · rfl
  · split
    · rfl
    · rfl

/-- Data is told under the type that is remembered, or is an error. -/
theorem deliver_handled {c : Connection} {m : Message} (last : UInt8) (data : IsData m.opcode)
    (typed : last = lastAfter c.lastDataType m.opcode) :
    Handled c m ({ c with errorOnParse := 0, lastDataType := last }.deliver m) := by
  have open_ : m.opcode ≠ FrameType.connectionClose.code := by
    intro same
    rw [same] at data
    revert data
    decide
  have unanswered : answers c.stopBySelf m.opcode = [] := by
    have quiet : m.opcode ≠ FrameType.ping.code := by
      intro same
      rw [same] at data
      revert data
      decide
    rw [answers, if_neg open_, if_neg quiet]
  have unstopped : c.stopBySelf =
      (c.stopBySelf || decide (m.opcode = FrameType.connectionClose.code)) := by
    rw [decide_eq_false open_, Bool.or_false]
  have event : told c.lastDataType m = eventOf last m := by
    rw [told, if_pos data, typed]
  have error : errorAfter c.lastDataType m = if (eventOf last m).isSome then 0 else 2 := by
    rw [errorAfter, if_pos data, event]
  rw [deliver_eq]
  cases found : eventOf last m with
  | some e =>
    rw [found] at event error
    exact ⟨typed, by rw [event]; rfl, error.symm, unstopped, by rw [unanswered]; simp [tell],
      rfl, rfl⟩
  | none =>
    rw [found] at event error
    exact ⟨typed, by rw [event]; simp, error.symm, unstopped, by rw [unanswered]; simp, rfl, rfl⟩

theorem onReadFrame_handled (c : Connection) (m : Message) :
    ∃ d, c.onReadFrame m = some d ∧ Handled c m d := by
  have codes : ∀ {opcode : UInt8}, m.opcode = opcode → ¬IsData opcode → ¬IsData m.opcode := by
    intro opcode same control
    rw [same]
    exact control
  rw [onReadFrame]
  split
  · rename_i close
    have control := codes close (by decide)
    have right : errorAfter c.lastDataType m = 0 := by
      rw [errorAfter, if_neg control, if_pos (.inl close)]
    split
    · rename_i stopped
      have silent : answers c.stopBySelf m.opcode = [] := by
        rw [answers, if_pos close, if_pos stopped]
      refine ⟨_, rfl, ?_⟩
      rw [← right]
      exact handled_unanswered control silent (by rw [decide_eq_true close, Bool.or_true, stopped])
    · rename_i running
      have answered : answers c.stopBySelf m.opcode = [closeFrame] := by
        rw [answers, if_pos close, if_neg running]
      exact handled_answered true control right answered (by rw [decide_eq_true close, Bool.or_true])
  · rename_i open_
    split
    · rename_i continuation
      exact ⟨_, rfl, deliver_handled _ (.inl continuation) (by rw [continuation]; rfl)⟩
    · split
      · rename_i text
        exact ⟨_, rfl, deliver_handled _ (.inr (.inl text)) (by rw [text]; rfl)⟩
      · split
        · rename_i binary
          exact ⟨_, rfl, deliver_handled _ (.inr (.inr binary)) (by rw [binary]; rfl)⟩
        · split
          · rename_i ping
            have control := codes ping (by decide)
            have right : errorAfter c.lastDataType m = 0 := by
              rw [errorAfter, if_neg control, if_pos (.inr ping)]
            have answered : answers c.stopBySelf m.opcode = [pongFrame] := by
              rw [answers, if_neg open_, if_pos ping]
            exact handled_answered c.stopBySelf control right answered
              (by rw [decide_eq_false open_, Bool.or_false])
          · rename_i continuation text binary ping
            have control : ¬IsData m.opcode := by
              rintro (one | one | one)
              · exact continuation one
              · exact text one
              · exact binary one
            have error : errorAfter c.lastDataType m = 1 := by
              rw [errorAfter, if_neg control, if_neg fun answered => answered.elim open_ ping]
            have silent : answers c.stopBySelf m.opcode = [] := by
              rw [answers, if_neg open_, if_neg ping]
            refine ⟨_, rfl, ?_⟩
            rw [← error]
            exact handled_unanswered control silent (by rw [decide_eq_false open_, Bool.or_false])

end Connection
end Da4qi4.Websocket
