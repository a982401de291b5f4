import Da4qi4.Foundation.Bytes

/-! The frame builder and the resumable frame parser. The header's multi-octet
fields are the memory the parser copies into and decodes octet by octet, so no
host byte order is assumed. The callback is the list of messages it is invoked
with; storage allocation succeeds. -/
namespace Da4qi4.Websocket

/-- The enumerators of the operation code. A parsed code may be any nibble. -/
inductive FrameType where
  | continuation | text | binary | connectionClose | ping | pong
  deriving DecidableEq, Repr

def FrameType.code : FrameType → UInt8
  | .continuation => 0x00
  | .text => 0x01
  | .binary => 0x02
  | .connectionClose => 0x08
  | .ping => 0x09
  | .pong => 0x0a

/-- What the builder reads of the frame header. -/
structure FrameBuilder where
  fin : UInt8 := 0
  opcode : UInt8 := FrameType.continuation.code
  mask : UInt8 := 0
  maskingKey : UInt32 := 0
  deriving DecidableEq

namespace FrameBuilder

def resetMaskingKey (b : FrameBuilder) : FrameBuilder := { b with mask := 0x00 }

def setMaskingKey (b : FrameBuilder) (key : UInt32) : FrameBuilder :=
  { b with mask := 0x80, maskingKey := key }

def setFIN (b : FrameBuilder) (val : Bool) : FrameBuilder :=
  { b with fin := if val then 0x80 else 0 }

def setFrameType (b : FrameBuilder) (type : FrameType) : FrameBuilder :=
  { b with opcode := type.code }

/-- The key in the order the frame carries it. -/
def keyBytes (key : UInt32) : Bytes :=
  [(key >>> 24).toUInt8, (key >>> 16).toUInt8, (key >>> 8).toUInt8, key.toUInt8]

/-- The second octet and the extended length that may follow it. -/
def lengthBytes (mask : UInt8) (len : Nat) : Bytes :=
  if len ≤ 125 then [mask ||| len.toUInt8]
  else if len ≤ 65535 then [mask ||| 126, (len >>> 8).toUInt8, len.toUInt8]
  else [mask ||| 127, (len >>> 56).toUInt8, (len >>> 48).toUInt8, (len >>> 40).toUInt8,
    (len >>> 32).toUInt8, (len >>> 24).toUInt8, (len >>> 16).toUInt8, (len >>> 8).toUInt8,
    len.toUInt8]

/-- `none` is the null pointer. The buffer starts zeroed, so what an early
return leaves unwritten reads as zero. -/
def build (b : FrameBuilder) (data : Option Bytes) (len : Nat) : Bytes :=
  let maskKeyLen := if len ≠ 0 ∧ b.mask ≠ 0 then 4 else 0
  let header := (b.fin ||| b.opcode) :: lengthBytes (if len ≠ 0 then b.mask else 0) len
  match data with
  | none => header ++ List.replicate (maskKeyLen + len) 0
  | some octets =>
    if len = 0 then header
    else if b.mask ≠ 0 then
      header ++ keyBytes b.maskingKey ++
        Bytes.xorFrom (fun i => (keyBytes b.maskingKey).getD (i % 4) 0) 0 (octets.take len)
    else header ++ octets.take len

/-- The overload for a string. -/
def buildString (b : FrameBuilder) (data : Bytes) : Bytes := b.build (some data) data.length

/-- The overload without a payload. -/
def buildEmpty (b : FrameBuilder) : Bytes := b.build none 0

end FrameBuilder

/-- One invocation of the message callback. -/
structure Message where
  payload : Bytes
  opcode : UInt8
  finished : Bool
  deriving DecidableEq, Repr

inductive ParserStep where
  | fixedHeader | payloadLen | extenedPayloadLen | maskingKey | payloadData
  deriving DecidableEq, Repr

structure FrameHeader where
  fin : UInt8 := 0
  rsv1 : UInt8 := 0
  rsv2 : UInt8 := 0
  rsv3 : UInt8 := 0
  opcode : UInt8 := FrameType.continuation.code
  mask : UInt8 := 0
  payloadLen : UInt8 := 0
  extPayloadLen16 : Memory 2 := Memory.zero 2
  extPayloadLen64 : Memory 8 := Memory.zero 8
  payloadRealyLen : Nat := 0
  maskingKey : Memory 4 := Memory.zero 4
  deriving DecidableEq

structure FrameParser where
  parserStep : ParserStep := .fixedHeader
  payloadLenOffset : Nat := 0
  maskingKeyPos : Nat := 0
  payload : Bytes := []
  frameHeader : FrameHeader := {}
  deriving DecidableEq

/-- What a part parser consumed, the parser it leaves and the callbacks it made. -/
structure Parsed where
  used : Nat
  parser : FrameParser
  messages : List Message := []

namespace FrameParser

/-- `reset` overwrites every field, so it does not depend on the state before. -/
def reset : FrameParser := {}

/-- A newly constructed parser. -/
def fresh : FrameParser := reset

def message (p : FrameParser) (payload : Bytes) : Message :=
  ⟨payload, p.frameHeader.opcode, p.frameHeader.fin != 0⟩

def parseFixedHeader (p : FrameParser) (data : Bytes) : Parsed :=
  let octet := data.headD 0
  { used := 1
    parser := { p with
      payloadLenOffset := 0
      frameHeader := {
        fin := octet &&& 0xf0
        rsv1 := octet &&& 0x40
        rsv2 := octet &&& 0x20
        rsv3 := octet &&& 0x10
        opcode := octet &&& 0x0f }
      parserStep := .payloadLen } }

def parsePayloadLen (p : FrameParser) (data : Bytes) : Parsed :=
  let octet := data.headD 0
  let header : FrameHeader :=
    { p.frameHeader with mask := octet &&& 0x80, payloadLen := octet &&& 0x7f }
  let read : FrameParser :=
    if header.payloadLen ≤ 125 then
      { p with
        frameHeader := { header with payloadRealyLen := header.payloadLen.toNat }
        parserStep := if header.mask ≠ 0 then .maskingKey else .payloadData }
    else { p with frameHeader := header, parserStep := .extenedPayloadLen }
  if header.payloadLen = 0 then ⟨1, reset, [read.message []]⟩ else ⟨1, read, []⟩

def decodeExtenedPayloadLen (p : FrameParser) : FrameParser :=
  let header := p.frameHeader
  let realyLen :=
    if header.payloadLen = 126 then Bytes.bigEndian header.extPayloadLen16.bytes
    else if header.payloadLen = 127 then Bytes.bigEndian header.extPayloadLen64.bytes
    else header.payloadRealyLen
  { p with
    frameHeader := { header with payloadRealyLen := realyLen }
    parserStep := if header.mask ≠ 0 then .maskingKey else .payloadData }

/-- Every call copies to the start of the field, whatever earlier calls stored. -/
def parseExtenedPayloadLen (p : FrameParser) (data : Bytes) : Parsed :=
  let header := p.frameHeader
  if header.payloadLen = 126 then
    let minLen := min (2 - p.payloadLenOffset) data.length
    let read := { p with
      frameHeader := { header with
        extPayloadLen16 := header.extPayloadLen16.copy 0 (data.take minLen) }
      payloadLenOffset := p.payloadLenOffset + minLen }
    ⟨minLen, if read.payloadLenOffset = 2 then read.decodeExtenedPayloadLen else read, []⟩
  else if header.payloadLen = 127 then
    let minLen := min (8 - p.payloadLenOffset) data.length
    let read := { p with
      frameHeader := { header with
        extPayloadLen64 := header.extPayloadLen64.copy 0 (data.take minLen) }
      payloadLenOffset := p.payloadLenOffset + minLen }
    ⟨minLen, if read.payloadLenOffset = 8 then read.decodeExtenedPayloadLen else read, []⟩
  else ⟨0, p, []⟩

def parseMaskingKey (p : FrameParser) (data : Bytes) : Parsed :=
  let minLen := min (4 - p.maskingKeyPos) data.length
  if p.parserStep = .maskingKey then
    let read := { p with
      frameHeader := { p.frameHeader with
        maskingKey := p.frameHeader.maskingKey.copy 0 (data.take minLen) }
      maskingKeyPos := p.maskingKeyPos + minLen }
    ⟨minLen, if read.maskingKeyPos = 4 then { read with parserStep := .payloadData } else read, []⟩
  else ⟨minLen, p, []⟩

/-- Both lengths are truncated to 32 bits before they are subtracted, and the
key is indexed from the start of every call. -/
def parsePayload (p : FrameParser) (data : Bytes) : Parsed :=
  let header := p.frameHeader
  let remain := (header.payloadRealyLen + (2 ^ 32 - p.payload.length % 2 ^ 32)) % 2 ^ 32
  let minLen := min remain data.length
  let block := data.take minLen
  let octets :=
    if header.mask ≠ 0 then Bytes.xorFrom (fun i => header.maskingKey.load (i % 4)) 0 block
    else block
  let read := { p with payload := p.payload ++ octets }
  if read.payload.length = header.payloadRealyLen then
    ⟨minLen, reset, [read.message read.payload]⟩
  else ⟨minLen, read, []⟩

/-- The parser in front of the octets not yet consumed. -/
structure Cursor where
  parser : FrameParser
  rest : Bytes
  messages : List Message := []

/-- One of the guarded calls in the body of the loop. -/
def Cursor.advance (step : ParserStep) (parsePart : FrameParser → Bytes → Parsed)
    (c : Cursor) : Cursor :=
  if c.parser.parserStep = step ∧ c.rest ≠ [] then
    let part := parsePart c.parser c.rest
    ⟨part.parser, c.rest.drop part.used, c.messages ++ part.messages⟩
  else c

def parseBody (c : Cursor) : Cursor :=
  c.advance .fixedHeader parseFixedHeader
    |>.advance .payloadLen parsePayloadLen
    |>.advance .extenedPayloadLen parseExtenedPayloadLen
    |>.advance .maskingKey parseMaskingKey
    |>.advance .payloadData parsePayload

/-- The loop, with fuel; `none` when the fuel does not suffice. -/
def parseLoop : Nat → Cursor → Option Cursor
  | 0, _ => none
  | fuel + 1, c =>
    let c := parseBody c
    if c.rest ≠ [] then parseLoop fuel c else some c

/-- Two iterations for each octet, and one to find the end of the data. -/
def fuelFor (data : Bytes) : Nat := 2 * data.length + 1

/-- What a call returns, and the parser and the callbacks it leaves behind. -/
structure Outcome where
  success : Bool
  error : String
  parser : FrameParser
  messages : List Message
  deriving DecidableEq

/-- `none` when the call does not return: the assertion on its arguments aborts
it (unless assertions are compiled out), or the loop never ends. -/
def parse (ndebug : Bool) (p : FrameParser) (data : Bytes) : Option Outcome :=
  if ndebug ∨ data ≠ [] then
    (parseLoop (fuelFor data) ⟨p, data, []⟩).map fun c => ⟨true, "", c.parser, c.messages⟩
  else none

/-- The chunks, one call after another. -/
def parseChunks (ndebug : Bool) (p : FrameParser) : List Bytes → Option (FrameParser × List Message)
  | [] => some (p, [])
  | chunk :: chunks => do
    let first ← parse ndebug p chunk
    let (q, messages) ← parseChunks ndebug first.parser chunks
    some (q, first.messages ++ messages)

end FrameParser
end Da4qi4.Websocket
