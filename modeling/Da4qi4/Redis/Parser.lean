import Da4qi4.Foundation.Bytes

/-! Replies of a server and their resumable parser. Signed arithmetic wraps at
64 bits and storage allocation succeeds; a failed assertion and an access to an
empty stack end the program, which is the result `none`. -/
namespace Da4qi4.Redis

/-- The value with its error flag, which only byte strings can carry. -/
inductive RedisValue where
  | null
  | int (value : Int)
  | bytes (value : Bytes) (error : Bool)
  | array (values : List RedisValue)

namespace RedisValue

/-- `GetArray().push_back`; `none` when the value is not an array. -/
def pushBack : RedisValue → RedisValue → Option RedisValue
  | array values, value => some (array (values ++ [value]))
  | _, _ => none

end RedisValue

inductive ParseResult where
  | completed | incompleted | error
  deriving DecidableEq, Repr

inductive State where
  | start | startArray | string | stringLF | errorString | errorLF | integer | integerLF
  | bulkSize | bulkSizeLF | bulk | bulkCR | bulkLF | arraySize | arraySizeLF
  deriving DecidableEq, Repr

def stringReply : UInt8 := 43
def errorReply : UInt8 := 45
def integerReply : UInt8 := 58
def bulkReply : UInt8 := 36
def arrayReply : UInt8 := 42
def minus : UInt8 := 45
def cr : UInt8 := 13
def lf : UInt8 := 10

def isDigit (c : UInt8) : Bool := 48 ≤ c && c ≤ 57

/-- A `char` is signed, so octets from 128 on are negative. -/
def isChar (c : UInt8) : Bool := c ≤ 127

def isControl (c : UInt8) : Bool := c ≤ 31 || c == 127

/-- Two's complement arithmetic of a 64-bit `long int`. -/
def wrap (value : Int) : Int := value.bmod (2 ^ 64)

def addDigits (ndebug : Bool) : Int → Bytes → Option Int
  | value, [] => some value
  | value, c :: rest =>
    if ndebug ∨ isDigit c then addDigits ndebug (wrap (value * 10 + (c.toInt8.toInt - 48))) rest
    else none

def bufToLong (ndebug : Bool) (buf : Bytes) : Option Int :=
  match buf with
  | [] => some 0
  | c :: rest =>
    if c = minus then
      if rest = [] then some 0 else (addDigits ndebug 0 rest).map fun value => wrap (-value)
    else addDigits ndebug 0 buf

/-- The stacks have their top in front. -/
structure RedisParser where
  states : List State := []
  bulkSize : Int := 0
  buf : Bytes := []
  redisValue : RedisValue := .null
  arraySizes : List Int := []
  arrayValues : List RedisValue := []

/-- What a call returns, and the parser it leaves behind. -/
structure Answer where
  consumed : Nat
  result : ParseResult
  parser : RedisParser

namespace RedisParser

/-- A newly constructed parser. -/
def fresh : RedisParser := {}

/-- How one turn of the loop ends, apart from an error: the next state, and how
many octets behind the current one it took. -/
structure Turn where
  parser : RedisParser
  state : State
  skip : Nat := 0

/-- Every error but one empties the stack of states on its way out. -/
def fail (p : RedisParser) : Option (Except RedisParser Turn) :=
  some (.error { p with states := [] })

def next (p : RedisParser) (state : State) : Option (Except RedisParser Turn) :=
  some (.ok ⟨p, state, 0⟩)

/-- A simple or an error string, up to its line end. -/
def textOctet (p : RedisParser) (state lineFeed : State) (c : UInt8) :
    Option (Except RedisParser Turn) :=
  if c = cr then p.next lineFeed
  else if isChar c && !isControl c then { p with buf := p.buf ++ [c] }.next state
  else p.fail

/-- A number, up to its line end. -/
def numberOctet (p : RedisParser) (state lineFeed : State) (c : UInt8) :
    Option (Except RedisParser Turn) :=
  if c = cr then (if p.buf = [] then p.fail else p.next lineFeed)
  else if isDigit c || c == minus then { p with buf := p.buf ++ [c] }.next state
  else p.fail

/-- The end of a bulk string's size takes what is there of the string. -/
def openBulk (p : RedisParser) (size : Int) (rest : Bytes) : Option (Except RedisParser Turn) :=
  let p := { p with bulkSize := size, buf := [] }
  if size = -1 then { p with redisValue := .null }.next .start
  else if size = 0 then p.next .bulkCR
  else if size < 0 then p.fail
  else
    let canRead := (min size rest.length).toNat
    let read := if 0 < canRead then
        { p with buf := rest.take canRead, bulkSize := size - canRead } else p
    some (.ok ⟨read, if 0 < read.bulkSize then .bulk else .bulkCR, canRead⟩)

def openArray (p : RedisParser) (size : Int) : Option (Except RedisParser Turn) :=
  if size = -1 then { p with redisValue := .null }.next .start
  else if size = 0 then { p with redisValue := .array [] }.next .start
  else if size < 0 then p.fail
  else { p with arraySizes := size :: p.arraySizes, arrayValues := .array [] :: p.arrayValues }.next
    .startArray

/-- One octet `c`, in front of the octets `rest` of the same call. -/
def turn (ndebug : Bool) (p : RedisParser) (state : State) (c : UInt8) (rest : Bytes) :
    Option (Except RedisParser Turn) :=
  match state with
  | .start | .startArray =>
    let p := { p with buf := [] }
    if c = stringReply then p.next .string
    else if c = errorReply then p.next .errorString
    else if c = integerReply then p.next .integer
    else if c = bulkReply then { p with bulkSize := 0 }.next .bulkSize
    else if c = arrayReply then p.next .arraySize
    else some (.error p)
  | .string => p.textOctet .string .stringLF c
  | .errorString => p.textOctet .errorString .errorLF c
  | .integer => p.numberOctet .integer .integerLF c
  | .bulkSize => p.numberOctet .bulkSize .bulkSizeLF c
  | .arraySize => p.numberOctet .arraySize .arraySizeLF c
  | .stringLF =>
    if c = lf then { p with redisValue := .bytes p.buf false }.next .start else p.fail
  | .errorLF =>
    if c = lf then { p with redisValue := .bytes p.buf true }.next .start else p.fail
  | .integerLF =>
    if c = lf then (bufToLong ndebug p.buf).bind fun value =>
      { p with buf := [], redisValue := .int value }.next .start
    else p.fail
  | .bulkSizeLF =>
    if c = lf then (bufToLong ndebug p.buf).bind fun size => p.openBulk size rest else p.fail
  | .arraySizeLF =>
    if c = lf then (bufToLong ndebug p.buf).bind fun size => p.openArray size else p.fail
  | .bulk =>
    if 0 < p.bulkSize then
      let canRead := (min (rest.length + 1 : Int) p.bulkSize).toNat
      let read :=
        { p with buf := p.buf ++ (c :: rest).take canRead, bulkSize := p.bulkSize - canRead }
      some (.ok ⟨read, if read.bulkSize = 0 then .bulkCR else .bulk, canRead - 1⟩)
    else none
  | .bulkCR => if c = cr then p.next .bulkLF else p.fail
  | .bulkLF =>
    if c = lf then { p with redisValue := .bytes p.buf false }.next .start else p.fail

/-- Closes the arrays that the present value completes. -/
def closeArrays (sizes : List Int) (values : List RedisValue) (value : RedisValue) :
    Option (List Int × List RedisValue × RedisValue) :=
  match sizes with
  | [] => some ([], values, value)
  | size :: sizes =>
    if size - 1 = 0 then
      match values with
      | [] => none
      | array :: values =>
        if sizes = [] then closeArrays sizes values array
        else
          match values with
          | [] => none
          | outer :: values => (outer.pushBack array).bind fun outer =>
            closeArrays sizes (outer :: values) array
    else some (wrap (size - 1) :: sizes, values, value)

/-- A complete value becomes the last element of the innermost open array. -/
def finish (p : RedisParser) : Option RedisParser :=
  if p.arraySizes = [] then some p
  else
    match p.arrayValues with
    | [] => none
    | array :: values => (array.pushBack p.redisValue).bind fun array =>
      (closeArrays p.arraySizes (array :: values) p.redisValue).map fun closed =>
        { p with arraySizes := closed.1, arrayValues := closed.2.1, redisValue := closed.2.2 }

/-- The answer at the end of the octets. -/
def suspend (p : RedisParser) (state : State) (position : Nat) : Answer :=
  if p.arraySizes = [] ∧ state = .start then ⟨position, .completed, p⟩
  else ⟨position, .incompleted, { p with states := state :: p.states }⟩

/-- The loop, with fuel for one turn an octet. -/
def parseLoop (ndebug : Bool) : Nat → RedisParser → State → Nat → Bytes → Option Answer
  | _, p, state, position, [] => some (p.suspend state position)
  | 0, _, _, _, _ :: _ => none
  | fuel + 1, p, state, position, c :: rest =>
    (p.turn ndebug state c rest).bind fun
      | .error p => some ⟨position + 1, .error, p⟩
      | .ok t =>
        let position := position + 1 + t.skip
        if t.state = .start then
          t.parser.finish.bind fun p =>
            if p.arraySizes = [] then some (p.suspend .start position)
            else parseLoop ndebug fuel p .start position (rest.drop t.skip)
        else parseLoop ndebug fuel t.parser t.state position (rest.drop t.skip)

/-- The state the parser left off in, taken off the stack. -/
def resume (p : RedisParser) : RedisParser × State :=
  match p.states with
  | [] => (p, .start)
  | state :: states => ({ p with states := states }, state)

def parseChunk (ndebug : Bool) (p : RedisParser) (data : Bytes) : Option Answer :=
  parseLoop ndebug data.length p.resume.1 p.resume.2 0 data

def parse (ndebug : Bool) (p : RedisParser) (data : Bytes) : Option Answer :=
  p.parseChunk ndebug data

/-- The value of the completed reply, moved out. -/
def result (p : RedisParser) : RedisValue := p.redisValue

end RedisParser
end Da4qi4.Redis
