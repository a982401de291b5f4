import Da4qi4.Utilities.Strings

/-! The lexer of the template engine: from the text of a template to its tokens. -/
namespace Da4qi4.Inja

namespace Token

inductive Kind where
  | text | expressionOpen | expressionClose | lineStatementOpen | lineStatementClose
  | statementOpen | statementClose | commentOpen | commentClose
  | id | number | string | comma | colon
  | leftParen | rightParen | leftBracket | rightBracket | leftBrace | rightBrace
  | equal | greaterThan | greaterEqual | lessThan | lessEqual | notEqual
  | unknown | eof
  deriving DecidableEq

end Token

/-- A token, with the place in the template where its text begins. -/
structure Token where
  kind : Token.Kind := .unknown
  text : Bytes := []
  start : Nat := 0
  deriving DecidableEq

def Token.describe (t : Token) : Bytes :=
  match t.kind with
  | .text => Bytes.ofAscii "<text>"
  | .lineStatementClose => Bytes.ofAscii "<eol>"
  | .eof => Bytes.ofAscii "<eof>"
  | _ => t.text

structure LexerConfig where
  statementOpen : Bytes := Bytes.ofAscii "\x7b%"
  statementClose : Bytes := Bytes.ofAscii "%\x7d"
  lineStatement : Bytes := Bytes.ofAscii "##"
  expressionOpen : Bytes := Bytes.ofAscii "\x7b\x7b"
  expressionClose : Bytes := Bytes.ofAscii "\x7d\x7d"
  commentOpen : Bytes := Bytes.ofAscii "\x7b#"
  commentClose : Bytes := Bytes.ofAscii "#\x7d"
  trimBlocks : Bool := false
  lstripBlocks : Bool := false

/-- The first character of each opening sequence, as `update_open_chars` gathers them. -/
def LexerConfig.openChars (c : LexerConfig) : Bytes :=
  [c.lineStatement, c.statementOpen, c.expressionOpen, c.commentOpen].filterMap List.head?

namespace Lexer

inductive State where
  | text | expressionStart | expressionBody | lineStart | lineBody
  | statementStart | statementBody | commentStart | commentBody
  deriving DecidableEq

end Lexer

structure Lexer where
  state : Lexer.State := .text
  input : Bytes
  tokStart : Nat := 0
  pos : Nat := 0

namespace Lexer

def isAlpha (ch : UInt8) : Bool := (65 ≤ ch && ch ≤ 90) || (97 ≤ ch && ch ≤ 122)

def isDigit (ch : UInt8) : Bool := 48 ≤ ch && ch ≤ 57

/-- `slice`, which stays inside the text. -/
def slice (view : Bytes) (start finish : Nat) : Bytes := (view.take finish).drop start

def makeToken (l : Lexer) (kind : Token.Kind) : Token :=
  ⟨kind, slice l.input l.tokStart l.pos, l.tokStart⟩

/-- Takes the blanks behind the last line end away, when nothing else is there. -/
def clearFinalLineIfWhitespace (text : Bytes) : Bytes :=
  let kept := (text.reverse.dropWhile fun ch => ch = 32 || ch = 9).reverse
  match kept.getLast? with
  | none => kept
  | some ch => if ch = 10 ∨ ch = 13 then kept else text

/-- The sequence that opens at `here`, and whether blanks in front of it go. -/
def openingAt (c : LexerConfig) (lineBegins : Bool) (here : Bytes) : Option (State × Bool) :=
  if c.expressionOpen.isPrefixOf here then some (.expressionStart, false)
  else if c.statementOpen.isPrefixOf here then some (.statementStart, c.lstripBlocks)
  else if c.commentOpen.isPrefixOf here then some (.commentStart, c.lstripBlocks)
  else if lineBegins && c.lineStatement.isPrefixOf here then some (.lineStart, false)
  else none

/-- How far the next opening sequence is, looked for where one of the first characters
stands. -/
def findOpening (c : LexerConfig) (lineBegins : Bool) : Bytes → Option (Nat × State × Bool)
  | [] => none
  | ch :: rest =>
    match if c.openChars.contains ch then openingAt c lineBegins (ch :: rest) else none with
    | some opening => some (0, opening)
    | none => (findOpening c (ch = 10) rest).map fun found => (found.1 + 1, found.2)

def skipNewline (l : Lexer) : Lexer :=
  match l.input.drop l.pos with
  | 10 :: _ => { l with pos := l.pos + 1 }
  | 13 :: 10 :: _ => { l with pos := l.pos + 2 }
  | 13 :: _ => { l with pos := l.pos + 1 }
  | _ => l

def scanId (l : Lexer) : Token × Lexer :=
  let name := (l.input.drop l.pos).takeWhile fun ch =>
    isAlpha ch || isDigit ch || ch = 46 || ch = 47 || ch = 95 || ch = 45
  let l := { l with pos := l.pos + name.length }
  (l.makeToken .id, l)

def scanNumber (l : Lexer) : Token × Lexer :=
  let digits := (l.input.drop l.pos).takeWhile fun ch =>
    isDigit ch || ch = 46 || ch = 101 || ch = 69 || ch = 43 || ch = 45
  let l := { l with pos := l.pos + digits.length }
  (l.makeToken .number, l)

/-- How long the rest of a string is, its quotation mark included. -/
def stringLength (quote : UInt8) (escape : Bool) : Bytes → Nat
  | [] => 0
  | ch :: rest =>
    if ch = 92 then stringLength quote true rest + 1
    else if !escape && ch = quote then 1
    else stringLength quote false rest + 1

def scanString (l : Lexer) (quote : UInt8) : Token × Lexer :=
  let l := { l with pos := l.pos + stringLength quote false (l.input.drop l.pos) }
  (l.makeToken .string, l)

/-- A character that an equals sign may follow. -/
def scanComparison (l : Lexer) (alone withEqual : Token.Kind) : Token × Lexer :=
  if (l.input.drop l.pos).head? = some 61 then
    let l := { l with pos := l.pos + 1 }
    (l.makeToken withEqual, l)
  else (l.makeToken alone, l)

/-- How many blanks come before the next token: line ends too, unless the body ends
there. -/
def blanks (close : Bytes) : Bytes → Nat
  | [] => 0
  | ch :: rest =>
    if ch = 32 ∨ ch = 9 ∨ ch = 13 then blanks close rest + 1
    else if close.isPrefixOf (ch :: rest) then 0
    else if ch = 10 then blanks close rest + 1
    else 0

def scanBody (l : Lexer) (close : Bytes) (closeKind : Token.Kind) (trim : Bool) : Token × Lexer :=
  let l := { l with tokStart := l.tokStart + blanks close (l.input.drop l.tokStart) }
  match l.input.drop l.tokStart with
  | [] => (l.makeToken .eof, l)
  | ch :: rest =>
    if close.isPrefixOf (ch :: rest) then
      let l := { l with state := .text, pos := l.tokStart + close.length }
      (l.makeToken closeKind, if trim then l.skipNewline else l)
    else
      let l := { l with pos := l.tokStart + 1 }
      if isAlpha ch then l.scanId
      else if ch = 44 then (l.makeToken .comma, l)
      else if ch = 58 then (l.makeToken .colon, l)
      else if ch = 40 then (l.makeToken .leftParen, l)
      else if ch = 41 then (l.makeToken .rightParen, l)
      else if ch = 91 then (l.makeToken .leftBracket, l)
      else if ch = 93 then (l.makeToken .rightBracket, l)
      else if ch = 123 then (l.makeToken .leftBrace, l)
      else if ch = 125 then (l.makeToken .rightBrace, l)
      else if ch = 62 then l.scanComparison .greaterThan .greaterEqual
      else if ch = 60 then l.scanComparison .lessThan .lessEqual
      else if ch = 61 then l.scanComparison .unknown .equal
      else if ch = 33 then l.scanComparison .unknown .notEqual
      else if ch = 34 then l.scanString ch
      else if isDigit ch || ch = 45 then l.scanNumber
      else if ch = 95 then l.scanId
      else (l.makeToken .unknown, l)

def scanOpen (l : Lexer) (sequence : Bytes) (body : State) (kind : Token.Kind) : Token × Lexer :=
  let l := { l with state := body, pos := l.pos + sequence.length }
  (l.makeToken kind, l)

/-- The states behind the text. -/
def scanInside (c : LexerConfig) (l : Lexer) : Token × Lexer :=
  match l.state with
  | .expressionStart => l.scanOpen c.expressionOpen .expressionBody .expressionOpen
  | .lineStart => l.scanOpen c.lineStatement .lineBody .lineStatementOpen
  | .statementStart => l.scanOpen c.statementOpen .statementBody .statementOpen
  | .commentStart => l.scanOpen c.commentOpen .commentBody .commentOpen
  | .expressionBody => l.scanBody c.expressionClose .expressionClose false
  | .lineBody => l.scanBody [10] .lineStatementClose false
  | .statementBody => l.scanBody c.statementClose .statementClose c.trimBlocks
  | .commentBody | .text =>
    match Utilities.find l.input c.commentClose l.pos with
    | none =>
      let l := { l with pos := l.input.length }
      (l.makeToken .eof, l)
    | some finish =>
      let l := { l with state := .text, pos := finish + c.commentClose.length }
      (l.makeToken .commentClose, if c.trimBlocks then l.skipNewline else l)

def scan (c : LexerConfig) (l : Lexer) : Token × Lexer :=
  let l := { l with tokStart := l.pos }
  if l.input.length ≤ l.tokStart then (l.makeToken .eof, l)
  else if l.state = .text then
    let lineBegins := l.pos = 0 || l.input[l.pos - 1]? = some 10
    match findOpening c lineBegins (l.input.drop l.pos) with
    | none =>
      let l := { l with pos := l.input.length }
      (l.makeToken .text, l)
    | some (distance, state, mustLstrip) =>
      let l := { l with state := state, pos := l.pos + distance }
      let text := slice l.input l.tokStart l.pos
      let text := if mustLstrip then clearFinalLineIfWhitespace text else text
      if text = [] then scanInside c l else (⟨.text, text, l.tokStart⟩, l)
  else scanInside c l

/-- The tokens up to the end, of which there is at most one for each character. -/
def scanAll (c : LexerConfig) : Nat → Lexer → List Token
  | 0, _ => []
  | fuel + 1, l =>
    let (t, next) := l.scan c
    if t.kind = .eof then [] else t :: scanAll c fuel next

def tokens (c : LexerConfig) (input : Bytes) : List Token :=
  scanAll c (input.length + 1) { input := input }

end Lexer
end Da4qi4.Inja
