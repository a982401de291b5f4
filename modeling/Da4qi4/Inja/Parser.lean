import Da4qi4.Inja.Lexer
import Da4qi4.Inja.Values

/-! The parser of the template engine: from the tokens of a template to its bytecodes.
What a jump leads to is filled in when its place is known. -/
namespace Da4qi4
open Valuetool (Json)
namespace Inja

namespace Bytecode

inductive Op where
  | nop | printText | printValue | push
  | not | and | or | in | equal | greater | greaterEqual | less | lessEqual
  | at | different | divisibleBy | even | first | float | int | last | length | lower
  | max | min | odd | range | result | round | sort | upper | exists | existsInObject
  | isBoolean | isNumber | isInteger | isFloat | isObject | isArray | isString | default
  | include | callback | jump | conditionalJump | startLoop | endLoop
  deriving DecidableEq

/-- Where the last value that an operation takes comes from. -/
inductive Flag where
  | valuePop | valueImmediate | valueLookupDot | valueLookupPointer
  deriving DecidableEq

end Bytecode

open Bytecode (Op Flag)

structure Bytecode where
  op : Op := .nop
  args : Nat := 0
  flags : Flag := .valuePop
  value : Json := .null
  str : Bytes := []

structure Template where
  bytecodes : List Bytecode
  content : Bytes

/-- The templates that others can include, by their names. -/
abbrev TemplateStorage := List (Bytes × Template)

inductive ElementNotation where
  | dot | pointer

structure ParserConfig where
  elements : ElementNotation := .dot

def word (text : String) : Bytes := Bytes.ofAscii text

/-- The functions of the engine itself, with the number of their arguments. -/
def builtins : List ((Bytes × Nat) × Op) := [
  ((word "at", 2), .at), ((word "default", 2), .default), ((word "divisibleBy", 2), .divisibleBy),
  ((word "even", 1), .even), ((word "first", 1), .first), ((word "float", 1), .float),
  ((word "int", 1), .int), ((word "last", 1), .last), ((word "length", 1), .length),
  ((word "lower", 1), .lower), ((word "max", 1), .max), ((word "min", 1), .min),
  ((word "odd", 1), .odd), ((word "range", 1), .range), ((word "round", 2), .round),
  ((word "sort", 1), .sort), ((word "upper", 1), .upper), ((word "exists", 1), .exists),
  ((word "existsIn", 2), .existsInObject), ((word "isBoolean", 1), .isBoolean),
  ((word "isNumber", 1), .isNumber), ((word "isInteger", 1), .isInteger),
  ((word "isFloat", 1), .isFloat), ((word "isObject", 1), .isObject),
  ((word "isArray", 1), .isArray), ((word "isString", 1), .isString)]

def findBuiltin (name : Bytes) (numArgs : Nat) : Op := (builtins.lookup (name, numArgs)).getD .nop

/-- What the parser reads and writes: the current token with those that the lexer gives
next, and the bytecodes so far. -/
structure Parsing where
  tokens : List Token
  bytecodes : List Bytecode

namespace Parsing

def tok (s : Parsing) : Token := s.tokens.headD { kind := .eof }

def peekTok (s : Parsing) : Token := s.tokens.tail.headD { kind := .eof }

def getNextToken (s : Parsing) : Parsing := { s with tokens := s.tokens.tail }

def emplaceBack (s : Parsing) (b : Bytecode) : Parsing :=
  { s with bytecodes := s.bytecodes ++ [b] }

end Parsing

def Token.isWord (t : Token) (text : Bytes) : Bool := t.kind = .id && t.text = text

/-- A push in front of a function becomes the function, with the value for its last
argument. -/
def appendFunction (bytecodes : List Bytecode) (op : Op) (numArgs : Nat) : List Bytecode :=
  match bytecodes.getLast? with
  | some last =>
    if last.op = .push then bytecodes.dropLast ++ [{ last with op := op, args := numArgs }]
    else bytecodes ++ [{ op := op, args := numArgs }]
  | none => bytecodes ++ [{ op := op, args := numArgs }]

/-- The name of a callback stands where the name to look up would: only a push of a value
is merged. -/
def appendCallback (bytecodes : List Bytecode) (name : Bytes) (numArgs : Nat) : List Bytecode :=
  match bytecodes.getLast? with
  | some last =>
    if last.op = .push ∧ last.flags = .valueImmediate then
      bytecodes.dropLast ++ [{ last with op := .callback, args := numArgs, str := name }]
    else bytecodes ++ [{ op := .callback, args := numArgs, str := name }]
  | none => bytecodes ++ [{ op := .callback, args := numArgs, str := name }]

/-- `std::swap` of the last two bytecodes. -/
def swapLast (bytecodes : List Bytecode) : List Bytecode :=
  match bytecodes.reverse with
  | last :: before :: rest => rest.reverse ++ [last, before]
  | _ => bytecodes

def parserError (message : Bytes) : Failure := injaThrow (word "parser_error") message

def comparisonOp (t : Token) : Option Op :=
  match t.kind with
  | .id => if t.text = word "in" then some .in else none
  | .equal => some .equal
  | .greaterThan => some .greater
  | .lessThan => some .less
  | .lessEqual => some .lessEqual
  | .greaterEqual => some .greaterEqual
  | .notEqual => some .different
  | _ => none

section Expressions
variable (parse : Bytes → Except Failure Json) (config : ParserConfig) (content : Bytes)

/-- All characters from the first token of a literal to the end of the current one. -/
def returnJson (first : Nat) (s : Parsing) : Except Failure (Bool × Parsing) := do
  let value ← parse (Lexer.slice content first (s.tok.start + s.tok.text.length))
  return (true, (s.emplaceBack { op := .push, flags := .valueImmediate, value := value }).getNextToken)

def lookupFlag : Flag :=
  match config.elements with
  | .dot => .valueLookupDot
  | .pointer => .valueLookupPointer

/- The number bounds how deep the calls are. -/
mutual

def parseExpression : Nat → Parsing → Except Failure (Bool × Parsing)
  | 0, _ => .error .exhausted
  | fuel + 1, s => do
    let (parsed, s) ← parseExpressionAnd fuel s
    if !parsed then return (false, s)
    if !s.tok.isWord (word "or") then return (true, s)
    let (parsed, s) ← parseExpressionAnd fuel s.getNextToken
    if !parsed then return (false, s)
    return (true, { s with bytecodes := appendFunction s.bytecodes .or 2 })

def parseExpressionAnd : Nat → Parsing → Except Failure (Bool × Parsing)
  | 0, _ => .error .exhausted
  | fuel + 1, s => do
    let (parsed, s) ← parseExpressionNot fuel s
    if !parsed then return (false, s)
    if !s.tok.isWord (word "and") then return (true, s)
    let (parsed, s) ← parseExpressionNot fuel s.getNextToken
    if !parsed then return (false, s)
    return (true, { s with bytecodes := appendFunction s.bytecodes .and 2 })

def parseExpressionNot : Nat → Parsing → Except Failure (Bool × Parsing)
  | 0, _ => .error .exhausted
  | fuel + 1, s =>
    if s.tok.isWord (word "not") then do
      let (parsed, s) ← parseExpressionNot fuel s.getNextToken
      if !parsed then return (false, s)
      return (true, { s with bytecodes := appendFunction s.bytecodes .not 1 })
    else parseExpressionComparison fuel s

def parseExpressionComparison : Nat → Parsing → Except Failure (Bool × Parsing)
  | 0, _ => .error .exhausted
  | fuel + 1, s => do
    let (parsed, s) ← parseExpressionDatum fuel 0 0 0 s
    if !parsed then return (false, s)
    match comparisonOp s.tok with
    | none => return (true, s)
    | some op =>
      let (parsed, s) ← parseExpressionDatum fuel 0 0 0 s.getNextToken
      if !parsed then return (false, s)
      return (true, { s with bytecodes := appendFunction s.bytecodes op 2 })

/-- The loop over the tokens of a literal, with the place where it began and the levels of
its brackets and braces; any other datum ends it. -/
def parseExpressionDatum : Nat → Nat → Nat → Nat → Parsing → Except Failure (Bool × Parsing)
  | 0, _, _, _, _ => .error .exhausted
  | fuel + 1, jsonFirst, bracketLevel, braceLevel, s =>
    let outside : Bool := bracketLevel = 0 && braceLevel = 0
    match s.tok.kind with
    | .leftParen => do
      let (parsed, s) ← parseExpression fuel s.getNextToken
      if !parsed then return (false, s)
      if s.tok.kind ≠ .rightParen then throw (parserError (word "unmatched '('"))
      return (true, s.getNextToken)
    | .id =>
      if s.peekTok.kind = .leftParen then do
        let name := s.tok.text
        let s := s.getNextToken.getNextToken
        let (numArgs, s) ←
          if s.tok.kind = .rightParen then pure (0, s.getNextToken)
          else parseArguments fuel 0 s
        let op := findBuiltin name numArgs
        if op ≠ .nop then
          let bytecodes := if op = .default then swapLast s.bytecodes else s.bytecodes
          return (true, { s with bytecodes := appendFunction bytecodes op numArgs })
        else return (true, { s with bytecodes := appendCallback s.bytecodes name numArgs })
      else if s.tok.text = word "true" ∨ s.tok.text = word "false" ∨ s.tok.text = word "null" then
        if outside then returnJson parse content s.tok.start s
        else parseExpressionDatum fuel jsonFirst bracketLevel braceLevel s.getNextToken
      else
        return (true, (s.emplaceBack
          { op := .push, flags := lookupFlag config, str := s.tok.text }).getNextToken)
    | .number | .string =>
      if outside then returnJson parse content s.tok.start s
      else parseExpressionDatum fuel jsonFirst bracketLevel braceLevel s.getNextToken
    | .comma | .colon =>
      if outside then
        .error (parserError (word "unexpected token '" ++ s.tok.describe ++ word "'"))
      else parseExpressionDatum fuel jsonFirst bracketLevel braceLevel s.getNextToken
    | .leftBracket =>
      parseExpressionDatum fuel (if outside then s.tok.start else jsonFirst) (bracketLevel + 1)
        braceLevel s.getNextToken
    | .leftBrace =>
      parseExpressionDatum fuel (if outside then s.tok.start else jsonFirst) bracketLevel
        (braceLevel + 1) s.getNextToken
    | .rightBracket =>
      if bracketLevel = 0 then .error (parserError (word "unexpected ']'"))
      else if braceLevel = 0 ∧ bracketLevel - 1 = 0 then returnJson parse content jsonFirst s
      else parseExpressionDatum fuel jsonFirst (bracketLevel - 1) braceLevel s.getNextToken
    | .rightBrace =>
      if braceLevel = 0 then .error (parserError (word "unexpected '\x7d'"))
      else if braceLevel - 1 = 0 ∧ bracketLevel = 0 then returnJson parse content jsonFirst s
      else parseExpressionDatum fuel jsonFirst bracketLevel (braceLevel - 1) s.getNextToken
    | _ =>
      if braceLevel ≠ 0 then .error (parserError (word "unmatched '\x7b'"))
      else if bracketLevel ≠ 0 then .error (parserError (word "unmatched '['"))
      else .ok (false, s)

/-- The arguments of a call, its closing parenthesis included. -/
def parseArguments : Nat → Nat → Parsing → Except Failure (Nat × Parsing)
  | 0, _, _ => .error .exhausted
  | fuel + 1, numArgs, s => do
    let (parsed, s) ← parseExpression fuel s
    if !parsed then
      throw (parserError (word "expected expression, got '" ++ s.tok.describe ++ word "'"))
    if s.tok.kind = .rightParen then return (numArgs + 1, s.getNextToken)
    if s.tok.kind ≠ .comma then
      throw (parserError (word "expected ')' or ',', got '" ++ s.tok.describe ++ word "'"))
    parseArguments fuel (numArgs + 1) s.getNextToken

end

/-- Every token is at most six calls deep. -/
def expressionFuel (s : Parsing) : Nat := 6 * s.tokens.length + 6

end Expressions

/-- The jumps of an `if` whose ends are still to come. -/
structure IfData where
  prevCondJump : Option Nat
  uncondJumps : List Nat := []

structure Parser extends Parsing where
  ifStack : List IfData := []
  loopStack : List Nat := []
  included : TemplateStorage := []

namespace Parser

def getNextToken (p : Parser) : Parser := { p with toParsing := p.toParsing.getNextToken }

def emplaceBack (p : Parser) (b : Bytecode) : Parser :=
  { p with toParsing := p.toParsing.emplaceBack b }

/-- Fills in what a bytecode leads to. -/
def setArgs (bytecodes : List Bytecode) (index args : Nat) : List Bytecode :=
  bytecodes.modify index fun b => { b with args := args }

def leads (p : Parser) (index args : Nat) : Parser :=
  { p with bytecodes := setArgs p.bytecodes index args }

section Statements
variable (parse : Bytes → Except Failure Json) (config : ParserConfig) (content path : Bytes)
  (parseTemplate : TemplateStorage → Bytes → Except Failure (Template × TemplateStorage))

def expression (p : Parser) : Except Failure (Bool × Parser) := do
  let (parsed, s) ←
    parseExpression parse config content (expressionFuel p.toParsing) p.toParsing
  return (parsed, { p with toParsing := s })

/-- The statement `if`; and what follows `else`, but for the stack. -/
def parseIf (p : Parser) : Except Failure (Bool × Parser) := do
  let (parsed, p) ← p.getNextToken.expression parse config content
  if !parsed then return (false, p)
  let p := { p with ifStack := ⟨some p.bytecodes.length, []⟩ :: p.ifStack }
  return (true, p.emplaceBack { op := .conditionalJump })

def parseEndif (p : Parser) : Except Failure (Bool × Parser) :=
  match p.ifStack with
  | [] => .error (parserError (word "endif without matching if"))
  | ifData :: others =>
    let p := p.getNextToken
    let p := match ifData.prevCondJump with
      | some jump => p.leads jump p.bytecodes.length
      | none => p
    let p := ifData.uncondJumps.foldl (fun p jump => p.leads jump p.bytecodes.length) p
    .ok (true, { p with ifStack := others })

/-- The second `else` of an `if` writes to a place that no template has. -/
def parseElse (p : Parser) : Except Failure (Bool × Parser) :=
  match p.ifStack with
  | [] => .error (parserError (word "else without matching if"))
  | ifData :: others => do
    let p := p.getNextToken
    let uncondJumps := ifData.uncondJumps ++ [p.bytecodes.length]
    let p := p.emplaceBack { op := .jump }
    let jump ← match ifData.prevCondJump with
      | some jump => pure jump
      | none => throw .undefined
    let p := p.leads jump p.bytecodes.length
    let p := { p with ifStack := ⟨none, uncondJumps⟩ :: others }
    if !p.tok.isWord (word "if") then return (true, p)
    let (parsed, p) ← p.getNextToken.expression parse config content
    if !parsed then return (false, p)
    let p := { p with ifStack := ⟨some p.bytecodes.length, uncondJumps⟩ :: others }
    return (true, p.emplaceBack { op := .conditionalJump })

def expected (what : String) (t : Token) : Failure :=
  parserError (word "expected " ++ word what ++ word ", got '" ++ t.describe ++ word "'")

def parseFor (p : Parser) : Except Failure (Bool × Parser) := do
  let p := p.getNextToken
  if p.tok.kind ≠ .id then throw (expected "id" p.tok)
  let valueToken := p.tok
  let p := p.getNextToken
  let (keyToken, valueToken, p) ←
    if p.tok.kind = .comma then
      let p := p.getNextToken
      if p.tok.kind ≠ .id then throw (expected "id" p.tok)
      pure (valueToken.text, p.tok, p.getNextToken)
    else pure ([], valueToken, p)
  if !p.tok.isWord (word "in") then throw (expected "'in'" p.tok)
  let (parsed, p) ← p.getNextToken.expression parse config content
  if !parsed then return (false, p)
  let p := { p with loopStack := p.bytecodes.length :: p.loopStack }
  let value := if keyToken = [] then Json.null else .string keyToken
  return (true, p.emplaceBack { op := .startLoop, value := value, str := valueToken.text })

def parseEndfor (p : Parser) : Except Failure (Bool × Parser) :=
  let p := p.getNextToken
  match p.loopStack with
  | [] => .error (parserError (word "endfor without matching for"))
  | start :: others =>
    let p := p.leads start p.bytecodes.length
    let p := p.emplaceBack { op := .endLoop, args := start + 1 }
    .ok (true, { p with loopStack := others })

/-- Relative to the directory of the template, a leading dot apart. -/
def includedName (name : Bytes) : Bytes :=
  let pathname := path ++ name
  if pathname.take 2 = word "./" then pathname.drop 2 else pathname

def parseInclude (p : Parser) : Except Failure (Bool × Parser) := do
  let p := p.getNextToken
  if p.tok.kind ≠ .string then throw (expected "string" p.tok)
  let pathname ← match ← parse p.tok.text with
    | .string name => pure (includedName path name)
    | j => throw (typeError 303
      (word "incompatible ReferenceType for get_ref, actual type is " ++ Json.typeName j))
  let p ← match p.included.lookup pathname with
    | some _ => pure p
    | none => do
      let (template, included) ← parseTemplate p.included pathname
      pure { p with included := (pathname, template) :: included }
  let reference : Bytecode := { op := .include, flags := .valueImmediate, value := .string pathname }
  return (true, (p.emplaceBack reference).getNextToken)

def parseStatement (p : Parser) : Except Failure (Bool × Parser) :=
  if p.tok.kind ≠ .id then .ok (false, p)
  else if p.tok.text = word "if" then p.parseIf parse config content
  else if p.tok.text = word "endif" then p.parseEndif
  else if p.tok.text = word "else" then p.parseElse parse config content
  else if p.tok.text = word "for" then p.parseFor parse config content
  else if p.tok.text = word "endfor" then p.parseEndfor
  else if p.tok.text = word "include" then p.parseInclude parse path parseTemplate
  else .ok (false, p)

/-- One token at the level of the text, with what belongs to it. -/
def parseOne (t : Token) (p : Parser) : Except Failure Parser :=
  match t.kind with
  | .text => .ok (p.emplaceBack { op := .printText, str := t.text })
  | .statementOpen => do
    let (parsed, p) ← p.parseStatement parse config content path parseTemplate
    if !parsed then throw (expected "statement" p.tok)
    if p.tok.kind ≠ .statementClose then throw (expected "statement close" p.tok)
    return p.getNextToken
  | .lineStatementOpen => do
    let (_, p) ← p.parseStatement parse config content path parseTemplate
    if p.tok.kind ≠ .lineStatementClose ∧ p.tok.kind ≠ .eof then
      throw (expected "line statement close" p.tok)
    return p.getNextToken
  | .expressionOpen => do
    let (parsed, p) ← p.expression parse config content
    if !parsed then throw (expected "expression" p.tok)
    let p := { p with bytecodes := appendFunction p.bytecodes .printValue 1 }
    if p.tok.kind ≠ .expressionClose then throw (expected "expression close" p.tok)
    return p.getNextToken
  | .commentOpen => do
    if p.tok.kind ≠ .commentClose then throw (expected "comment close" p.tok)
    return p.getNextToken
  | _ => .error (parserError (word "unexpected token '" ++ t.describe ++ word "'"))

/-- Each round takes a token, so that there are no more rounds than tokens. -/
def parseInto : Nat → Parser → Except Failure Parser
  | 0, _ => .error .exhausted
  | fuel + 1, p =>
    match p.tokens with
    | [] =>
      if p.ifStack ≠ [] then .error (parserError (word "unmatched if"))
      else if p.loopStack ≠ [] then .error (parserError (word "unmatched for"))
      else .ok p
    | t :: _ => do
      let p ← p.getNextToken.parseOne parse config content path parseTemplate t
      parseInto fuel p

end Statements

section Templates
variable (parse : Bytes → Except Failure Json) (config : ParserConfig) (lexer : LexerConfig)

/-- A template by its text, with the templates that can be included before and after. -/
def parseText (parseTemplate : TemplateStorage → Bytes → Except Failure (Template × TemplateStorage))
    (included : TemplateStorage) (input path : Bytes) :
    Except Failure (Template × TemplateStorage) := do
  let tokens := Lexer.tokens lexer input
  let p ← parseInto parse config input path parseTemplate (tokens.length + 1)
    { tokens := tokens, bytecodes := [], included := included }
  return (⟨p.bytecodes, input⟩, p.included)

def fileError (path : Bytes) : Failure :=
  injaThrow (word "file_error") (word "failed accessing file at '" ++ path ++ word "'")

/-- The directory of a file, up to its last slash. -/
def directory (filename : Bytes) : Bytes :=
  (filename.reverse.dropWhile fun c => c ≠ 47 && c ≠ 92).reverse

/-- A template that is read from a file; the number bounds how deep files include files. -/
def parseTemplate (file : Bytes → Option Bytes) :
    Nat → TemplateStorage → Bytes → Except Failure (Template × TemplateStorage)
  | 0, _, _ => .error .exhausted
  | depth + 1, included, filename =>
    match file filename with
    | none => .error (fileError filename)
    | some content =>
      parseText parse config lexer (parseTemplate file depth) included content (directory filename)

end Templates
end Parser
end Inja
end Da4qi4
