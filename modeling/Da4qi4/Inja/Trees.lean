import Da4qi4.Inja.Renderer

/-! Templates as trees: the tokens that they are written with, the bytecodes that they
become, and what they mean. The meaning goes from the tree to the output, with no stack,
no jumps and no places in the code. -/
namespace Da4qi4
open ResponseFraming (decimal)
open Valuetool (Json)
namespace Inja
open Bytecode (Op Flag)

abbrev Kinded (kind : Token.Kind) := { t : Token // t.kind = kind }

abbrev Word (text : Bytes) := { t : Token // t.isWord text = true }

/-- An identifier that does not begin a negation. -/
abbrev Name := { t : Token // t.kind = .id ∧ t.text ≠ word "not" }

/-- A name that is not a literal. -/
abbrev Variable := { t : Token // t.kind = .id ∧ t.text ≠ word "not" ∧
  ¬(t.text = word "true" ∨ t.text = word "false" ∨ t.text = word "null") }

abbrev Operator := { t : Token // (comparisonOp t).isSome = true }

def Operator.op (o : Operator) : Op := (comparisonOp o.1).get o.2

/-- Whether tokens are one literal from the given levels on: the levels of brackets and of
braces are back at zero at the last token, and not before. -/
def isLiteral (bracketLevel braceLevel : Nat) : List Token → Bool
  | [] => false
  | t :: rest =>
    let outside : Bool := bracketLevel = 0 && braceLevel = 0
    match t.kind with
    | .number | .string => if outside then rest.isEmpty else isLiteral bracketLevel braceLevel rest
    | .id =>
      decide (t.text = word "true" ∨ t.text = word "false" ∨ t.text = word "null") &&
        if outside then rest.isEmpty else isLiteral bracketLevel braceLevel rest
    | .comma | .colon => !outside && isLiteral bracketLevel braceLevel rest
    | .leftBracket => isLiteral (bracketLevel + 1) braceLevel rest
    | .leftBrace => isLiteral bracketLevel (braceLevel + 1) rest
    | .rightBracket =>
      bracketLevel ≠ 0 &&
        if braceLevel = 0 ∧ bracketLevel - 1 = 0 then rest.isEmpty
        else isLiteral (bracketLevel - 1) braceLevel rest
    | .rightBrace =>
      braceLevel ≠ 0 &&
        if braceLevel - 1 = 0 ∧ bracketLevel = 0 then rest.isEmpty
        else isLiteral bracketLevel (braceLevel - 1) rest
    | _ => false

abbrev Literal := { tokens : List Token // isLiteral 0 0 tokens = true }

/-- The characters from the first token to the last. -/
def Literal.text (content : Bytes) (l : Literal) : Bytes :=
  match l.1.head?, l.1.getLast? with
  | some first, some last => Lexer.slice content first.start (last.start + last.text.length)
  | _, _ => []

/- A level for each strength with which the operators bind. -/
mutual

inductive Expression where
  | only (e : Conjunction)
  | or (left : Conjunction) (sign : Word (word "or")) (right : Conjunction)

inductive Conjunction where
  | only (e : Negation)
  | and (left : Negation) (sign : Word (word "and")) (right : Negation)

inductive Negation where
  | only (e : Comparison)
  | not (sign : Word (word "not")) (e : Negation)

inductive Comparison where
  | only (e : Datum)
  | compare (left : Datum) (sign : Operator) (right : Datum)

inductive Datum where
  | group (opening : Kinded .leftParen) (e : Expression) (closing : Kinded .rightParen)
  | call (name : Name) (opening : Kinded .leftParen) (arguments : Arguments)
      (closing : Kinded .rightParen)
  | lookup (name : Variable)
  | literal (tokens : Literal) (value : Json)

inductive Arguments where
  | last (e : Expression)
  | more (e : Expression) (comma : Kinded .comma) (rest : Arguments)

end

mutual

def Expression.tokens : Expression → List Token
  | .only e => e.tokens
  | .or left sign right => left.tokens ++ sign.1 :: right.tokens

def Conjunction.tokens : Conjunction → List Token
  | .only e => e.tokens
  | .and left sign right => left.tokens ++ sign.1 :: right.tokens

def Negation.tokens : Negation → List Token
  | .only e => e.tokens
  | .not sign e => sign.1 :: e.tokens

def Comparison.tokens : Comparison → List Token
  | .only e => e.tokens
  | .compare left sign right => left.tokens ++ sign.1 :: right.tokens

def Datum.tokens : Datum → List Token
  | .group opening e closing => opening.1 :: (e.tokens ++ [closing.1])
  | .call name opening arguments closing =>
    name.1 :: opening.1 :: (arguments.tokens ++ [closing.1])
  | .lookup name => [name.1]
  | .literal tokens _ => tokens.1

def Arguments.tokens : Arguments → List Token
  | .last e => e.tokens
  | .more e comma rest => e.tokens ++ comma.1 :: rest.tokens

end

def Arguments.count : Arguments → Nat
  | .last _ => 1
  | .more _ _ rest => rest.count + 1

/-- The bytecodes of a call, by those of its arguments. -/
def callCode (name : Bytes) (numArgs : Nat) (arguments : List Bytecode) : List Bytecode :=
  let op := findBuiltin name numArgs
  if op ≠ .nop then
    appendFunction (if op = .default then swapLast arguments else arguments) op numArgs
  else appendCallback arguments name numArgs

section Code
variable (config : ParserConfig)

mutual

def Expression.code : Expression → List Bytecode
  | .only e => e.code
  | .or left _ right => appendFunction (left.code ++ right.code) .or 2

def Conjunction.code : Conjunction → List Bytecode
  | .only e => e.code
  | .and left _ right => appendFunction (left.code ++ right.code) .and 2

def Negation.code : Negation → List Bytecode
  | .only e => e.code
  | .not _ e => appendFunction e.code .not 1

def Comparison.code : Comparison → List Bytecode
  | .only e => e.code
  | .compare left sign right => appendFunction (left.code ++ right.code) sign.op 2

def Datum.code : Datum → List Bytecode
  | .group _ e _ => e.code
  | .call name _ arguments _ => callCode name.1.text arguments.count arguments.code
  | .lookup name => [{ op := .push, flags := lookupFlag config, str := name.1.text }]
  | .literal _ value => [{ op := .push, flags := .valueImmediate, value := value }]

def Arguments.code : Arguments → List Bytecode
  | .last e => e.code
  | .more e _ rest => e.code ++ rest.code

end

/-- What `default` needs, since the parser swaps two bytecodes and not two arguments: the
first argument is a value or a name, and the second one a single bytecode. -/
def Arguments.DefaultWorks : Arguments → Prop
  | .more place _ (.last fallback) =>
    (∃ push, place.code config = [push] ∧ push.op = .push) ∧ (fallback.code config).length = 1
  | _ => False

/- Each use of `default` is one that works, and each literal has the value of its text. -/
section Valid
variable (parse : Bytes → Except Failure Json) (content : Bytes)

mutual

def Expression.Valid : Expression → Prop
  | .only e => e.Valid
  | .or left _ right => left.Valid ∧ right.Valid

def Conjunction.Valid : Conjunction → Prop
  | .only e => e.Valid
  | .and left _ right => left.Valid ∧ right.Valid

def Negation.Valid : Negation → Prop
  | .only e => e.Valid
  | .not _ e => e.Valid

def Comparison.Valid : Comparison → Prop
  | .only e => e.Valid
  | .compare left _ right => left.Valid ∧ right.Valid

def Datum.Valid : Datum → Prop
  | .group _ e _ => e.Valid
  | .call name _ arguments _ =>
    arguments.Valid ∧
      (findBuiltin name.1.text arguments.count = .default → arguments.DefaultWorks config)
  | .lookup _ => True
  | .literal tokens value => parse (tokens.text content) = .ok value

def Arguments.Valid : Arguments → Prop
  | .last e => e.Valid
  | .more e _ rest => e.Valid ∧ rest.Valid

end

end Valid
end Code

/-- The values of outcomes, or the first failure. -/
def allValues : List (Except Failure Json) → Except Failure (List Json)
  | [] => .ok []
  | outcome :: rest => do
    let value ← outcome
    let others ← allValues rest
    return value :: others

section Values
variable (env : Environment) (config : ParserConfig) (root data : Json)

def lookupValue (name : Bytes) : Except Failure Json :=
  match config.elements with
  | .dot => Renderer.lookUp env (Json.convertDotToJsonPointer name) name data
  | .pointer => Renderer.lookUp env (47 :: name) name data

/-- The second value of `default` is there before the first one is looked for. -/
def defaultValue : List (Except Failure Json) → Except Failure Json
  | [place, fallback] => do
    let other ← fallback
    match place with
    | .error (.thrown _) => return other
    | outcome => outcome
  | _ => .error .undefined

def apply (op : Op) (outcomes : List (Except Failure Json)) : Except Failure Json := do
  env.builtin op root (← allValues outcomes)

def callValue (name : Bytes) (outcomes : List (Except Failure Json)) : Except Failure Json :=
  let op := findBuiltin name outcomes.length
  if op = .default then defaultValue outcomes
  else if op ≠ .nop then apply env root op outcomes
  else do
    let arguments ← allValues outcomes
    match env.callbacks name outcomes.length with
    | some callback => callback arguments
    | none =>
      throw (renderError (word "function '" ++ name ++ word "' (" ++ decimal outcomes.length ++
        word ") not found"))

mutual

def Expression.value : Expression → Except Failure Json
  | .only e => e.value
  | .or left _ right => apply env root .or [left.value, right.value]

def Conjunction.value : Conjunction → Except Failure Json
  | .only e => e.value
  | .and left _ right => apply env root .and [left.value, right.value]

def Negation.value : Negation → Except Failure Json
  | .only e => e.value
  | .not _ inner => apply env root .not [inner.value]

def Comparison.value : Comparison → Except Failure Json
  | .only e => e.value
  | .compare left sign right => apply env root sign.op [left.value, right.value]

def Datum.value : Datum → Except Failure Json
  | .group _ e _ => e.value
  | .call name _ arguments _ => callValue env root name.1.text arguments.outcomes
  | .lookup name => lookupValue env config data name.1.text
  | .literal _ value => .ok value

def Arguments.outcomes : Arguments → List (Except Failure Json)
  | .last e => [e.value]
  | .more e _ rest => e.value :: rest.outcomes

end

end Values

/-- The tokens around a statement: on a line of its own or between two signs. -/
structure Signs where
  opening : Token
  closing : Token
  matching : (opening.kind = .statementOpen ∧ closing.kind = .statementClose) ∨
    (opening.kind = .lineStatementOpen ∧ closing.kind = .lineStatementClose)

def Signs.around (s : Signs) (inside : List Token) : List Token :=
  s.opening :: (inside ++ [s.closing])

/-- The name for the keys of a loop, with its comma. -/
structure KeyName where
  name : Kinded .id
  comma : Kinded .comma
  named : name.1.text ≠ []

mutual

inductive Items where
  | none
  | and (first : Item) (rest : Items)

inductive Item where
  | text (t : Kinded .text)
  | comment (opening : Kinded .commentOpen) (closing : Kinded .commentClose)
  | emptyLine (opening : Kinded .lineStatementOpen) (closing : Kinded .lineStatementClose)
  | print (opening : Kinded .expressionOpen) (e : Expression) (closing : Kinded .expressionClose)
  | conditional (signs : Signs) (sign : Word (word "if")) (condition : Expression) (body : Items)
      (rest : Alternative)
  | loop (signs : Signs) (sign : Word (word "for")) (key : Option KeyName) (name : Kinded .id)
      (within : Word (word "in")) (values : Expression) (body : Items)
      (ending : Signs) (endSign : Word (word "endfor"))
  | include (signs : Signs) (sign : Word (word "include")) (file : Kinded .string) (name : Bytes)

inductive Alternative where
  | endif (signs : Signs) (sign : Word (word "endif"))
  | otherwise (signs : Signs) (sign : Word (word "else")) (body : Items)
      (ending : Signs) (endSign : Word (word "endif"))
  | elseIf (signs : Signs) (sign : Word (word "else")) (ifSign : Word (word "if"))
      (condition : Expression) (body : Items) (rest : Alternative)

end

def keyTokens : Option KeyName → List Token
  | none => []
  | some key => [key.name.1, key.comma.1]

mutual

def Items.tokens : Items → List Token
  | .none => []
  | .and first rest => first.tokens ++ rest.tokens

def Item.tokens : Item → List Token
  | .text t => [t.1]
  | .comment opening closing => [opening.1, closing.1]
  | .emptyLine opening closing => [opening.1, closing.1]
  | .print opening e closing => opening.1 :: (e.tokens ++ [closing.1])
  | .conditional signs sign condition body rest =>
    signs.around (sign.1 :: condition.tokens) ++ (body.tokens ++ rest.tokens)
  | .loop signs sign key name within values body ending endSign =>
    signs.around (sign.1 :: (keyTokens key ++ name.1 :: within.1 :: values.tokens)) ++
      (body.tokens ++ ending.around [endSign.1])
  | .include signs sign file _ => signs.around [sign.1, file.1]

def Alternative.tokens : Alternative → List Token
  | .endif signs sign => signs.around [sign.1]
  | .otherwise signs sign body ending endSign =>
    signs.around [sign.1] ++ (body.tokens ++ ending.around [endSign.1])
  | .elseIf signs sign ifSign condition body rest =>
    signs.around (sign.1 :: ifSign.1 :: condition.tokens) ++ (body.tokens ++ rest.tokens)

end

/-- The bytecode of a reference to another template. -/
def reference (path name : Bytes) : Bytecode :=
  { op := .include, flags := .valueImmediate, value := .string (Parser.includedName path name) }

def keyValue : Option KeyName → Json
  | none => .null
  | some key => .string key.name.1.text

section Code
variable (config : ParserConfig) (path : Bytes)

mutual

def Items.size : Items → Nat
  | .none => 0
  | .and first rest => first.size + rest.size

def Item.size : Item → Nat
  | .text _ => 1
  | .comment _ _ => 0
  | .emptyLine _ _ => 0
  | .print _ e _ => (appendFunction (e.code config) .printValue 1).length
  | .conditional _ _ condition body rest => (condition.code config).length + 1 + body.size + rest.size
  | .loop _ _ _ _ _ values body _ _ => (values.code config).length + 1 + body.size + 1
  | .include _ _ _ _ => 1

def Alternative.size : Alternative → Nat
  | .endif _ _ => 0
  | .otherwise _ _ body _ _ => 1 + body.size
  | .elseIf _ _ _ condition body rest =>
    1 + ((condition.code config).length + 1 + body.size + rest.size)

end

/-- Where the condition in front leads when it does not hold. -/
def Alternative.target (start : Nat) : Alternative → Nat
  | .endif _ _ => start
  | .otherwise _ _ _ _ _ => start + 1
  | .elseIf _ _ _ _ _ _ => start + 1

/- The bytecodes of a part that begins at a place. -/
mutual

def Items.code (start : Nat) : Items → List Bytecode
  | .none => []
  | .and first rest => first.code start ++ rest.code (start + first.size config)

def Item.code (start : Nat) : Item → List Bytecode
  | .text t => [{ op := .printText, str := t.1.text }]
  | .comment _ _ => []
  | .emptyLine _ _ => []
  | .print _ e _ => appendFunction (e.code config) .printValue 1
  | .conditional _ _ condition body rest =>
    let bodyStart := start + (condition.code config).length + 1
    let restStart := bodyStart + body.size config
    condition.code config ++ { op := .conditionalJump, args := rest.target restStart } ::
      (body.code bodyStart ++ rest.code restStart (restStart + rest.size config))
  | .loop _ _ key name _ values body _ _ =>
    let bodyStart := start + (values.code config).length + 1
    values.code config ++
      { op := .startLoop, args := bodyStart + body.size config, value := keyValue key,
        str := name.1.text } ::
      (body.code bodyStart ++ [{ op := .endLoop, args := bodyStart }])
  | .include _ _ _ name => [reference path name]

def Alternative.code (start finish : Nat) : Alternative → List Bytecode
  | .endif _ _ => []
  | .otherwise _ _ body _ _ => { op := .jump, args := finish } :: body.code (start + 1)
  | .elseIf _ _ _ condition body rest =>
    let bodyStart := start + 1 + (condition.code config).length + 1
    let restStart := bodyStart + body.size config
    { op := .jump, args := finish } ::
      (condition.code config ++ { op := .conditionalJump, args := rest.target restStart } ::
        (body.code bodyStart ++ rest.code restStart finish))

end

/- Each expression is valid, and a name that is included is the value of its literal. -/
section Valid
variable (parse : Bytes → Except Failure Json) (content : Bytes)

mutual

def Items.Valid : Items → Prop
  | .none => True
  | .and first rest => first.Valid ∧ rest.Valid

def Item.Valid : Item → Prop
  | .text _ => True
  | .comment _ _ => True
  | .emptyLine _ _ => True
  | .print _ e _ => e.Valid config parse content
  | .conditional _ _ condition body rest =>
    condition.Valid config parse content ∧ body.Valid ∧ rest.Valid
  | .loop _ _ _ _ _ values body _ _ => values.Valid config parse content ∧ body.Valid
  | .include _ _ file name => parse file.1.text = .ok (.string name)

def Alternative.Valid : Alternative → Prop
  | .endif _ _ => True
  | .otherwise _ _ body _ _ => body.Valid
  | .elseIf _ _ _ condition body rest =>
    condition.Valid config parse content ∧ body.Valid ∧ rest.Valid

end

end Valid
end Code

/- The templates that a template refers to, in the order of the text. -/
section Includes
variable (path : Bytes)

mutual

def Items.includes : Items → List Bytes
  | .none => []
  | .and first rest => first.includes ++ rest.includes

def Item.includes : Item → List Bytes
  | .text _ => []
  | .comment _ _ => []
  | .emptyLine _ _ => []
  | .print _ _ _ => []
  | .conditional _ _ _ body rest => body.includes ++ rest.includes
  | .loop _ _ _ _ _ _ body _ _ => body.includes
  | .include _ _ _ name => [Parser.includedName path name]

def Alternative.includes : Alternative → List Bytes
  | .endif _ _ => []
  | .otherwise _ _ body _ _ => body.includes
  | .elseIf _ _ _ _ body rest => body.includes ++ rest.includes

end

end Includes

/- How deep loops stand in each other. -/
mutual

def Items.depth : Items → Nat
  | .none => 0
  | .and first rest => max first.depth rest.depth

def Item.depth : Item → Nat
  | .text _ => 0
  | .comment _ _ => 0
  | .emptyLine _ _ => 0
  | .print _ _ _ => 0
  | .conditional _ _ _ body rest => max body.depth rest.depth
  | .loop _ _ _ _ _ _ body _ _ => body.depth + 1
  | .include _ _ _ _ => 0

def Alternative.depth : Alternative → Nat
  | .endif _ _ => 0
  | .otherwise _ _ body _ _ => body.depth
  | .elseIf _ _ _ _ body rest => max body.depth rest.depth

end

/-- What each round of a loop does to the data. -/
def LoopValues.bindings (keyName valueName : Bytes) :
    LoopValues → List (Json → Except Failure Json)
  | .array values => values.mapIdx fun index value =>
    LoopLevel.bindElement valueName index values.length value
  | .map mapValues => mapValues.map fun entry => LoopLevel.bindMember keyName valueName entry

/-- A round gets the data as the round before left them. -/
def rounds (body : Json → Except Failure Bytes) :
    List (Json → Except Failure Json) → Json → Except Failure Bytes
  | [], _ => .ok []
  | bind :: rest, data => do
    let data ← bind data
    let written ← body data
    let others ← rounds body rest data
    return written ++ others

/-- A loop over a value, in the data around it. -/
def loopOutput (key : Option KeyName) (name : Bytes) (value data : Json)
    (body : Json → Except Failure Bytes) : Except Failure Bytes :=
  if Json.isEmpty value then .ok []
  else do
    let values ← LoopLevel.iterated key.isSome value
    let data ← LoopLevel.provideParent data
    rounds body (values.bindings ((key.map fun k => k.name.1.text).getD []) name) data

section Output
variable (env : Environment) (config : ParserConfig) (path : Bytes)
  (page : Bytes → Json → Except Failure Bytes) (root : Json)

mutual

def Items.output (data : Json) : Items → Except Failure Bytes
  | .none => .ok []
  | .and first rest => do
    let written ← first.output data
    let others ← rest.output data
    return written ++ others

def Item.output (data : Json) : Item → Except Failure Bytes
  | .text t => .ok t.1.text
  | .comment _ _ => .ok []
  | .emptyLine _ _ => .ok []
  | .print _ e _ => do Renderer.print env (← e.value env config root data)
  | .conditional _ _ condition body rest => do
    let holds ← Json.truthy (← condition.value env config root data)
    if holds then body.output data else rest.output data
  | .loop _ _ key name _ values body _ _ => do
    let value ← values.value env config root data
    loopOutput key name.1.text value data fun data => body.output data
  | .include _ _ _ name => page (Parser.includedName path name) data

def Alternative.output (data : Json) : Alternative → Except Failure Bytes
  | .endif _ _ => .ok []
  | .otherwise _ _ body _ _ => body.output data
  | .elseIf _ _ _ condition body rest => do
    let holds ← Json.truthy (← condition.value env config root data)
    if holds then body.output data else rest.output data

end

end Output
section Sizes
variable (config : ParserConfig) (path : Bytes)

mutual

theorem Items.length_code (start : Nat) : (l : Items) →
    (l.code config path start).length = l.size config
  | .none => by rw [Items.code, Items.size]; rfl
  | .and first rest => by
    rw [Items.code, Items.size, List.length_append, first.length_code, rest.length_code]

theorem Item.length_code (start : Nat) : (i : Item) →
    (i.code config path start).length = i.size config
  | .text _ => by rw [Item.code, Item.size]; rfl
  | .comment _ _ => by rw [Item.code, Item.size]; rfl
  | .emptyLine _ _ => by rw [Item.code, Item.size]; rfl
  | .print _ _ _ => by rw [Item.code, Item.size]
  | .conditional _ _ condition body rest => by
    rw [Item.code, Item.size]
    simp only [List.length_append, List.length_cons, body.length_code, rest.length_code]
    omega
  | .loop _ _ _ _ _ values body _ _ => by
    rw [Item.code, Item.size]
    simp only [List.length_append, List.length_cons, body.length_code, List.length_nil]
    omega
  | .include _ _ _ _ => by rw [Item.code, Item.size]; rfl

theorem Alternative.length_code (start finish : Nat) : (a : Alternative) →
    (a.code config path start finish).length = a.size config
  | .endif _ _ => by rw [Alternative.code, Alternative.size]; rfl
  | .otherwise _ _ body _ _ => by
    rw [Alternative.code, Alternative.size, List.length_cons, body.length_code, Nat.add_comm]
  | .elseIf _ _ _ condition body rest => by
    rw [Alternative.code, Alternative.size]
    simp only [List.length_append, List.length_cons, body.length_code, rest.length_code]
    omega

end

end Sizes

end Inja
end Da4qi4
