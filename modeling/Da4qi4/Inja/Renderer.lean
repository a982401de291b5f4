import Da4qi4.Inja.Parser
import Mathlib.Data.List.Sort

/-! The renderer of the template engine: a machine with a stack of values and a stack of
loops, which runs the bytecodes of a template. -/
namespace Da4qi4
open ResponseFraming (decimal)
open Valuetool (Json FiniteDouble)
namespace Inja
open Bytecode (Op Flag)

/-- What is behind the names in an environment; the texts of numbers and the values of the
engine's own functions come from the library of values. -/
structure Environment where
  toChars : FiniteDouble → Bytes
  /-- The exception for strings that are not in UTF-8. -/
  noText : Json → Failure
  /-- The value of a function for its arguments and the data of the page. -/
  builtin : Op → Json → List Json → Except Failure Json
  callbacks : Bytes → Nat → Option (List Json → Except Failure Json)
  included : TemplateStorage

inductive LoopValues where
  | array (values : List Json)
  | map (mapValues : List (Bytes × Json))

def LoopValues.size : LoopValues → Nat
  | .array values => values.length
  | .map mapValues => mapValues.length

structure LoopLevel where
  keyName : Bytes
  valueName : Bytes
  data : Json
  values : LoopValues
  index : Nat := 0

def renderError (message : Bytes) : Failure := injaThrow (word "render_error") message

namespace LoopLevel

def loopEntry (index size : Nat) (loop : Json) : Except Failure Json := do
  let loop ← Json.put (word "index") (.numberUnsigned (UInt64.ofNat index)) loop
  let loop ← Json.put (word "index1") (.numberUnsigned (UInt64.ofNat (index + 1))) loop
  let loop ← Json.put (word "is_first") (.boolean (index = 0)) loop
  Json.put (word "is_last") (.boolean (index = size - 1)) loop

/-- The names of an element of an array, in the data. -/
def bindElement (valueName : Bytes) (index size : Nat) (value data : Json) :
    Except Failure Json := do
  let data ← Json.put valueName value data
  let loop ← loopEntry index size ((data.find (word "loop")).getD .null)
  Json.put (word "loop") loop data

/-- The names of an entry of an object. -/
def bindMember (keyName valueName : Bytes) (entry : Bytes × Json) (data : Json) :
    Except Failure Json := do
  let data ← Json.put keyName (.string entry.1) data
  Json.put valueName entry.2 data

def outOfRange (index : Nat) : Failure :=
  .thrown (word "[json.exception.out_of_range.401] array index " ++ decimal index ++
    word " is out of range")

def updateLoopData (level : LoopLevel) : Except Failure LoopLevel := do
  let data ← match level.values with
    | .array values =>
      match values[level.index]? with
      | some value => bindElement level.valueName level.index values.length value level.data
      | none => throw (outOfRange level.index)
    | .map mapValues =>
      match mapValues[level.index]? with
      | some entry => bindMember level.keyName level.valueName entry level.data
      | none => throw .undefined
  return { level with data := data }

/-- The loop around stays within reach. -/
def provideParent (data : Json) : Except Failure Json :=
  match data.find (word "loop") with
  | none => .ok data
  | some loop => do
    let loop ← Json.put (word "parent") loop loop
    Json.put (word "loop") loop data

def sortByKey (entries : List (Bytes × Json)) : List (Bytes × Json) :=
  entries.insertionSort fun a b => a.1.map UInt8.toNat ≤ b.1.map UInt8.toNat

/-- What the loop goes through: an object when there is a name for keys, or an array. -/
def iterated (keyed : Bool) (value : Json) : Except Failure LoopValues :=
  match keyed, value with
  | true, .object entries => .ok (.map (sortByKey entries))
  | true, _ => .error (renderError (word "for key, value requires object"))
  | false, .array values => .ok (.array values)
  | false, _ => .error (renderError (word "type must be array"))

end LoopLevel

structure Renderer where
  i : Nat := 0
  os : Bytes := []
  /-- The last value comes first, and so does the innermost loop. -/
  stack : List Json := []
  loopStack : List LoopLevel := []

namespace Renderer
variable (e : Environment)

/-- The data of the innermost loop, or of the page. -/
def currentData (data : Json) (s : Renderer) : Json :=
  match s.loopStack with
  | [] => data
  | level :: _ => level.data

def lookUp (pointer name : Bytes) (data : Json) : Except Failure Json :=
  match Json.atPointer pointer data with
  | some value => .ok value
  | none =>
    match e.callbacks name 0 with
    | some callback => callback []
    | none => .error (renderError (word "variable '" ++ name ++ word "' not found"))

def getImm (bc : Bytecode) (data : Json) : Except Failure Json :=
  match bc.flags with
  | .valuePop => .error .undefined
  | .valueImmediate => .ok bc.value
  | .valueLookupDot => lookUp e (Json.convertDotToJsonPointer bc.str) bc.str data
  | .valueLookupPointer => lookUp e (47 :: bc.str) bc.str data

/-- The arguments, and the stack without those that were on it. -/
def getArgs (bc : Bytecode) (data : Json) (stack : List Json) :
    Except Failure (List Json × List Json) :=
  if bc.flags = .valuePop then
    if stack.length < bc.args then .error .undefined
    else .ok ((stack.take bc.args).reverse, stack.drop bc.args)
  else if bc.args = 0 ∨ stack.length < bc.args - 1 then .error .undefined
  else do
    let imm ← getImm e bc data
    return ((stack.take (bc.args - 1)).reverse ++ [imm], stack.drop (bc.args - 1))

/-- How a value is written. -/
def print (value : Json) : Except Failure Bytes :=
  match value with
  | .string text => .ok text
  | j =>
    match Json.dumpCompact e.toChars j with
    | some text => .ok text
    | none => .error (e.noText j)

/-- The bytecodes that go on with the next one: what they write, and the stack. -/
def execute (root data : Json) (bc : Bytecode) (stack : List Json) :
    Except Failure (Bytes × List Json) :=
  match bc.op with
  | .nop => .ok ([], stack)
  | .printText => .ok (bc.str, stack)
  | .printValue => do
    match ← getArgs e bc data stack with
    | (value :: _, stack) => return (← print e value, stack)
    | ([], _) => throw .undefined
  | .push => do return ([], (← getImm e bc data) :: stack)
  | .default =>
    match getImm e bc data, stack with
    | .ok imm, _ :: rest => .ok ([], imm :: rest)
    | .ok _, [] => .error .undefined
    | .error (.thrown _), stack => .ok ([], stack)
    | .error failure, _ => .error failure
  | .callback =>
    match e.callbacks bc.str bc.args with
    | none =>
      .error (renderError (word "function '" ++ bc.str ++ word "' (" ++ decimal bc.args ++
        word ") not found"))
    | some callback => do
      let (arguments, stack) ← getArgs e bc data stack
      return ([], (← callback arguments) :: stack)
  | .result => .error (renderError (word "unknown op in renderer: 27"))
  | op => do
    let (arguments, stack) ← getArgs e bc data stack
    return ([], (← e.builtin op root arguments) :: stack)

/-- Room for the levels of the loops is made once; when it does not suffice, the data are
read where they no longer are. -/
def loopLevels : Nat := 16

def startLoop (root : Json) (bc : Bytecode) (s : Renderer) : Except Failure Renderer :=
  match s.stack with
  | [] => .error .undefined
  | value :: stack =>
    if Json.isEmpty value then .ok { s with i := bc.args + 1, stack := stack }
    else if loopLevels ≤ s.loopStack.length then .error .undefined
    else do
      let keyName := match bc.value with
        | .string name => some name
        | _ => none
      let values ← LoopLevel.iterated keyName.isSome value
      let data ← LoopLevel.provideParent (s.currentData root)
      let level : LoopLevel := ⟨keyName.getD [], bc.str, data, values, 0⟩
      let level ← level.updateLoopData
      return { s with i := s.i + 1, stack := stack, loopStack := level :: s.loopStack }

def endLoop (bc : Bytecode) (s : Renderer) : Except Failure Renderer :=
  match s.loopStack with
  | [] => .error (renderError (word "unexpected state in renderer"))
  | level :: outer =>
    let level := { level with index := level.index + 1 }
    if level.index = level.values.size then .ok { s with i := s.i + 1, loopStack := outer }
    else do
      let level ← level.updateLoopData
      return { s with i := bc.args, loopStack := level :: outer }

def step (root : Json) (bc : Bytecode) (s : Renderer) : Except Failure Renderer :=
  match bc.op with
  | .jump => .ok { s with i := bc.args }
  | .conditionalJump =>
    match s.stack with
    | [] => .error .undefined
    | value :: stack => do
      let holds ← Json.truthy value
      return { s with i := if holds then s.i + 1 else bc.args, stack := stack }
  | .startLoop => startLoop root bc s
  | .endLoop => endLoop bc s
  | _ => do
    let (written, stack) ← execute e root (s.currentData root) bc s.stack
    return { s with i := s.i + 1, os := s.os ++ written, stack := stack }

/-- The template that a reference names. -/
def referred (bc : Bytecode) (data : Json) : Except Failure Template := do
  match ← getImm e bc data with
  | .string name =>
    match e.included.lookup name with
    | some template => return template
    | none => throw .undefined
  | j => throw (typeError 303
    (word "incompatible ReferenceType for get_ref, actual type is " ++ Json.typeName j))

/-- The output of a template from a state on; `none` when the fuel is not enough. -/
def renderTo : Nat → Template → Json → Renderer → Option (Except Failure Bytes)
  | 0, _, _, _ => none
  | fuel + 1, tmpl, root, s =>
    match tmpl.bytecodes[s.i]? with
    | none => some (.ok s.os)
    | some bc =>
      if bc.op = .include then
        match referred e bc (s.currentData root) with
        | .error failure => some (.error failure)
        | .ok template =>
          match renderTo fuel template (s.currentData root) {} with
          | none => none
          | some (.error failure) => some (.error failure)
          | some (.ok written) =>
            renderTo fuel tmpl root { s with i := s.i + 1, os := s.os ++ written }
      else
        match step e root bc s with
        | .error failure => some (.error failure)
        | .ok s => renderTo fuel tmpl root s

end Renderer
end Inja
end Da4qi4
