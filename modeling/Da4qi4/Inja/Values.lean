import Da4qi4.Utilities.Strings
import Da4qi4.Utilities.Valuetool
import Da4qi4.Foundation.OrderedMap

/-! What the template engine asks of a value of JSON. -/
namespace Da4qi4
open Utilities (isSpace replaceAll)
open ResponseFraming (decimal decimalNumber isDigit)
open Valuetool (Json FiniteDouble Double dumpFloat dumpInteger quoted)
namespace Inja

/-- How a function ends that does not return: with an exception, or in a way that the
language leaves open. What is written here with fuel also ends when that is not enough. -/
inductive Failure where
  | thrown (what : Bytes)
  | undefined
  | exhausted
  deriving DecidableEq

/-- The exception of `inja_throw`. -/
def injaThrow (type message : Bytes) : Failure :=
  .thrown (Bytes.ofAscii "[inja.exception." ++ type ++ Bytes.ofAscii "] " ++ message)

/-- What the library of values says with its `type_error`. -/
def typeErrorWhat (id : Nat) (message : Bytes) : Bytes :=
  Bytes.ofAscii "[json.exception.type_error." ++ decimal id ++ Bytes.ofAscii "] " ++ message

def typeError (id : Nat) (message : Bytes) : Failure := .thrown (typeErrorWhat id message)

namespace Json

def typeName : Json → Bytes
  | .null => Bytes.ofAscii "null"
  | .object _ => Bytes.ofAscii "object"
  | .array _ => Bytes.ofAscii "array"
  | .string _ => Bytes.ofAscii "string"
  | .boolean _ => Bytes.ofAscii "boolean"
  | .discarded => Bytes.ofAscii "discarded"
  | _ => Bytes.ofAscii "number"

def isEmpty : Json → Bool
  | .null => true
  | .array elements => elements.isEmpty
  | .object entries => entries.isEmpty
  | _ => false

def isZero : Double → Bool
  | .finite x => x.mantissa = 0
  | _ => false

/-- Strings are never empty in the sense of the library, so that each of them counts. -/
def truthy : Json → Except Failure Bool
  | .numberInteger x => .ok (x ≠ 0)
  | .numberUnsigned x => .ok (x ≠ 0)
  | .numberFloat x => .ok !isZero x
  | .string _ => .ok true
  | .boolean b => .ok b
  | j =>
    if isEmpty j then .ok false
    else
      let message := Bytes.ofAscii "type must be boolean, but is " ++ typeName j
      .error (injaThrow (Bytes.ofAscii "json_error") (typeErrorWhat 302 message))

section Dump
variable (toChars : FiniteDouble → Bytes)

/- `dump()` without blanks. -/
mutual

def dumpCompact : Json → Option Bytes
  | .object entries =>
    (dumpMembers entries).map fun inside => Bytes.ofAscii "\x7b" ++ inside ++ Bytes.ofAscii "\x7d"
  | .array elements =>
    (dumpValues elements).map fun inside => Bytes.ofAscii "[" ++ inside ++ Bytes.ofAscii "]"
  | .string value => quoted value
  | .boolean true => some (Bytes.ofAscii "true")
  | .boolean false => some (Bytes.ofAscii "false")
  | .numberInteger value => some (dumpInteger value.toInt)
  | .numberUnsigned value => some (dumpInteger value.toNat)
  | .numberFloat value => some (dumpFloat toChars value)
  | .discarded => some (Bytes.ofAscii "<discarded>")
  | .null => some (Bytes.ofAscii "null")

def dumpValues : List Json → Option Bytes
  | [] => some []
  | e :: rest =>
    (dumpCompact e).bind fun text =>
      (dumpValues rest).map fun others =>
        text ++ (if rest.isEmpty then [] else Bytes.ofAscii ",") ++ others

def dumpMembers : List (Bytes × Json) → Option Bytes
  | [] => some []
  | (key, e) :: rest =>
    (quoted key).bind fun name =>
      (dumpCompact e).bind fun text =>
        (dumpMembers rest).map fun others =>
          name ++ Bytes.ofAscii ":" ++ text ++
            (if rest.isEmpty then [] else Bytes.ofAscii ",") ++ others

end
end Dump

/-- Assignment to what `operator[]` gives for a key. -/
def put (key : Bytes) (value : Json) : Json → Except Failure Json
  | .null => .ok (.object [(key, value)])
  | .object entries =>
    .ok (.object (OrderedMap.place (List.map UInt8.toNat) (fun _ => value) key value entries))
  | j => .error (typeError 305
    (Bytes.ofAscii "cannot use operator[] with a string argument with " ++ typeName j))

/-- Turns the dots of a name into the slashes of a pointer; nothing follows a last dot. -/
def convertDotToJsonPointer (dot : Bytes) : Bytes := 47 :: parts dot where
  parts : Bytes → Bytes
    | [] => []
    | [c] => if c = 46 then [] else [c]
    | c :: rest => (if c = 46 then 47 else c) :: parts rest

/-- A tilde stands before a zero or a one. -/
def escapedWell : Bytes → Bool
  | [] => true
  | [c] => c ≠ 126
  | c :: next :: rest => (c ≠ 126 || next = 48 || next = 49) && escapedWell (next :: rest)

def unescape (token : Bytes) : Bytes :=
  replaceAll (replaceAll token (Bytes.ofAscii "~1") (Bytes.ofAscii "/"))
    (Bytes.ofAscii "~0") (Bytes.ofAscii "~")

/-- The reference tokens of a pointer, which stands in memory with a zero behind it. -/
def referenceTokens (pointer : Bytes) : Option (List Bytes) :=
  match pointer.takeWhile (· ≠ 0) with
  | [] => some []
  | c :: rest =>
    if c ≠ 47 then none
    else ((rest.splitOn 47).map fun token =>
      if escapedWell token then some (unescape token) else none).mapM id

/-- `array_index`, which wants the whole token to be a number. -/
def arrayIndex (token : Bytes) : Option Int :=
  let signed := token.dropWhile isSpace
  let digits := if signed.head? = some 45 ∨ signed.head? = some 43 then signed.tail else signed
  let value : Int := if signed.head? = some 45 then -decimalNumber digits else decimalNumber digits
  if digits ≠ [] ∧ digits.all isDigit ∧ -2 ^ 31 ≤ value ∧ value < 2 ^ 31 then some value else none

/-- What a pointer's tokens lead to; any of its errors is `none`. -/
def getChecked : List Bytes → Json → Option Json
  | [], j => some j
  | token :: rest, .object entries => ((Json.object entries).find token).bind (getChecked rest)
  | token :: rest, .array elements =>
    if token = [45] ∨ (1 < token.length ∧ token.head? = some 48) then none
    else do
      let index ← arrayIndex token
      let element ← if 0 ≤ index then elements[index.toNat]? else none
      getChecked rest element
  | _, _ => none

def atPointer (pointer : Bytes) (j : Json) : Option Json :=
  (referenceTokens pointer).bind fun tokens => getChecked tokens j

end Json
end Inja
end Da4qi4
