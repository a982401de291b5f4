import Da4qi4.Foundation.ChunkedCoding

/-! Responses of HTTP/1.1 as a client reads them off a stream (RFC 7230). Where a
message ends is said by the method of the request, by the status code and by the
header fields (section 3.3.3). Folded header lines are not accepted. -/
namespace ResponseFraming
open ChunkedCoding

def isDigit (c : UInt8) : Bool := 48 ≤ c && c ≤ 57

def decimal (n : Nat) : Bytes := (Nat.toDigits 10 n).map fun digit => digit.toNat.toUInt8

/-- The number that decimal digits mean. -/
def decimalNumber (digits : Bytes) : Nat :=
  digits.foldl (fun value c => value * 10 + (c.toNat - 48)) 0

def digitOf (n : Nat) : UInt8 := n.digitChar.toNat.toUInt8

theorem isDigit_digitOf (digit : n < 10) : isDigit (digitOf n) = true := by
  revert n
  decide

theorem digitOf_value (digit : n < 10) : (digitOf n).toNat - 48 = n := by
  revert n
  decide

theorem decimal_small (digit : n < 10) : decimal n = [digitOf n] := by
  rw [decimal, Nat.toDigits_of_lt_base digit]
  rfl

theorem decimal_large (more : 10 ≤ n) : decimal n = decimal (n / 10) ++ [digitOf (n % 10)] := by
  rw [decimal, decimal, Nat.toDigits_of_base_le (by omega) more, List.map_append]
  rfl

theorem decimal_ne_nil (n : Nat) : decimal n ≠ [] := by
  rcases Nat.lt_or_ge n 10 with digit | more
  · rw [decimal_small digit]
    exact List.cons_ne_nil _ _
  · rw [decimal_large more]
    exact List.append_ne_nil_of_right_ne_nil _ (List.cons_ne_nil _ _)

theorem isDigit_decimal (n : Nat) : ∀ c ∈ decimal n, isDigit c = true := by
  induction n using Nat.strongRecOn with
  | ind n ih =>
    intro c member
    rcases Nat.lt_or_ge n 10 with digit | more
    · rw [decimal_small digit, List.mem_singleton] at member
      rw [member]
      exact isDigit_digitOf digit
    · rw [decimal_large more, List.mem_append, List.mem_singleton] at member
      rcases member with front | rfl
      · exact ih (n / 10) (by omega) c front
      · exact isDigit_digitOf (Nat.mod_lt n (by omega))

theorem decimalNumber_append (digits : Bytes) (c : UInt8) :
    decimalNumber (digits ++ [c]) = decimalNumber digits * 10 + (c.toNat - 48) := by
  rw [decimalNumber, List.foldl_append]
  rfl

theorem decimalNumber_decimal (n : Nat) : decimalNumber (decimal n) = n := by
  induction n using Nat.strongRecOn with
  | ind n ih =>
    rcases Nat.lt_or_ge n 10 with digit | more
    · rw [decimal_small digit, decimalNumber, List.foldl_cons, List.foldl_nil, digitOf_value digit,
        Nat.zero_mul, Nat.zero_add]
    · rw [decimal_large more, decimalNumber_append, ih (n / 10) (by omega),
        digitOf_value (Nat.mod_lt n (by omega))]
      omega

theorem not_isDigit_return : isDigit 13 = false := by decide

theorem return_not_mem_decimal (n : Nat) : (13 : UInt8) ∉ decimal n := by
  intro member
  have digit := isDigit_decimal n 13 member
  rw [not_isDigit_return] at digit
  cases digit

/-- Numbers of three digits. -/
theorem decimal_three (more : 100 ≤ n) (less : n ≤ 999) :
    decimal n = [digitOf (n / 100), digitOf (n / 10 % 10), digitOf (n % 10)] := by
  have hundreds : n / 10 / 10 = n / 100 := Nat.div_div_eq_div_mul n 10 10
  rw [decimal_large (show 10 ≤ n by omega), decimal_large (show 10 ≤ n / 10 by omega), hundreds,
    decimal_small (show n / 100 < 10 by omega)]
  rfl

/-- The status code of a status line. -/
def statusLine : Bytes → Option Nat
  | 72 :: 84 :: 84 :: 80 :: 47 :: major :: 46 :: minor :: 32 :: a :: b :: c :: reason =>
    if [major, minor, a, b, c].all isDigit ∧ reason.head? = some 32 then
      some (decimalNumber [a, b, c])
    else none
  | _ => none

def isLetter (c : UInt8) : Bool := (65 ≤ c && c ≤ 90) || (97 ≤ c && c ≤ 122)

/-- The characters of a token (section 3.2.6). -/
def isTokenChar (c : UInt8) : Bool :=
  isDigit c || isLetter c ||
    [33, 35, 36, 37, 38, 39, 42, 43, 45, 46, 94, 95, 96, 124, 126].contains c

def isBlank (c : UInt8) : Bool := c = 32 || c = 9

def trimBlanks (value : Bytes) : Bytes :=
  ((value.dropWhile isBlank).reverse.dropWhile isBlank).reverse

theorem isBlank_digit (digit : isDigit c = true) : isBlank c = false := by
  rw [isDigit, Bool.and_eq_true, decide_eq_true_eq, decide_eq_true_eq] at digit
  have low := UInt8.le_iff_toNat_le.mp digit.1
  rw [isBlank, Bool.or_eq_false_iff, decide_eq_false_iff_not, decide_eq_false_iff_not]
  constructor
  · rintro rfl
    exact absurd low (by decide)
  · rintro rfl
    exact absurd low (by decide)

theorem trimBlanks_unblank (unblank : ∀ c ∈ value, isBlank c = false) :
    trimBlanks value = value := by
  have kept {l : Bytes} (members : ∀ c ∈ l, isBlank c = false) : l.dropWhile isBlank = l := by
    cases l with
    | nil => rfl
    | cons c l =>
      have blank := members c List.mem_cons_self
      exact List.dropWhile_cons_of_neg (by rw [blank]; exact nofun)
  have reversed : ∀ c ∈ value.reverse, isBlank c = false := by
    intro c member
    exact unblank c (List.mem_reverse.mp member)
  rw [trimBlanks, kept unblank, kept reversed, List.reverse_reverse]

theorem trimBlanks_digits (digits : ∀ c ∈ value, isDigit c = true) : trimBlanks value = value := by
  apply trimBlanks_unblank
  intro c member
  exact isBlank_digit (digits c member)

/-- A name, a colon, and a value that blanks may surround. -/
def field (line : Bytes) : Option (Bytes × Bytes) :=
  let name := line.takeWhile isTokenChar
  let rest := line.dropWhile isTokenChar
  if name ≠ [] ∧ rest.head? = some 58 then some (name, trimBlanks rest.tail) else none

/-- Header fields up to an empty line, and what comes behind that. -/
def readFields : Nat → Bytes → Option (List (Bytes × Bytes) × Bytes)
  | 0, _ => none
  | fuel + 1, input =>
    (readLine input).bind fun read =>
      if read.1 = [] then some ([], read.2)
      else (field read.1).bind fun first =>
        (readFields fuel read.2).map fun others => (first :: others.1, others.2)

theorem field_append (some_ : name ≠ []) (token : ∀ c ∈ name, isTokenChar c = true)
    (value : Bytes) : field (name ++ 58 :: value) = some (name, trimBlanks value) := by
  have colon : isTokenChar 58 = false := by decide
  have taken : (name ++ 58 :: value).takeWhile isTokenChar = name := by
    rw [List.takeWhile_append_of_pos token, List.takeWhile_cons_of_neg (by rw [colon]; exact nofun),
      List.append_nil]
  have rest : (name ++ 58 :: value).dropWhile isTokenChar = 58 :: value := by
    rw [List.dropWhile_append_of_pos token, List.dropWhile_cons_of_neg (by rw [colon]; exact nofun)]
  rw [field, taken, rest, if_pos ⟨some_, rfl⟩, List.tail_cons]

/-- A line that is read as a field. -/
def IsField (line : Bytes) (parsed : Bytes × Bytes) : Prop :=
  (13 : UInt8) ∉ line ∧ field line = some parsed

theorem readFields_lines {lines : List Bytes} (parsed : List.Forall₂ IsField lines fields)
    (enough : lines.length < fuel) (rest : Bytes) :
    readFields fuel (lines.flatMap (· ++ crlf) ++ crlf ++ rest) = some (fields, rest) := by
  induction parsed generalizing fuel with
  | nil =>
    cases fuel with
    | zero => exact absurd enough (Nat.not_lt_zero _)
    | succ fuel => rfl
  | @cons line first lines fields isField others ih =>
    cases fuel with
    | zero => exact absurd enough (Nat.not_lt_zero _)
    | succ fuel =>
      have some_ : line ≠ [] := by
        rintro rfl
        exact nomatch isField.2
      have read := readLine_append isField.1 (lines.flatMap (· ++ crlf) ++ crlf ++ rest)
      rw [List.flatMap_cons, List.append_assoc (line ++ crlf), List.append_assoc (line ++ crlf),
        readFields, read, Option.bind_some, if_neg some_, isField.2, Option.bind_some,
        ih (Nat.lt_of_succ_lt_succ enough)]
      rfl

/-- Other methods are treated alike. -/
inductive Method where
  | head | connect | other
  deriving DecidableEq, Repr

inductive BodyLength where
  | empty
  | counted (octets : Nat)
  | chunked
  | untilClose
  deriving DecidableEq, Repr

def lower (c : UInt8) : UInt8 := if 65 ≤ c ∧ c ≤ 90 then c + 32 else c

def sameName (name other : Bytes) : Bool := name.map lower = other.map lower

def values (name : Bytes) (fields : List (Bytes × Bytes)) : List Bytes :=
  (fields.filter fun f => sameName f.1 name).map Prod.snd

theorem values_append (name : Bytes) (first second : List (Bytes × Bytes)) :
    values name (first ++ second) = values name first ++ values name second := by
  rw [values, List.filter_append, List.map_append]
  rfl

theorem values_nil (absent : ∀ f ∈ fields, sameName f.1 name = false) :
    values name fields = [] := by
  have none : fields.filter (fun f => sameName f.1 name) = [] := by
    apply List.filter_eq_nil_iff.mpr
    intro f member
    rw [absent f member]
    exact Bool.false_ne_true
  rw [values, none, List.map_nil]

def connection : Bytes := Bytes.ofAscii "Connection"

/-- The elements of a list (section 7). -/
def listElements (value : Bytes) : List Bytes := (value.splitOn 44).map trimBlanks

/-- An option of the connection, without case (section 6.1). -/
def hasOption (option : Bytes) (fields : List (Bytes × Bytes)) : Bool :=
  ((values connection fields).flatMap listElements).any fun element => sameName element option

/-- Whether the connection persists behind a message (section 6.3), for a client that
honors the mechanism of HTTP/1.0. -/
def persists (major minor : Nat) (fields : List (Bytes × Bytes)) : Bool :=
  if hasOption (Bytes.ofAscii "close") fields then false
  else if 1 < major ∨ (major = 1 ∧ 1 ≤ minor) then true
  else if major = 1 ∧ minor = 0 then hasOption (Bytes.ofAscii "keep-alive") fields
  else false

theorem listElements_single (noComma : (44 : UInt8) ∉ value)
    (unblank : ∀ c ∈ value, isBlank c = false) : listElements value = [value] := by
  rw [listElements, List.splitOn_eq_singleton noComma, List.map_singleton,
    trimBlanks_unblank unblank]

def transferEncoding : Bytes := Bytes.ofAscii "Transfer-Encoding"

def contentLength : Bytes := Bytes.ofAscii "Content-Length"

/-- What comes behind the last comma of the last value. -/
def finalCoding (codings : List Bytes) : Bytes :=
  trimBlanks ((codings.getLast?.getD []).reverse.takeWhile (· ≠ 44)).reverse

/-- Several lengths have to be the same. -/
def commonLength : List Bytes → Option Nat
  | [] => none
  | first :: others =>
    if first ≠ [] ∧ first.all isDigit ∧ others.all (· = first) then some (decimalNumber first)
    else none

/-- Whatever the header fields say. -/
def isBodiless (method : Method) (statusCode : Nat) : Bool :=
  method = .head || statusCode / 100 = 1 || statusCode = 204 || statusCode = 304

/-- A tunnel takes all that comes behind the header block. -/
def bodyLength (method : Method) (statusCode : Nat) (fields : List (Bytes × Bytes)) :
    Option BodyLength :=
  if isBodiless method statusCode then some .empty
  else if method = .connect ∧ statusCode / 100 = 2 then some .untilClose
  else if values transferEncoding fields ≠ [] then
    if sameName (finalCoding (values transferEncoding fields)) (Bytes.ofAscii "chunked") then
      some .chunked
    else some .untilClose
  else if values contentLength fields = [] then some .untilClose
  else (commonLength (values contentLength fields)).map .counted

/-- The content, and what comes behind the message. -/
def readBody : BodyLength → Bytes → Option (Bytes × Bytes)
  | .empty, input => some ([], input)
  | .counted octets, input =>
    if octets ≤ input.length then some (input.take octets, input.drop octets) else none
  | .chunked, input => decode input
  | .untilClose, input => some (input, [])

/-- One length, and no coding. -/
theorem bodyLength_counted (bodied : isBodiless method statusCode = false)
    (kept : method ≠ .connect) (uncoded : values transferEncoding fields = [])
    (long : values contentLength fields = [decimal n]) :
    bodyLength method statusCode fields = some (.counted n) := by
  have digits : (decimal n).all isDigit = true := List.all_eq_true.mpr (isDigit_decimal n)
  have common : commonLength [decimal n] = some n := by
    rw [commonLength, if_pos ⟨decimal_ne_nil n, digits, rfl⟩, decimalNumber_decimal]
  have known : ¬values contentLength fields = [] := by
    rw [long]
    exact List.cons_ne_nil _ _
  rw [bodyLength, if_neg (Bool.eq_false_iff.mp bodied), if_neg fun both => kept both.1,
    if_neg fun coded => coded uncoded, if_neg known, long, common, Option.map_some]

structure Message where
  statusCode : Nat
  content : Bytes
  octets : Bytes
  deriving DecidableEq, Repr

def readMessage (method : Method) (input : Bytes) : Option (Message × Bytes) :=
  (readLine input).bind fun start =>
    (statusLine start.1).bind fun statusCode =>
      (readFields (input.length + 1) start.2).bind fun block =>
        (bodyLength method statusCode block.1).bind fun length =>
          (readBody length block.2).map fun body =>
            (⟨statusCode, body.1, input.take (input.length - body.2.length)⟩, body.2)

def isInterim (statusCode : Nat) : Bool := statusCode / 100 = 1

/-- Interim responses are read over. -/
def readFinal : Nat → Method → Bytes → Option (Message × Bytes)
  | 0, _, _ => none
  | fuel + 1, method, input =>
    (readMessage method input).bind fun read =>
      if isInterim read.1.statusCode then readFinal fuel method read.2 else some read

/-- One final response for each request, and what is left. -/
def frames : List Method → Bytes → Option (List Message × Bytes)
  | [], input => some ([], input)
  | method :: methods, input =>
    (readFinal (input.length + 1) method input).bind fun first =>
      (frames methods first.2).map fun others => (first.1 :: others.1, others.2)

/-- The status line and the header fields, with the empty line behind them. -/
def block (start : Bytes) (lines : List Bytes) : Bytes :=
  start ++ crlf ++ (lines.flatMap (· ++ crlf) ++ crlf)

theorem length_le_lines (lines : List Bytes) :
    lines.length ≤ (lines.flatMap (· ++ crlf)).length := by
  induction lines with
  | nil => exact Nat.zero_le _
  | cons line lines ih =>
    have ends : crlf.length = 2 := rfl
    rw [List.flatMap_cons, List.length_append, List.length_append, List.length_cons, ends]
    omega

/-- A message is its block and as much as the block asks for. -/
theorem readMessage_block {lines : List Bytes} (noReturn : (13 : UInt8) ∉ start)
    (status : statusLine start = some statusCode) (parsed : List.Forall₂ IsField lines fields)
    (long : bodyLength method statusCode fields = some length)
    (ends : readBody length (body ++ rest) = some (content, rest)) :
    readMessage method (block start lines ++ (body ++ rest)) =
      some (⟨statusCode, content, block start lines ++ body⟩, rest) := by
  have enough : lines.length < (block start lines ++ (body ++ rest)).length + 1 := by
    have few := length_le_lines lines
    simp only [block, List.length_append]
    omega
  have first : readLine (block start lines ++ (body ++ rest)) =
      some (start, lines.flatMap (· ++ crlf) ++ crlf ++ (body ++ rest)) := by
    rw [block, List.append_assoc (start ++ crlf)]
    exact readLine_append noReturn _
  have own : (block start lines ++ (body ++ rest)).take
      ((block start lines ++ (body ++ rest)).length - rest.length) = block start lines ++ body := by
    rw [← List.append_assoc, List.length_append, Nat.add_sub_cancel, List.take_left]
  rw [readMessage, first, Option.bind_some, status, Option.bind_some,
    readFields_lines parsed enough, Option.bind_some, long, Option.bind_some, ends, Option.map_some,
    own]

theorem readFinal_final (read : readFinal fuel method input = some found) :
    isInterim found.1.statusCode = false := by
  induction fuel generalizing input with
  | zero => cases read
  | succ fuel ih =>
    obtain ⟨message, -, rest⟩ := Option.bind_eq_some_iff.mp read
    split at rest
    · exact ih rest
    · rename_i final
      cases rest
      exact Bool.eq_false_iff.mpr final

theorem readFinal_of_message (final : isInterim message.statusCode = false)
    (read : readMessage method input = some (message, rest)) (fuel : Nat) :
    readFinal (fuel + 1) method input = some (message, rest) := by
  have skipped : ¬isInterim message.statusCode = true := Bool.eq_false_iff.mp final
  rw [readFinal, read, Option.bind_some, if_neg skipped]

theorem frames_cons_iff : frames (method :: methods) input = some (first :: others, rest) ↔
    ∃ behind, readFinal (input.length + 1) method input = some (first, behind) ∧
      frames methods behind = some (others, rest) := by
  constructor
  · intro framed
    obtain ⟨⟨message, behind⟩, read, further⟩ := Option.bind_eq_some_iff.mp framed
    obtain ⟨⟨messages, left⟩, remaining, same⟩ := Option.map_eq_some_iff.mp further
    cases same
    exact ⟨behind, read, remaining⟩
  · rintro ⟨behind, read, framed⟩
    rw [frames, read, Option.bind_some, framed]
    rfl

end ResponseFraming
