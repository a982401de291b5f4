import Da4qi4.Foundation.Bytes

/-! The chunked transfer coding of RFC 7230 (section 4.1): a chunk is its size in
hexadecimal digits, a line end, as many octets, and a line end; a size of zero is
followed by trailers up to an empty line. Extensions of a chunk and trailers are
read over. -/
namespace ChunkedCoding

def crlf : Bytes := [13, 10]

/-- A line up to the first line end, and what comes behind that. -/
def readLine : Bytes → Option (Bytes × Bytes)
  | [] => none
  | c :: rest =>
    if c = 13 ∧ rest.head? = some 10 then some ([], rest.tail)
    else (readLine rest).map fun read => (c :: read.1, read.2)

theorem readLine_append (noReturn : (13 : UInt8) ∉ line) (rest : Bytes) :
    readLine (line ++ crlf ++ rest) = some (line, rest) := by
  induction line with
  | nil => rfl
  | cons c line ih =>
    rw [List.mem_cons, not_or] at noReturn
    rw [List.cons_append, List.cons_append, readLine, if_neg fun both => noReturn.1 both.1.symm,
      ih noReturn.2]
    rfl

def hexValue (c : UInt8) : Option Nat :=
  if 48 ≤ c ∧ c ≤ 57 then some (c.toNat - 48)
  else if 65 ≤ c ∧ c ≤ 70 then some (c.toNat - 55)
  else if 97 ≤ c ∧ c ≤ 102 then some (c.toNat - 87)
  else none

def isHex (c : UInt8) : Bool := (hexValue c).isSome

/-- The number that hexadecimal digits mean. -/
def hexNumber (digits : Bytes) : Nat :=
  digits.foldl (fun value c => value * 16 + (hexValue c).getD 0) 0

/-- The size at the start of a line; an extension may follow. -/
def chunkSize (line : Bytes) : Option Nat :=
  let digits := line.takeWhile isHex
  let extension := line.dropWhile isHex
  if digits ≠ [] ∧ (extension = [] ∨ extension.head? = some 59) then some (hexNumber digits)
  else none

theorem hexNumber_append (digits : Bytes) (c : UInt8) :
    hexNumber (digits ++ [c]) = hexNumber digits * 16 + (hexValue c).getD 0 := by
  rw [hexNumber, List.foldl_append]
  rfl

theorem chunkSize_digits (some_ : digits ≠ []) (hex : ∀ c ∈ digits, isHex c = true) :
    chunkSize digits = some (hexNumber digits) := by
  have all : digits.takeWhile isHex = digits := by
    have taken : (digits ++ []).takeWhile isHex = digits ++ [].takeWhile isHex :=
      List.takeWhile_append_of_pos hex
    rwa [List.append_nil, List.takeWhile_nil, List.append_nil] at taken
  have rest : digits.dropWhile isHex = [] := by
    have dropped : (digits ++ []).dropWhile isHex = [].dropWhile isHex :=
      List.dropWhile_append_of_pos hex
    rwa [List.append_nil, List.dropWhile_nil] at dropped
  rw [chunkSize, all, rest, if_pos ⟨some_, .inl rfl⟩]

theorem not_isHex_return : isHex 13 = false := by decide

/-- Header fields up to an empty line. -/
def skipTrailers : Nat → Bytes → Option Bytes
  | 0, _ => none
  | fuel + 1, input =>
    (readLine input).bind fun read =>
      if read.1 = [] then some read.2
      else if 58 ∈ read.1 then skipTrailers fuel read.2
      else none

/-- The content of a message, and what comes behind the message. -/
def decodeFrom : Nat → Bytes → Option (Bytes × Bytes)
  | 0, _ => none
  | fuel + 1, input =>
    (readLine input).bind fun read =>
      (chunkSize read.1).bind fun size =>
        if size = 0 then (skipTrailers (fuel + 1) read.2).map fun rest => ([], rest)
        else if (read.2.drop size).take 2 = crlf then
          (decodeFrom fuel (read.2.drop (size + 2))).map fun decoded =>
            (read.2.take size ++ decoded.1, decoded.2)
        else none

/-- No message has more chunks than octets. -/
def decode (input : Bytes) : Option (Bytes × Bytes) := decodeFrom (input.length + 1) input

theorem decodeFrom_chunk (fuel : Nat) (hex : ∀ c ∈ digits, isHex c = true)
    (size : hexNumber digits = data.length) (some_ : digits ≠ []) (content : data ≠ [])
    (rest : Bytes) :
    decodeFrom (fuel + 1) (digits ++ crlf ++ data ++ crlf ++ rest) =
      (decodeFrom fuel rest).map fun decoded => (data ++ decoded.1, decoded.2) := by
  have noReturn : (13 : UInt8) ∉ digits := by
    intro member
    have digit := hex 13 member
    rw [not_isHex_return] at digit
    cases digit
  have positive : data.length ≠ 0 := fun zero => content (List.length_eq_zero_iff.mp zero)
  have line : readLine (digits ++ crlf ++ data ++ crlf ++ rest) =
      some (digits, data ++ (crlf ++ rest)) := by
    have read := readLine_append noReturn (data ++ (crlf ++ rest))
    simp only [List.append_assoc] at read ⊢
    exact read
  have ends : (crlf ++ rest).take 2 = crlf := rfl
  have cut : (data ++ (crlf ++ rest)).drop (data.length + 2) = rest := by
    rw [← List.append_assoc]
    exact List.drop_left' (by rw [List.length_append]; rfl)
  rw [decodeFrom, line, Option.bind_some, chunkSize_digits some_ hex, Option.bind_some, size,
    if_neg positive, List.drop_left, if_pos ends, List.take_left, cut]

theorem decodeFrom_last (fuel : Nat) (rest : Bytes) :
    decodeFrom (fuel + 1) ([48] ++ crlf ++ crlf ++ rest) = some ([], rest) := rfl

end ChunkedCoding
