import Da4qi4.Redis.Client
import Da4qi4.Redis.ParserOctets

/-! Replies as the protocol writes them, nested to any depth. The parser closes
arrays by counters; reading an encoded value is nevertheless a recursion over the
value, in which every element is settled by the array around it. -/
namespace Da4qi4.Redis

/-- A reply of a server. -/
inductive Resp where
  | simple (text : Bytes)
  | error (text : Bytes)
  | integer (value : Int)
  | bulk (data : Bytes)
  | nullBulk
  | nullArray
  | array (values : List Resp)

def decimalInt : Int → Bytes
  | .ofNat n => decimal n
  | .negSucc n => minus :: decimal (n + 1)

namespace Resp

mutual
def encode : Resp → Bytes
  | .simple text => stringReply :: (text ++ crlf)
  | .error text => errorReply :: (text ++ crlf)
  | .integer value => integerReply :: (decimalInt value ++ crlf)
  | .bulk data => bulkReply :: (decimal data.length ++ crlf ++ data ++ crlf)
  | .nullBulk => bulkReply :: (decimalInt (-1) ++ crlf)
  | .nullArray => arrayReply :: (decimalInt (-1) ++ crlf)
  | .array values => arrayReply :: (decimal values.length ++ crlf ++ encodeAll values)

def encodeAll : List Resp → Bytes
  | [] => []
  | first :: rest => encode first ++ encodeAll rest
end

mutual
/-- What the parser is to make of it; error strings keep their mark. -/
def value : Resp → RedisValue
  | .simple text => .bytes text false
  | .error text => .bytes text true
  | .integer value => .int value
  | .bulk data => .bytes data false
  | .nullBulk => .null
  | .nullArray => .null
  | .array values => .array (valueAll values)

def valueAll : List Resp → List RedisValue
  | [] => []
  | first :: rest => value first :: valueAll rest
end

mutual
/-- The simple and the error strings at any depth. -/
def lines : Resp → List Bytes
  | .simple text => [text]
  | .error text => [text]
  | .array values => linesAll values
  | _ => []

def linesAll : List Resp → List Bytes
  | [] => []
  | first :: rest => lines first ++ linesAll rest
end

mutual
/-- The integers at any depth, and every length. -/
def numbers : Resp → List Int
  | .integer value => [value]
  | .bulk data => [(data.length : Int)]
  | .array values => (values.length : Int) :: numbersAll values
  | _ => []

def numbersAll : List Resp → List Int
  | [] => []
  | first :: rest => numbers first ++ numbersAll rest
end

/-- Integers are 64 bits wide, and a length is one of memory. -/
def Fits (r : Resp) : Prop := ∀ n ∈ r.numbers, -2 ^ 63 ≤ n ∧ n < 2 ^ 63

/-- A line ends at its line end. -/
def Lines (r : Resp) : Prop := ∀ text ∈ r.lines, cr ∉ text ∧ lf ∉ text

/-- The characters that the parser lets into a line. -/
def isPrintable (c : UInt8) : Bool := 32 ≤ c && c ≤ 126

def Printable (r : Resp) : Prop := ∀ text ∈ r.lines, ∀ c ∈ text, isPrintable c = true

theorem printable_of_all {r : Resp} (all : (r.lines.all fun text => text.all isPrintable) = true) :
    r.Printable := by
  intro text member c inside
  exact List.all_eq_true.mp (List.all_eq_true.mp all text member) c inside

end Resp

theorem decimal_of_lt {n : Nat} (digit : n < 10) : decimal n = [48 + n.toUInt8] := by
  rw [decimal, Nat.toDigits_of_lt_base digit]
  revert n
  decide

theorem decimal_of_le {n : Nat} (more : 10 ≤ n) :
    decimal n = decimal (n / 10) ++ [48 + (n % 10).toUInt8] := by
  rw [← decimal_of_lt (Nat.mod_lt n (by omega)), decimal, decimal, decimal,
    Nat.toDigits_of_base_le (by omega) more, List.map_append,
    Nat.toDigits_of_lt_base (Nat.mod_lt n (by omega))]

theorem isDigit_digit {d : Nat} (digit : d < 10) : isDigit (48 + d.toUInt8) = true := by
  revert d
  decide

theorem toInt_digit {d : Nat} (digit : d < 10) : (48 + d.toUInt8).toInt8.toInt - 48 = d := by
  revert d
  decide

theorem isDigit_decimal (n : Nat) : ∀ c ∈ decimal n, isDigit c = true := by
  induction n using Nat.strongRecOn with
  | ind n ih =>
    intro c member
    by_cases digit : n < 10
    · rw [decimal_of_lt digit, List.mem_singleton] at member
      rw [member]
      exact isDigit_digit digit
    · rw [decimal_of_le (by omega), List.mem_append, List.mem_singleton] at member
      rcases member with front | rfl
      · exact ih (n / 10) (by omega) c front
      · exact isDigit_digit (Nat.mod_lt n (by omega))

theorem decimal_ne_nil (n : Nat) : decimal n ≠ [] := by
  by_cases digit : n < 10
  · rw [decimal_of_lt digit]
    exact List.cons_ne_nil _ _
  · rw [decimal_of_le (by omega)]
    exact List.append_ne_nil_of_right_ne_nil _ (List.cons_ne_nil _ _)

theorem addDigits_append (ndebug : Bool) (value : Int) (front : Bytes) (c : UInt8) :
    addDigits ndebug value (front ++ [c]) =
      (addDigits ndebug value front).bind fun value => addDigits ndebug value [c] := by
  induction front generalizing value with
  | nil => rfl
  | cons d front ih =>
    rw [List.cons_append, addDigits, addDigits]
    split
    · exact ih _
    · rfl

theorem addDigits_decimal (ndebug : Bool) (n : Nat) :
    addDigits ndebug 0 (decimal n) = some (wrap n) := by
  have last : ∀ (value : Int) (d : Nat), d < 10 →
      addDigits ndebug value [48 + d.toUInt8] = some (wrap (value * 10 + d)) := by
    intro value d digit
    rw [addDigits, if_pos (.inr (isDigit_digit digit)), toInt_digit digit, addDigits]
  induction n using Nat.strongRecOn with
  | ind n ih =>
    by_cases digit : n < 10
    · rw [decimal_of_lt digit, last 0 n digit, zero_mul, zero_add]
    · have lastDigit : n % 10 < 10 := Nat.mod_lt n (by omega)
      have parts : (n / 10 : Nat) * 10 + (n % 10 : Nat) = (n : Int) := by omega
      rw [decimal_of_le (by omega), addDigits_append, ih (n / 10) (by omega), Option.bind_some,
        last _ _ lastDigit]
      apply congrArg some
      rw [wrap, wrap, ← Int.bmod_add_bmod, Int.bmod_mul_bmod, Int.bmod_add_bmod, parts]
      rfl

theorem bufToLong_decimal (ndebug : Bool) (n : Nat) :
    bufToLong ndebug (decimal n) = some (wrap n) := by
  have read := addDigits_decimal ndebug n
  have digits := isDigit_decimal n
  cases number : decimal n with
  | nil => exact absurd number (decimal_ne_nil n)
  | cons c rest =>
    rw [number] at read digits
    have unsigned : c ≠ minus := by
      rintro rfl
      exact absurd (digits minus (List.mem_cons_self ..)) (by decide)
    rw [bufToLong, if_neg unsigned, read]

theorem bufToLong_decimalInt (ndebug : Bool) (value : Int) (low : -2 ^ 63 ≤ value)
    (high : value < 2 ^ 63) : bufToLong ndebug (decimalInt value) = some value := by
  have whole : wrap value = value := Int.bmod_eq_of_le (by omega) (by omega)
  cases value with
  | ofNat n => exact (bufToLong_decimal ndebug n).trans (congrArg some whole)
  | negSucc n =>
    have negated : (Int.negSucc n) = -((n + 1 : Nat) : Int) := rfl
    rw [decimalInt, bufToLong, if_pos rfl, if_neg (decimal_ne_nil _), addDigits_decimal,
      Option.map_some, wrap, wrap, Int.bmod_neg_bmod, ← negated]
    exact congrArg some whole

/-- A number has no octet but digits and a sign. -/
theorem decimalInt_octets (value : Int) :
    decimalInt value ≠ [] ∧ ∀ c ∈ decimalInt value, (isDigit c || c == minus) = true := by
  cases value with
  | ofNat n =>
    refine ⟨decimal_ne_nil n, fun c member => ?_⟩
    rw [isDigit_decimal n c member, Bool.true_or]
  | negSucc n =>
    refine ⟨List.cons_ne_nil _ _, fun c member => ?_⟩
    rcases List.mem_cons.mp member with rfl | member
    · decide
    · rw [isDigit_decimal (n + 1) c member, Bool.true_or]

namespace RedisParser

theorem octet_next {p q : RedisParser} (turned : p.turn ndebug state c [] = q.next following)
    (inside : following ≠ .start) : p.octet ndebug state c = some (.more q following) := by
  rw [octet, turned]
  exact if_neg inside

theorem octet_fail {p : RedisParser} (turned : p.turn ndebug state c [] = p.fail) :
    p.octet ndebug state c = some (.failed { p with states := [] }) := by
  rw [octet, turned]
  rfl

theorem run_of_octet {p q : RedisParser}
    (read : p.octet ndebug state c = some (.more q following)) (rest : Bytes) :
    run ndebug p state (c :: rest) = run ndebug q following rest := by
  rw [run_cons, read]
  rfl

theorem isPrintable_iff (c : UInt8) : (isChar c && !isControl c) = Resp.isPrintable c := by
  rw [Bool.eq_iff_iff]
  simp [isChar, isControl, Resp.isPrintable, UInt8.le_iff_toNat_le, ← UInt8.toNat_inj]
  omega

/-- What `String` and `ErrorString` have in common. -/
def ReadsText (state lineFeed : State) : Prop :=
  state ≠ .start ∧ lineFeed ≠ .start ∧
    ∀ ndebug (p : RedisParser) c, p.turn ndebug state c [] = p.textOctet state lineFeed c

theorem readsText_string : ReadsText .string .stringLF := by
  refine ⟨by decide, by decide, fun ndebug p c => rfl⟩

theorem readsText_errorString : ReadsText .errorString .errorLF := by
  refine ⟨by decide, by decide, fun ndebug p c => rfl⟩

theorem run_text (reads : ReadsText state lineFeed) (p : RedisParser) {text : Bytes}
    (printable : ∀ c ∈ text, Resp.isPrintable c = true) (rest : Bytes) :
    run ndebug p state (text ++ cr :: rest) =
      run ndebug { p with buf := p.buf ++ text } lineFeed rest := by
  obtain ⟨stays, ends, turns⟩ := reads
  induction text generalizing p with
  | nil =>
    have ended : p.turn ndebug state cr [] = p.next lineFeed := by
      rw [turns, textOctet, if_pos rfl]
    rw [List.nil_append, run_of_octet (octet_next ended ends), List.append_nil]
  | cons c text ih =>
    have here := printable c (List.mem_cons_self ..)
    have notEnd : c ≠ cr := by
      rintro rfl
      exact absurd here (by decide)
    have stored : p.turn ndebug state c [] = { p with buf := p.buf ++ [c] }.next state := by
      rw [turns, textOctet, if_neg notEnd, isPrintable_iff, if_pos here]
    rw [List.cons_append, run_of_octet (octet_next stored stays),
      ih _ fun d member => printable d (List.mem_cons_of_mem c member)]
    simp only [List.append_assoc, List.singleton_append]

/-- An octet outside the range ends the reply; the line end is still unread. -/
theorem run_text_rejects (ndebug : Bool) (reads : ReadsText state lineFeed) (p : RedisParser)
    {text : Bytes} (unprintable : ¬∀ c ∈ text, Resp.isPrintable c = true) (line : cr ∉ text)
    (rest : Bytes) :
    ∃ q left, run ndebug p state (text ++ cr :: rest) = some (.failed q, left ++ cr :: rest) := by
  obtain ⟨stays, ends, turns⟩ := reads
  induction text generalizing p with
  | nil => exact absurd (fun c member => nomatch member) unprintable
  | cons c text ih =>
    obtain ⟨notEnd, line⟩ := not_or.mp (List.mem_cons.not.mp line)
    rw [List.cons_append]
    by_cases here : Resp.isPrintable c = true
    · have stored : p.turn ndebug state c [] = { p with buf := p.buf ++ [c] }.next state := by
        rw [turns, textOctet, if_neg (Ne.symm notEnd), isPrintable_iff, if_pos here]
      rw [run_of_octet (octet_next stored stays)]
      refine ih _ (fun all => unprintable fun d member => ?_) line
      rcases List.mem_cons.mp member with rfl | member
      · exact here
      · exact all d member
    · have failed : p.turn ndebug state c [] = p.fail := by
        rw [turns, textOctet, if_neg (Ne.symm notEnd), isPrintable_iff, if_neg here]
      rw [run_cons, octet_fail failed]
      exact ⟨_, text, rfl⟩

/-- What `Integer`, `BulkSize` and `ArraySize` have in common. -/
def ReadsNumber (state lineFeed : State) : Prop :=
  state ≠ .start ∧ lineFeed ≠ .start ∧
    ∀ ndebug (p : RedisParser) c, p.turn ndebug state c [] = p.numberOctet state lineFeed c

theorem run_number (reads : ReadsNumber state lineFeed) (p : RedisParser) {digits : Bytes}
    (octets : ∀ c ∈ digits, (isDigit c || c == minus) = true) (some_octet : p.buf ++ digits ≠ [])
    (rest : Bytes) :
    run ndebug p state (digits ++ cr :: rest) =
      run ndebug { p with buf := p.buf ++ digits } lineFeed rest := by
  obtain ⟨stays, ends, turns⟩ := reads
  induction digits generalizing p with
  | nil =>
    rw [List.append_nil] at some_octet
    have ended : p.turn ndebug state cr [] = p.next lineFeed := by
      rw [turns, numberOctet, if_pos rfl, if_neg some_octet]
    rw [List.nil_append, run_of_octet (octet_next ended ends), List.append_nil]
  | cons c digits ih =>
    have here := octets c (List.mem_cons_self ..)
    have notEnd : c ≠ cr := by
      rintro rfl
      exact absurd here (by decide)
    have stored : p.turn ndebug state c [] = { p with buf := p.buf ++ [c] }.next state := by
      rw [turns, numberOctet, if_neg notEnd, if_pos here]
    rw [List.cons_append, run_of_octet (octet_next stored stays),
      ih _ (fun d member => octets d (List.mem_cons_of_mem c member)) (by simp)]
    simp only [List.append_assoc, List.singleton_append]

/-- Behind the last octet of a value. -/
def complete (p : RedisParser) (value : RedisValue) : Option Progress :=
  Turn.settle ⟨{ p with redisValue := value }, .start, 0⟩

/-- The last element of an array completes the array. -/
theorem complete_last (p : RedisParser) (sizes : List Int) (values elements : List RedisValue)
    (value : RedisValue) :
    complete { p with arraySizes := 1 :: sizes, arrayValues := .array elements :: values } value =
      complete { p with arraySizes := sizes, arrayValues := values }
        (.array (elements ++ [value])) := by
  have left : finish { p with
        redisValue := value, arraySizes := 1 :: sizes, arrayValues := .array elements :: values } =
      finish { p with
        redisValue := .array (elements ++ [value])
        arraySizes := sizes
        arrayValues := values } := by
    simp only [finish, RedisValue.pushBack, Option.bind_some, closeArrays, sub_self, if_true,
      reduceCtorEq, if_false]
    cases sizes with
    | nil => simp only [if_true, closeArrays, Option.map_some]
    | cons size sizes =>
      simp only [reduceCtorEq, if_false]
      cases values with
      | nil => rfl
      | cons outer values =>
        cases outer <;> rfl
  rw [complete, complete, Turn.settle, Turn.settle, if_pos rfl, if_pos rfl]
  exact congrArg _ left

theorem complete_more (p : RedisParser) {size : Nat} (more : 1 < size)
    (fits : (size : Int) < 2 ^ 63)
    (sizes : List Int) (values elements : List RedisValue) (value : RedisValue) :
    complete { p with
        arraySizes := (size : Int) :: sizes, arrayValues := .array elements :: values } value =
      some (.more { p with
        redisValue := value, arraySizes := ((size - 1 : Nat) : Int) :: sizes
        arrayValues := .array (elements ++ [value]) :: values } .start) := by
  have counted : wrap ((size : Int) - 1) = ((size - 1 : Nat) : Int) := by
    rw [wrap, Int.bmod_eq_of_le (by omega) (by omega)]
    omega
  have left : ¬(size : Int) - 1 = 0 := by omega
  simp only [complete, Turn.settle, if_true, finish, reduceCtorEq, if_false, RedisValue.pushBack,
    Option.bind_some, closeArrays, if_neg left, Option.map_some, counted]

/-- The parser reads the encoded value, between two values. -/
def Reads (ndebug : Bool) (r : Resp) : Prop :=
  ∀ (p : RedisParser) (state : State) (rest : Bytes), state = .start ∨ state = .startArray →
    ∃ buf size, run ndebug p state (r.encode ++ rest) =
      (complete { p with buf := buf, bulkSize := size } r.value).bind fun progress =>
        progress.andThen ndebug rest

/-- It reads the elements that an array still lacks. -/
def ReadsAll (ndebug : Bool) (values : List Resp) : Prop :=
  values ≠ [] → (values.length : Int) < 2 ^ 63 → ∀ (p : RedisParser) (state : State) (rest : Bytes)
    (sizes : List Int) (arrays elements : List RedisValue), state = .start ∨ state = .startArray →
    ∃ buf size, run ndebug { p with
        arraySizes := (values.length : Int) :: sizes, arrayValues := .array elements :: arrays }
        state (Resp.encodeAll values ++ rest) =
      (complete { p with buf := buf, bulkSize := size, arraySizes := sizes, arrayValues := arrays }
        (.array (elements ++ Resp.valueAll values))).bind fun progress =>
          progress.andThen ndebug rest

theorem octet_complete {p q : RedisParser}
    (turned : p.turn ndebug state c [] = ({ q with redisValue := value }).next .start)
    (rest : Bytes) :
    run ndebug p state (c :: rest) =
      (complete q value).bind fun progress => progress.andThen ndebug rest := by
  rw [run_cons, octet, turned]
  rfl

theorem run_opens (p : RedisParser) {q : RedisParser} {state : State}
    (opens : state = .start ∨ state = .startArray)
    (turned : { p with buf := [] }.turn ndebug .start c [] = q.next following)
    (inside : following ≠ .start) (rest : Bytes) :
    run ndebug p state (c :: rest) = run ndebug q following rest := by
  have same : p.turn ndebug state c [] = q.next following := by
    rcases opens with rfl | rfl
    · exact turned
    · exact turned
  exact run_of_octet (octet_next same inside) rest

theorem reads_text (turned : ∀ p : RedisParser,
      { p with buf := [] }.turn ndebug .start first [] = { p with buf := [] }.next state)
    (reads : ReadsText state lineFeed)
    (closed : ∀ p : RedisParser,
      p.turn ndebug lineFeed lf [] = { p with redisValue := .bytes p.buf mark }.next .start)
    {text : Bytes} (printable : ∀ c ∈ text, Resp.isPrintable c = true) (p : RedisParser)
    (opens : before = .start ∨ before = .startArray) (rest : Bytes) :
    ∃ buf size, run ndebug p before (first :: (text ++ crlf) ++ rest) =
      (complete { p with buf := buf, bulkSize := size } (.bytes text mark)).bind fun progress =>
        progress.andThen ndebug rest := by
  refine ⟨text, p.bulkSize, ?_⟩
  rw [List.cons_append, List.append_assoc, run_opens p opens (turned p) reads.1]
  change run ndebug _ state (text ++ cr :: lf :: rest) = _
  rw [run_text reads _ printable]
  exact octet_complete (closed _) rest

theorem readsNumber_integer : ReadsNumber .integer .integerLF := by
  refine ⟨by decide, by decide, fun ndebug p c => rfl⟩

theorem readsNumber_bulkSize : ReadsNumber .bulkSize .bulkSizeLF := by
  refine ⟨by decide, by decide, fun ndebug p c => rfl⟩

theorem readsNumber_arraySize : ReadsNumber .arraySize .arraySizeLF := by
  refine ⟨by decide, by decide, fun ndebug p c => rfl⟩

/-- The type octet and the number of a reply, up to the line feed. -/
theorem run_header {p q : RedisParser}
    (turned : { p with buf := [] }.turn ndebug .start first [] = q.next state)
    (reads : ReadsNumber state lineFeed) (opens : before = .start ∨ before = .startArray)
    (empty : q.buf = []) (number : Int) (rest : Bytes) :
    run ndebug p before (first :: (decimalInt number ++ crlf ++ rest)) =
      run ndebug { q with buf := decimalInt number } lineFeed (lf :: rest) := by
  obtain ⟨some_octet, octets⟩ := decimalInt_octets number
  rw [run_opens p opens turned reads.1, List.append_assoc]
  change run ndebug q state (decimalInt number ++ cr :: lf :: rest) = _
  rw [run_number reads q octets (by rw [empty]; exact some_octet), empty, List.nil_append]

theorem reads_integer (ndebug : Bool) {number : Int} (low : -2 ^ 63 ≤ number)
    (high : number < 2 ^ 63) : Reads ndebug (.integer number) := by
  intro p before rest opens
  refine ⟨[], p.bulkSize, ?_⟩
  rw [Resp.encode, List.cons_append,
    run_header (q := { p with buf := [] }) rfl readsNumber_integer opens rfl]
  refine octet_complete (q := { p with buf := [] }) ?_ rest
  simp only [turn, if_true, bufToLong_decimalInt ndebug _ low high, Option.bind_some, Resp.value]

theorem reads_nullBulk (ndebug : Bool) : Reads ndebug .nullBulk := by
  intro p before rest opens
  refine ⟨[], -1, ?_⟩
  rw [Resp.encode, List.cons_append,
    run_header (q := { p with buf := [], bulkSize := 0 }) rfl readsNumber_bulkSize opens rfl]
  refine octet_complete (q := { p with buf := [], bulkSize := -1 }) ?_ rest
  simp only [turn, if_true, bufToLong_decimalInt ndebug (-1) (by decide) (by decide),
    Option.bind_some, openBulk, Resp.value]

theorem reads_nullArray (ndebug : Bool) : Reads ndebug .nullArray := by
  intro p before rest opens
  refine ⟨decimalInt (-1), p.bulkSize, ?_⟩
  rw [Resp.encode, List.cons_append,
    run_header (q := { p with buf := [] }) rfl readsNumber_arraySize opens rfl]
  refine octet_complete (q := { p with buf := decimalInt (-1) }) ?_ rest
  simp only [turn, if_true, bufToLong_decimalInt ndebug (-1) (by decide) (by decide),
    Option.bind_some, openArray, Resp.value]

/-- The data of a bulk string, behind its size. -/
theorem run_bulkData (p : RedisParser) (data : Bytes)
    (number : bufToLong ndebug p.buf = some (data.length : Int)) (rest : Bytes) :
    run ndebug p .bulkSizeLF (lf :: (data ++ rest)) =
      run ndebug { p with buf := data, bulkSize := 0 } .bulkCR rest := by
  by_cases empty : data = []
  · have opened : p.turn ndebug .bulkSizeLF lf [] =
        { p with bulkSize := 0, buf := [] }.next .bulkCR := by
      rw [empty] at number
      simp only [turn, if_true, number, Option.bind_some, List.length_nil, openBulk]
      rfl
    rw [empty, List.nil_append, run_of_octet (octet_next opened (by decide))]
  · have more : 0 < data.length := List.length_pos_iff.mpr empty
    have stored : storeBulk { p with bulkSize := data.length, buf := [] } data =
        { p with buf := data, bulkSize := 0 } := by
      simp only [storeBulk, List.nil_append, sub_self]
    have opened : p.turn ndebug .bulkSizeLF lf (data ++ rest) =
        p.openBulk data.length (data ++ rest) := by
      simp only [turn, if_true, number, Option.bind_some]
    rw [run_of_bulkSizeLF, opened, ← run_of_openBulk ndebug p (by omega),
      run_bulk ndebug _ data empty (by simp only; omega), stored]
    rfl

theorem reads_bulk (ndebug : Bool) {data : Bytes} (fits : (data.length : Int) < 2 ^ 63) :
    Reads ndebug (.bulk data) := by
  intro p before rest opens
  have number := bufToLong_decimalInt ndebug (data.length : Int) (by omega) fits
  refine ⟨data, 0, ?_⟩
  have encoded : Resp.encode (.bulk data) ++ rest =
      bulkReply :: (decimalInt data.length ++ crlf ++ (data ++ cr :: lf :: rest)) := by
    simp only [Resp.encode, decimalInt, List.cons_append, List.append_assoc]
    rfl
  rw [encoded, run_header (q := { p with buf := [], bulkSize := 0 }) rfl readsNumber_bulkSize opens
    rfl, run_bulkData _ data number]
  have returned : turn ndebug { p with buf := data, bulkSize := 0 } .bulkCR cr [] =
      { p with buf := data, bulkSize := 0 }.next .bulkLF := rfl
  rw [run_of_octet (octet_next returned (by decide))]
  exact octet_complete rfl rest

theorem reads_array (ndebug : Bool) {values : List Resp} (fits : (values.length : Int) < 2 ^ 63)
    (elements : ReadsAll ndebug values) : Reads ndebug (.array values) := by
  intro p before rest opens
  have number := bufToLong_decimalInt ndebug (values.length : Int) (by omega) fits
  have encoded : Resp.encode (.array values) ++ rest =
      arrayReply :: (decimalInt values.length ++ crlf ++ (Resp.encodeAll values ++ rest)) := by
    simp only [Resp.encode, decimalInt, List.cons_append, List.append_assoc]
  rw [encoded, run_header (q := { p with buf := [] }) rfl readsNumber_arraySize opens rfl]
  by_cases empty : values = []
  · refine ⟨decimalInt values.length, p.bulkSize, ?_⟩
    rw [empty] at number ⊢
    refine octet_complete (q := { p with buf := decimalInt 0 }) ?_ rest
    simp only [turn, if_true]
    rw [show bufToLong ndebug (decimalInt (([] : List Resp).length : Int)) = some 0 from number]
    rfl
  · have more : 0 < values.length := List.length_pos_iff.mpr empty
    have opened : turn ndebug { p with buf := decimalInt values.length } .arraySizeLF lf [] =
        { p with
          buf := decimalInt values.length
          arraySizes := (values.length : Int) :: p.arraySizes
          arrayValues := .array [] :: p.arrayValues }.next .startArray := by
      simp only [turn, if_true, number, Option.bind_some, openArray]
      rw [if_neg (by omega), if_neg (by omega), if_neg (by omega)]
    rw [run_of_octet (octet_next opened (by decide))]
    obtain ⟨buf, size, read⟩ := elements empty fits { p with buf := decimalInt values.length }
      .startArray rest p.arraySizes p.arrayValues [] (.inr rfl)
    refine ⟨buf, size, read.trans ?_⟩
    rw [List.nil_append, Resp.value]

/-- An element that is not the last leaves the array open. -/
theorem complete_element (p : RedisParser) {rest : List Resp} (more : rest ≠ [])
    (fits : ((first :: rest).length : Int) < 2 ^ 63) (sizes : List Int)
    (arrays elements : List RedisValue) (value : RedisValue) :
    complete { p with
        arraySizes := ((first :: rest).length : Int) :: sizes
        arrayValues := .array elements :: arrays } value =
      some (.more { p with
        redisValue := value, arraySizes := (rest.length : Int) :: sizes
        arrayValues := .array (elements ++ [value]) :: arrays } .start) := by
  have some_element : 0 < rest.length := List.length_pos_iff.mpr more
  exact complete_more p (by rw [List.length_cons]; omega) fits sizes arrays elements value

theorem readsAll_cons (first_reads : Reads ndebug first) (rest_reads : ReadsAll ndebug rest) :
    ReadsAll ndebug (first :: rest) := by
  intro _ fits p before behind sizes arrays elements opens
  obtain ⟨buf, size, read⟩ := first_reads { p with
      arraySizes := ((first :: rest).length : Int) :: sizes, arrayValues := .array elements :: arrays }
    before (Resp.encodeAll rest ++ behind) opens
  rw [Resp.encodeAll, List.append_assoc, read]
  by_cases last : rest = []
  · refine ⟨buf, size, ?_⟩
    rw [last]
    exact congrArg (fun settled : Option Progress => settled.bind fun progress =>
      progress.andThen ndebug behind)
      (complete_last { p with buf := buf, bulkSize := size } sizes arrays elements first.value)
  · have onward := complete_element { p with buf := buf, bulkSize := size } last fits sizes arrays
      elements first.value
    have bound : (rest.length : Int) < 2 ^ 63 := by
      rw [List.length_cons] at fits
      omega
    obtain ⟨buf', size', readOn⟩ := rest_reads last bound
      { p with buf := buf, bulkSize := size, redisValue := first.value } .start behind sizes arrays
      (elements ++ [first.value]) (.inl rfl)
    refine ⟨buf', size', ?_⟩
    rw [List.append_assoc] at readOn
    exact (congrArg (fun settled : Option Progress => settled.bind fun progress =>
      progress.andThen ndebug (Resp.encodeAll rest ++ behind)) onward).trans readOn

theorem turn_simple (ndebug : Bool) (p : RedisParser) :
    { p with buf := [] }.turn ndebug .start stringReply [] = { p with buf := [] }.next .string :=
  rfl

theorem turn_error (ndebug : Bool) (p : RedisParser) :
    { p with buf := [] }.turn ndebug .start errorReply [] =
      { p with buf := [] }.next .errorString :=
  rfl

theorem reads (ndebug : Bool) (r : Resp) : r.Fits → r.Printable → Reads ndebug r := by
  refine Resp.rec (motive_1 := fun r => r.Fits → r.Printable → Reads ndebug r)
    (motive_2 := fun values => (∀ n ∈ Resp.numbersAll values, -2 ^ 63 ≤ n ∧ n < 2 ^ 63) →
      (∀ text ∈ Resp.linesAll values, ∀ c ∈ text, Resp.isPrintable c = true) →
        ReadsAll ndebug values) ?_ ?_ ?_ ?_ ?_ ?_ ?_ ?_ ?_ r
  · intro text _ printable p before rest opens
    exact reads_text (turn_simple ndebug) readsText_string (fun p => rfl)
      (printable text (List.mem_singleton_self text)) p opens rest
  · intro text _ printable p before rest opens
    exact reads_text (turn_error ndebug) readsText_errorString (fun p => rfl)
      (printable text (List.mem_singleton_self text)) p opens rest
  · intro number fits _
    obtain ⟨low, high⟩ := fits number (List.mem_singleton_self number)
    exact reads_integer ndebug low high
  · intro data fits _
    exact reads_bulk ndebug (fits _ (List.mem_singleton_self _)).2
  · intro _ _
    exact reads_nullBulk ndebug
  · intro _ _
    exact reads_nullArray ndebug
  · intro values elements fits printable
    refine reads_array ndebug (fits _ (List.mem_cons_self ..)).2 (elements ?_ printable)
    intro n member
    exact fits n (List.mem_cons_of_mem _ member)
  · intro _ _ nothing
    exact absurd rfl nothing
  · intro first rest first_reads rest_reads fits printable
    refine readsAll_cons (first_reads ?_ ?_) (rest_reads ?_ ?_)
    · intro n member
      exact fits n (List.mem_append_left _ member)
    · intro text member
      exact printable text (List.mem_append_left _ member)
    · intro n member
      exact fits n (List.mem_append_right _ member)
    · intro text member
      exact printable text (List.mem_append_right _ member)

/-- The parser gives up inside the encoded value. -/
def Rejects (ndebug : Bool) (r : Resp) : Prop :=
  ∀ (p : RedisParser) (state : State) (rest : Bytes), state = .start ∨ state = .startArray →
    ∃ q left, left ≠ [] ∧ run ndebug p state (r.encode ++ rest) = some (.failed q, left ++ rest)

def RejectsAll (ndebug : Bool) (values : List Resp) : Prop :=
  (values.length : Int) < 2 ^ 63 → ∀ (p : RedisParser) (state : State) (rest : Bytes)
    (sizes : List Int) (arrays elements : List RedisValue), state = .start ∨ state = .startArray →
    ∃ q left, left ≠ [] ∧ run ndebug { p with
        arraySizes := (values.length : Int) :: sizes, arrayValues := .array elements :: arrays }
        state (Resp.encodeAll values ++ rest) = some (.failed q, left ++ rest)

theorem rejects_text (turned : ∀ p : RedisParser,
      { p with buf := [] }.turn ndebug .start first [] = { p with buf := [] }.next state)
    (reads : ReadsText state lineFeed) {text : Bytes}
    (unprintable : ¬∀ c ∈ text, Resp.isPrintable c = true) (line : cr ∉ text) (p : RedisParser)
    (opens : before = .start ∨ before = .startArray) (rest : Bytes) :
    ∃ q left, left ≠ [] ∧
      run ndebug p before (first :: (text ++ crlf) ++ rest) = some (.failed q, left ++ rest) := by
  obtain ⟨q, left, failed⟩ :=
    run_text_rejects ndebug reads { p with buf := [] } unprintable line (lf :: rest)
  refine ⟨q, left ++ crlf, List.append_ne_nil_of_right_ne_nil _ (List.cons_ne_nil _ _), ?_⟩
  rw [List.cons_append, List.append_assoc, run_opens p opens (turned p) reads.1, List.append_assoc]
  exact failed

theorem rejects_array (ndebug : Bool) {values : List Resp} (fits : (values.length : Int) < 2 ^ 63)
    (more : values ≠ []) (elements : RejectsAll ndebug values) :
    Rejects ndebug (.array values) := by
  intro p before rest opens
  have number := bufToLong_decimalInt ndebug (values.length : Int) (by omega) fits
  have some_element : 0 < values.length := List.length_pos_iff.mpr more
  have encoded : Resp.encode (.array values) ++ rest =
      arrayReply :: (decimalInt values.length ++ crlf ++ (Resp.encodeAll values ++ rest)) := by
    simp only [Resp.encode, decimalInt, List.cons_append, List.append_assoc]
  have opened : turn ndebug { p with buf := decimalInt values.length } .arraySizeLF lf [] =
      { p with
        buf := decimalInt values.length
        arraySizes := (values.length : Int) :: p.arraySizes
        arrayValues := .array [] :: p.arrayValues }.next .startArray := by
    simp only [turn, if_true, number, Option.bind_some, openArray]
    rw [if_neg (by omega), if_neg (by omega), if_neg (by omega)]
  rw [encoded, run_header (q := { p with buf := [] }) rfl readsNumber_arraySize opens rfl,
    run_of_octet (octet_next opened (by decide))]
  exact elements fits { p with buf := decimalInt values.length } .startArray rest p.arraySizes
    p.arrayValues [] (.inr rfl)

/-- The elements in front of the first rejected one are read. -/
theorem rejectsAll_cons
    (first_answers : Reads ndebug first ∧ RejectsAll ndebug rest ∧ rest ≠ [] ∨ Rejects ndebug first) :
    RejectsAll ndebug (first :: rest) := by
  intro fits p before behind sizes arrays elements opens
  rw [Resp.encodeAll, List.append_assoc]
  rcases first_answers with ⟨first_reads, rest_rejects, more⟩ | first_rejects
  · obtain ⟨buf, size, read⟩ := first_reads { p with
        arraySizes := ((first :: rest).length : Int) :: sizes
        arrayValues := .array elements :: arrays }
      before (Resp.encodeAll rest ++ behind) opens
    have onward := complete_element { p with buf := buf, bulkSize := size } more fits sizes arrays
      elements first.value
    have bound : (rest.length : Int) < 2 ^ 63 := by
      rw [List.length_cons] at fits
      omega
    obtain ⟨q, left, some_octet, failed⟩ := rest_rejects bound
      { p with buf := buf, bulkSize := size, redisValue := first.value } .start behind sizes arrays
      (elements ++ [first.value]) (.inl rfl)
    refine ⟨q, left, some_octet, read.trans ?_⟩
    exact (congrArg (fun settled : Option Progress => settled.bind fun progress =>
      progress.andThen ndebug (Resp.encodeAll rest ++ behind)) onward).trans failed
  · obtain ⟨q, left, some_octet, failed⟩ := first_rejects { p with
        arraySizes := ((first :: rest).length : Int) :: sizes
        arrayValues := .array elements :: arrays }
      before (Resp.encodeAll rest ++ behind) opens
    refine ⟨q, left ++ Resp.encodeAll rest, ?_, ?_⟩
    · exact List.append_ne_nil_of_left_ne_nil some_octet _
    · rw [List.append_assoc]
      exact failed

theorem rejects (ndebug : Bool) (r : Resp) :
    r.Fits → r.Lines → ¬r.Printable → Rejects ndebug r := by
  have onlyLine : ∀ text : Bytes, (¬∀ line ∈ [text], ∀ c ∈ line, Resp.isPrintable c = true) →
      ¬∀ c ∈ text, Resp.isPrintable c = true := by
    intro text unprintable all
    apply unprintable
    intro line member
    rw [List.mem_singleton.mp member]
    exact all
  refine Resp.rec (motive_1 := fun r => r.Fits → r.Lines → ¬r.Printable → Rejects ndebug r)
    (motive_2 := fun values => (∀ n ∈ Resp.numbersAll values, -2 ^ 63 ≤ n ∧ n < 2 ^ 63) →
      (∀ text ∈ Resp.linesAll values, cr ∉ text ∧ lf ∉ text) →
      (¬∀ text ∈ Resp.linesAll values, ∀ c ∈ text, Resp.isPrintable c = true) →
        RejectsAll ndebug values) ?_ ?_ ?_ ?_ ?_ ?_ ?_ ?_ ?_ r
  · intro text _ line unprintable p before rest opens
    exact rejects_text (turn_simple ndebug) readsText_string (onlyLine text unprintable)
      (line text (List.mem_singleton_self text)).1 p opens rest
  · intro text _ line unprintable p before rest opens
    exact rejects_text (turn_error ndebug) readsText_errorString (onlyLine text unprintable)
      (line text (List.mem_singleton_self text)).1 p opens rest
  · intro _ _ _ unprintable
    exact absurd (fun text member => nomatch member) unprintable
  · intro _ _ _ unprintable
    exact absurd (fun text member => nomatch member) unprintable
  · intro _ _ unprintable
    exact absurd (fun text member => nomatch member) unprintable
  · intro _ _ unprintable
    exact absurd (fun text member => nomatch member) unprintable
  · intro values elements fits line unprintable
    have more : values ≠ [] := by
      rintro rfl
      exact unprintable fun text member => nomatch member
    refine rejects_array ndebug (fits _ (List.mem_cons_self ..)).2 more
      (elements ?_ line unprintable)
    intro n member
    exact fits n (List.mem_cons_of_mem _ member)
  · intro _ _ unprintable
    exact absurd (fun text member => nomatch member) unprintable
  · intro first rest first_rejects rest_rejects fits line unprintable
    have first_fits : first.Fits := fun n member => fits n (List.mem_append_left _ member)
    have first_lines : first.Lines := fun text member => line text (List.mem_append_left _ member)
    apply rejectsAll_cons
    by_cases first_printable : first.Printable
    · have behind : ¬∀ text ∈ Resp.linesAll rest, ∀ c ∈ text, Resp.isPrintable c = true := by
        intro printable
        apply unprintable
        intro text member
        rcases List.mem_append.mp member with front | back
        · exact first_printable text front
        · exact printable text back
      have more : rest ≠ [] := by
        rintro rfl
        exact behind fun text member => nomatch member
      refine .inl ⟨reads ndebug first first_fits first_printable, rest_rejects ?_ ?_ behind, more⟩
      · intro n member
        exact fits n (List.mem_append_right _ member)
      · intro text member
        exact line text (List.mem_append_right _ member)
    · exact .inr (first_rejects first_fits first_lines first_printable)

theorem encode_ne_nil (r : Resp) : r.encode ≠ [] := by
  cases r <;> exact List.cons_ne_nil _ _

/-- A new parser reads an encoded value and nothing of what is behind it. -/
theorem run_encode (ndebug : Bool) {r : Resp} (fits : r.Fits) (printable : r.Printable)
    (suffix : Bytes) :
    ∃ final, run ndebug fresh .start (r.encode ++ suffix) = some (.done final, suffix) ∧
      final.result = r.value := by
  obtain ⟨buf, size, read⟩ := reads ndebug r fits printable fresh .start suffix (.inl rfl)
  exact ⟨{ fresh with buf := buf, bulkSize := size, redisValue := r.value }, read, rfl⟩

theorem parse_of_run {data : Bytes} (ran : run ndebug fresh .start data = some (progress, unread))
    (more : data ≠ []) :
    fresh.parse ndebug data = some (progress.answer (data.length - unread.length)) := by
  rw [parse_eq_run ndebug fresh more]
  exact congrArg _ ran

/-- Every value that a server can send is read back, with its marks. -/
theorem parse_encode (ndebug : Bool) {r : Resp} (fits : r.Fits) (printable : r.Printable)
    (suffix : Bytes) :
    ∃ final, fresh.parse ndebug (r.encode ++ suffix) = some ⟨r.encode.length, .completed, final⟩ ∧
      final.result = r.value := by
  obtain ⟨final, ran, result⟩ := run_encode ndebug fits printable suffix
  refine ⟨final, ?_, result⟩
  have more := List.append_ne_nil_of_left_ne_nil (encode_ne_nil r) suffix
  rw [parse_of_run ran more, List.length_append, Nat.add_sub_cancel]
  rfl

/-- An error and an empty array, inside an array that ends with a nil. -/
def nestedReply : Resp :=
  .array [.array [.error [69], .integer (-7)], .array [], .bulk [13, 10], .nullBulk]

theorem parse_encode_nestedReply :
    ∃ final, fresh.parse false (nestedReply.encode ++ [43]) =
        some ⟨nestedReply.encode.length, .completed, final⟩ ∧
      final.result = .array [.array [.bytes [69] true, .int (-7)], .array [],
        .bytes [13, 10] false, .null] :=
  parse_encode false (by unfold Resp.Fits; decide) (Resp.printable_of_all (by decide)) [43]

end RedisParser

end Da4qi4.Redis
