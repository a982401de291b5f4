import Da4qi4.Redis.ParserCounts

/-! The language of replies. The parser completes a text with a value exactly if the grammar
derives the value from the text: what it accepts is well formed, and nothing well formed is
refused. The grammar is that of the protocol but for numbers, which may have more than one
sign and no digit. -/
namespace Da4qi4.Redis
open RedisParser

def crlfEnded (first : UInt8) (line : Bytes) : Bytes := first :: (line ++ crlf)

/-- The text of a number, with the value that is read. -/
structure Numeral (ndebug : Bool) (token : Bytes) (value : Int) : Prop where
  filled : token ≠ []
  loose : Loose token
  read : bufToLong ndebug token = some value

def Printable (text : Bytes) : Prop := ∀ c ∈ text, Resp.isPrintable c = true

mutual

/-- A value and a text that stands for it. -/
inductive Derives (ndebug : Bool) : RedisValue → Bytes → Prop
  | simple {text : Bytes} (printable : Printable text) :
    Derives ndebug (.bytes text false) (crlfEnded stringReply text)
  | error {text : Bytes} (printable : Printable text) :
    Derives ndebug (.bytes text true) (crlfEnded errorReply text)
  | integer {token : Bytes} {value : Int} (number : Numeral ndebug token value) :
    Derives ndebug (.int value) (crlfEnded integerReply token)
  | nullBulk {token : Bytes} (number : Numeral ndebug token (-1)) :
    Derives ndebug .null (crlfEnded bulkReply token)
  | bulk {token data : Bytes} (number : Numeral ndebug token data.length) :
    Derives ndebug (.bytes data false) (crlfEnded bulkReply token ++ (data ++ crlf))
  | nullArray {token : Bytes} (number : Numeral ndebug token (-1)) :
    Derives ndebug .null (crlfEnded arrayReply token)
  | array {token text : Bytes} {values : List RedisValue}
      (number : Numeral ndebug token values.length) (elements : DerivesAll ndebug values text) :
    Derives ndebug (.array values) (crlfEnded arrayReply token ++ text)

/-- Values one after another. -/
inductive DerivesAll (ndebug : Bool) : List RedisValue → Bytes → Prop
  | nil : DerivesAll ndebug [] []
  | cons {value : RedisValue} {values : List RedisValue} {text rest : Bytes}
      (first : Derives ndebug value text) (others : DerivesAll ndebug values rest) :
    DerivesAll ndebug (value :: values) (text ++ rest)

end

theorem Derives.ne_nil (derives : Derives ndebug value text) : text ≠ [] := by
  cases derives <;> exact List.cons_ne_nil _ _

namespace RedisParser

/-- The parser reads a text as a value, between two values. -/
def ReadsAs (ndebug : Bool) (value : RedisValue) (text : Bytes) : Prop :=
  ∀ (p : RedisParser) (state : State) (rest : Bytes), state = .start ∨ state = .startArray →
    ∃ buf size, run ndebug p state (text ++ rest) =
      (complete { p with buf := buf, bulkSize := size } value).bind fun progress =>
        progress.andThen ndebug rest

/-- It reads the elements that an array still lacks. -/
def ReadsAllAs (ndebug : Bool) (elements : List RedisValue) (text : Bytes) : Prop :=
  elements ≠ [] → (elements.length : Int) < 2 ^ 63 →
    ∀ (p : RedisParser) (state : State) (rest : Bytes) (sizes : List Int)
      (arrays before : List RedisValue), state = .start ∨ state = .startArray →
      ∃ buf size, run ndebug { p with
          arraySizes := (elements.length : Int) :: sizes
          arrayValues := .array before :: arrays } state (text ++ rest) =
        (complete { p with buf := buf, bulkSize := size, arraySizes := sizes, arrayValues := arrays }
          (.array (before ++ elements))).bind fun progress => progress.andThen ndebug rest

/-- The type octet and a number, up to the line feed. -/
theorem run_numeral {p q : RedisParser}
    (turned : { p with buf := [] }.turn ndebug .start first [] = q.next state)
    (reads : ReadsNumber state lineFeed) (opens : before = .start ∨ before = .startArray)
    (empty : q.buf = []) (number : Numeral ndebug token value) (rest : Bytes) :
    run ndebug p before (crlfEnded first token ++ rest) =
      run ndebug { q with buf := token } lineFeed (lf :: rest) := by
  have text : crlfEnded first token ++ rest = first :: (token ++ cr :: lf :: rest) := by
    simp [crlfEnded, crlf, cr, lf]
  rw [text, run_opens p opens turned reads.1,
    run_number reads q number.loose (by rw [empty]; exact number.filled), empty, List.nil_append]

theorem readsAs_text (turned : ∀ p : RedisParser,
      { p with buf := [] }.turn ndebug .start first [] = { p with buf := [] }.next state)
    (reads : ReadsText state lineFeed)
    (closed : ∀ p : RedisParser,
      p.turn ndebug lineFeed lf [] = { p with redisValue := .bytes p.buf mark }.next .start)
    {text : Bytes} (printable : Printable text) :
    ReadsAs ndebug (.bytes text mark) (crlfEnded first text) :=
  fun p _ rest opens => reads_text turned reads closed printable p opens rest

theorem readsAs_integer (number : Numeral ndebug token value) :
    ReadsAs ndebug (.int value) (crlfEnded integerReply token) := by
  intro p before rest opens
  refine ⟨[], p.bulkSize, ?_⟩
  rw [run_numeral (q := { p with buf := [] }) rfl readsNumber_integer opens rfl number]
  refine octet_complete (q := { p with buf := [] }) ?_ rest
  simp only [turn, if_true, number.read, Option.bind_some]

theorem readsAs_nullBulk (number : Numeral ndebug token (-1)) :
    ReadsAs ndebug .null (crlfEnded bulkReply token) := by
  intro p before rest opens
  refine ⟨[], -1, ?_⟩
  rw [run_numeral (q := { p with buf := [], bulkSize := 0 }) rfl readsNumber_bulkSize opens rfl
    number]
  refine octet_complete (q := { p with buf := [], bulkSize := -1 }) ?_ rest
  simp only [turn, if_true, number.read, Option.bind_some, openBulk]

theorem readsAs_bulk {data : Bytes} (number : Numeral ndebug token data.length) :
    ReadsAs ndebug (.bytes data false) (crlfEnded bulkReply token ++ (data ++ crlf)) := by
  intro p before rest opens
  refine ⟨data, 0, ?_⟩
  have text : crlfEnded bulkReply token ++ (data ++ crlf) ++ rest =
      crlfEnded bulkReply token ++ (data ++ cr :: lf :: rest) := by
    simp [crlf, cr, lf]
  rw [text, run_numeral (q := { p with buf := [], bulkSize := 0 }) rfl readsNumber_bulkSize opens
    rfl number, run_bulkData _ data number.read]
  have returned : turn ndebug { p with buf := data, bulkSize := 0 } .bulkCR cr [] =
      { p with buf := data, bulkSize := 0 }.next .bulkLF := rfl
  rw [run_of_octet (octet_next returned (by decide))]
  exact octet_complete rfl rest

theorem readsAs_nullArray (number : Numeral ndebug token (-1)) :
    ReadsAs ndebug .null (crlfEnded arrayReply token) := by
  intro p before rest opens
  refine ⟨token, p.bulkSize, ?_⟩
  rw [run_numeral (q := { p with buf := [] }) rfl readsNumber_arraySize opens rfl number]
  refine octet_complete (q := { p with buf := token }) ?_ rest
  simp only [turn, if_true, number.read, Option.bind_some, openArray]

theorem readsAs_array {values : List RedisValue} {text : Bytes}
    (number : Numeral ndebug token values.length) (none : values = [] → text = [])
    (elements : ReadsAllAs ndebug values text) :
    ReadsAs ndebug (.array values) (crlfEnded arrayReply token ++ text) := by
  intro p before rest opens
  rw [List.append_assoc,
    run_numeral (q := { p with buf := [] }) rfl readsNumber_arraySize opens rfl number]
  by_cases empty : values = []
  · refine ⟨token, p.bulkSize, ?_⟩
    have read : bufToLong ndebug token = some 0 := by
      rw [number.read, empty]
      rfl
    rw [none empty, empty, List.nil_append]
    refine octet_complete (q := { p with buf := token }) ?_ rest
    simp only [turn, if_true, read, Option.bind_some, openArray]
    rfl
  · have more : 0 < values.length := List.length_pos_iff.mpr empty
    have opened : turn ndebug { p with buf := token } .arraySizeLF lf [] =
        { p with
          buf := token
          arraySizes := (values.length : Int) :: p.arraySizes
          arrayValues := .array [] :: p.arrayValues }.next .startArray := by
      simp only [turn, if_true, number.read, Option.bind_some, openArray]
      rw [if_neg (by omega), if_neg (by omega), if_neg (by omega)]
    rw [run_of_octet (octet_next opened (by decide))]
    exact elements empty (bufToLong_lt number.read) { p with buf := token } .startArray rest
      p.arraySizes p.arrayValues [] (.inr rfl)

theorem readsAllAs_cons {value : RedisValue} {values : List RedisValue} {text others : Bytes}
    (first : ReadsAs ndebug value text) (none : values = [] → others = [])
    (rest : ReadsAllAs ndebug values others) :
    ReadsAllAs ndebug (value :: values) (text ++ others) := by
  intro _ fits p state behind sizes arrays before opens
  obtain ⟨buf, size, read⟩ := first { p with
      arraySizes := ((value :: values).length : Int) :: sizes
      arrayValues := .array before :: arrays } state (others ++ behind) opens
  rw [List.append_assoc, read]
  by_cases last : values = []
  · refine ⟨buf, size, ?_⟩
    rw [none last, last, List.nil_append]
    exact congrArg (fun settled : Option Progress => settled.bind fun progress =>
      progress.andThen ndebug behind)
      (complete_last { p with buf := buf, bulkSize := size } sizes arrays before value)
  · have more : 0 < values.length := List.length_pos_iff.mpr last
    rw [List.length_cons] at fits
    have several : 1 < (value :: values).length := by
      rw [List.length_cons]
      omega
    have onward := complete_more { p with buf := buf, bulkSize := size } several
      (by rw [List.length_cons]; exact fits) sizes arrays before value
    obtain ⟨buf', size', readOn⟩ := rest last (by omega)
      { p with buf := buf, bulkSize := size, redisValue := value } .start behind sizes arrays
      (before ++ [value]) (.inl rfl)
    refine ⟨buf', size', ?_⟩
    rw [List.append_assoc, List.singleton_append] at readOn
    exact (congrArg (fun settled : Option Progress => settled.bind fun progress =>
      progress.andThen ndebug (others ++ behind)) onward).trans readOn

theorem readsAs_of_derives (derives : Derives ndebug value text) : ReadsAs ndebug value text := by
  refine Derives.rec (motive_1 := fun value text _ => ReadsAs ndebug value text)
    (motive_2 := fun values text _ => (values = [] → text = []) ∧ ReadsAllAs ndebug values text)
    ?_ ?_ ?_ ?_ ?_ ?_ ?_ ?_ ?_ derives
  · intro text printable
    exact readsAs_text (turn_simple ndebug) readsText_string (fun p => rfl) printable
  · intro text printable
    exact readsAs_text (turn_error ndebug) readsText_errorString (fun p => rfl) printable
  · intro token value number
    exact readsAs_integer number
  · intro token number
    exact readsAs_nullBulk number
  · intro token data number
    exact readsAs_bulk number
  · intro token number
    exact readsAs_nullArray number
  · intro token text values number _ elements
    exact readsAs_array number elements.1 elements.2
  · exact ⟨fun _ => rfl, fun some_ => absurd rfl some_⟩
  · intro value values text rest _ _ first others
    exact ⟨fun none => (List.cons_ne_nil _ _ none).elim, readsAllAs_cons first others.1 others.2⟩

/-- The run comes to the end of a value, with that text behind it. -/
def Ends (ndebug : Bool) (p : RedisParser) (state : State) (data : Bytes)
    (last : RedisParser × Bytes) : Prop :=
  run ndebug p state data = some (.done last.1, last.2)

theorem Ends.more (ends : Ends ndebug p state data last) : ∃ c rest, data = c :: rest := by
  cases data with
  | nil => cases ends
  | cons c rest => exact ⟨c, rest, rfl⟩

/-- An octet that does not end the value. -/
theorem Ends.next {p q : RedisParser} (ends : Ends ndebug p state (c :: rest) last)
    (turned : p.turn ndebug state c [] = q.next following) (inside : following ≠ .start) :
    Ends ndebug q following rest last := by
  rw [Ends, run_of_octet (octet_next turned inside)] at ends
  exact ends

theorem Ends.not_failed {p q : RedisParser} (ends : Ends ndebug p state (c :: rest) last)
    (turned : p.turn ndebug state c [] = some (.error q)) : False := by
  rw [Ends, run_cons, octet, turned] at ends
  cases ends

/-- A state that waits for one octet. -/
theorem Ends.expects {p : RedisParser} (ends : Ends ndebug p state data last) (expected : UInt8)
    (refuses : ∀ c, c ≠ expected → p.turn ndebug state c [] = p.fail) :
    ∃ rest, data = expected :: rest := by
  obtain ⟨c, rest, rfl⟩ := ends.more
  by_cases same : c = expected
  · exact ⟨rest, by rw [same]⟩
  · exact (ends.not_failed (refuses c same)).elim

theorem Ends.text {p : RedisParser} (reads : ReadsText state lineFeed)
    (ends : Ends ndebug p state data last) :
    ∃ text rest, data = text ++ cr :: rest ∧ Printable text ∧
      Ends ndebug { p with buf := p.buf ++ text } lineFeed rest last := by
  induction data generalizing p with
  | nil => cases ends
  | cons c data ih =>
    obtain ⟨stays, closes, turns⟩ := reads
    by_cases line : c = cr
    · have ended : p.turn ndebug state c [] = p.next lineFeed := by
        rw [turns, textOctet, if_pos line]
      refine ⟨[], data, by rw [line]; rfl, fun _ member => absurd member List.not_mem_nil, ?_⟩
      rw [List.append_nil]
      exact ends.next ended closes
    · by_cases here : Resp.isPrintable c = true
      · have stored : p.turn ndebug state c [] = { p with buf := p.buf ++ [c] }.next state := by
          rw [turns, textOctet, if_neg line, isPrintable_iff, if_pos here]
        obtain ⟨text, rest, rfl, printable, later⟩ := ih (ends.next stored stays)
        refine ⟨c :: text, rest, rfl, List.forall_mem_cons.mpr ⟨here, printable⟩, ?_⟩
        rw [List.append_cons]
        exact later
      · have failed : p.turn ndebug state c [] = p.fail := by
          rw [turns, textOctet, if_neg line, isPrintable_iff, if_neg here]
        exact (ends.not_failed failed).elim

theorem Ends.number {p : RedisParser} (reads : ReadsNumber state lineFeed)
    (ends : Ends ndebug p state data last) :
    ∃ token rest, data = token ++ cr :: rest ∧ Loose token ∧ p.buf ++ token ≠ [] ∧
      Ends ndebug { p with buf := p.buf ++ token } lineFeed rest last := by
  induction data generalizing p with
  | nil => cases ends
  | cons c data ih =>
    obtain ⟨stays, closes, turns⟩ := reads
    by_cases line : c = cr
    · by_cases empty : p.buf = []
      · have failed : p.turn ndebug state c [] = p.fail := by
          rw [turns, numberOctet, if_pos line, if_pos empty]
        exact (ends.not_failed failed).elim
      · have ended : p.turn ndebug state c [] = p.next lineFeed := by
          rw [turns, numberOctet, if_pos line, if_neg empty]
        refine ⟨[], data, by rw [line]; rfl, fun _ member => absurd member List.not_mem_nil, ?_, ?_⟩
        · rwa [List.append_nil]
        · rw [List.append_nil]
          exact ends.next ended closes
    · by_cases here : (isDigit c || c == minus) = true
      · have stored : p.turn ndebug state c [] = { p with buf := p.buf ++ [c] }.next state := by
          rw [turns, numberOctet, if_neg line, if_pos here]
        obtain ⟨token, rest, rfl, loose, filled, later⟩ := ih (ends.next stored stays)
        refine ⟨c :: token, rest, rfl, List.forall_mem_cons.mpr ⟨here, loose⟩, ?_, ?_⟩
        · rw [List.append_cons]
          exact filled
        · rw [List.append_cons]
          exact later
      · have failed : p.turn ndebug state c [] = p.fail := by
          rw [turns, numberOctet, if_neg line, if_neg here]
        exact (ends.not_failed failed).elim

/-- The type octet is behind us: a number up to its value. -/
theorem Ends.numeral {p : RedisParser} (field : NumberField) (empty : p.buf = [])
    (ends : Ends ndebug p field.state data last) :
    ∃ token value rest, data = token ++ crlf ++ rest ∧ Numeral ndebug token value ∧
      Ends ndebug { p with buf := token } field.lineFeed (lf :: rest) last := by
  obtain ⟨token, rest, rfl, loose, filled, later⟩ := ends.number field.reads
  rw [empty, List.nil_append] at filled
  rw [empty, List.nil_append] at later
  obtain ⟨behind, rfl⟩ := later.expects lf fun c other => by
    rw [field.turn_lineFeed, if_neg other]
  cases read : bufToLong ndebug token with
  | none =>
    have asserted : RedisParser.turn ndebug { p with buf := token } field.lineFeed lf [] = none := by
      rw [field.turn_lineFeed, if_pos rfl, read, Option.bind_none]
    rw [Ends, run_cons, octet, asserted] at later
    cases later
  | some value =>
    exact ⟨token, value, behind, by simp [crlf, cr, lf], ⟨filled, loose, read⟩, later⟩

/-- The value is complete, and the run goes on behind it. -/
def EndsBehind (ndebug : Bool) (p : RedisParser) (value : RedisValue) (rest : Bytes)
    (last : RedisParser × Bytes) : Prop :=
  ∃ buf size, (complete { p with buf := buf, bulkSize := size } value).bind
    (fun progress => progress.andThen ndebug rest) = some (.done last.1, last.2)

/-- In front of a value, the run first reads one that the grammar derives. -/
def Derived (ndebug : Bool) (data : Bytes) : Prop :=
  ∀ (p : RedisParser) (state : State) (last : RedisParser × Bytes),
    state = .start ∨ state = .startArray → Ends ndebug p state data last →
      ∃ value text rest, data = text ++ rest ∧ Derives ndebug value text ∧
        EndsBehind ndebug p value rest last

/-- The last octet of a value. -/
theorem Ends.behind {p q : RedisParser} (ends : Ends ndebug p state (c :: rest) last)
    (turned : p.turn ndebug state c [] = { q with redisValue := value }.next .start) :
    (complete q value).bind (fun progress => progress.andThen ndebug rest) =
      some (.done last.1, last.2) := by
  rw [← octet_complete turned]
  exact ends

theorem derived_text {p : RedisParser} (reads : ReadsText state lineFeed)
    (closed : ∀ p : RedisParser,
      p.turn ndebug lineFeed lf [] = { p with redisValue := .bytes p.buf mark }.next .start)
    (refuses : ∀ (p : RedisParser) c, c ≠ lf → p.turn ndebug lineFeed c [] = p.fail)
    (ends : Ends ndebug { p with buf := [] } state data last) :
    ∃ text rest, data = text ++ crlf ++ rest ∧ Printable text ∧
      EndsBehind ndebug p (.bytes text mark) rest last := by
  obtain ⟨text, behind, rfl, printable, later⟩ := ends.text reads
  obtain ⟨rest, rfl⟩ := later.expects _ (refuses _)
  exact ⟨text, rest, by simp [crlf, cr, lf], printable, text, p.bulkSize, later.behind (closed _)⟩

/-- The data of a bulk string and its line end. -/
theorem derived_bulk {p : RedisParser} {size : Int} (number : bufToLong ndebug p.buf = some size)
    (from_ : 0 ≤ size) (ends : Ends ndebug p .bulkSizeLF (lf :: data) last) :
    ∃ block rest, (block.length : Int) = size ∧ data = block ++ crlf ++ rest ∧
      EndsBehind ndebug p (.bytes block false) rest last := by
  obtain ⟨n, rfl⟩ := Int.eq_ofNat_of_zero_le from_
  by_cases enough : n ≤ data.length
  · obtain ⟨block, behind, rfl, rfl⟩ : ∃ block behind, data = block ++ behind ∧ block.length = n :=
      ⟨data.take n, data.drop n, (List.take_append_drop n data).symm, List.length_take_of_le enough⟩
    rw [Ends, run_bulkData p block number] at ends
    have ends : Ends ndebug { p with buf := block, bulkSize := 0 } .bulkCR behind last := ends
    obtain ⟨behind, rfl⟩ := ends.expects cr fun c other => if_neg other
    have returned : Ends ndebug _ .bulkLF _ last := ends.next rfl (by decide)
    obtain ⟨rest, rfl⟩ := returned.expects lf fun c other => if_neg other
    exact ⟨block, rest, rfl, by simp [crlf, cr, lf], block, 0, returned.behind rfl⟩
  · have positive : (0 : Int) < (n : Int) := by omega
    have turned := openBulk_positive p positive data
    have all : data.take (min (n : Int).toNat data.length) = data :=
      List.take_of_length_le (by omega)
    have nothing : data.drop (min (n : Int).toNat data.length) = [] :=
      List.drop_eq_nil_of_le (by omega)
    have opened : p.turn ndebug .bulkSizeLF lf data = p.openBulk n data := by
      simp only [turn, if_true, number, Option.bind_some]
    rw [Ends, run_of_bulkSizeLF, opened, turned, all] at ends
    simp only [Option.bind_some, follow, Turn.follow, Turn.settle, if_neg (bulkState_ne_start _),
      nothing, Progress.andThen, run] at ends
    cases ends

/-- The elements that an open array still lacks, if what follows is read as values are. -/
theorem derived_elements {bound : Nat} (values : ∀ data : Bytes, data.length ≤ bound → Derived ndebug data)
    (count : Nat) {p : RedisParser} {data : Bytes} (small : data.length ≤ bound)
    (fits : (count + 1 : Int) < 2 ^ 63) (opens : state = .start ∨ state = .startArray)
    {sizes : List Int} {arrays before : List RedisValue}
    (ends : Ends ndebug { p with
      arraySizes := (count + 1 : Int) :: sizes
      arrayValues := .array before :: arrays } state data last) :
    ∃ elements text rest, elements.length = count + 1 ∧ data = text ++ rest ∧
      DerivesAll ndebug elements text ∧
      EndsBehind ndebug { p with arraySizes := sizes, arrayValues := arrays }
        (.array (before ++ elements)) rest last := by
  induction count generalizing p data state before with
  | zero =>
    obtain ⟨value, text, rest, rfl, derives, buf, size, behind⟩ := values data small _ _ _ opens ends
    refine ⟨[value], text, rest, rfl, rfl, ?_, buf, size, ?_⟩
    · have all : DerivesAll ndebug [value] (text ++ []) := .cons derives .nil
      rwa [List.append_nil] at all
    · rw [← complete_last { p with buf := buf, bulkSize := size } sizes arrays before value]
      exact behind
  | succ count ih =>
    obtain ⟨value, text, rest, rfl, derives, buf, size, behind⟩ := values data small _ _ _ opens ends
    have several : 1 < count + 2 := by omega
    have onward := complete_more { p with buf := buf, bulkSize := size } several
      (by push_cast at fits ⊢; omega) sizes arrays before value
    have again : Ends ndebug { p with
        buf := buf, bulkSize := size, redisValue := value
        arraySizes := (count + 1 : Int) :: sizes
        arrayValues := .array (before ++ [value]) :: arrays } .start rest last := by
      have behind : ((complete { p with
          buf := buf, bulkSize := size
          arraySizes := ((count + 2 : Nat) : Int) :: sizes
          arrayValues := .array before :: arrays } value).bind fun progress =>
            progress.andThen ndebug rest) = some (.done last.1, last.2) := behind
      rw [onward] at behind
      exact behind
    have less : rest.length ≤ bound := by
      rw [List.length_append] at small
      omega
    obtain ⟨elements, others, rest', count', rfl, all, buf', size', behind'⟩ :=
      ih (p := { p with buf := buf, bulkSize := size, redisValue := value }) less
        (by push_cast at fits ⊢; omega) (.inl rfl) again
    refine ⟨value :: elements, text ++ others, rest', by rw [List.length_cons, count'],
      (List.append_assoc _ _ _).symm, .cons derives all, buf', size', ?_⟩
    rw [List.append_cons]
    exact behind'

theorem derived (ndebug : Bool) (data : Bytes) : Derived ndebug data := by
  induction size : data.length using Nat.strongRecOn generalizing data with
  | ind size ih =>
    intro p state last opens ends
    obtain ⟨c, data, rfl⟩ := ends.more
    have first : p.turn ndebug state c [] = { p with buf := [] }.turn ndebug .start c [] := by
      rcases opens with rfl | rfl
      · rfl
      · rfl
    by_cases simple : c = stringReply
    · subst simple
      obtain ⟨text, rest, rfl, printable, behind⟩ := derived_text readsText_string (fun _ => rfl)
        (fun _ _ other => if_neg other) (ends.next (first.trans (turn_simple ndebug p)) (by decide))
      exact ⟨_, _, rest, rfl, .simple printable, behind⟩
    by_cases error : c = errorReply
    · subst error
      obtain ⟨text, rest, rfl, printable, behind⟩ := derived_text readsText_errorString
        (fun _ => rfl) (fun _ _ other => if_neg other)
        (ends.next (first.trans (turn_error ndebug p)) (by decide))
      exact ⟨_, _, rest, rfl, .error printable, behind⟩
    by_cases integer : c = integerReply
    · subst integer
      have opened : Ends ndebug { p with buf := [] } .integer data last :=
        ends.next first (by decide)
      obtain ⟨token, value, rest, rfl, number, later⟩ := opened.numeral .integer rfl
      have taken : RedisParser.turn ndebug { p with buf := token } .integerLF lf [] =
          { p with buf := [], redisValue := .int value }.next .start := by
        simp only [turn, if_true, number.read, Option.bind_some]
      exact ⟨_, _, rest, rfl, .integer number, [], p.bulkSize,
        later.behind (q := { p with buf := [] }) taken⟩
    by_cases bulk : c = bulkReply
    · subst bulk
      have opened : Ends ndebug { p with buf := [], bulkSize := 0 } .bulkSize data last :=
        ends.next first (by decide)
      obtain ⟨token, value, rest, rfl, number, later⟩ := opened.numeral .bulkSize rfl
      by_cases null : value = -1
      · subst null
        have taken : RedisParser.turn ndebug { p with buf := token, bulkSize := 0 } .bulkSizeLF lf
            [] = { p with buf := [], bulkSize := -1, redisValue := .null }.next .start := by
          simp only [turn, if_true, number.read, Option.bind_some, openBulk]
        exact ⟨_, _, rest, rfl, .nullBulk number, [], -1,
          later.behind (q := { p with buf := [], bulkSize := -1 }) taken⟩
      by_cases negative : value < 0
      · have failed : RedisParser.turn ndebug { p with buf := token, bulkSize := 0 } .bulkSizeLF lf
            [] = RedisParser.fail { p with buf := [], bulkSize := value } := by
          simp only [turn, if_true, number.read, Option.bind_some, openBulk]
          rw [if_neg null, if_neg negative.ne, if_pos negative]
        exact (later.not_failed failed).elim
      · obtain ⟨block, behind, length, rfl, ended⟩ :=
          derived_bulk number.read (not_lt.mp negative) later
        refine ⟨.bytes block false, _, behind, ?_, .bulk (length.symm ▸ number), ended⟩
        simp [crlfEnded]
    by_cases array : c = arrayReply
    · subst array
      have opened : Ends ndebug { p with buf := [] } .arraySize data last :=
        ends.next first (by decide)
      obtain ⟨token, value, rest, rfl, number, later⟩ := opened.numeral .arraySize rfl
      by_cases null : value = -1
      · subst null
        have taken : RedisParser.turn ndebug { p with buf := token } .arraySizeLF lf [] =
            { p with buf := token, redisValue := .null }.next .start := by
          simp only [turn, if_true, number.read, Option.bind_some, openArray]
        exact ⟨_, _, rest, rfl, .nullArray number, token, p.bulkSize,
          later.behind (q := { p with buf := token }) taken⟩
      by_cases empty : value = 0
      · subst empty
        have taken : RedisParser.turn ndebug { p with buf := token } .arraySizeLF lf [] =
            { p with buf := token, redisValue := .array [] }.next .start := by
          simp only [turn, if_true, number.read, Option.bind_some, openArray]
          rfl
        have derives : Derives ndebug (.array []) (crlfEnded arrayReply token ++ []) :=
          .array number .nil
        refine ⟨.array [], _, rest, ?_, derives, token, p.bulkSize,
          later.behind (q := { p with buf := token }) taken⟩
        rw [List.append_nil]
        rfl
      by_cases negative : value < 0
      · have failed : RedisParser.turn ndebug { p with buf := token } .arraySizeLF lf [] =
            RedisParser.fail { p with buf := token } := by
          simp only [turn, if_true, number.read, Option.bind_some, openArray]
          rw [if_neg null, if_neg empty, if_pos negative]
        exact (later.not_failed failed).elim
      · obtain ⟨count, rfl⟩ : ∃ count : Nat, value = (count + 1 : Int) :=
          ⟨(value - 1).toNat, by omega⟩
        have taken : RedisParser.turn ndebug { p with buf := token } .arraySizeLF lf [] =
            { p with
              buf := token
              arraySizes := (count + 1 : Int) :: p.arraySizes
              arrayValues := .array [] :: p.arrayValues }.next .startArray := by
          simp only [turn, if_true, number.read, Option.bind_some, openArray]
          rw [if_neg null, if_neg empty, if_neg negative]
        have inside := later.next taken (by decide)
        rw [List.length_cons, List.length_append, List.length_append] at size
        obtain ⟨elements, text, behind, length, rfl, all, ended⟩ :=
          derived_elements (fun data small => ih data.length (by omega) data rfl) count
            (p := { p with buf := token }) (Nat.le_refl rest.length) (bufToLong_lt number.read)
            (.inr rfl) inside
        have many : Numeral ndebug token elements.length := by
          rw [length]
          exact number
        refine ⟨.array elements, _, behind, ?_, .array many all, ended⟩
        simp [crlfEnded]
    · have refused : p.turn ndebug state c [] = some (.error { p with buf := [] }) := by
        rw [first]
        simp only [turn, if_neg simple, if_neg error, if_neg integer, if_neg bulk, if_neg array]
      exact (ends.not_failed refused).elim

/-- In whatever pieces a text comes, the parser completes it, at its last octet and with a
value, exactly if the grammar derives that value from it. -/
theorem completes_iff_derives (ndebug : Bool) {chunks : List Bytes} (some_ : chunks ≠ [])
    (octets : ∀ chunk ∈ chunks, chunk ≠ []) (value : RedisValue) :
    (∃ final, parseChunks ndebug fresh chunks = some ⟨chunks.flatten.length, .completed, final⟩ ∧
        final.result = value) ↔
      Derives ndebug value chunks.flatten := by
  have ran : parseChunks ndebug fresh chunks =
      (run ndebug fresh .start chunks.flatten).map fun r =>
        r.1.answer (chunks.flatten.length - r.2.length) := by
    rw [← parseChunks_eq_run ndebug chunks fresh .start octets]
    cases chunks with
    | nil => exact absurd rfl some_
    | cons chunk rest => rfl
  rw [ran]
  constructor
  · rintro ⟨final, answered, rfl⟩
    obtain ⟨⟨progress, unread⟩, read, answer⟩ := Option.map_eq_some_iff.mp answered
    cases progress with
    | more q state => simp [Progress.answer] at answer
    | failed q => simp [Progress.answer] at answer
    | done q =>
      simp only [Progress.answer, Answer.mk.injEq, true_and] at answer
      obtain ⟨consumed, rfl⟩ := answer
      have ends : Ends ndebug fresh .start chunks.flatten (q, unread) := read
      obtain ⟨value, text, rest, whole, derives, buf, size, behind⟩ :=
        derived ndebug _ fresh .start (q, unread) (.inl rfl) ends
      cases behind
      have positive := List.length_pos_iff.mpr derives.ne_nil
      have length := congrArg List.length whole
      rw [List.length_append] at length
      have none : unread = [] := List.eq_nil_of_length_eq_zero (by omega)
      rw [whole, none, List.append_nil]
      exact derives
  · intro derives
    obtain ⟨buf, size, read⟩ := readsAs_of_derives derives fresh .start [] (.inl rfl)
    rw [List.append_nil] at read
    refine ⟨{ fresh with buf := buf, bulkSize := size, redisValue := value }, ?_, rfl⟩
    rw [read]
    rfl

/-- No reply is the front of another one. -/
theorem derives_unique (first : Derives ndebug value text)
    (second : Derives ndebug other (text ++ rest)) : rest = [] ∧ other = value := by
  obtain ⟨buf, size, read⟩ := readsAs_of_derives first fresh .start rest (.inl rfl)
  obtain ⟨buf', size', again⟩ := readsAs_of_derives second fresh .start [] (.inl rfl)
  rw [List.append_nil, read] at again
  cases again
  exact ⟨rfl, rfl⟩

theorem completes_iff_derives_signs :
    (∃ final, parseChunks true fresh [[42, 50, 13], [10, 58, 45, 13, 10, 36, 45, 49, 13, 10]] =
        some ⟨13, .completed, final⟩ ∧ final.result = .array [.int 0, .null]) ↔
      Derives true (.array [.int 0, .null]) [42, 50, 13, 10, 58, 45, 13, 10, 36, 45, 49, 13, 10] :=
  completes_iff_derives true (by decide) (by decide) _

end RedisParser
end Da4qi4.Redis
