import Da4qi4.Redis.Resp

/-! The states of the reply parser inside a reply, and what one octet does to it. A turn
goes on, takes a value, opens an array or fails; only the second and the third touch
the stacks, and only a number that the assertion refuses ends the program. -/
namespace Da4qi4.Redis

/-- The three places where a number is read. -/
inductive NumberField where
  | integer | bulkSize | arraySize
  deriving DecidableEq, Repr

namespace NumberField

def state : NumberField → State
  | .integer => .integer
  | .bulkSize => .bulkSize
  | .arraySize => .arraySize

def lineFeed : NumberField → State
  | .integer => .integerLF
  | .bulkSize => .bulkSizeLF
  | .arraySize => .arraySizeLF

def reply : NumberField → UInt8
  | .integer => integerReply
  | .bulkSize => bulkReply
  | .arraySize => arrayReply

instance (P : NumberField → Prop) [DecidablePred P] : Decidable (∀ field, P field) :=
  decidable_of_iff (P .integer ∧ P .bulkSize ∧ P .arraySize)
    ⟨fun all field => by cases field <;> simp only [all], fun all => ⟨all _, all _, all _⟩⟩

theorem state_inj {field other : NumberField} (same : field.state = other.state) : field = other := by
  revert same
  cases field <;> cases other <;> decide

theorem lineFeed_inj {field other : NumberField} (same : field.lineFeed = other.lineFeed) :
    field = other := by
  revert same
  cases field <;> cases other <;> decide

theorem state_ne_lineFeed (field other : NumberField) : field.state ≠ other.lineFeed := by
  cases field <;> cases other <;> decide

theorem reads (field : NumberField) : RedisParser.ReadsNumber field.state field.lineFeed := by
  cases field with
  | integer => exact RedisParser.readsNumber_integer
  | bulkSize => exact RedisParser.readsNumber_bulkSize
  | arraySize => exact RedisParser.readsNumber_arraySize

/-- What the parser does with the value of a number. -/
def take (field : NumberField) (p : RedisParser) (value : Int) :
    Option (Except RedisParser RedisParser.Turn) :=
  match field with
  | .integer => { p with buf := [], redisValue := .int value }.next .start
  | .bulkSize => p.openBulk value []
  | .arraySize => p.openArray value

theorem turn_lineFeed (field : NumberField) (ndebug : Bool) (p : RedisParser) (c : UInt8) :
    p.turn ndebug field.lineFeed c [] =
      if c = lf then (bufToLong ndebug p.buf).bind (field.take p) else p.fail := by
  cases field <;> rfl

end NumberField

/-- What the parser lets into a number. -/
def Loose (token : Bytes) : Prop := ∀ c ∈ token, (isDigit c || c == minus) = true

namespace RedisParser

/-- What a state promises of the fields that it reads. -/
structure Ready (p : RedisParser) (state : State) : Prop where
  bulk : state = .bulk → 0 < p.bulkSize
  loose : ∀ field : NumberField, state = field.state ∨ state = field.lineFeed → Loose p.buf
  filled : ∀ field : NumberField, state = field.lineFeed → p.buf ≠ []

/-- A state in the midst of a value. -/
def Within (state : State) : Prop := state ≠ .start ∧ state ≠ .startArray

instance (state : State) : Decidable (Within state) := inferInstanceAs (Decidable (_ ∧ _))

theorem within_number (field : NumberField) : Within field.state ∧ Within field.lineFeed := by
  cases field <;> decide

/-- The stacks and the value are as they were. -/
structure Kept (p q : RedisParser) : Prop where
  states : q.states = []
  arraySizes : q.arraySizes = p.arraySizes
  arrayValues : q.arrayValues = p.arrayValues
  value : q.redisValue = p.redisValue

/-- Where a number is read, its octets so far are in the buffer. -/
def Numbered (p : RedisParser) (state : State) (c : UInt8) (q : RedisParser) (next : State) : Prop :=
  ∀ field : NumberField,
    (next = field.state →
      (c = field.reply ∧ (state = .start ∨ state = .startArray) ∧ q.buf = []) ∨
      (state = field.state ∧ q.buf = p.buf ++ [c])) ∧
      (next = field.lineFeed → state = field.state ∧ c = cr ∧ q.buf = p.buf)

/-- How a turn can end. -/
inductive Turned (ndebug : Bool) (p : RedisParser) (state : State) (c : UInt8) :
    Option (Except RedisParser Turn) → Prop
  | asserted (field : NumberField) (place : state = field.lineFeed) (ends : c = lf)
      (refused : bufToLong ndebug p.buf = none) : Turned ndebug p state c none
  | onward {q : RedisParser} {next : State} (kept : Kept p q) (ready : Ready q next)
      (numbered : Numbered p state c q next) (inside : Within next) :
      Turned ndebug p state c (q.next next)
  | value {q : RedisParser} {value : RedisValue} (kept : Kept p q) :
      Turned ndebug p state c ({ q with redisValue := value }.next .start)
  | array {size : Int} (place : state = .arraySizeLF) (ends : c = lf)
      (length : bufToLong ndebug p.buf = some size) (positive : 0 < size) :
      Turned ndebug p state c ({ p with
        arraySizes := size :: p.arraySizes
        arrayValues := .array [] :: p.arrayValues }.next .startArray)
  | failed {q : RedisParser} (kept : Kept p q) : Turned ndebug p state c (some (.error q))

/-- A state that reads no number and no data of a bulk string. -/
def Plain (state : State) : Prop :=
  state ≠ .bulk ∧ ∀ field : NumberField, state ≠ field.state ∧ state ≠ field.lineFeed

instance (state : State) : Decidable (Plain state) := inferInstanceAs (Decidable (_ ∧ _))

theorem Plain.ready {state : State} (plain : Plain state) (p : RedisParser) : p.Ready state := by
  constructor
  · exact fun bulk => absurd bulk plain.1
  · intro field place
    exact absurd place (not_or.mpr (plain.2 field))
  · intro field place
    exact absurd place (plain.2 field).2

theorem ready_start (p : RedisParser) : p.Ready .start :=
  Plain.ready (show Plain .start by decide) p

theorem ready_bulk {p : RedisParser} (positive : 0 < p.bulkSize) : p.Ready .bulk := by
  constructor
  · exact fun _ => positive
  · rintro (_ | _ | _) (place | place) <;> cases place
  · rintro (_ | _ | _) place <;> cases place

theorem ready_number {p : RedisParser} (field : NumberField) (loose : Loose p.buf) :
    p.Ready field.state := by
  constructor
  · cases field <;> intro bulk <;> cases bulk
  · exact fun _ _ => loose
  · exact fun other place => absurd place (field.state_ne_lineFeed other)

theorem ready_lineFeed {p : RedisParser} (field : NumberField) (loose : Loose p.buf)
    (filled : p.buf ≠ []) : p.Ready field.lineFeed := by
  constructor
  · cases field <;> intro bulk <;> cases bulk
  · exact fun _ _ => loose
  · exact fun _ _ => filled

section
variable {p : RedisParser} {state : State} {c : UInt8}

theorem turned_fail : Turned ndebug p state c p.fail := .failed ⟨rfl, rfl, rfl, rfl⟩

theorem turned_plain {q : RedisParser} {next : State} (kept : Kept p q) (plain : Plain next)
    (inside : Within next) : Turned ndebug p state c (q.next next) := by
  refine .onward kept (plain.ready q) (fun field => ⟨fun place => ?_, fun place => ?_⟩) inside
  · exact absurd place (plain.2 field).1
  · exact absurd place (plain.2 field).2

theorem turned_bulk {q : RedisParser} (kept : Kept p q) (positive : 0 < q.bulkSize) :
    Turned ndebug p state c (q.next .bulk) := by
  refine .onward kept (ready_bulk positive) (fun field => ⟨fun place => ?_, fun place => ?_⟩)
    (by decide)
  · cases field <;> cases place
  · cases field <;> cases place

theorem turned_number {q : RedisParser} (kept : Kept p q) (field : NumberField) (loose : Loose q.buf)
    (buffered : (c = field.reply ∧ (state = .start ∨ state = .startArray) ∧ q.buf = []) ∨
      (state = field.state ∧ q.buf = p.buf ++ [c])) :
    Turned ndebug p state c (q.next field.state) := by
  refine .onward kept (ready_number field loose) (fun other => ⟨fun place => ?_, fun place => ?_⟩)
    (within_number field).1
  · rw [← NumberField.state_inj place]
    exact buffered
  · exact absurd place (field.state_ne_lineFeed other)

theorem turned_textOctet {text lineFeed : State} (none : p.states = [])
    (plain : Plain text ∧ Plain lineFeed) (inside : Within text ∧ Within lineFeed) :
    Turned ndebug p state c (p.textOctet text lineFeed c) := by
  rw [textOctet]
  split
  · exact turned_plain ⟨none, rfl, rfl, rfl⟩ plain.2 inside.2
  · split
    · exact turned_plain ⟨none, rfl, rfl, rfl⟩ plain.1 inside.1
    · exact turned_fail

theorem turned_numberOctet (none : p.states = []) (field : NumberField) (place : state = field.state)
    (loose : Loose p.buf) :
    Turned ndebug p state c (p.numberOctet field.state field.lineFeed c) := by
  rw [numberOctet]
  split
  · rename_i ends
    split
    · exact turned_fail
    · rename_i filled
      refine .onward ⟨none, rfl, rfl, rfl⟩ (ready_lineFeed field loose filled)
        (fun other => ⟨fun next => ?_, fun next => ?_⟩) (within_number field).2
      · exact absurd next.symm (other.state_ne_lineFeed field)
      · rw [← NumberField.lineFeed_inj next]
        exact ⟨place, ends, rfl⟩
  · split
    · rename_i digit
      have kept : Kept p { p with buf := p.buf ++ [c] } := ⟨none, rfl, rfl, rfl⟩
      refine turned_number kept field ?_ (.inr ⟨place, rfl⟩)
      intro d member
      rcases List.mem_append.mp member with before | last
      · exact loose d before
      · rw [List.mem_singleton.mp last]
        exact digit
    · exact turned_fail

theorem openBulk_next (p : RedisParser) {size : Int} (positive : 0 < size) :
    p.openBulk size [] = { p with bulkSize := size, buf := [] }.next .bulk := by
  have bulk : ({ p with bulkSize := size, buf := [] } : RedisParser).bulkState = .bulk :=
    if_neg positive.ne'
  rw [openBulk_positive p positive [], List.take_nil, storeBulk_nil, bulk, List.length_nil,
    Nat.min_zero]
  rfl

theorem turn_bulk_single (ndebug : Bool) {p : RedisParser} (positive : 0 < p.bulkSize) (c : UInt8) :
    p.turn ndebug .bulk c [] = (p.storeBulk [c]).next (p.storeBulk [c]).bulkState := by
  have one : min (([] : Bytes).length + 1) p.bulkSize.toNat = 1 := by
    rw [List.length_nil]
    omega
  rw [turn_bulk ndebug p positive c [], one]
  rfl

theorem turned_openBulk (none : p.states = []) (size : Int) :
    Turned ndebug p state c (p.openBulk size []) := by
  by_cases positive : 0 < size
  · rw [openBulk_next p positive]
    exact turned_bulk ⟨none, rfl, rfl, rfl⟩ positive
  · rw [openBulk]
    split
    · exact .value (q := { p with bulkSize := size, buf := [] }) ⟨none, rfl, rfl, rfl⟩
    · split
      · exact turned_plain ⟨none, rfl, rfl, rfl⟩ (by decide) (by decide)
      · rw [if_pos (by omega)]
        exact .failed ⟨rfl, rfl, rfl, rfl⟩

theorem turned_openArray (none : p.states = []) {size : Int} (place : state = .arraySizeLF)
    (ends : c = lf) (length : bufToLong ndebug p.buf = some size) :
    Turned ndebug p state c (p.openArray size) := by
  rw [openArray]
  split
  · exact .value ⟨none, rfl, rfl, rfl⟩
  · split
    · exact .value ⟨none, rfl, rfl, rfl⟩
    · split
      · exact turned_fail
      · exact .array place ends length (by omega)

theorem turned_lineFeed (none : p.states = []) (field : NumberField) (place : state = field.lineFeed) :
    Turned ndebug p state c (p.turn ndebug field.lineFeed c []) := by
  rw [field.turn_lineFeed]
  split
  · rename_i ends
    cases length : bufToLong ndebug p.buf with
    | none => exact .asserted field place ends length
    | some value =>
      rw [Option.bind_some]
      cases field with
      | integer => exact .value (q := { p with buf := [] }) ⟨none, rfl, rfl, rfl⟩
      | bulkSize => exact turned_openBulk none value
      | arraySize => exact turned_openArray none place ends length
  · exact turned_fail

theorem turned_start (none : p.states = []) (place : state = .start ∨ state = .startArray) :
    Turned ndebug p state c (p.turn ndebug .start c []) := by
  have kept (size : Int) : Kept p { p with buf := [], bulkSize := size } := ⟨none, rfl, rfl, rfl⟩
  have number (field : NumberField) (type : c = field.reply) (size : Int) :
      Turned ndebug p state c
        (({ p with buf := [], bulkSize := size } : RedisParser).next field.state) :=
    turned_number (kept size) field (List.forall_mem_nil _) (.inl ⟨type, place, rfl⟩)
  rw [turn]
  split
  · exact turned_plain (kept p.bulkSize) (by decide) (by decide)
  · split
    · exact turned_plain (kept p.bulkSize) (by decide) (by decide)
    · split
      · rename_i type
        exact number .integer type p.bulkSize
      · split
        · rename_i type
          exact number .bulkSize type 0
        · split
          · rename_i type
            exact number .arraySize type p.bulkSize
          · exact .failed (kept p.bulkSize)

/-- A line feed that completes a value. -/
theorem turned_lineEnd (none : p.states = []) (value : RedisValue) :
    Turned ndebug p state c (if c = lf then { p with redisValue := value }.next .start else p.fail) := by
  split
  · exact .value (q := p) ⟨none, rfl, rfl, rfl⟩
  · exact turned_fail

theorem turned (ndebug : Bool) (ready : p.Ready state) (none : p.states = []) (c : UInt8) :
    Turned ndebug p state c (p.turn ndebug state c []) := by
  cases state with
  | start => exact turned_start none (.inl rfl)
  | startArray => exact turned_start none (.inr rfl)
  | string => exact turned_textOctet none (by decide) (by decide)
  | errorString => exact turned_textOctet none (by decide) (by decide)
  | stringLF => exact turned_lineEnd none _
  | errorLF => exact turned_lineEnd none _
  | integer => exact turned_numberOctet none .integer rfl (ready.loose .integer (.inl rfl))
  | bulkSize => exact turned_numberOctet none .bulkSize rfl (ready.loose .bulkSize (.inl rfl))
  | arraySize => exact turned_numberOctet none .arraySize rfl (ready.loose .arraySize (.inl rfl))
  | integerLF => exact turned_lineFeed none .integer rfl
  | bulkSizeLF => exact turned_lineFeed none .bulkSize rfl
  | arraySizeLF => exact turned_lineFeed none .arraySize rfl
  | bulk =>
    have positive := ready.bulk rfl
    rw [turn_bulk_single ndebug positive]
    have less : (p.storeBulk [c]).bulkSize = p.bulkSize - 1 := rfl
    rw [bulkState]
    split
    · exact turned_plain ⟨none, rfl, rfl, rfl⟩ (by decide) (by decide)
    · exact turned_bulk ⟨none, rfl, rfl, rfl⟩ (by omega)
  | bulkCR =>
    rw [turn]
    split
    · exact turned_plain ⟨none, rfl, rfl, rfl⟩ (by decide) (by decide)
    · exact turned_fail
  | bulkLF => exact turned_lineEnd none _

end

/-- Every open array has its count, and is an array. -/
structure Stacked (p : RedisParser) : Prop where
  matched : p.arraySizes.length = p.arrayValues.length
  arrays : ∀ v ∈ p.arrayValues, ∃ values, v = .array values

theorem closeArrays_stacked (sizes : List Int) (values : List RedisValue) (value : RedisValue)
    (matched : sizes.length = values.length) (arrays : ∀ v ∈ values, ∃ l, v = .array l) :
    ∃ closed, closeArrays sizes values value = some closed ∧
      closed.1.length = closed.2.1.length ∧ (∀ v ∈ closed.2.1, ∃ l, v = .array l) ∧
      (sizes ≠ [] → closed.1 = [] → ∃ l, closed.2.2 = .array l) := by
  induction sizes generalizing values value with
  | nil =>
    have none : values = [] := List.eq_nil_of_length_eq_zero matched.symm
    subst none
    exact ⟨_, rfl, rfl, List.forall_mem_nil _, fun some_ => absurd rfl some_⟩
  | cons size sizes ih =>
    rw [closeArrays.eq_def]
    simp only
    split
    · obtain ⟨array, values, rfl⟩ := List.exists_cons_of_length_eq_add_one matched.symm
      obtain ⟨⟨l, rfl⟩, others⟩ := List.forall_mem_cons.mp arrays
      by_cases last : sizes = []
      · subst last
        have none : values = [] := List.eq_nil_of_length_eq_zero (Nat.succ.inj matched.symm)
        subst none
        exact ⟨_, rfl, rfl, List.forall_mem_nil _, fun _ _ => ⟨l, rfl⟩⟩
      · obtain ⟨outer, values, rfl⟩ := List.exists_cons_of_length_pos
          (Nat.succ.inj matched ▸ List.length_pos_iff.mpr last)
        obtain ⟨⟨m, rfl⟩, inner⟩ := List.forall_mem_cons.mp others
        obtain ⟨closed, same, fits, arrays, whole⟩ := ih
          (.array (m ++ [.array l]) :: values) (.array l) (Nat.succ.inj matched)
          (List.forall_mem_cons.mpr ⟨⟨_, rfl⟩, inner⟩)
        refine ⟨closed, ?_, fits, arrays, fun _ => whole last⟩
        simp only [if_neg last, RedisValue.pushBack, Option.bind_some]
        exact same
    · exact ⟨_, rfl, matched, arrays, fun _ none => absurd none (List.cons_ne_nil _ _)⟩

/-- The end of a value closes arrays; what it closes last is one. -/
theorem finish_stacked {p : RedisParser} (stacked : p.Stacked) :
    ∃ q, p.finish = some q ∧ q.Stacked ∧ q.states = p.states ∧ (p.arraySizes = [] → q = p) ∧
      (p.arraySizes ≠ [] → q.arraySizes = [] → ∃ values, q.redisValue = .array values) := by
  by_cases closed : p.arraySizes = []
  · exact ⟨p, if_pos closed, stacked, rfl, fun _ => rfl, fun open_ => absurd closed open_⟩
  · obtain ⟨matched, arrays⟩ := stacked
    obtain ⟨array, values, some_⟩ := List.exists_cons_of_length_pos
      (matched ▸ List.length_pos_iff.mpr closed)
    rw [some_] at matched arrays
    obtain ⟨⟨l, rfl⟩, others⟩ := List.forall_mem_cons.mp arrays
    obtain ⟨ended, same, fits, arrays, whole⟩ := closeArrays_stacked p.arraySizes
      (.array (l ++ [p.redisValue]) :: values) p.redisValue matched
      (List.forall_mem_cons.mpr ⟨⟨_, rfl⟩, others⟩)
    refine ⟨{ p with arraySizes := ended.1, arrayValues := ended.2.1, redisValue := ended.2.2 }, ?_,
      ⟨fits, arrays⟩, rfl, fun none => absurd none closed, fun _ => whole closed⟩
    rw [finish, if_neg closed, some_]
    simp only [RedisValue.pushBack, Option.bind_some, same, Option.map_some]

/-- The parser between two octets of a call. -/
structure Stands (p : RedisParser) (state : State) : Prop where
  states : p.states = []
  ready : p.Ready state
  stacked : p.Stacked
  elements : state = .startArray → p.arraySizes ≠ []

theorem Stacked.stands {p : RedisParser} (stacked : p.Stacked) (states : p.states = []) :
    p.Stands .start :=
  ⟨states, ready_start p, stacked, fun place => nomatch place⟩

theorem fresh_stands : fresh.Stands .start :=
  Stacked.stands ⟨rfl, List.forall_mem_nil _⟩ rfl

/-- In front of the first element. -/
theorem Stacked.opened {p : RedisParser} (stacked : p.Stacked) (states : p.states = []) (size : Int) :
    Stands { p with
      arraySizes := size :: p.arraySizes
      arrayValues := .array [] :: p.arrayValues } .startArray := by
  refine ⟨states, Plain.ready (show Plain .startArray by decide) _, ⟨?_, ?_⟩, fun _ => ?_⟩
  · exact congrArg Nat.succ stacked.matched
  · exact List.forall_mem_cons.mpr ⟨⟨[], rfl⟩, stacked.arrays⟩
  · exact List.cons_ne_nil _ _

/-- Where an octet can lead. A value that completes no array is the reply; a value in an
array is kept there, and the last array that it completes is the reply. -/
inductive Reaches (ndebug : Bool) (p : RedisParser) (state : State) (c : UInt8) :
    Option Progress → Prop
  | asserted (field : NumberField) (place : state = field.lineFeed) (ends : c = lf)
      (refused : bufToLong ndebug p.buf = none) : Reaches ndebug p state c none
  | onward {q : RedisParser} {next : State} (kept : Kept p q) (ready : Ready q next)
      (numbered : Numbered p state c q next) (inside : Within next) :
      Reaches ndebug p state c (some (.more q next))
  | reply {q : RedisParser} {value : RedisValue} (kept : Kept p q) (single : p.arraySizes = []) :
      Reaches ndebug p state c (some (.done { q with redisValue := value }))
  | collected {q : RedisParser} (stands : q.Stands .start) (elements : p.arraySizes ≠ [])
      (closed : q.arraySizes = []) (whole : ∃ values, q.redisValue = .array values) :
      Reaches ndebug p state c (some (.done q))
  | element {q : RedisParser} (stands : q.Stands .start) (elements : p.arraySizes ≠ [])
      (more : q.arraySizes ≠ []) : Reaches ndebug p state c (some (.more q .start))
  | array {size : Int} (place : state = .arraySizeLF) (ends : c = lf)
      (length : bufToLong ndebug p.buf = some size) (positive : 0 < size) :
      Reaches ndebug p state c (some (.more { p with
        arraySizes := size :: p.arraySizes
        arrayValues := .array [] :: p.arrayValues } .startArray))
  | failed {q : RedisParser} (kept : Kept p q) : Reaches ndebug p state c (some (.failed q))

theorem Kept.stacked {p q : RedisParser} (kept : Kept p q) (stacked : p.Stacked) : q.Stacked := by
  constructor
  · rw [kept.arraySizes, kept.arrayValues]
    exact stacked.matched
  · rw [kept.arrayValues]
    exact stacked.arrays

/-- A complete value is the reply, or is kept in an array. -/
theorem reaches_value {p q : RedisParser} {value : RedisValue} (kept : Kept p q) (stacked : p.Stacked) :
    Reaches ndebug p state c (Turn.settle ⟨{ q with redisValue := value }, .start, 0⟩) := by
  have before : Stacked { q with redisValue := value } :=
    ⟨(kept.stacked stacked).matched, (kept.stacked stacked).arrays⟩
  obtain ⟨r, finished, rest, same, single, whole⟩ := finish_stacked before
  have stands : r.Stands .start := rest.stands (same.trans kept.states)
  have open_ : q.arraySizes = p.arraySizes := kept.arraySizes
  rw [Turn.settle, if_pos rfl, finished, Option.map_some]
  by_cases none : p.arraySizes = []
  · have reply := single (open_.trans none)
    rw [reply, if_pos (open_.trans none)]
    exact .reply kept none
  · split
    · rename_i closed
      exact .collected stands none closed (whole (fun empty => none (open_.symm.trans empty)) closed)
    · rename_i more
      exact .element stands none more

theorem octet_reaches (ndebug : Bool) {p : RedisParser} {state : State} (stands : p.Stands state)
    (c : UInt8) : Reaches ndebug p state c (p.octet ndebug state c) := by
  obtain ⟨states, ready, stacked, -⟩ := stands
  have how := turned ndebug ready states c
  rw [octet]
  generalize p.turn ndebug state c [] = ended at how ⊢
  cases how with
  | asserted field place ends refused => exact .asserted field place ends refused
  | onward kept ready numbered inside =>
    change Reaches ndebug p state c (Turn.settle _)
    rw [Turn.settle, if_neg inside.1]
    exact .onward kept ready numbered inside
  | value kept => exact reaches_value kept stacked
  | array place ends length positive => exact .array place ends length positive
  | failed kept => exact .failed kept

/-- The parser stands wherever an octet leaves it. -/
def Progress.Stands : Progress → Prop
  | .more p state => p.Stands state
  | .done p => p.Stands .start ∧ p.arraySizes = []
  | .failed p => p.Stands .start

theorem octet_stands {p : RedisParser} {state : State} (stands : p.Stands state)
    (read : p.octet ndebug state c = some progress) : progress.Stands := by
  have how := octet_reaches ndebug stands c
  rw [read] at how
  cases how with
  | onward kept ready numbered inside =>
    exact ⟨kept.states, ready, kept.stacked stands.stacked, fun place => absurd place inside.2⟩
  | reply kept single =>
    have stacked := kept.stacked stands.stacked
    exact ⟨Stacked.stands ⟨stacked.matched, stacked.arrays⟩ kept.states,
      kept.arraySizes.trans single⟩
  | collected stands elements closed whole => exact ⟨stands, closed⟩
  | element stands elements more => exact stands
  | array place ends length positive => exact stands.stacked.opened stands.states _
  | failed kept => exact (kept.stacked stands.stacked).stands kept.states

theorem run_stands {p : RedisParser} {state : State} (stands : p.Stands state)
    (ran : run ndebug p state data = some (progress, unread)) : progress.Stands := by
  induction data generalizing p state with
  | nil =>
    cases ran
    exact stands
  | cons c rest ih =>
    rw [run_cons] at ran
    obtain ⟨reached, read, onward⟩ := Option.bind_eq_some_iff.mp ran
    have stands := octet_stands stands read
    cases reached with
    | more q next => exact ih stands onward
    | done q =>
      cases onward
      exact stands
    | failed q =>
      cases onward
      exact stands

end RedisParser
end Da4qi4.Redis
