import Da4qi4.Redis.Parser

/-! The reply parser, one octet at a time. A call may take the octets of a bulk
string in a block; the loop over a chunk is nevertheless the run over its octets,
so cutting a reply does not change how it is read. -/
namespace Da4qi4.Redis.RedisParser

/-- Where the parser is between two octets: inside a reply, or behind it. -/
inductive Progress where
  | more (parser : RedisParser) (state : State)
  | done (parser : RedisParser)
  | failed (parser : RedisParser)

/-- What the end of a turn makes of a complete value. -/
def Turn.settle (t : Turn) : Option Progress :=
  if t.state = .start then
    t.parser.finish.map fun p => if p.arraySizes = [] then .done p else .more p .start
  else some (.more t.parser t.state)

def octet (ndebug : Bool) (p : RedisParser) (state : State) (c : UInt8) : Option Progress :=
  (p.turn ndebug state c []).bind fun
    | .error p => some (.failed p)
    | .ok t => t.settle

/-- The run over the octets of a reply, with the octets behind it. -/
def run (ndebug : Bool) (p : RedisParser) (state : State) : Bytes → Option (Progress × Bytes)
  | [] => some (.more p state, [])
  | c :: rest =>
    (p.octet ndebug state c).bind fun
      | .more p state => run ndebug p state rest
      | .done p => some (.done p, rest)
      | .failed p => some (.failed p, rest)

/-- Runs on from where octets left off. -/
def Progress.andThen (ndebug : Bool) (rest : Bytes) : Progress → Option (Progress × Bytes)
  | .more p state => run ndebug p state rest
  | .done p => some (.done p, rest)
  | .failed p => some (.failed p, rest)

theorem run_cons (ndebug : Bool) (p : RedisParser) (state : State) (c : UInt8) (rest : Bytes) :
    run ndebug p state (c :: rest) =
      (p.octet ndebug state c).bind fun progress => progress.andThen ndebug rest := by
  rw [run]
  congr

theorem run_append (ndebug : Bool) (p : RedisParser) (state : State) (first second : Bytes) :
    run ndebug p state (first ++ second) =
      (run ndebug p state first).bind fun
        | (.more p state, _) => run ndebug p state second
        | (.done p, rest) => some (.done p, rest ++ second)
        | (.failed p, rest) => some (.failed p, rest ++ second) := by
  induction first generalizing p state with
  | nil => rfl
  | cons c rest ih =>
    rw [List.cons_append, run_cons, run_cons]
    cases p.octet ndebug state c with
    | none => rfl
    | some progress =>
      cases progress with
      | more q next => exact ih q next
      | done q => rfl
      | failed q => rfl

/-- The parser behind a block of a bulk string. -/
def storeBulk (p : RedisParser) (block : Bytes) : RedisParser :=
  { p with buf := p.buf ++ block, bulkSize := p.bulkSize - block.length }

def bulkState (p : RedisParser) : State := if p.bulkSize = 0 then .bulkCR else .bulk

theorem storeBulk_append (p : RedisParser) (first second : Bytes) :
    (p.storeBulk first).storeBulk second = p.storeBulk (first ++ second) := by
  simp [storeBulk, sub_sub]

theorem turn_bulk (ndebug : Bool) (p : RedisParser) (positive : 0 < p.bulkSize) (c : UInt8)
    (rest : Bytes) :
    let canRead := min (rest.length + 1) p.bulkSize.toNat
    p.turn ndebug .bulk c rest =
      some (.ok ⟨p.storeBulk ((c :: rest).take canRead),
        (p.storeBulk ((c :: rest).take canRead)).bulkState, canRead - 1⟩) := by
  intro canRead
  have count : (min (rest.length + 1 : Int) p.bulkSize).toNat = canRead := by omega
  have length : ((c :: rest).take canRead).length = canRead := by
    rw [List.length_take, List.length_cons]
    omega
  simp only [turn, if_pos positive, count, storeBulk, bulkState, length]

theorem bulkState_ne_start (p : RedisParser) : p.bulkState ≠ .start := by
  rw [bulkState]
  split <;> decide

theorem octet_bulk (ndebug : Bool) (p : RedisParser) (positive : 0 < p.bulkSize) (c : UInt8) :
    p.octet ndebug .bulk c = some (.more (p.storeBulk [c]) (p.storeBulk [c]).bulkState) := by
  have one : min (([] : Bytes).length + 1) p.bulkSize.toNat = 1 := by
    rw [List.length_nil]
    omega
  rw [octet, turn_bulk ndebug p positive c [], one]
  exact if_neg (bulkState_ne_start _)

theorem run_bulk (ndebug : Bool) (p : RedisParser) (block : Bytes) (some_octet : block ≠ [])
    (room : block.length ≤ p.bulkSize.toNat) (rest : Bytes) :
    run ndebug p .bulk (block ++ rest) =
      run ndebug (p.storeBulk block) (p.storeBulk block).bulkState rest := by
  induction block generalizing p with
  | nil => exact absurd rfl some_octet
  | cons c block ih =>
    rw [List.length_cons] at room
    rw [List.cons_append, run_cons, octet_bulk ndebug p (by omega)]
    change run ndebug (p.storeBulk [c]) (p.storeBulk [c]).bulkState (block ++ rest) = _
    by_cases last : block = []
    · rw [last, List.nil_append]
    · have more : 0 < block.length := List.length_pos_iff.mpr last
      have left : (p.storeBulk [c]).bulkSize = p.bulkSize - 1 := rfl
      have open_ : (p.storeBulk [c]).bulkState = .bulk := if_neg (by omega)
      rw [open_, ih (p.storeBulk [c]) last (by omega), storeBulk_append, List.singleton_append]

/-- The rest of a call after a turn: the octets it took are skipped. -/
def Turn.follow (ndebug : Bool) (rest : Bytes) (t : Turn) : Option (Progress × Bytes) :=
  t.settle.bind fun progress => progress.andThen ndebug (rest.drop t.skip)

def follow (ndebug : Bool) (rest : Bytes) : Except RedisParser Turn → Option (Progress × Bytes)
  | .error p => some (.failed p, rest)
  | .ok t => t.follow ndebug rest

theorem run_of_same_turn (ndebug : Bool) (p : RedisParser) (state : State) (c : UInt8)
    (rest : Bytes) (same : p.turn ndebug state c rest = p.turn ndebug state c [])
    (single : ∀ t, p.turn ndebug state c [] = some (.ok t) → t.skip = 0) :
    run ndebug p state (c :: rest) = (p.turn ndebug state c rest).bind (follow ndebug rest) := by
  rw [run_cons, octet, same]
  cases turned : p.turn ndebug state c [] with
  | none => rfl
  | some ended =>
    cases ended with
    | error q => rfl
    | ok t =>
      simp only [Option.bind_some, follow, Turn.follow, single t turned, List.drop_zero]

theorem run_of_bulk (ndebug : Bool) (p : RedisParser) (c : UInt8) (rest : Bytes) :
    run ndebug p .bulk (c :: rest) = (p.turn ndebug .bulk c rest).bind (follow ndebug rest) := by
  by_cases positive : 0 < p.bulkSize
  · have turned := turn_bulk ndebug p positive c rest
    simp only at turned
    generalize count : min (rest.length + 1) p.bulkSize.toNat = canRead at turned
    have length : ((c :: rest).take canRead).length = canRead := by
      rw [List.length_take, List.length_cons]
      omega
    have block : (c :: rest).take canRead ≠ [] := List.ne_nil_of_length_pos (by omega)
    have behind : (c :: rest).drop canRead = rest.drop (canRead - 1) := by
      obtain ⟨n, rfl⟩ : ∃ n, canRead = n + 1 := ⟨canRead - 1, by omega⟩
      rfl
    rw [turned]
    conv_lhs => rw [← List.take_append_drop canRead (c :: rest)]
    rw [run_bulk ndebug p _ block (by omega), behind]
    simp only [Option.bind_some, follow, Turn.follow, Turn.settle, if_neg (bulkState_ne_start _)]
    rfl
  · simp [run, octet, turn, if_neg positive]

theorem openBulk_positive (p : RedisParser) {size : Int} (positive : 0 < size) (rest : Bytes) :
    let opened := { p with bulkSize := size, buf := [] }
    let block := rest.take (min size.toNat rest.length)
    p.openBulk size rest =
      some (.ok ⟨opened.storeBulk block, (opened.storeBulk block).bulkState,
        min size.toNat rest.length⟩) := by
  intro opened block
  have count : (min size (rest.length : Int)).toNat = min size.toNat rest.length := by omega
  have length : block.length = min size.toNat rest.length := by
    rw [List.length_take]
    omega
  rw [openBulk, if_neg (by omega), if_neg (by omega), if_neg (by omega)]
  have state : (if 0 < size - (min size.toNat rest.length : Nat) then State.bulk else .bulkCR) =
      (opened.storeBulk block).bulkState := by
    simp only [bulkState, storeBulk, length]
    by_cases whole : size - (min size.toNat rest.length : Nat) = 0
    · rw [if_pos whole, if_neg (by omega)]
    · rw [if_neg whole, if_pos (by omega)]
  by_cases none : 0 < min size.toNat rest.length
  · simp only [count, if_pos none, state]
    simp only [storeBulk, length, opened, List.nil_append, block]
  · have zero : min size.toNat rest.length = 0 := by omega
    have nothing : block = [] := List.eq_nil_of_length_eq_zero (length.trans zero)
    simp only [zero, Nat.cast_zero, sub_zero] at state
    simp only [count, zero, Nat.lt_irrefl, if_false, nothing, state]
    simp [storeBulk, opened]

/-- A turn that takes no octet but its own. -/
def Single (ended : Option (Except RedisParser Turn)) : Prop :=
  ∀ t, ended = some (.ok t) → t.skip = 0

theorem single_next (p : RedisParser) (state : State) : Single (p.next state) := by
  intro t ended
  cases ended
  rfl

theorem single_error (p : RedisParser) : Single (some (.error p)) := by
  intro t ended
  cases ended

theorem single_textOctet (p : RedisParser) (state lineFeed : State) (c : UInt8) :
    Single (p.textOctet state lineFeed c) := by
  rw [textOctet]
  split
  · exact single_next _ _
  · split
    · exact single_next _ _
    · exact single_error _

theorem single_numberOctet (p : RedisParser) (state lineFeed : State) (c : UInt8) :
    Single (p.numberOctet state lineFeed c) := by
  rw [numberOctet]
  split
  · split
    · exact single_error _
    · exact single_next _ _
  · split
    · exact single_next _ _
    · exact single_error _

theorem single_openArray (p : RedisParser) (size : Int) : Single (p.openArray size) := by
  rw [openArray]
  split
  · exact single_next _ _
  · split
    · exact single_next _ _
    · split
      · exact single_error _
      · exact single_next _ _

theorem single_bind {size : Option Int} {k : Int → Option (Except RedisParser Turn)}
    (single : ∀ n, Single (k n)) : Single (size.bind k) := by
  cases size with
  | none => exact fun t ended => nomatch ended
  | some n => exact single n

theorem single_if {condition : Prop} [Decidable condition]
    {first second : Option (Except RedisParser Turn)} (one : Single first) (other : Single second) :
    Single (if condition then first else second) := by
  split
  · exact one
  · exact other

theorem single_turn (ndebug : Bool) (p : RedisParser) (state : State) (c : UInt8)
    (notBulk : state ≠ .bulk) (notSize : state ≠ .bulkSizeLF) :
    Single (p.turn ndebug state c []) := by
  have first : ∀ state, (state = .start ∨ state = .startArray) →
      Single (p.turn ndebug state c []) := by
    rintro state (rfl | rfl)
    all_goals
      exact single_if (single_next _ _) <| single_if (single_next _ _) <|
        single_if (single_next _ _) <| single_if (single_next _ _) <|
        single_if (single_next _ _) (single_error _)
  cases state with
  | start => exact first _ (.inl rfl)
  | startArray => exact first _ (.inr rfl)
  | string => exact single_textOctet p _ _ c
  | stringLF => exact single_if (single_next _ _) (single_error _)
  | errorString => exact single_textOctet p _ _ c
  | errorLF => exact single_if (single_next _ _) (single_error _)
  | integer => exact single_numberOctet p _ _ c
  | integerLF => exact single_if (single_bind fun _ => single_next _ _) (single_error _)
  | bulkSize => exact single_numberOctet p _ _ c
  | bulkSizeLF => exact absurd rfl notSize
  | bulk => exact absurd rfl notBulk
  | bulkCR => exact single_if (single_next _ _) (single_error _)
  | bulkLF => exact single_if (single_next _ _) (single_error _)
  | arraySize => exact single_numberOctet p _ _ c
  | arraySizeLF => exact single_if (single_bind fun _ => single_openArray _ _) (single_error _)

theorem openBulk_nonpositive (p : RedisParser) {size : Int} (small : ¬0 < size) :
    ∃ ended, Single ended ∧ ∀ rest, p.openBulk size rest = ended := by
  by_cases null : size = -1
  · exact ⟨_, single_next _ _, fun rest => by rw [openBulk, if_pos null]⟩
  · by_cases zero : size = 0
    · exact ⟨_, single_next _ _, fun rest => by rw [openBulk, if_neg null, if_pos zero]⟩
    · exact ⟨_, single_error _, fun rest => by
        rw [openBulk, if_neg null, if_neg zero, if_pos (by omega)]
        rfl⟩

theorem storeBulk_nil (p : RedisParser) : p.storeBulk [] = p := by
  simp [storeBulk]

theorem run_of_openBulk (ndebug : Bool) (p : RedisParser) {size : Int} (positive : 0 < size)
    (rest : Bytes) :
    run ndebug { p with bulkSize := size, buf := [] } .bulk rest =
      (p.openBulk size rest).bind (follow ndebug rest) := by
  rw [openBulk_positive p positive rest]
  generalize opening : ({ p with bulkSize := size, buf := [] } : RedisParser) = opened
  have wanted : opened.bulkSize = size := by rw [← opening]
  simp only [Option.bind_some, follow, Turn.follow, Turn.settle, if_neg (bulkState_ne_start _)]
  by_cases last : rest = []
  · have open_ : opened.bulkState = .bulk := if_neg (by omega)
    rw [last, List.take_nil, storeBulk_nil, open_, List.drop_nil]
    rfl
  · have more : 0 < rest.length := List.length_pos_iff.mpr last
    generalize count : min size.toNat rest.length = canRead
    have length : (rest.take canRead).length = canRead := List.length_take_of_le (by omega)
    conv_lhs => rw [← List.take_append_drop canRead rest]
    rw [run_bulk ndebug opened _ (List.ne_nil_of_length_pos (by omega)) (by omega)]
    rfl

theorem run_of_bulkSizeLF (ndebug : Bool) (p : RedisParser) (c : UInt8) (rest : Bytes) :
    run ndebug p .bulkSizeLF (c :: rest) =
      (p.turn ndebug .bulkSizeLF c rest).bind (follow ndebug rest) := by
  by_cases feed : c = lf
  · cases number : bufToLong ndebug p.buf with
    | none => simp [run, octet, turn, feed, number]
    | some size =>
      have turned : ∀ rest, p.turn ndebug .bulkSizeLF c rest = p.openBulk size rest := by
        intro rest
        simp only [turn, if_pos feed, number, Option.bind_some]
      by_cases positive : 0 < size
      · have opened : p.octet ndebug .bulkSizeLF c =
            some (.more { p with bulkSize := size, buf := [] } .bulk) := by
          have open_ : bulkState { p with bulkSize := size, buf := [] } = .bulk :=
            if_neg (by simp only; omega)
          rw [octet, turned, openBulk_positive p positive [], List.take_nil, storeBulk_nil, open_]
          rfl
        rw [run_cons, opened, turned, ← run_of_openBulk ndebug p positive rest]
        rfl
      · obtain ⟨ended, single, opened⟩ := p.openBulk_nonpositive positive
        refine run_of_same_turn ndebug p _ c rest ?_ ?_
        · rw [turned, turned, opened, opened]
        · rw [turned, opened]
          exact single
  · simp [run, octet, turn, if_neg feed, fail, follow]

/-- A turn of the loop is the run over the octets it takes. -/
theorem run_turn (ndebug : Bool) (p : RedisParser) (state : State) (c : UInt8) (rest : Bytes) :
    run ndebug p state (c :: rest) = (p.turn ndebug state c rest).bind (follow ndebug rest) := by
  cases state with
  | bulk => exact run_of_bulk ndebug p c rest
  | bulkSizeLF => exact run_of_bulkSizeLF ndebug p c rest
  | _ =>
    exact run_of_same_turn ndebug p _ c rest rfl
      (single_turn ndebug p _ c (by decide) (by decide))

theorem skip_le (turned : turn ndebug p state c rest = some (.ok t)) : t.skip ≤ rest.length := by
  by_cases bulk : state = .bulk
  · rw [bulk] at turned
    by_cases positive : 0 < p.bulkSize
    · have block := turn_bulk ndebug p positive c rest
      simp only [turned, Option.some.injEq, Except.ok.injEq] at block
      simp only [block]
      omega
    · simp [turn, if_neg positive] at turned
  by_cases size : state = .bulkSizeLF
  · rw [size] at turned
    simp only [turn] at turned
    split at turned
    · cases number : bufToLong ndebug p.buf with
      | none => simp [number] at turned
      | some size =>
        rw [number, Option.bind_some] at turned
        by_cases positive : 0 < size
        · have block := openBulk_positive p positive rest
          simp only [turned, Option.some.injEq, Except.ok.injEq] at block
          simp only [block]
          omega
        · obtain ⟨ended, single, opened⟩ := p.openBulk_nonpositive positive
          rw [opened] at turned
          rw [single t turned]
          exact Nat.zero_le _
    · simp [fail] at turned
  have single := single_turn ndebug p state c bulk size
  have same : p.turn ndebug state c rest = p.turn ndebug state c [] := by
    cases state <;> first | rfl | contradiction
  rw [single t (same ▸ turned)]
  exact Nat.zero_le _

theorem unread_le (ran : run ndebug p state rest = some r) : r.2.length ≤ rest.length := by
  induction rest generalizing p state with
  | nil =>
    cases ran
    exact Nat.le_refl _
  | cons c rest ih =>
    rw [run_cons] at ran
    obtain ⟨progress, -, ran⟩ := Option.bind_eq_some_iff.mp ran
    rw [List.length_cons]
    cases progress with
    | more q next => exact Nat.le_succ_of_le (ih ran)
    | done q =>
      cases ran
      exact Nat.le_succ _
    | failed q =>
      cases ran
      exact Nat.le_succ _

def Progress.answer (consumed : Nat) : Progress → Answer
  | .more p state => ⟨consumed, .incompleted, { p with states := state :: p.states }⟩
  | .done p => ⟨consumed, .completed, p⟩
  | .failed p => ⟨consumed, .error, p⟩

/-- Not between two replies. -/
def Inside (p : RedisParser) (state : State) : Prop := ¬(p.arraySizes = [] ∧ state = .start)

theorem parseLoop_eq_run (ndebug : Bool) (fuel : Nat) (p : RedisParser) (state : State)
    (position : Nat) (rest : Bytes) (enough : rest.length ≤ fuel)
    (inside : rest ≠ [] ∨ p.Inside state) :
    parseLoop ndebug fuel p state position rest =
      (run ndebug p state rest).map fun r =>
        r.1.answer (position + (rest.length - r.2.length)) := by
  induction fuel generalizing p state position rest with
  | zero =>
    have none : rest = [] := List.eq_nil_of_length_eq_zero (by omega)
    rw [none] at inside ⊢
    rw [parseLoop, suspend, if_neg (inside.resolve_left fun more => more rfl)]
    rfl
  | succ fuel ih =>
    cases rest with
    | nil =>
      rw [parseLoop, suspend, if_neg (inside.resolve_left fun more => more rfl)]
      rfl
    | cons c rest =>
      rw [List.length_cons] at enough
      rw [parseLoop, run_turn]
      cases turned : p.turn ndebug state c rest with
      | none => rfl
      | some ended =>
        cases ended with
        | error q => simp [follow, Progress.answer]
        | ok t =>
          have skip := skip_le turned
          -- both sides go on behind the octets of the turn
          have onward : ∀ (q : RedisParser) (next : State), q.Inside next →
              parseLoop ndebug fuel q next (position + 1 + t.skip) (rest.drop t.skip) =
                (run ndebug q next (rest.drop t.skip)).map fun r =>
                  r.1.answer (position + ((c :: rest).length - r.2.length)) := by
            intro q next inside
            rw [ih q next _ _ (by rw [List.length_drop]; omega) (.inr inside)]
            apply Option.map_congr
            intro r ran
            have unread := unread_le ran
            rw [List.length_drop] at unread ⊢
            rw [List.length_cons]
            congr 1
            omega
          simp only [Option.bind_some, follow, Turn.follow, Turn.settle]
          by_cases complete : t.state = .start
          · rw [if_pos complete, if_pos complete]
            cases finished : t.parser.finish with
            | none => rfl
            | some q =>
              simp only [Option.bind_some, Option.map_some]
              by_cases closed : q.arraySizes = []
              · rw [if_pos closed, if_pos closed, suspend, if_pos ⟨closed, rfl⟩]
                simp only [Progress.andThen, Option.map_some, Progress.answer, List.length_drop,
                  List.length_cons, Option.some.injEq, Answer.mk.injEq, and_true]
                omega
              · rw [if_neg closed, if_neg closed]
                exact onward q .start fun both => closed both.1
          · rw [if_neg complete, if_neg complete]
            exact onward t.parser t.state fun both => complete both.2

theorem parse_eq_run (ndebug : Bool) (p : RedisParser) {data : Bytes} (more : data ≠ []) :
    p.parse ndebug data =
      (run ndebug p.resume.1 p.resume.2 data).map fun r =>
        r.1.answer (data.length - r.2.length) := by
  rw [parse, parseChunk, parseLoop_eq_run ndebug _ _ _ 0 data (Nat.le_refl _) (.inl more)]
  simp only [Nat.zero_add]

/-- A reply that a new parser completes with a value, at its last octet. -/
def Accepts (ndebug : Bool) (reply : Bytes) (value : RedisValue) : Prop :=
  reply ≠ [] ∧ ∃ final, fresh.parse ndebug reply = some ⟨reply.length, .completed, final⟩ ∧
    final.result = value

/-- The octets that the parser still needs to complete a reply with a value. -/
def Awaits (ndebug : Bool) (p : RedisParser) (rest : Bytes) (value : RedisValue) : Prop :=
  rest ≠ [] ∧ ∃ final, run ndebug p.resume.1 p.resume.2 rest = some (.done final, []) ∧
    final.result = value

theorem Accepts.awaits (accepts : Accepts ndebug reply value) :
    Awaits ndebug fresh reply value := by
  obtain ⟨more, final, parsed, result⟩ := accepts
  rw [parse_eq_run ndebug fresh more, Option.map_eq_some_iff] at parsed
  obtain ⟨⟨progress, unread⟩, ran, answer⟩ := parsed
  have bound := unread_le ran
  cases progress with
  | more q state => simp [Progress.answer] at answer
  | failed q => simp [Progress.answer] at answer
  | done q =>
    simp only [Progress.answer, Answer.mk.injEq, true_and] at answer bound
    have some_octet : 0 < reply.length := List.length_pos_iff.mpr more
    have read : unread = [] := List.eq_nil_of_length_eq_zero (by omega)
    rw [read] at ran
    exact ⟨more, q, ran, answer.2 ▸ result⟩

theorem run_more_unread (ran : run ndebug p state rest = some (.more q s, unread)) :
    unread = [] := by
  induction rest generalizing p state with
  | nil =>
    cases ran
    rfl
  | cons c rest ih =>
    rw [run_cons] at ran
    obtain ⟨progress, -, ran⟩ := Option.bind_eq_some_iff.mp ran
    cases progress with
    | more _ _ => exact ih ran
    | done _ => cases ran
    | failed _ => cases ran

/-- A read of less than the rest of a reply leaves the parser waiting for the
remainder; a read of the rest completes it. -/
theorem Awaits.read {first second : Bytes} (awaits : Awaits ndebug p (first ++ second) value)
    (some_octet : first ≠ []) :
    (∃ q, p.parse ndebug first = some ⟨first.length, .incompleted, q⟩ ∧
        Awaits ndebug q second value) ∨
      second = [] ∧
        ∃ q, p.parse ndebug first = some ⟨first.length, .completed, q⟩ ∧ q.result = value := by
  obtain ⟨-, final, ran, result⟩ := awaits
  rw [run_append] at ran
  rw [parse_eq_run ndebug p some_octet]
  obtain ⟨⟨progress, unread⟩, here, there⟩ := Option.bind_eq_some_iff.mp ran
  rw [here]
  cases progress with
  | more q state =>
    have none := run_more_unread here
    refine .inl ⟨{ q with states := state :: q.states }, ?_, ?_, final, there, result⟩
    · rw [none]
      rfl
    · rintro rfl
      cases there
  | done q =>
    simp only [Option.some.injEq, Prod.mk.injEq, Progress.done.injEq,
      List.append_eq_nil_iff] at there
    obtain ⟨rfl, rfl, rfl⟩ := there
    exact .inr ⟨rfl, q, rfl, result⟩
  | failed q => simp at there

/-- The first answer other than `incompleted`, with what all calls consumed. -/
def parseChunks (ndebug : Bool) (p : RedisParser) : List Bytes → Option Answer
  | [] => some ⟨0, .incompleted, p⟩
  | chunk :: rest => (p.parse ndebug chunk).bind fun answer =>
    if answer.result = .incompleted then
      (parseChunks ndebug answer.parser rest).map fun later =>
        { later with consumed := answer.consumed + later.consumed }
    else some answer

theorem resume_states (p : RedisParser) (state : State) :
    resume { p with states := state :: p.states } = (p, state) := rfl

theorem parseChunks_eq_run (ndebug : Bool) (chunks : List Bytes) (p : RedisParser) (state : State)
    (some_octets : ∀ chunk ∈ chunks, chunk ≠ []) :
    parseChunks ndebug { p with states := state :: p.states } chunks =
      (run ndebug p state chunks.flatten).map fun r =>
        r.1.answer (chunks.flatten.length - r.2.length) := by
  induction chunks generalizing p state with
  | nil => rfl
  | cons chunk rest ih =>
    have here := some_octets chunk (List.mem_cons_self ..)
    have there := fun other member => some_octets other (List.mem_cons_of_mem chunk member)
    rw [parseChunks, parse_eq_run ndebug _ here, resume_states, List.flatten_cons, run_append]
    cases ran : run ndebug p state chunk with
    | none => rfl
    | some r =>
      obtain ⟨progress, unread⟩ := r
      have bound := unread_le ran
      cases progress with
      | more q next =>
        have all := run_more_unread ran
        simp only [Option.map_some, Option.bind_some, Progress.answer, if_true, ih q next there,
          Option.map_map]
        apply Option.map_congr
        intro later ranOn
        have unread' := unread_le ranOn
        simp only [Function.comp_apply, all, List.length_nil, Nat.sub_zero, List.length_append]
        have count : chunk.length + (rest.flatten.length - later.2.length) =
            chunk.length + rest.flatten.length - later.2.length := by omega
        cases later.1 <;> simp only [count]
      | done q =>
        simp only [Option.map_some, Option.bind_some, Progress.answer, List.length_append,
          reduceCtorEq, if_false, Nat.add_sub_add_right]
      | failed q =>
        simp only [Option.map_some, Option.bind_some, Progress.answer, List.length_append,
          reduceCtorEq, if_false, Nat.add_sub_add_right]

/-- A new parser gives the same answer, the same count and the same value on
every cut of a stream. -/
theorem chunks_agree (ndebug : Bool) {first second : List Bytes}
    (first_octets : ∀ chunk ∈ first, chunk ≠ []) (second_octets : ∀ chunk ∈ second, chunk ≠ [])
    (same : first.flatten = second.flatten) :
    parseChunks ndebug fresh first = parseChunks ndebug fresh second := by
  -- an empty stack of states resumes as one that holds the first state
  have resumed : ∀ chunks : List Bytes, chunks ≠ [] →
      parseChunks ndebug fresh chunks =
        parseChunks ndebug { fresh with states := .start :: fresh.states } chunks := by
    intro chunks some_chunk
    cases chunks with
    | nil => contradiction
    | cons chunk rest => rfl
  have empty : ∀ chunks : List Bytes, (∀ chunk ∈ chunks, chunk ≠ []) → chunks.flatten = [] →
      chunks = [] := by
    intro chunks octets flat
    cases chunks with
    | nil => rfl
    | cons chunk rest =>
      rw [List.flatten_cons, List.append_eq_nil_iff] at flat
      exact absurd flat.1 (octets chunk (List.mem_cons_self ..))
  by_cases none : first.flatten = []
  · rw [empty first first_octets none, empty second second_octets (same ▸ none)]
  · have some_first : first ≠ [] := fun nothing => none (by rw [nothing]; rfl)
    have some_second : second ≠ [] := fun nothing => none (by rw [same, nothing]; rfl)
    rw [resumed first some_first, resumed second some_second,
      parseChunks_eq_run ndebug first fresh .start first_octets,
      parseChunks_eq_run ndebug second fresh .start second_octets, same]

/-- A bulk string inside an array, cut in the size, in the data and in its end. -/
theorem chunks_agree_bulkInArray :
    parseChunks false fresh [[42, 49, 13], [10, 36, 50, 13, 10, 97], [98, 13], [10, 43]] =
      parseChunks false fresh [[42, 49, 13, 10, 36, 50, 13, 10, 97, 98, 13, 10, 43]] :=
  chunks_agree false (by decide) (by decide) rfl

end Da4qi4.Redis.RedisParser
