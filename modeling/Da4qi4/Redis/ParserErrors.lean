import Da4qi4.Redis.ParserNumbers

/-! The parser behind an error. It starts over, but with the arrays that were open and
the value that it had: the next replies are elements of the arrays, and an empty chunk
is answered with the value. -/
namespace Da4qi4.Redis

namespace RedisValue

/-- What is left where a value was moved out: the containers are empty, the rest stays. -/
def moved : RedisValue → RedisValue
  | .null => .null
  | .int value => .int value
  | .bytes _ error => .bytes [] error
  | .array _ => .array []

end RedisValue

namespace RedisParser

/-- The parser after `Result`. -/
def taken (p : RedisParser) : RedisParser := { p with redisValue := p.redisValue.moved }

/-- A parser in use. -/
inductive Reachable (ndebug : Bool) : RedisParser → Prop
  | fresh : Reachable ndebug fresh
  | parse {p : RedisParser} (reachable : Reachable ndebug p) {chunk : Bytes} {answer : Answer}
      (parsed : p.parse ndebug chunk = some answer) : Reachable ndebug answer.parser
  | result {p : RedisParser} (reachable : Reachable ndebug p) : Reachable ndebug p.taken

/-- What is seen of a chunk: its answer, and the result of a completed one. -/
structure Seen where
  consumed : Nat
  result : ParseResult
  value : Option RedisValue

def seen (answer : Answer) : Seen × RedisParser :=
  if answer.result = .completed then
    (⟨answer.consumed, answer.result, some answer.parser.result⟩, answer.parser.taken)
  else (⟨answer.consumed, answer.result, none⟩, answer.parser)

/-- What is seen of a sequence of chunks. -/
def observe (ndebug : Bool) (p : RedisParser) : List Bytes → Option (List Seen)
  | [] => some []
  | chunk :: rest => (p.parse ndebug chunk).bind fun answer =>
    (observe ndebug (seen answer).2 rest).map ((seen answer).1 :: ·)

/-- An array's header as far as it was read, if nothing else is being read. -/
def headerSoFar (p : RedisParser) : State → Option Bytes
  | .start => some []
  | .arraySize => some (arrayReply :: p.buf)
  | .arraySizeLF => some (arrayReply :: (p.buf ++ [cr]))
  | _ => none

/-- The header of an array that has elements, at the front of the octets. -/
def ArrayHead (ndebug : Bool) (data : Bytes) : Prop :=
  ∃ digits rest size, data = arrayReply :: (digits ++ cr :: lf :: rest) ∧ Loose digits ∧
    digits ≠ [] ∧ bufToLong ndebug digits = some size ∧ 0 < size

/-- The chunk brings the end of such a header. -/
def OpensArray (ndebug : Bool) (p : RedisParser) (chunk : Bytes) : Prop :=
  ∃ header, p.resume.1.headerSoFar p.resume.2 = some header ∧ ArrayHead ndebug (header ++ chunk)

theorem resume_stands {p : RedisParser} (reachable : Reachable ndebug p) :
    p.resume.1.Stands p.resume.2 := by
  induction reachable with
  | fresh => exact fresh_stands
  | @parse p _ chunk answer parsed ih =>
    by_cases more : chunk = []
    · subst more
      have same : p.resume.1.suspend p.resume.2 0 = answer := Option.some.inj parsed
      rw [← same, suspend]
      split
      · rename_i done
        rw [resume, ih.states]
        exact done.2 ▸ ih
      · exact ih
    · obtain ⟨⟨progress, unread⟩, ran, same⟩ :=
        Option.map_eq_some_iff.mp ((parse_eq_run ndebug p more).symm.trans parsed)
      have stands := run_stands ih ran
      subst same
      cases progress with
      | more q state => exact stands
      | done q =>
        rw [Progress.answer, resume, stands.1.states]
        exact stands.1
      | failed q =>
        rw [Progress.answer, resume, stands.states]
        exact stands
  | @result p _ ih =>
    have kept : p.taken.resume = ({ p.resume.1 with redisValue := p.redisValue.moved }, p.resume.2) := by
      obtain ⟨states, _, _, _, _, _⟩ := p
      cases states <;> rfl
    rw [kept]
    obtain ⟨states, ready, stacked, elements⟩ := ih
    exact ⟨states, ⟨ready.bulk, ready.loose, ready.filled⟩, ⟨stacked.matched, stacked.arrays⟩, elements⟩

/-- An error leaves the arrays open. -/
theorem run_open {p : RedisParser} {state : State} (stands : p.Stands state)
    (opened : p.arraySizes ≠ []) (ran : run ndebug p state data = some (.failed q, unread)) :
    q.arraySizes ≠ [] := by
  induction data generalizing p state with
  | nil => cases ran
  | cons c rest ih =>
    rw [run_cons] at ran
    obtain ⟨progress, turned, onward⟩ := Option.bind_eq_some_iff.mp ran
    have after := octet_stands stands turned
    have how := octet_reaches ndebug stands c
    rw [turned] at how
    cases how with
    | onward kept => exact ih after (fun none => opened (kept.arraySizes.symm.trans none)) onward
    | reply kept single => exact absurd single opened
    | collected => cases onward
    | element stands elements more => exact ih after more onward
    | array => exact ih after (List.cons_ne_nil _ _) onward
    | failed kept =>
      cases onward
      rw [kept.arraySizes]
      exact opened

theorem headed_onward {p q : RedisParser} {state next : State} (stands : p.Stands state)
    (single : p.arraySizes = [])
    (headed : ∀ header, p.headerSoFar state = some header → header = past)
    (numbered : Numbered p state c q next) (inside : Within next) (header : Bytes)
    (soFar : q.headerSoFar next = some header) : header = past ++ [c] := by
  obtain ⟨digits, ends⟩ := numbered .arraySize
  cases next with
  | start => exact absurd rfl inside.1
  | arraySize =>
    cases soFar
    rcases digits rfl with ⟨rfl, place | place, empty⟩ | ⟨rfl, stored⟩
    · subst place
      rw [← headed _ rfl, empty]
      rfl
    · exact absurd single (stands.elements place)
    · rw [← headed _ rfl, stored]
      rfl
  | arraySizeLF =>
    cases soFar
    obtain ⟨rfl, rfl, same⟩ := ends rfl
    rw [← headed _ rfl, same]
    rfl
  | _ => cases soFar

/-- Without an array, an error leaves one open exactly behind its header, and it leaves
the value alone. -/
theorem run_headed {p : RedisParser} {state : State} (stands : p.Stands state)
    (single : p.arraySizes = [])
    (headed : ∀ header, p.headerSoFar state = some header → header = past)
    (ran : run ndebug p state data = some (.failed q, unread)) :
    ArrayHead ndebug (past ++ data) ∨ (q.arraySizes = [] ∧ q.redisValue = p.redisValue) := by
  induction data generalizing past p state with
  | nil => cases ran
  | cons c rest ih =>
    rw [run_cons] at ran
    obtain ⟨progress, turned, onward⟩ := Option.bind_eq_some_iff.mp ran
    have after := octet_stands stands turned
    have how := octet_reaches ndebug stands c
    rw [turned] at how
    cases how with
    | @onward q' next kept ready numbered inside =>
      have rest := ih after (kept.arraySizes.trans single)
        (headed_onward stands single headed numbered inside) onward
      rw [List.append_assoc] at rest
      rw [← kept.value]
      exact rest
    | reply => cases onward
    | collected => cases onward
    | element stands elements => exact absurd single elements
    | array place ends length positive =>
      subst place ends
      left
      rw [← headed _ rfl]
      refine ⟨p.buf, rest, _, ?_, stands.ready.loose .arraySize (.inr rfl),
        stands.ready.filled .arraySize rfl, length, positive⟩
      simp only [List.cons_append, List.append_assoc, List.nil_append]
    | failed kept =>
      cases onward
      exact .inr ⟨kept.arraySizes.trans single, kept.value⟩

theorem run_digits (field : NumberField) (p : RedisParser) {digits : Bytes} (loose : Loose digits)
    (rest : Bytes) :
    run ndebug p field.state (digits ++ rest) =
      run ndebug { p with buf := p.buf ++ digits } field.state rest := by
  induction digits generalizing p with
  | nil => rw [List.nil_append, List.append_nil]
  | cons c digits ih =>
    obtain ⟨digit, loose⟩ := List.forall_mem_cons.mp loose
    have notEnd : c ≠ cr := by
      rintro rfl
      exact absurd digit (by decide)
    have stored : p.turn ndebug field.state c [] = { p with buf := p.buf ++ [c] }.next field.state := by
      rw [octet_number, numberOctet, if_neg notEnd, if_pos digit]
    rw [List.cons_append, run_of_octet (octet_next stored field.reads.1), ih _ loose]
    simp only [List.append_assoc, List.singleton_append]

/-- The header so far, read again, leads to where the parser is. -/
theorem run_headerSoFar {p : RedisParser} {state : State} (stands : p.Stands state)
    (soFar : p.headerSoFar state = some header) {data : Bytes} (more : data ≠ []) :
    run ndebug { p with buf := [] } .start (header ++ data) = run ndebug p state data := by
  have opens (rest : Bytes) : run ndebug { p with buf := [] } .start (arrayReply :: rest) =
      run ndebug { p with buf := [] } .arraySize rest :=
    run_opens _ (.inl rfl) (show _ = ({ p with buf := [] } : RedisParser).next .arraySize from rfl)
      (by decide) rest
  cases state with
  | start =>
    cases soFar
    obtain ⟨c, rest, rfl⟩ := List.exists_cons_of_ne_nil more
    rfl
  | arraySize =>
    cases soFar
    rw [List.cons_append, opens]
    exact run_digits .arraySize _ (stands.ready.loose .arraySize (.inl rfl)) data
  | arraySizeLF =>
    cases soFar
    rw [List.cons_append, opens, List.append_assoc]
    exact run_number readsNumber_arraySize { p with buf := [] } (stands.ready.loose .arraySize (.inr rfl))
      (stands.ready.filled .arraySize rfl) data
  | _ => cases soFar

/-- An error behind an array's header leaves the array open. -/
theorem run_arrayHead {p : RedisParser} (stands : p.Stands .start) (head : ArrayHead ndebug data)
    (ran : run ndebug p .start data = some (.failed q, unread)) : q.arraySizes ≠ [] := by
  obtain ⟨digits, rest, size, rfl, loose, filled, length, positive⟩ := head
  have stacked : Stacked { p with buf := digits } := ⟨stands.stacked.matched, stands.stacked.arrays⟩
  have turned : turn ndebug { p with buf := digits } .arraySizeLF lf [] =
      { p with
        buf := digits
        arraySizes := size :: p.arraySizes
        arrayValues := .array [] :: p.arrayValues }.next .startArray := by
    have length : bufToLong ndebug { p with buf := digits }.buf = some size := length
    simp only [turn, if_true, length, Option.bind_some, openArray]
    rw [if_neg (by omega), if_neg (by omega), if_neg (by omega)]
  have headed : run ndebug p .start (arrayReply :: (digits ++ cr :: lf :: rest)) =
      run ndebug { p with
        buf := digits
        arraySizes := size :: p.arraySizes
        arrayValues := .array [] :: p.arrayValues } .startArray rest := by
    rw [run_opens p (.inl rfl) (show _ = ({ p with buf := [] } : RedisParser).next .arraySize from rfl)
      (by decide), run_number readsNumber_arraySize { p with buf := [] } loose filled,
      List.nil_append, run_of_octet (octet_next turned (by decide))]
  rw [headed] at ran
  exact run_open (stacked.opened stands.states size) (List.cons_ne_nil _ _) ran

theorem resume_eq (p : RedisParser) : p.resume.1 = { p with states := p.states.tail } := by
  obtain ⟨states, _, _, _, _, _⟩ := p
  cases states <;> rfl

theorem run_of_parse_error {p q : RedisParser} (failed : p.parse ndebug chunk = some ⟨n, .error, q⟩) :
    chunk ≠ [] ∧ ∃ unread, run ndebug p.resume.1 p.resume.2 chunk = some (.failed q, unread) := by
  have more : chunk ≠ [] := by
    rintro rfl
    have same : p.resume.1.suspend p.resume.2 0 = ⟨n, .error, q⟩ := Option.some.inj failed
    rw [suspend] at same
    split at same <;> cases same
  obtain ⟨⟨progress, unread⟩, ran, answer⟩ :=
    Option.map_eq_some_iff.mp ((parse_eq_run ndebug p more).symm.trans failed)
  refine ⟨more, unread, ?_⟩
  cases progress with
  | failed r =>
    cases answer
    exact ran
  | more r state => cases answer
  | done r => cases answer

/-- What an error leaves open: the arrays of before, and the one that it was in. -/
theorem parse_error_arrays {p q : RedisParser} (reachable : Reachable ndebug p)
    (failed : p.parse ndebug chunk = some ⟨n, .error, q⟩) :
    q.Stands .start ∧
      (q.arraySizes = [] ↔ p.arraySizes = [] ∧ ¬OpensArray ndebug p chunk) ∧
      (q.arraySizes = [] → q.redisValue = p.redisValue) := by
  obtain ⟨more, unread, ran⟩ := run_of_parse_error failed
  have stands := resume_stands reachable
  have arrays : p.resume.1.arraySizes = p.arraySizes := by rw [resume_eq]
  have value : p.resume.1.redisValue = p.redisValue := by rw [resume_eq]
  have opens : p.arraySizes = [] → OpensArray ndebug p chunk → q.arraySizes ≠ [] := by
    rintro single ⟨header, soFar, head⟩
    have begins : Stands { p.resume.1 with buf := [] } .start :=
      Stacked.stands ⟨stands.stacked.matched, stands.stacked.arrays⟩ stands.states
    exact run_arrayHead begins head ((run_headerSoFar stands soFar more).trans ran)
  have remains : p.arraySizes = [] →
      OpensArray ndebug p chunk ∨ (q.arraySizes = [] ∧ q.redisValue = p.redisValue) := by
    intro single
    have single := arrays.trans single
    rw [← value]
    cases soFar : p.resume.1.headerSoFar p.resume.2 with
    | none =>
      -- where nothing or something else is read, no header can end: no octet 0 is in front of one
      have headed (header : Bytes) (some_ : p.resume.1.headerSoFar p.resume.2 = some header) :
          header = [0] := by
        rw [soFar] at some_
        cases some_
      rcases run_headed stands single headed ran with ⟨_, _, _, zero, -⟩ | kept
      · cases zero
      · exact .inr kept
    | some header =>
      refine (run_headed stands single (fun other same => ?_) ran).imp_left fun head =>
        ⟨header, soFar, head⟩
      exact Option.some.inj (same.symm.trans soFar)
  have single : q.arraySizes = [] → p.arraySizes = [] := by
    intro none
    by_contra opened
    exact run_open stands (arrays.symm ▸ opened) ran none
  refine ⟨run_stands stands ran, ?_, ?_⟩
  · constructor
    · exact fun none => ⟨single none, fun head => opens (single none) head none⟩
    · exact fun unopened => ((remains unopened.1).resolve_left unopened.2).1
  · exact fun none => ((remains (single none)).resolve_left fun head =>
      opens (single none) head none).2

/-- Two parsers that agree in what their state reads; a strict agreement is one in the
value, too. -/
structure Alike (strict : Prop) (p q : RedisParser) (state : State) : Prop where
  states : p.states = [] ∧ q.states = []
  arraySizes : q.arraySizes = p.arraySizes
  arrayValues : q.arrayValues = p.arrayValues
  buf : Within state → q.buf = p.buf
  bulkSize : state = .bulk → q.bulkSize = p.bulkSize
  value : strict → q.redisValue = p.redisValue

inductive TurnsAlike (strict : Prop) :
    Option (Except RedisParser Turn) → Option (Except RedisParser Turn) → Prop
  | none : TurnsAlike strict none none
  | error {p q : RedisParser} (alike : Alike strict p q .start) :
      TurnsAlike strict (some (.error p)) (some (.error q))
  | onward {p q : RedisParser} {state : State} (alike : Alike strict p q state)
      (value : state = .start → q.redisValue = p.redisValue) :
      TurnsAlike strict (p.next state) (q.next state)

section
variable {strict : Prop} {p q : RedisParser} {state : State}

theorem alike_if {condition : Prop} [Decidable condition]
    (then_ : condition → TurnsAlike strict first first')
    (else_ : ¬condition → TurnsAlike strict second second') :
    TurnsAlike strict (if condition then first else second)
      (if condition then first' else second') := by
  split
  · exact then_ ‹_›
  · exact else_ ‹_›

theorem alike_bind {size : Option Int} {k k' : Int → Option (Except RedisParser Turn)}
    (each : ∀ value, TurnsAlike strict (k value) (k' value)) :
    TurnsAlike strict (size.bind k) (size.bind k') := by
  cases size with
  | none => exact .none
  | some value => exact each value

/-- On to a state within a value. -/
theorem Alike.next (alike : Alike strict p q state) (same : q.buf = p.buf) {next : State}
    (inside : Within next) (other : next ≠ .bulk) : TurnsAlike strict (p.next next) (q.next next) :=
  .onward { alike with buf := fun _ => same, bulkSize := fun bulk => absurd bulk other }
    fun start => absurd start inside.1

theorem Alike.fail (alike : Alike strict p q state) : TurnsAlike strict p.fail q.fail :=
  .error ⟨⟨rfl, rfl⟩, alike.arraySizes, alike.arrayValues, fun inside => absurd rfl inside.1,
    nofun, alike.value⟩

theorem Alike.complete (alike : Alike strict p q state) (value : RedisValue) :
    TurnsAlike strict ({ p with redisValue := value }.next .start)
      ({ q with redisValue := value }.next .start) :=
  .onward ⟨alike.states, alike.arraySizes, alike.arrayValues, fun inside => absurd rfl inside.1,
    nofun, fun _ => rfl⟩ fun _ => rfl

theorem Alike.store (alike : Alike strict p q state) (buf : Bytes) {next : State} (inside : Within next)
    (other : next ≠ .bulk) :
    TurnsAlike strict ({ p with buf := buf }.next next) ({ q with buf := buf }.next next) :=
  .onward ⟨alike.states, alike.arraySizes, alike.arrayValues, fun _ => rfl,
    fun bulk => absurd bulk other, alike.value⟩ fun start => absurd start inside.1

theorem Alike.size (alike : Alike strict p q state) (buf : Bytes) (size : Int) {next : State}
    (inside : Within next) :
    TurnsAlike strict ({ p with buf := buf, bulkSize := size }.next next)
      ({ q with buf := buf, bulkSize := size }.next next) :=
  .onward ⟨alike.states, alike.arraySizes, alike.arrayValues, fun _ => rfl, fun _ => rfl, alike.value⟩
    fun start => absurd start inside.1

theorem alike_start (ndebug : Bool) (c : UInt8) (alike : Alike strict p q state) :
    TurnsAlike strict (p.turn ndebug .start c []) (q.turn ndebug .start c []) := by
  rw [turn, turn]
  apply alike_if fun _ => alike.store [] (by decide) (by decide)
  intro _
  apply alike_if fun _ => alike.store [] (by decide) (by decide)
  intro _
  apply alike_if fun _ => alike.store [] (by decide) (by decide)
  intro _
  apply alike_if fun _ => alike.size [] 0 (by decide)
  intro _
  apply alike_if fun _ => alike.store [] (by decide) (by decide)
  intro _
  exact .error ⟨alike.states, alike.arraySizes, alike.arrayValues, fun _ => rfl,
    fun bulk => State.noConfusion bulk, alike.value⟩

theorem alike_textOctet (alike : Alike strict p q state) (same : q.buf = p.buf)
    {text lineFeed : State} (inside : Within text ∧ Within lineFeed)
    (others : text ≠ .bulk ∧ lineFeed ≠ .bulk) (c : UInt8) :
    TurnsAlike strict (p.textOctet text lineFeed c) (q.textOctet text lineFeed c) := by
  rw [textOctet, textOctet, same]
  apply alike_if fun _ => alike.next same inside.2 others.2
  intro _
  apply alike_if fun _ => alike.store _ inside.1 others.1
  exact fun _ => alike.fail

theorem alike_numberOctet (alike : Alike strict p q state) (same : q.buf = p.buf)
    {number lineFeed : State} (inside : Within number ∧ Within lineFeed)
    (others : number ≠ .bulk ∧ lineFeed ≠ .bulk) (c : UInt8) :
    TurnsAlike strict (p.numberOctet number lineFeed c) (q.numberOctet number lineFeed c) := by
  rw [numberOctet, numberOctet, same]
  apply alike_if
  · intro _
    apply alike_if fun _ => alike.fail
    exact fun _ => alike.next same inside.2 others.2
  · intro _
    apply alike_if fun _ => alike.store _ inside.1 others.1
    exact fun _ => alike.fail

theorem alike_openBulk (alike : Alike strict p q state) (size : Int) :
    TurnsAlike strict (p.openBulk size []) (q.openBulk size []) := by
  by_cases positive : 0 < size
  · rw [openBulk_next p positive, openBulk_next q positive]
    exact alike.size [] size (by decide)
  · have sized : Alike strict { p with bulkSize := size, buf := [] }
        { q with bulkSize := size, buf := [] } .start :=
      ⟨alike.states, alike.arraySizes, alike.arrayValues, fun _ => rfl, nofun, alike.value⟩
    rw [openBulk, openBulk]
    apply alike_if fun _ => sized.complete .null
    intro _
    apply alike_if fun _ => alike.size [] size (by decide)
    intro _
    rw [if_pos (by omega), if_pos (by omega)]
    exact sized.fail

theorem alike_openArray (alike : Alike strict p q state) (size : Int) :
    TurnsAlike strict (p.openArray size) (q.openArray size) := by
  rw [openArray, openArray]
  apply alike_if fun _ => alike.complete _
  intro _
  apply alike_if fun _ => alike.complete _
  intro _
  apply alike_if fun _ => alike.fail
  intro _
  rw [alike.arraySizes, alike.arrayValues]
  exact .onward ⟨alike.states, rfl, rfl, fun inside => absurd rfl inside.2,
    fun bulk => State.noConfusion bulk, alike.value⟩ fun start => State.noConfusion start

theorem alike_lineFeed (alike : Alike strict p q state) (same : q.buf = p.buf) (field : NumberField)
    (c : UInt8) :
    TurnsAlike strict (p.turn ndebug field.lineFeed c []) (q.turn ndebug field.lineFeed c []) := by
  rw [field.turn_lineFeed, field.turn_lineFeed, same]
  apply alike_if
  · intro _
    apply alike_bind
    intro value
    cases field with
    | integer =>
      have empty : Alike strict { p with buf := [] } { q with buf := [] } .start :=
        ⟨alike.states, alike.arraySizes, alike.arrayValues, fun _ => rfl, nofun, alike.value⟩
      exact empty.complete (.int value)
    | bulkSize => exact alike_openBulk alike value
    | arraySize => exact alike_openArray alike value
  · exact fun _ => alike.fail

theorem alike_bulk (alike : Alike strict p q .bulk) (c : UInt8) :
    TurnsAlike strict (p.turn ndebug .bulk c []) (q.turn ndebug .bulk c []) := by
  have size := alike.bulkSize rfl
  have buf := alike.buf (by decide)
  by_cases positive : 0 < p.bulkSize
  · have stored : Alike strict (p.storeBulk [c]) (q.storeBulk [c]) (p.storeBulk [c]).bulkState := by
      refine ⟨alike.states, alike.arraySizes, alike.arrayValues, fun _ => ?_, fun _ => ?_, alike.value⟩
      · rw [storeBulk, storeBulk, buf]
      · rw [storeBulk, storeBulk, size]
    have same : (q.storeBulk [c]).bulkState = (p.storeBulk [c]).bulkState := by
      rw [bulkState, bulkState, storeBulk, storeBulk, size]
    rw [turn_bulk_single ndebug positive, turn_bulk_single ndebug (size.symm ▸ positive), same]
    exact .onward stored fun start => absurd start (bulkState_ne_start _)
  · rw [turn, turn, if_neg positive, if_neg (size.symm ▸ positive)]
    exact .none

theorem turn_alike (ndebug : Bool) (alike : Alike strict p q state) (c : UInt8) :
    TurnsAlike strict (p.turn ndebug state c []) (q.turn ndebug state c []) := by
  have lineEnd (buffered : Within state) (value : Bytes → RedisValue) : TurnsAlike strict
      (if c = lf then { p with redisValue := value p.buf }.next .start else p.fail)
      (if c = lf then { q with redisValue := value q.buf }.next .start else q.fail) := by
    have same : value q.buf = value p.buf := congrArg value (alike.buf buffered)
    rw [same]
    exact alike_if (fun _ => alike.complete _) fun _ => alike.fail
  cases state with
  | start => exact alike_start ndebug c alike
  | startArray => exact alike_start ndebug c alike
  | string => exact alike_textOctet alike (alike.buf (by decide)) (by decide) (by decide) c
  | errorString => exact alike_textOctet alike (alike.buf (by decide)) (by decide) (by decide) c
  | stringLF => exact lineEnd (by decide) fun buf => .bytes buf false
  | errorLF => exact lineEnd (by decide) fun buf => .bytes buf true
  | bulkLF => exact lineEnd (by decide) fun buf => .bytes buf false
  | integer => exact alike_numberOctet alike (alike.buf (by decide)) (by decide) (by decide) c
  | bulkSize => exact alike_numberOctet alike (alike.buf (by decide)) (by decide) (by decide) c
  | arraySize => exact alike_numberOctet alike (alike.buf (by decide)) (by decide) (by decide) c
  | integerLF => exact alike_lineFeed alike (alike.buf (by decide)) .integer c
  | bulkSizeLF => exact alike_lineFeed alike (alike.buf (by decide)) .bulkSize c
  | arraySizeLF => exact alike_lineFeed alike (alike.buf (by decide)) .arraySize c
  | bulk => exact alike_bulk alike c
  | bulkCR =>
    exact alike_if (fun _ => alike.next (alike.buf (by decide)) (by decide) (by decide)) fun _ =>
      alike.fail

/-- The end of a value is the same where the values are. -/
theorem finish_alike (alike : Alike strict p q state) (value : q.redisValue = p.redisValue) :
    Option.Rel (fun r s => Alike True r s .start) p.finish q.finish := by
  rw [finish, finish, alike.arraySizes, alike.arrayValues, value]
  split
  · exact .some ⟨alike.states, alike.arraySizes, alike.arrayValues, fun inside => absurd rfl inside.1,
      fun bulk => State.noConfusion bulk, fun _ => value⟩
  · cases p.arrayValues with
    | nil => exact .none
    | cons array values =>
      simp only
      generalize array.pushBack p.redisValue = pushed
      cases pushed with
      | none => exact .none
      | some array =>
        rw [Option.bind_some, Option.bind_some]
        generalize closeArrays p.arraySizes (array :: values) p.redisValue = ended
        cases ended with
        | none => exact .none
        | some closed =>
          exact .some ⟨alike.states, rfl, rfl, fun inside => absurd rfl inside.1,
            fun bulk => State.noConfusion bulk, fun _ => rfl⟩

inductive ProgressAlike (strict : Prop) : Progress → Progress → Prop
  | more {p q : RedisParser} {state : State} (alike : Alike strict p q state) :
      ProgressAlike strict (.more p state) (.more q state)
  | done {p q : RedisParser} (alike : Alike True p q .start) : ProgressAlike strict (.done p) (.done q)
  | failed {p q : RedisParser} (alike : Alike strict p q .start) :
      ProgressAlike strict (.failed p) (.failed q)

theorem octet_alike (ndebug : Bool) (alike : Alike strict p q state) (c : UInt8) :
    Option.Rel (ProgressAlike strict) (p.octet ndebug state c) (q.octet ndebug state c) := by
  have how := turn_alike ndebug alike c
  rw [octet, octet]
  generalize p.turn ndebug state c [] = first at how ⊢
  generalize q.turn ndebug state c [] = second at how ⊢
  cases how with
  | none => exact .none
  | error alike => exact .some (.failed alike)
  | @onward r s next alike value =>
    change Option.Rel _ (Turn.settle ⟨r, next, 0⟩) (Turn.settle ⟨s, next, 0⟩)
    rw [Turn.settle, Turn.settle]
    split
    · rename_i start
      have finished := finish_alike alike (value start)
      generalize r.finish = first at finished ⊢
      generalize s.finish = second at finished ⊢
      cases finished with
      | none => exact .none
      | some alike =>
        rw [Option.map_some, Option.map_some, alike.arraySizes]
        split
        · exact .some (.done alike)
        · exact .some (.more { alike with value := fun _ => alike.value trivial })
    · exact .some (.more alike)

theorem run_alike (ndebug : Bool) (alike : Alike strict p q state) (data : Bytes) :
    Option.Rel (fun r s => ProgressAlike strict r.1 s.1 ∧ s.2 = r.2)
      (run ndebug p state data) (run ndebug q state data) := by
  induction data generalizing p q state with
  | nil => exact .some ⟨.more alike, rfl⟩
  | cons c rest ih =>
    have how := octet_alike ndebug alike c
    rw [run_cons, run_cons]
    generalize p.octet ndebug state c = first at how ⊢
    generalize q.octet ndebug state c = second at how ⊢
    cases how with
    | none => exact .none
    | some reached =>
      cases reached with
      | more alike => exact ih alike
      | done alike => exact .some ⟨.done alike, rfl⟩
      | failed alike => exact .some ⟨.failed alike, rfl⟩

/-- Two parsers between two calls. -/
def Agree (strict : Prop) (p q : RedisParser) : Prop :=
  q.resume.2 = p.resume.2 ∧ Alike strict p.resume.1 q.resume.1 p.resume.2

theorem Alike.agree (alike : Alike strict p q .start) : Agree strict p q := by
  have resume_nil {r : RedisParser} (none : r.states = []) : r.resume = (r, .start) := by
    rw [resume, none]
  rw [Agree, resume_nil alike.states.1, resume_nil alike.states.2]
  exact ⟨rfl, alike⟩

/-- Inside a reply, until the next call. -/
theorem Alike.suspended (alike : Alike strict p q state) :
    Agree strict { p with states := state :: p.states } { q with states := state :: q.states } :=
  ⟨rfl, alike⟩

theorem Alike.taken (alike : Alike True p q .start) : Alike strict p.taken q.taken .start :=
  ⟨alike.states, alike.arraySizes, alike.arrayValues, fun inside => absurd rfl inside.1, nofun,
    fun _ => congrArg RedisValue.moved (alike.value trivial)⟩

/-- The same is seen of both, and they agree again. -/
def SeenAlike (strict : Prop) (first second : Answer) : Prop :=
  (seen second).1 = (seen first).1 ∧ Agree strict (seen first).2 (seen second).2

theorem ProgressAlike.seen {first second : Progress} (alike : ProgressAlike strict first second)
    (n : Nat) : SeenAlike strict (first.answer n) (second.answer n) := by
  cases alike with
  | more alike => exact ⟨rfl, alike.suspended⟩
  | done alike =>
    refine ⟨?_, alike.taken.agree⟩
    exact congrArg (fun value => Seen.mk n .completed (some value)) (alike.value trivial)
  | failed alike => exact ⟨rfl, alike.agree⟩

theorem parse_alike (ndebug : Bool) (agree : Agree strict p q) (chunk : Bytes)
    (counts : strict ∨ chunk ≠ []) :
    Option.Rel (SeenAlike strict) (p.parse ndebug chunk) (q.parse ndebug chunk) := by
  obtain ⟨same, alike⟩ := agree
  by_cases more : chunk = []
  · subst more
    have strict_ := counts.resolve_right fun more => more rfl
    change Option.Rel _ (some (p.resume.1.suspend p.resume.2 0)) (some (q.resume.1.suspend q.resume.2 0))
    rw [same, suspend, suspend]
    by_cases idle : p.resume.1.arraySizes = [] ∧ p.resume.2 = .start
    · have value : Alike True p.resume.1 q.resume.1 .start :=
        { alike with
          buf := fun inside => absurd rfl inside.1
          bulkSize := fun bulk => State.noConfusion bulk
          value := fun _ => alike.value strict_ }
      rw [if_pos idle, if_pos (alike.arraySizes.symm ▸ idle)]
      exact .some ((ProgressAlike.done value).seen 0)
    · rw [if_neg idle, if_neg (alike.arraySizes.symm ▸ idle)]
      exact .some ((ProgressAlike.more alike).seen 0)
  · have how := run_alike ndebug alike chunk
    rw [parse_eq_run ndebug p more, parse_eq_run ndebug q more, same]
    generalize run ndebug p.resume.1 p.resume.2 chunk = first at how ⊢
    generalize run ndebug q.resume.1 p.resume.2 chunk = second at how ⊢
    cases how with
    | none => exact .none
    | some ran =>
      rw [Option.map_some, Option.map_some, ran.2]
      exact .some (ran.1.seen _)

theorem observe_alike (ndebug : Bool) (agree : Agree strict p q) (chunks : List Bytes)
    (counts : ∀ chunk ∈ chunks, strict ∨ chunk ≠ []) :
    q.observe ndebug chunks = p.observe ndebug chunks := by
  induction chunks generalizing p q with
  | nil => rfl
  | cons chunk rest ih =>
    obtain ⟨here, there⟩ := List.forall_mem_cons.mp counts
    have how := parse_alike ndebug agree chunk here
    rw [observe, observe]
    generalize p.parse ndebug chunk = first at how ⊢
    generalize q.parse ndebug chunk = second at how ⊢
    cases how with
    | none => rfl
    | some same => rw [Option.bind_some, Option.bind_some, same.1, ih same.2 there]

end

/-- An integer, which is an element for a parser with an open array. -/
def probe : Bytes := Resp.encode (.integer 1)

theorem probe_ne_nil : probe ≠ [] := encode_ne_nil _

theorem seen_probe (ndebug : Bool) {q : RedisParser} (stands : q.Stands .start)
    (opened : q.arraySizes ≠ []) :
    ∃ answer, q.parse ndebug probe = some answer ∧ (seen answer).1.value ≠ some (.int 1) := by
  obtain ⟨buf, size, ran⟩ :=
    reads_integer ndebug (show -2 ^ 63 ≤ (1 : Int) by decide) (by decide) q .start [] (.inl rfl)
  have stacked : Stacked { q with buf := buf, bulkSize := size, redisValue := .int 1 } :=
    ⟨stands.stacked.matched, stands.stacked.arrays⟩
  obtain ⟨r, finished, -, -, -, whole⟩ := finish_stacked stacked
  have resumed : q.resume = (q, .start) := by rw [resume, stands.states]
  rw [List.append_nil, complete, Turn.settle, if_pos rfl, Resp.value, finished, Option.map_some,
    Option.bind_some] at ran
  rw [parse_eq_run ndebug q probe_ne_nil, resumed]
  by_cases closed : r.arraySizes = []
  · rw [if_pos closed] at ran
    obtain ⟨values, array⟩ := whole opened closed
    refine ⟨_, congrArg _ ran, ?_⟩
    change some r.redisValue ≠ _
    rw [array]
    intro same
    cases same
  · rw [if_neg closed] at ran
    refine ⟨_, congrArg _ ran, fun same => ?_⟩
    cases same

theorem observe_probe (ndebug : Bool) :
    ∃ n, fresh.observe ndebug [probe] = some [⟨n, .completed, some (.int 1)⟩] := by
  obtain ⟨final, parsed, result⟩ :=
    parse_encode ndebug (r := .integer 1) (by unfold Resp.Fits; decide) (Resp.printable_of_all rfl) []
  refine ⟨probe.length, ?_⟩
  rw [List.append_nil] at parsed
  rw [observe, probe, parsed, Option.bind_some]
  change some [Seen.mk _ _ (some final.result)] = _
  rw [result, Resp.value]

/-- An empty chunk shows the value. -/
theorem observe_empty (ndebug : Bool) {q : RedisParser} (stands : q.Stands .start)
    (single : q.arraySizes = []) :
    q.observe ndebug [[]] = some [⟨0, .completed, some q.redisValue⟩] := by
  have resumed : q.resume = (q, .start) := by rw [resume, stands.states]
  have parsed : q.parse ndebug [] = some ⟨0, .completed, q⟩ := by
    change some (q.resume.1.suspend q.resume.2 0) = _
    rw [resumed, suspend, if_pos ⟨single, rfl⟩]
  rw [observe, parsed]
  rfl

/-- Behind an error a parser reads on like a new one if it has no open array; where empty
chunks come, too, its value has to be that of a new one. -/
theorem error_recovers_iff {p q : RedisParser} (reachable : Reachable ndebug p)
    (failed : p.parse ndebug chunk = some ⟨n, .error, q⟩) :
    ((∀ chunks, q.observe ndebug chunks = fresh.observe ndebug chunks) ↔
      p.arraySizes = [] ∧ ¬OpensArray ndebug p chunk ∧ p.redisValue = .null) ∧
    ((∀ chunks : List Bytes, (∀ chunk ∈ chunks, chunk ≠ []) →
        q.observe ndebug chunks = fresh.observe ndebug chunks) ↔
      p.arraySizes = [] ∧ ¬OpensArray ndebug p chunk) := by
  obtain ⟨stands, arrays, value⟩ := parse_error_arrays reachable failed
  have alike (none : q.arraySizes = []) : Alike (q.redisValue = .null) fresh q .start := by
    have values : q.arrayValues = [] := by
      rw [← List.length_eq_zero_iff, ← stands.stacked.matched, none, List.length_nil]
    exact ⟨⟨rfl, stands.states⟩, none, values, fun inside => absurd rfl inside.1, nofun, id⟩
  have single (same : q.observe ndebug [probe] = fresh.observe ndebug [probe]) : q.arraySizes = [] := by
    by_contra opened
    obtain ⟨answer, parsed, other⟩ := seen_probe ndebug stands opened
    obtain ⟨n, read⟩ := observe_probe ndebug
    rw [read, observe, parsed, Option.bind_some, observe, Option.map_some, Option.some.injEq,
      List.cons.injEq] at same
    exact other (congrArg Seen.value same.1)
  have stale (none : q.arraySizes = [])
      (same : q.observe ndebug [[]] = fresh.observe ndebug [[]]) : q.redisValue = .null := by
    rw [observe_empty ndebug stands none, observe_empty ndebug fresh_stands rfl, Option.some.injEq,
      List.cons.injEq, Seen.mk.injEq, Option.some.injEq] at same
    exact same.1.2.2
  constructor
  · rw [← and_assoc, ← arrays]
    constructor
    · intro same
      have none := single (same [probe])
      exact ⟨none, (value none).symm.trans (stale none (same [[]]))⟩
    · rintro ⟨none, null⟩ chunks
      have null := (value none).trans null
      exact observe_alike ndebug (alike none).agree chunks fun _ _ => .inl null
  · rw [← arrays]
    constructor
    · exact fun same => single (same [probe] (by decide))
    · intro none chunks octets
      exact observe_alike ndebug (alike none).agree chunks fun chunk member => .inr (octets chunk member)

/-- A first reply of one octet that is no type is refused without a trace. -/
theorem error_recovers_fresh :
    ∃ n q, fresh.parse false [33] = some ⟨n, .error, q⟩ ∧
      ((∀ chunks, q.observe false chunks = fresh.observe false chunks) ↔
        fresh.arraySizes = [] ∧ ¬OpensArray false fresh [33] ∧ fresh.redisValue = .null) ∧
      ((∀ chunks : List Bytes, (∀ chunk ∈ chunks, chunk ≠ []) →
          q.observe false chunks = fresh.observe false chunks) ↔
        fresh.arraySizes = [] ∧ ¬OpensArray false fresh [33]) :=
  ⟨_, _, rfl, error_recovers_iff .fresh rfl⟩

/-- An array of one element that is refused: the next integer is that element. -/
theorem error_keeps_array :
    ∃ n q, fresh.parse false [42, 49, 13, 10, 33] = some ⟨n, .error, q⟩ ∧
      q.observe false [[58, 55, 13, 10]] ≠ fresh.observe false [[58, 55, 13, 10]] := by
  refine ⟨_, _, rfl, fun same => ?_⟩
  have values : some [Seen.mk 4 .completed (some (.array [.int 7]))] =
      some [Seen.mk 4 .completed (some (.int 7))] := same
  cases values

end RedisParser
end Da4qi4.Redis
