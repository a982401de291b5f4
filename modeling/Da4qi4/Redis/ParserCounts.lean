import Da4qi4.Redis.ParserErrors

/-! The counts of the open arrays. What a header declared is kept beside the parser; the
count on the stack and the elements that are stored make it up, and no assertion about
the stacks can fail. -/
namespace Da4qi4.Redis

theorem wrap_of_small {value : Int} (low : 0 ≤ value) (high : value < 2 ^ 63) :
    wrap value = value :=
  Int.bmod_eq_of_le (by omega) (by omega)

theorem bufToLong_lt {buf : Bytes} {value : Int} (read : bufToLong ndebug buf = some value) :
    value < 2 ^ 63 := by
  rw [bufToLong_eq] at read
  split at read
  · cases read
    have bound := Int.bmod_lt (x := signed buf) (m := 2 ^ 64) (by decide)
    rw [wrap]
    omega
  · cases read

namespace RedisParser

/-- Open arrays, the innermost first, each with its declared size, with the number of the
elements that are still to come, and with those that are stored. -/
inductive Counted : List Int → List Int → List RedisValue → Prop
  | nil : Counted [] [] []
  | cons {declared size : Int} {values : List RedisValue} (whole : size + values.length = declared)
      (more : 1 ≤ size) (fits : declared < 2 ^ 63) (outer : Counted ds sizes vs) :
      Counted (declared :: ds) (size :: sizes) (.array values :: vs)

namespace Counted

theorem length (counted : Counted ds sizes vs) :
    ds.length = sizes.length ∧ sizes.length = vs.length := by
  induction counted with
  | nil => exact ⟨rfl, rfl⟩
  | cons whole more fits outer ih =>
    simp only [List.length_cons]
    omega

theorem arrays (counted : Counted ds sizes vs) : ∀ v ∈ vs, ∃ values, v = .array values := by
  induction counted with
  | nil => exact List.forall_mem_nil _
  | cons whole more fits outer ih => exact List.forall_mem_cons.mpr ⟨⟨_, rfl⟩, ih⟩

theorem count (counted : Counted ds sizes vs) {i : Nat} {declared size : Int}
    {values : List RedisValue} (at_ : ds[i]? = some declared) (remaining : sizes[i]? = some size)
    (stored : vs[i]? = some (.array values)) : 1 ≤ size ∧ size = declared - values.length := by
  induction counted generalizing i with
  | nil => cases at_
  | cons whole more fits outer ih =>
    cases i with
    | zero =>
      cases at_
      cases remaining
      cases stored
      omega
    | succ i => exact ih at_ remaining stored

/-- The arrays that are still open behind a value. -/
theorem closeArrays (outer : Counted ds sizes vs) {declared size : Int}
    {values : List RedisValue} (whole : size - 1 + values.length = declared) (more : 1 ≤ size)
    (fits : declared < 2 ^ 63) (value : RedisValue) :
    ∃ closed, RedisParser.closeArrays (size :: sizes) (.array values :: vs) value = some closed ∧
      Counted ((declared :: ds).drop (ds.length + 1 - closed.1.length)) closed.1 closed.2.1 := by
  have open_ : size - 1 ≠ 0 → wrap (size - 1) = size - 1 := by
    intro left
    exact wrap_of_small (by omega) (by omega)
  induction outer generalizing declared size values value with
  | nil =>
    rw [RedisParser.closeArrays.eq_def]
    simp only
    split
    · exact ⟨_, rfl, .nil⟩
    · rename_i left
      rw [open_ left]
      exact ⟨_, rfl, .cons whole (by omega) fits .nil⟩
  | @cons ds sizes vs declared' size' values' whole' more' fits' outer ih =>
    rw [RedisParser.closeArrays.eq_def]
    simp only
    split
    · -- the array that is closed is an element of the next one
      have longer : size' - 1 + (values' ++ [RedisValue.array values]).length = declared' := by
        rw [List.length_append, List.length_singleton]
        omega
      obtain ⟨closed, same, counted⟩ := ih longer more' fits' (.array values)
        fun left => wrap_of_small (by omega) (by omega)
      refine ⟨closed, ?_, ?_⟩
      · simp only [List.cons_ne_nil, if_false, RedisValue.pushBack, Option.bind_some]
        exact same
      · have heights := counted.length.1
        rw [List.length_drop, List.length_cons] at heights
        have later : (declared' :: ds).length + 1 - closed.1.length =
            (ds.length + 1 - closed.1.length) + 1 := by
          rw [List.length_cons]
          omega
        rw [later, List.drop_succ_cons]
        exact counted
    · rename_i left
      rw [open_ left]
      have whole_ : (declared' :: ds).length + 1 - ((size - 1) :: size' :: sizes).length = 0 := by
        have heights := outer.length.1
        simp only [List.length_cons]
        omega
      refine ⟨_, rfl, ?_⟩
      rw [whole_]
      exact .cons whole (by omega) fits (.cons whole' more' fits' outer)

theorem finish {p q : RedisParser} (counted : Counted ds p.arraySizes p.arrayValues)
    (finished : p.finish = some q) :
    Counted (ds.drop (ds.length - q.arraySizes.length)) q.arraySizes q.arrayValues := by
  obtain ⟨states, bulkSize, buf, redisValue, arraySizes, arrayValues⟩ := p
  cases counted with
  | nil =>
    cases finished
    exact .nil
  | @cons ds sizes vs declared size values whole more fits outer =>
    have longer : size - 1 + (values ++ [redisValue]).length = declared := by
      rw [List.length_append, List.length_singleton]
      omega
    obtain ⟨closed, same, counted⟩ := outer.closeArrays longer more fits redisValue
    rw [RedisParser.finish, if_neg (List.cons_ne_nil _ _)] at finished
    simp only [RedisValue.pushBack, Option.bind_some, same, Option.map_some] at finished
    cases finished
    exact counted

end Counted

/-- The declared sizes behind an octet. The octet that leads to a first element ends a
header, whose number is in the buffer; arrays that are closed take their sizes along. -/
def declare (ndebug : Bool) (p : RedisParser) (declared : List Int) (q : RedisParser)
    (next : State) : List Int :=
  if next = .startArray then (bufToLong ndebug p.buf).getD 0 :: declared
  else declared.drop (declared.length - q.arraySizes.length)

/-- Behind the octets of a call. -/
def declareAll (ndebug : Bool) (p : RedisParser) (state : State) (declared : List Int) :
    Bytes → List Int
  | [] => declared
  | c :: rest =>
    match p.octet ndebug state c with
    | some (.more q next) => declareAll ndebug q next (declare ndebug p declared q next) rest
    | _ => []

section Octets
variable {ndebug : Bool} {p q : RedisParser} {state next : State} {declared : List Int}

theorem declare_same (different : next ≠ .startArray)
    (counted : Counted declared q.arraySizes q.arrayValues) :
    Counted (declare ndebug p declared q next) q.arraySizes q.arrayValues := by
  rw [declare, if_neg different, counted.length.1, Nat.sub_self, List.drop_zero]
  exact counted

theorem octet_counted (stands : p.Stands state)
    (counted : Counted declared p.arraySizes p.arrayValues)
    (read : p.octet ndebug state c = some (.more q next)) :
    Counted (declare ndebug p declared q next) q.arraySizes q.arrayValues := by
  have how := turned ndebug stands.ready stands.states c
  rw [octet] at read
  generalize p.turn ndebug state c [] = ended at how read
  cases how with
  | asserted field place ends refused => cases read
  | onward kept ready numbered inside =>
    change Turn.settle _ = _ at read
    rw [Turn.settle, if_neg inside.1] at read
    cases read
    refine declare_same inside.2 ?_
    rw [kept.arraySizes, kept.arrayValues]
    exact counted
  | value kept =>
    change Turn.settle _ = _ at read
    rw [Turn.settle, if_pos rfl] at read
    obtain ⟨r, finished, ended⟩ := Option.map_eq_some_iff.mp read
    split at ended
    · cases ended
    · cases ended
      rw [declare, if_neg (by decide)]
      refine Counted.finish ?_ finished
      simp only [kept.arraySizes, kept.arrayValues]
      exact counted
  | array place ends length positive =>
    cases read
    rw [declare, if_pos rfl, length, Option.getD_some]
    exact .cons (by simp) (by omega) (bufToLong_lt length) counted
  | failed kept => cases read

theorem run_counted {data : Bytes} (stands : p.Stands state)
    (counted : Counted declared p.arraySizes p.arrayValues)
    (ran : run ndebug p state data = some (progress, unread)) :
    (∀ q next, progress = .more q next →
      Counted (declareAll ndebug p state declared data) q.arraySizes q.arrayValues) ∧
    (∀ q, progress = .done q →
      Counted (declareAll ndebug p state declared data) q.arraySizes q.arrayValues) := by
  induction data generalizing p state declared with
  | nil =>
    cases ran
    refine ⟨?_, nofun⟩
    intro q next same
    cases same
    exact counted
  | cons c rest ih =>
    rw [run_cons] at ran
    obtain ⟨reached, read, onward⟩ := Option.bind_eq_some_iff.mp ran
    have stands' := octet_stands stands read
    rw [declareAll, read]
    cases reached with
    | more q next => exact ih stands' (octet_counted stands counted read) onward
    | done q =>
      cases onward
      refine ⟨nofun, ?_⟩
      intro r same
      cases same
      obtain ⟨standing, closed⟩ := stands'
      have none : q.arrayValues = [] :=
        List.eq_nil_of_length_eq_zero (by rw [← standing.stacked.matched, closed]; rfl)
      rw [closed, none]
      exact .nil
    | failed q =>
      cases onward
      exact ⟨nofun, nofun⟩

/-- Only an assertion about the digits of a number can end the program. -/
theorem run_asserted {data : Bytes} (stands : p.Stands state)
    (ended : run ndebug p state data = none) :
    ∃ front rest q, ∃ field : NumberField, data = front ++ lf :: rest ∧
      run ndebug p state front = some (.more q field.lineFeed, []) ∧
      bufToLong ndebug q.buf = none := by
  induction data generalizing p state with
  | nil => cases ended
  | cons c rest ih =>
    have how := octet_reaches ndebug stands c
    rw [run_cons] at ended
    cases read : p.octet ndebug state c with
    | none =>
      rw [read] at how
      cases how with
      | asserted field place ends refused =>
        exact ⟨[], rest, p, field, by rw [ends]; rfl, by rw [place]; rfl, refused⟩
    | some reached =>
      rw [read, Option.bind_some] at ended
      cases reached with
      | more q next =>
        obtain ⟨front, behind, r, field, split, ran, refused⟩ := ih (octet_stands stands read) ended
        refine ⟨c :: front, behind, r, field, by rw [split]; rfl, ?_, refused⟩
        rw [run_cons, read]
        exact ran
      | done q => cases ended
      | failed q => cases ended

end Octets

/-- A parser with the declared sizes of its open arrays. -/
structure Declared where
  parser : RedisParser
  sizes : List Int

/-- Chunks, none of which is answered with an error, and results that are taken. -/
inductive Fed (ndebug : Bool) : Declared → Prop
  | fresh : Fed ndebug ⟨fresh, []⟩
  | parse {s : Declared} (fed : Fed ndebug s) {chunk : Bytes} {answer : Answer}
      (parsed : s.parser.parse ndebug chunk = some answer) (accepted : answer.result ≠ .error) :
      Fed ndebug ⟨answer.parser,
        declareAll ndebug s.parser.resume.1 s.parser.resume.2 s.sizes chunk⟩
  | result {s : Declared} (fed : Fed ndebug s) : Fed ndebug ⟨s.parser.taken, s.sizes⟩

theorem Fed.reachable {s : Declared} (fed : Fed ndebug s) : Reachable ndebug s.parser := by
  induction fed with
  | fresh => exact .fresh
  | parse fed parsed accepted ih => exact ih.parse parsed
  | result fed ih => exact ih.result

theorem Fed.counted {s : Declared} (fed : Fed ndebug s) :
    Counted s.sizes s.parser.arraySizes s.parser.arrayValues := by
  induction fed with
  | fresh => exact .nil
  | @parse s fed chunk answer parsed accepted ih =>
    have stands := resume_stands fed.reachable
    have before : Counted s.sizes s.parser.resume.1.arraySizes s.parser.resume.1.arrayValues := by
      rw [resume_eq]
      exact ih
    by_cases more : chunk = []
    · subst more
      have same : s.parser.resume.1.suspend s.parser.resume.2 0 = answer := Option.some.inj parsed
      rw [← same, suspend]
      split
      · exact before
      · exact before
    · obtain ⟨⟨progress, unread⟩, ran, same⟩ :=
        Option.map_eq_some_iff.mp ((parse_eq_run ndebug s.parser more).symm.trans parsed)
      obtain ⟨onward, finished⟩ := run_counted stands before ran
      subst same
      cases progress with
      | more q state => exact onward q state rfl
      | done q => exact finished q rfl
      | failed q => exact absurd rfl accepted
  | result fed ih => exact ih

/-- The stacks between two octets. -/
structure Declared.Sound (s : Declared) : Prop where
  heights : s.parser.arraySizes.length = s.parser.arrayValues.length ∧
    s.sizes.length = s.parser.arraySizes.length
  arrays : ∀ v ∈ s.parser.arrayValues, ∃ values, v = .array values
  counts : ∀ {i : Nat} {declared size : Int} {values : List RedisValue},
    s.sizes[i]? = some declared → s.parser.arraySizes[i]? = some size →
      s.parser.arrayValues[i]? = some (.array values) →
        1 ≤ size ∧ size = declared - values.length
  states : s.parser.states.length ≤ 1
  bulk : s.parser.resume.2 = .bulk → 0 < s.parser.bulkSize

/-- As long as no call has answered with an error the stacks are sound, and a call ends the
program for the digits of a number only. -/
theorem fed_sound {ndebug : Bool} {s : Declared} (fed : Fed ndebug s) :
    s.Sound ∧ ∀ chunk, s.parser.parse ndebug chunk = none →
      ∃ front rest q, ∃ field : NumberField, chunk = front ++ lf :: rest ∧
        run ndebug s.parser.resume.1 s.parser.resume.2 front = some (.more q field.lineFeed, []) ∧
        bufToLong ndebug q.buf = none := by
  have stands := resume_stands fed.reachable
  have counted := fed.counted
  constructor
  · refine ⟨⟨counted.length.2, counted.length.1⟩, counted.arrays, counted.count, ?_, ?_⟩
    · have rest := stands.states
      rw [resume_eq] at rest
      have lengths := congrArg List.length rest
      rw [List.length_tail, List.length_nil] at lengths
      omega
    · intro place
      have positive := stands.ready.bulk place
      rw [resume_eq] at positive
      exact positive
  · intro chunk ended
    by_cases more : chunk = []
    · subst more
      cases ended
    · rw [parse_eq_run ndebug s.parser more, Option.map_eq_none_iff] at ended
      exact run_asserted stands ended

/-- An array in an array, with an element of the inner one. -/
def openArrays : Bytes := Bytes.ofAscii "*3\r\n*2\r\n:1\r\n"

theorem fed_sound_openArrays :
    ∃ s : Declared, s.sizes = [2, 3] ∧ s.parser.arraySizes = [1, 3] ∧ s.Sound := by
  have parsed : ∃ answer, fresh.parse false openArrays = some answer ∧
      answer.result = .incompleted ∧ answer.parser.arraySizes = [1, 3] := ⟨_, rfl, rfl, rfl⟩
  obtain ⟨answer, parsed, result, sizes⟩ := parsed
  have accepted : answer.result ≠ .error := by
    rw [result]
    decide
  have declared : declareAll false fresh .start [] openArrays = [2, 3] := by decide
  exact ⟨_, declared, sizes, (fed_sound (Fed.fresh.parse parsed accepted)).1⟩

end RedisParser
end Da4qi4.Redis
