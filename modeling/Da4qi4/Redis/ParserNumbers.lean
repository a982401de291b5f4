import Da4qi4.Redis.ParserStates

/-! The numbers of a reply: integers and lengths, from their type octet to their line
end. The parser lets any digits and minus signs into a number and evaluates them in
64 bits, whatever their order and count. -/
namespace Da4qi4.Redis

/-- What is behind the sign. -/
def digitsOf : Bytes → Bytes
  | [] => []
  | c :: rest => if c = minus then rest else c :: rest

/-- The decimal value, by the octets as they are. -/
def weight (digits : Bytes) : Int :=
  digits.foldl (fun value c => value * 10 + (c.toInt8.toInt - 48)) 0

def signed (token : Bytes) : Int :=
  if token.head? = some minus then -weight (digitsOf token) else weight (digitsOf token)

def AllDigits (token : Bytes) : Prop := ∀ c ∈ token, isDigit c = true

instance (token : Bytes) : Decidable (AllDigits token) :=
  inferInstanceAs (Decidable (∀ c ∈ token, _))

/-- An optional minus sign and digits, whose value has 64 bits. -/
structure IsNumber (token : Bytes) : Prop where
  filled : digitsOf token ≠ []
  digits : AllDigits (digitsOf token)
  low : -2 ^ 63 ≤ signed token
  high : signed token < 2 ^ 63

theorem wrap_addDigit (value digit : Int) :
    wrap (wrap value * 10 + digit) = wrap (value * 10 + digit) := by
  rw [wrap, wrap, wrap, Int.bmod_add_cancel_right, Int.bmod_mul_bmod]

theorem addDigits_eq (ndebug : Bool) (value : Int) (digits : Bytes) :
    addDigits ndebug (wrap value) digits =
      if ndebug = true ∨ AllDigits digits then
        some (wrap (digits.foldl (fun value c => value * 10 + (c.toInt8.toInt - 48)) value))
      else none := by
  induction digits generalizing value with
  | nil =>
    rw [addDigits, if_pos (.inr (List.forall_mem_nil _))]
    rfl
  | cons c digits ih =>
    have digits_cons : (ndebug = true ∨ AllDigits (c :: digits)) ↔
        (ndebug = true ∨ isDigit c = true) ∧ (ndebug = true ∨ AllDigits digits) := by
      rw [AllDigits, List.forall_mem_cons, or_and_left]
      rfl
    rw [addDigits, wrap_addDigit, ih, List.foldl_cons, if_congr digits_cons rfl rfl, ite_and]

theorem bufToLong_eq (ndebug : Bool) (token : Bytes) :
    bufToLong ndebug token =
      if ndebug = true ∨ AllDigits (digitsOf token) then some (wrap (signed token)) else none := by
  have read (digits : Bytes) : addDigits ndebug 0 digits =
      if ndebug = true ∨ AllDigits digits then some (wrap (weight digits)) else none :=
    addDigits_eq ndebug 0 digits
  have negated (value : Int) : wrap (-wrap value) = wrap (-value) := Int.bmod_neg_bmod
  cases token with
  | nil =>
    rw [if_pos (.inr (List.forall_mem_nil _))]
    rfl
  | cons c rest =>
    rw [bufToLong, digitsOf, signed, List.head?_cons, digitsOf]
    by_cases sign : c = minus
    · rw [if_pos sign, if_pos sign, if_pos (congrArg some sign)]
      split
      · rename_i none
        rw [none, if_pos (.inr (List.forall_mem_nil _))]
        rfl
      · rw [read]
        split
        · rw [Option.map_some, negated]
        · rfl
    · rw [if_neg sign, if_neg sign, if_neg fun same => sign (Option.some.inj same), read]

theorem IsNumber.bufToLong {token : Bytes} (number : IsNumber token) (ndebug : Bool) :
    bufToLong ndebug token = some (signed token) := by
  have whole : wrap (signed token) = signed token :=
    Int.bmod_eq_of_le (by have := number.low; omega) (by have := number.high; omega)
  rw [bufToLong_eq, if_pos (.inr number.digits), whole]

theorem IsNumber.loose {token : Bytes} (number : IsNumber token) : Loose token := by
  intro c member
  cases token with
  | nil => cases member
  | cons d rest =>
    have digits := number.digits
    rw [digitsOf] at digits
    split at digits
    · rename_i sign
      rcases List.mem_cons.mp member with rfl | behind
      · rw [sign]
        decide
      · rw [digits c behind, Bool.true_or]
    · rw [digits c member, Bool.true_or]

theorem IsNumber.ne_nil {token : Bytes} (number : IsNumber token) : token ≠ [] := by
  rintro rfl
  exact number.filled rfl

/-- What the value of a number does to the parser. -/
def NumberField.uses (field : NumberField) (p : RedisParser) (value : Int) :
    Option RedisParser.Progress :=
  (field.take p value).bind fun
    | .error p => some (.failed p)
    | .ok t => t.settle

namespace RedisParser

/-- A number in a stream, from its first octet to its line end. -/
structure Place (ndebug : Bool) (data front token rest : Bytes) (field : NumberField)
    (p : RedisParser) : Prop where
  split : data = front ++ (token ++ cr :: lf :: rest)
  line : cr ∉ token
  begins : run ndebug fresh .start front = some (.more p field.state, [])
  empty : p.buf = []

/-- Every number is used for what it is, and nothing else is taken for a number. -/
structure Exact (ndebug : Bool) (data : Bytes) : Prop where
  asserted : fresh.parse ndebug data ≠ none
  used : ∀ {front token rest field p}, Place ndebug data front token rest field p →
    IsNumber token → fresh.parse ndebug (front ++ (token ++ [cr, lf])) =
      (field.uses { p with buf := token } (signed token)).map fun progress =>
        progress.answer (front ++ (token ++ [cr, lf])).length
  refused : ∀ {front token rest field p}, Place ndebug data front token rest field p →
    ¬IsNumber token → ∃ n final,
      fresh.parse ndebug (front ++ (token ++ [cr, lf])) = some ⟨n, .error, final⟩
  completed : ∀ {n final}, fresh.parse ndebug data = some ⟨n, .completed, final⟩ →
    ∀ {front token rest field p}, Place ndebug data front token rest field p → IsNumber token

/-- What the parser refuses: another octet, nothing at all, or a length whose value in
64 bits is below -1. Behind the first octet a minus sign is a digit of value -3, unless
the assertion is there to refuse it. -/
def Refused (ndebug : Bool) (field : NumberField) (token : Bytes) : Prop :=
  ¬Loose token ∨ token = [] ∨
    (field ≠ .integer ∧ (ndebug = true ∨ AllDigits (digitsOf token)) ∧ wrap (signed token) < -1)

def Tame (ndebug : Bool) (field : NumberField) (token : Bytes) : Prop :=
  IsNumber token ∨ Refused ndebug field token

theorem octet_number {p : RedisParser} (field : NumberField) (c : UInt8) :
    p.turn ndebug field.state c [] = p.numberOctet field.state field.lineFeed c :=
  field.reads.2.2 ndebug p c

/-- An octet that belongs to no number, or a line end without one. -/
theorem run_number_refused (ndebug : Bool) (field : NumberField) (p : RedisParser) {token : Bytes}
    (line : cr ∉ token) (wrong : ¬Loose token ∨ p.buf ++ token = []) (rest : Bytes) :
    ∃ q unread, run ndebug p field.state (token ++ cr :: rest) = some (.failed q, unread) := by
  induction token generalizing p with
  | nil =>
    have empty : p.buf = [] := by
      rcases wrong with unloose | empty
      · exact absurd (List.forall_mem_nil _) unloose
      · exact List.append_nil p.buf ▸ empty
    have failed : p.turn ndebug field.state cr [] = p.fail := by
      rw [octet_number, numberOctet, if_pos rfl, if_pos empty]
    rw [List.nil_append, run_cons, octet_fail failed]
    exact ⟨_, rest, rfl⟩
  | cons c token ih =>
    obtain ⟨notEnd, line⟩ := not_or.mp (List.mem_cons.not.mp line)
    have unloose : ¬Loose (c :: token) :=
      wrong.resolve_right (List.append_ne_nil_of_right_ne_nil _ (List.cons_ne_nil _ _))
    rw [List.cons_append]
    by_cases digit : (isDigit c || c == minus) = true
    · have stored : p.turn ndebug field.state c [] =
          { p with buf := p.buf ++ [c] }.next field.state := by
        rw [octet_number, numberOctet, if_neg (Ne.symm notEnd), if_pos digit]
      rw [run_of_octet (octet_next stored field.reads.1)]
      refine ih _ line (.inl fun loose => unloose ?_)
      exact List.forall_mem_cons.mpr ⟨digit, loose⟩
    · have failed : p.turn ndebug field.state c [] = p.fail := by
        rw [octet_number, numberOctet, if_neg (Ne.symm notEnd), if_neg digit]
      rw [run_cons, octet_fail failed]
      exact ⟨_, token ++ cr :: rest, rfl⟩

theorem octet_lineFeed (ndebug : Bool) (field : NumberField) (p : RedisParser) :
    p.octet ndebug field.lineFeed lf = (bufToLong ndebug p.buf).bind (field.uses p) := by
  rw [octet, field.turn_lineFeed, if_pos rfl, Option.bind_assoc]
  rfl

theorem settle_ne_failed (t : Turn) (q : RedisParser) : t.settle ≠ some (.failed q) := by
  intro failed
  rw [Turn.settle] at failed
  split at failed
  · obtain ⟨r, -, ended⟩ := Option.map_eq_some_iff.mp failed
    split at ended
    · cases ended
    · cases ended
  · cases failed

theorem uses_of_taken {field : NumberField} {p : RedisParser} {t : Turn}
    (taken : field.take p value = some (.ok t)) : ¬∃ q, field.uses p value = some (.failed q) := by
  rintro ⟨q, failed⟩
  rw [NumberField.uses, taken, Option.bind_some] at failed
  exact settle_ne_failed t q failed

/-- A value is refused exactly as a length below -1. -/
theorem uses_failed_iff (field : NumberField) (p : RedisParser) (value : Int) :
    (∃ q, field.uses p value = some (.failed q)) ↔ field ≠ .integer ∧ value < -1 := by
  have refused {q : RedisParser} (taken : field.take p value = some (.error q)) :
      ∃ q, field.uses p value = some (.failed q) := by
    refine ⟨q, ?_⟩
    rw [NumberField.uses, taken, Option.bind_some]
  cases field with
  | integer => exact iff_of_false (uses_of_taken rfl) fun low => low.1 rfl
  | bulkSize =>
    have taken : NumberField.bulkSize.take p value = p.openBulk value [] := rfl
    rw [openBulk] at taken
    split at taken
    · exact iff_of_false (uses_of_taken taken) (by omega)
    · split at taken
      · exact iff_of_false (uses_of_taken taken) (by omega)
      · split at taken
        · exact iff_of_true (refused taken) ⟨by decide, by omega⟩
        · exact iff_of_false (uses_of_taken taken) (by omega)
  | arraySize =>
    have taken : NumberField.arraySize.take p value = p.openArray value := rfl
    rw [openArray] at taken
    split at taken
    · exact iff_of_false (uses_of_taken taken) (by omega)
    · split at taken
      · exact iff_of_false (uses_of_taken taken) (by omega)
      · split at taken
        · exact iff_of_true (refused taken) ⟨by decide, by omega⟩
        · exact iff_of_false (uses_of_taken taken) (by omega)

/-- A loose token is evaluated, whatever it is. -/
theorem Place.run_loose {p : RedisParser} (place : Place ndebug data front token rest field p)
    (loose : Loose token) (filled : token ≠ []) (behind : Bytes) :
    run ndebug fresh .start (front ++ (token ++ cr :: lf :: behind)) =
      ((bufToLong ndebug token).bind (field.uses { p with buf := token })).bind fun progress =>
        progress.andThen ndebug behind := by
  have buffered : p.buf ++ token = token := by rw [place.empty, List.nil_append]
  rw [run_append, place.begins, Option.bind_some]
  change run ndebug p field.state (token ++ cr :: lf :: behind) = _
  rw [run_number field.reads p loose (buffered.symm ▸ filled), buffered, run_cons, octet_lineFeed]

theorem Place.run_refused {p : RedisParser} (place : Place ndebug data front token rest field p)
    (wrong : ¬Loose token ∨ token = []) :
    ∃ q unread, run ndebug fresh .start (front ++ (token ++ [cr, lf])) =
      some (.failed q, unread) := by
  rw [run_append, place.begins, Option.bind_some]
  refine run_number_refused ndebug field p place.line ?_ [lf]
  rw [place.empty, List.nil_append]
  exact wrong

/-- The number that is being read, since its first octet. -/
def Begun (ndebug : Bool) (past : Bytes) (p : RedisParser) (field : NumberField) : Prop :=
  ∃ front q, past = front ++ p.buf ∧
    run ndebug fresh .start front = some (.more q field.state, []) ∧ q.buf = []

/-- A new parser behind the octets that it has read. -/
structure Tracks (ndebug : Bool) (past : Bytes) (p : RedisParser) (state : State) : Prop where
  stands : p.Stands state
  ran : run ndebug fresh .start past = some (.more p state, [])
  begun : ∀ field : NumberField, state = field.state → Begun ndebug past p field
  ended : ∀ field : NumberField, state = field.lineFeed →
    ∃ front, past = front ++ [cr] ∧ Begun ndebug front p field

theorem tracks_fresh (ndebug : Bool) : Tracks ndebug [] fresh .start := by
  have plain : Plain .start := by decide
  refine ⟨fresh_stands, rfl, fun field place => ?_, fun field place => ?_⟩
  · exact absurd place (plain.2 field).1
  · exact absurd place (plain.2 field).2

theorem Tracks.octet {p q : RedisParser} {state next : State} (tracks : Tracks ndebug past p state)
    (turned : p.octet ndebug state c = some (.more q next)) : Tracks ndebug (past ++ [c]) q next := by
  have ran : run ndebug fresh .start (past ++ [c]) = some (.more q next, []) := by
    rw [run_append, tracks.ran, Option.bind_some]
    change run ndebug p state [c] = _
    rw [run_cons, turned]
    rfl
  have stands : q.Stands next := octet_stands tracks.stands turned
  have how := octet_reaches ndebug tracks.stands c
  rw [turned] at how
  have plain {state : State} (plain : Plain state) {r : RedisParser} (stands : r.Stands state)
      (ran : run ndebug fresh .start (past ++ [c]) = some (.more r state, [])) :
      Tracks ndebug (past ++ [c]) r state := by
    refine ⟨stands, ran, fun field place => ?_, fun field place => ?_⟩
    · exact absurd place (plain.2 field).1
    · exact absurd place (plain.2 field).2
  cases how with
  | onward kept ready numbered inside =>
    refine ⟨stands, ran, fun field place => ?_, fun field place => ?_⟩
    · rcases (numbered field).1 place with ⟨-, -, empty⟩ | ⟨before, stored⟩
      · exact ⟨past ++ [c], q, by rw [empty, List.append_nil], place ▸ ran, empty⟩
      · obtain ⟨front, r, split, begins, empty⟩ := tracks.begun field before
        exact ⟨front, r, by rw [split, stored, List.append_assoc], begins, empty⟩
    · obtain ⟨before, rfl, same⟩ := (numbered field).2 place
      obtain ⟨front, r, split, begins, empty⟩ := tracks.begun field before
      exact ⟨past, rfl, front, r, by rw [split, same], begins, empty⟩
  | element => exact plain (by decide) stands ran
  | array => exact plain (by decide) stands ran

/-- Nothing but the assertion ends the program. -/
theorem Tracks.run_none {p : RedisParser} {state : State} (tracks : Tracks ndebug past p state)
    (ended : run ndebug p state data = none) :
    ∃ front token rest field q, Place ndebug (past ++ data) front token rest field q ∧
      Loose token ∧ token ≠ [] ∧ bufToLong ndebug token = none := by
  induction data generalizing past p state with
  | nil => cases ended
  | cons c rest ih =>
    rw [run_cons] at ended
    cases turned : p.octet ndebug state c with
    | none =>
      have how := octet_reaches ndebug tracks.stands c
      rw [turned] at how
      cases how with
      | asserted field place ends refused =>
        obtain ⟨before, rfl, front, q, rfl, begins, empty⟩ := tracks.ended field place
        have loose : Loose p.buf := tracks.stands.ready.loose field (.inr place)
        have line : cr ∉ p.buf := fun member => absurd (loose cr member) (by decide)
        refine ⟨front, p.buf, rest, field, q, ⟨?_, line, begins, empty⟩, loose,
          tracks.stands.ready.filled field place, refused⟩
        rw [ends, List.append_assoc, List.append_assoc]
        rfl
    | some progress =>
      rw [turned] at ended
      cases progress with
      | more q next =>
        have found := ih (tracks.octet turned) ended
        rw [List.append_assoc] at found
        exact found
      | done q => cases ended
      | failed q => cases ended

theorem parse_error_iff {data : Bytes} (more : data ≠ []) :
    (∃ n final, fresh.parse ndebug data = some ⟨n, .error, final⟩) ↔
      ∃ q unread, run ndebug fresh .start data = some (.failed q, unread) := by
  constructor
  · rintro ⟨n, final, failed⟩
    obtain ⟨⟨progress, unread⟩, ran, answer⟩ :=
      Option.map_eq_some_iff.mp ((parse_eq_run ndebug fresh more).symm.trans failed)
    cases progress with
    | failed q => exact ⟨q, unread, ran⟩
    | more q state => cases answer
    | done q => cases answer
  · rintro ⟨q, unread, ran⟩
    exact ⟨_, q, parse_of_run ran more⟩

theorem Place.refused_iff {p : RedisParser} (place : Place ndebug data front token rest field p) :
    (∃ q unread, run ndebug fresh .start (front ++ (token ++ [cr, lf])) = some (.failed q, unread)) ↔
      Refused ndebug field token := by
  by_cases wrong : ¬Loose token ∨ token = []
  · exact iff_of_true (place.run_refused wrong) (or_assoc.mp (.inl wrong))
  · obtain ⟨loose, filled⟩ := not_or.mp wrong
    rw [place.run_loose (not_not.mp loose) filled, bufToLong_eq]
    have low := uses_failed_iff field { p with buf := token } (wrap (signed token))
    have only : Refused ndebug field token ↔ (ndebug = true ∨ AllDigits (digitsOf token)) ∧
        field ≠ .integer ∧ wrap (signed token) < -1 := by
      rw [Refused, or_iff_right loose, or_iff_right filled, and_left_comm]
    rw [only]
    split
    · rename_i read
      rw [Option.bind_some, and_iff_right read, ← low]
      constructor
      · rintro ⟨q, unread, ran⟩
        obtain ⟨progress, used, ended⟩ := Option.bind_eq_some_iff.mp ran
        cases progress with
        | failed q => exact ⟨q, used⟩
        | more q state => cases ended
        | done q => cases ended
      · rintro ⟨q, used⟩
        exact ⟨q, [], by rw [used]; rfl⟩
    · rename_i asserted
      exact iff_of_false (fun ⟨_, _, ran⟩ => nomatch ran) fun read => asserted read.1

theorem Place.data_ne_nil (place : Place ndebug data front token rest field p) : data ≠ [] := by
  rw [place.split]
  exact List.append_ne_nil_of_right_ne_nil _
    (List.append_ne_nil_of_right_ne_nil _ (List.cons_ne_nil _ _))

theorem line_ne_nil (front token : Bytes) : front ++ (token ++ [cr, lf]) ≠ [] :=
  List.append_ne_nil_of_right_ne_nil _ (List.append_ne_nil_of_right_ne_nil _ (List.cons_ne_nil _ _))

theorem Place.used {p : RedisParser} (place : Place ndebug data front token rest field p)
    (number : IsNumber token) :
    fresh.parse ndebug (front ++ (token ++ [cr, lf])) =
      (field.uses { p with buf := token } (signed token)).map fun progress =>
        progress.answer (front ++ (token ++ [cr, lf])).length := by
  have ran := place.run_loose number.loose number.ne_nil []
  rw [number.bufToLong, Option.bind_some] at ran
  have parsed := parse_eq_run ndebug fresh (line_ne_nil front token)
  change _ = (run ndebug fresh .start (front ++ (token ++ [cr, lf]))).map _ at parsed
  rw [parsed, ran]
  cases field.uses { p with buf := token } (signed token) with
  | none => rfl
  | some progress => cases progress <;> rfl

/-- A refused number ends the reply that it is in. -/
theorem Place.not_completed {p : RedisParser} (place : Place ndebug data front token rest field p)
    (refused : ∃ q unread,
      run ndebug fresh .start (front ++ (token ++ [cr, lf])) = some (.failed q, unread)) :
    ∃ n final, fresh.parse ndebug data = some ⟨n, .error, final⟩ := by
  obtain ⟨q, unread, failed⟩ := refused
  have whole : data = (front ++ (token ++ [cr, lf])) ++ rest := by
    rw [place.split, List.append_assoc, List.append_assoc]
    rfl
  have ran : run ndebug fresh .start data = some (.failed q, unread ++ rest) := by
    rw [whole, run_append, failed]
    rfl
  exact ⟨_, q, parse_of_run ran place.data_ne_nil⟩

/-- The numbers of a stream are read for what they are exactly if each of them is a
number or is refused. -/
theorem exact_iff (ndebug : Bool) (data : Bytes) :
    Exact ndebug data ↔ ∀ {front token rest field p},
      Place ndebug data front token rest field p → Tame ndebug field token := by
  constructor
  · intro exact_ front token rest field p place
    by_cases number : IsNumber token
    · exact .inl number
    · exact .inr (place.refused_iff.mp
        ((parse_error_iff (line_ne_nil front token)).mp (exact_.refused place number)))
  · intro tame
    have refused {front token rest : Bytes} {field : NumberField} {p : RedisParser}
        (place : Place ndebug data front token rest field p) (wrong : ¬IsNumber token) :=
      place.refused_iff.mpr ((tame place).resolve_left wrong)
    constructor
    · intro asserted
      have more : data ≠ [] := by
        rintro rfl
        cases asserted
      have ran : run ndebug fresh .start data = none :=
        Option.map_eq_none_iff.mp ((parse_eq_run ndebug fresh more).symm.trans asserted)
      obtain ⟨front, token, rest, field, p, place, loose, filled, none⟩ :=
        (tracks_fresh ndebug).run_none ran
      rcases tame place with number | unloose | empty | ⟨-, read, -⟩
      · rw [number.bufToLong] at none
        cases none
      · exact unloose loose
      · exact filled empty
      · rw [bufToLong_eq, if_pos read] at none
        cases none
    · exact fun place number => place.used number
    · intro front token rest field p place wrong
      exact (parse_error_iff (line_ne_nil front token)).mpr (refused place wrong)
    · intro n final completed front token rest field p place
      by_contra wrong
      obtain ⟨m, q, failed⟩ := place.not_completed (refused place wrong)
      rw [completed] at failed
      cases failed

/-- An integer that is a minus sign is taken for 0. -/
theorem exact_minus : ¬Exact false [58, 45, 13, 10] := by
  intro exact_
  have place : Place false [58, 45, 13, 10] [58] [45] [] .integer fresh :=
    ⟨rfl, by decide, rfl, rfl⟩
  have completed : fresh.parse false [58, 45, 13, 10] =
      some ⟨4, .completed, { fresh with redisValue := .int 0 }⟩ := rfl
  have number : IsNumber [45] := exact_.completed completed place
  exact number.filled rfl

end RedisParser
end Da4qi4.Redis
