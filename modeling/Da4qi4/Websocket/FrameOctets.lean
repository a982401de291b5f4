import Da4qi4.Websocket.FrameCodec

/-! The parser, one octet at a time. A part parser indexes its target from the
start of each call, so what an octet does depends on its place in its field and
on its place in its chunk: it is stored at the smaller of the two. -/
namespace Da4qi4.Websocket.FrameParser

/-- The width of the extended length that the length code asks for. -/
def extWidth (p : FrameParser) : Nat := if p.frameHeader.payloadLen = 126 then 2 else 8

/-- Octets of an extended length, stored from `address` on. -/
def storeLength (p : FrameParser) (address : Nat) (block : Bytes) : FrameParser :=
  { p with
    frameHeader :=
      if p.frameHeader.payloadLen = 126 then
        { p.frameHeader with extPayloadLen16 := p.frameHeader.extPayloadLen16.copy address block }
      else { p.frameHeader with extPayloadLen64 := p.frameHeader.extPayloadLen64.copy address block }
    payloadLenOffset := p.payloadLenOffset + block.length }

def closeLength (p : FrameParser) : FrameParser :=
  if p.payloadLenOffset = p.extWidth then p.decodeExtenedPayloadLen else p

/-- Octets of a masking key, stored from `address` on. -/
def storeKey (p : FrameParser) (address : Nat) (block : Bytes) : FrameParser :=
  { p with
    frameHeader := { p.frameHeader with maskingKey := p.frameHeader.maskingKey.copy address block }
    maskingKeyPos := p.maskingKeyPos + block.length }

def closeKey (p : FrameParser) : FrameParser :=
  if p.maskingKeyPos = 4 then { p with parserStep := .payloadData } else p

/-- Octets of a payload, unmasked with the key from `address` on. -/
def storePayload (p : FrameParser) (address : Nat) (block : Bytes) : FrameParser :=
  { p with
    payload := p.payload ++
      if p.frameHeader.mask ≠ 0 then
        Bytes.xorFrom (fun i => p.frameHeader.maskingKey.load (i % 4)) address block
      else block }

def closePayload (p : FrameParser) : FrameParser × List Message :=
  if p.payload.length = p.frameHeader.payloadRealyLen then (reset, [p.message p.payload])
  else (p, [])

/-- `none` once the truncated remainder is zero before the payload is complete:
the loop then calls the part parser for ever. -/
def payloadOctet (p : FrameParser) (place : Nat) (octet : UInt8) :
    Option (FrameParser × List Message) :=
  if p.payload.length = p.frameHeader.payloadRealyLen then
    -- an announced length of zero is noticed only when the next octet arrives
    some ((parseFixedHeader reset [octet]).parser, [p.message p.payload])
  else if p.payload.length = p.frameHeader.payloadRealyLen % 2 ^ 32 then none
  else some (p.storePayload (min p.payload.length place) [octet]).closePayload

def octetStep (p : FrameParser) (octet : UInt8) (place : Nat) :
    Option (FrameParser × List Message) :=
  match p.parserStep with
  | .fixedHeader => some ((parseFixedHeader p [octet]).parser, [])
  | .payloadLen => some ((parsePayloadLen p [octet]).parser, (parsePayloadLen p [octet]).messages)
  | .extenedPayloadLen =>
    some ((p.storeLength (min p.payloadLenOffset place) [octet]).closeLength, [])
  | .maskingKey => some ((p.storeKey (min p.maskingKeyPos place) [octet]).closeKey, [])
  | .payloadData => p.payloadOctet place octet

/-- Octets with their places in their chunks. -/
abbrev Tape := List (UInt8 × Nat)

/-- A result whose callbacks come after earlier ones. -/
def after (messages : List Message) (result : Option (FrameParser × List Message)) :
    Option (FrameParser × List Message) :=
  result.map fun l => (l.1, messages ++ l.2)

def run (p : FrameParser) : Tape → Option (FrameParser × List Message)
  | [] => some (p, [])
  | (octet, place) :: tape => (p.octetStep octet place).bind fun r => after r.2 (run r.1 tape)

@[simp] theorem after_none (messages : List Message) : after messages none = none := rfl

@[simp] theorem after_some (messages : List Message) (r : FrameParser × List Message) :
    after messages (some r) = some (r.1, messages ++ r.2) := rfl

@[simp] theorem after_nil (result : Option (FrameParser × List Message)) :
    after [] result = result := by
  cases result <;> rfl

@[simp] theorem after_after (first second : List Message)
    (result : Option (FrameParser × List Message)) :
    after first (after second result) = after (first ++ second) result := by
  cases result <;> simp

theorem run_append (p : FrameParser) (first second : Tape) :
    run p (first ++ second) = (run p first).bind fun r => after r.2 (run r.1 second) := by
  induction first generalizing p with
  | nil => simp [run]
  | cons item rest ih =>
    obtain ⟨octet, place⟩ := item
    simp only [List.cons_append, run]
    cases p.octetStep octet place with
    | none => rfl
    | some r =>
      simp only [Option.bind_some, ih]
      cases run r.1 rest <;> simp

theorem run_step {p q : FrameParser} (stepped : p.octetStep octet place = some (q, messages))
    (tape : Tape) : run p ((octet, place) :: tape) = after messages (run q tape) := by
  rw [run, stepped]
  rfl

section Blocks
variable (p : FrameParser) (address : Nat) (first second : Bytes)

@[simp] theorem storeLength_code :
    (p.storeLength address first).frameHeader.payloadLen = p.frameHeader.payloadLen := by
  simp only [storeLength]
  split <;> rfl

@[simp] theorem storeLength_width : (p.storeLength address first).extWidth = p.extWidth := by
  rw [extWidth, storeLength_code, extWidth]

theorem storeLength_append :
    (p.storeLength address first).storeLength (address + first.length) second =
      p.storeLength address (first ++ second) := by
  by_cases code : p.frameHeader.payloadLen = 126 <;>
    simp [storeLength, code, Memory.copy_append, Nat.add_assoc]

theorem storeLength_nil : p.storeLength address [] = p := by
  simp [storeLength, Memory.copy]

theorem storeKey_append :
    (p.storeKey address first).storeKey (address + first.length) second =
      p.storeKey address (first ++ second) := by
  simp [storeKey, Memory.copy_append, Nat.add_assoc]

theorem storeKey_nil : p.storeKey address [] = p := by
  simp [storeKey, Memory.copy]

@[simp] theorem storePayload_length :
    (p.storePayload address first).payload.length = p.payload.length + first.length := by
  simp only [storePayload, List.length_append]
  split <;> simp

theorem storePayload_append :
    (p.storePayload address first).storePayload (address + first.length) second =
      p.storePayload address (first ++ second) := by
  by_cases masked : p.frameHeader.mask = 0 <;>
    simp [storePayload, masked, Bytes.xorFrom_append]

theorem storePayload_nil : p.storePayload address [] = p := by
  simp [storePayload, Bytes.xorFrom]

end Blocks

/-- A part of a frame that arrives octet by octet: where its octets go, and what
happens when the last one is there. -/
structure FrameField where
  step : ParserStep
  width : FrameParser → Nat
  stored : FrameParser → Nat
  store : FrameParser → Nat → Bytes → FrameParser
  close : FrameParser → FrameParser × List Message
  store_step : ∀ p address block, (store p address block).parserStep = p.parserStep
  store_width : ∀ p address block, width (store p address block) = width p
  store_stored : ∀ p address block, stored (store p address block) = stored p + block.length
  store_nil : ∀ p address, store p address [] = p
  store_append : ∀ p address first second,
    store (store p address first) (address + first.length) second = store p address (first ++ second)
  close_open : ∀ p, stored p < width p → close p = (p, [])
  octetStep_eq : ∀ p octet place, p.parserStep = step → stored p < width p →
    p.octetStep octet place = some (close (store p (min (stored p) place) [octet]))

def lengthField : FrameField where
  step := .extenedPayloadLen
  width := extWidth
  stored := payloadLenOffset
  store := storeLength
  close p := (p.closeLength, [])
  store_step _ _ _ := rfl
  store_width := storeLength_width
  store_stored _ _ _ := rfl
  store_nil := storeLength_nil
  store_append := storeLength_append
  close_open p room := by rw [closeLength, if_neg (Nat.ne_of_lt room)]
  octetStep_eq p octet place step _ := by rw [octetStep, step]

def keyField : FrameField where
  step := .maskingKey
  width _ := 4
  stored := maskingKeyPos
  store := storeKey
  close p := (p.closeKey, [])
  store_step _ _ _ := rfl
  store_width _ _ _ := rfl
  store_stored _ _ _ := rfl
  store_nil := storeKey_nil
  store_append := storeKey_append
  close_open p room := by rw [closeKey, if_neg (Nat.ne_of_lt room)]
  octetStep_eq p octet place step _ := by rw [octetStep, step]

def payloadField : FrameField where
  step := .payloadData
  width p := p.frameHeader.payloadRealyLen % 2 ^ 32
  stored p := p.payload.length
  store := storePayload
  close := closePayload
  store_step _ _ _ := rfl
  store_width _ _ _ := rfl
  store_stored := storePayload_length
  store_nil := storePayload_nil
  store_append := storePayload_append
  close_open p room := by
    have truncated := Nat.mod_le p.frameHeader.payloadRealyLen (2 ^ 32)
    rw [closePayload, if_neg (by omega)]
  octetStep_eq p octet place step room := by
    have truncated := Nat.mod_le p.frameHeader.payloadRealyLen (2 ^ 32)
    simp only [octetStep, step, payloadOctet]
    rw [if_neg (by omega), if_neg (by omega)]

namespace FrameField

/-- Each octet at the smaller of its two offsets. -/
def deposit (F : FrameField) (p : FrameParser) : Tape → FrameParser
  | [] => p
  | (octet, place) :: tape => F.deposit (F.store p (min (F.stored p) place) [octet]) tape

variable (F : FrameField)

theorem deposit_zipIdx (p : FrameParser) (block : Bytes) (place : Nat) :
    F.deposit p (block.zipIdx place) = F.store p (min (F.stored p) place) block := by
  induction block generalizing p place with
  | nil => exact (F.store_nil p _).symm
  | cons octet rest ih =>
    have address : min (F.stored p + 1) (place + 1) = min (F.stored p) place + [octet].length := by
      rw [List.length_singleton]
      omega
    rw [List.zipIdx_cons, deposit, ih, F.store_stored, List.length_singleton, address,
      F.store_append, List.singleton_append]

theorem run_deposit {p : FrameParser} (step : p.parserStep = F.step) (field : Tape)
    (some_octet : field ≠ []) (room : F.stored p + field.length ≤ F.width p) (tape : Tape) :
    run p (field ++ tape) =
      after (F.close (F.deposit p field)).2 (run (F.close (F.deposit p field)).1 tape) := by
  induction field generalizing p with
  | nil => exact absurd rfl some_octet
  | cons item rest ih =>
    obtain ⟨octet, place⟩ := item
    rw [List.length_cons] at room
    have stepped := F.octetStep_eq p octet place step (by omega)
    rw [List.cons_append, run, stepped, Option.bind_some, deposit]
    by_cases last : rest = []
    · rw [last]
      rfl
    · have more : 0 < rest.length := List.length_pos_iff.mpr last
      have room' : F.stored (F.store p (min (F.stored p) place) [octet]) + rest.length ≤
          F.width (F.store p (min (F.stored p) place) [octet]) := by
        rw [F.store_stored, F.store_width, List.length_singleton]
        omega
      rw [F.close_open _ (by omega), after_nil, ih ((F.store_step _ _ _).trans step) last room']

theorem deposit_stored (p : FrameParser) (field : Tape) :
    F.stored (F.deposit p field) = F.stored p + field.length := by
  induction field generalizing p with
  | nil => rfl
  | cons item rest ih =>
    rw [deposit, ih, F.store_stored, List.length_singleton, List.length_cons, Nat.add_right_comm,
      Nat.add_assoc]

theorem deposit_width (p : FrameParser) (field : Tape) :
    F.width (F.deposit p field) = F.width p := by
  induction field generalizing p with
  | nil => rfl
  | cons item rest ih => rw [deposit, ih, F.store_width]

/-- A field that stays open keeps its octets for later. -/
theorem run_open {p : FrameParser} (step : p.parserStep = F.step) (field : Tape)
    (room : F.stored p + field.length < F.width p) :
    run p field = some (F.deposit p field, []) := by
  by_cases none : field = []
  · rw [none]
    rfl
  · have short : F.stored (F.deposit p field) < F.width (F.deposit p field) := by
      rw [F.deposit_stored, F.deposit_width]
      exact room
    have ran := F.run_deposit step field none (Nat.le_of_lt room) []
    rw [List.append_nil, F.close_open _ short] at ran
    exact ran

end FrameField

/-- The states between calls. -/
def Coherent (p : FrameParser) : Prop :=
  match p.parserStep with
  | .fixedHeader => p = reset
  | .payloadLen => p.payloadLenOffset = 0 ∧ p.maskingKeyPos = 0 ∧ p.payload = []
  | .extenedPayloadLen =>
    (p.frameHeader.payloadLen = 126 ∨ p.frameHeader.payloadLen = 127) ∧
      p.payloadLenOffset < p.extWidth ∧ p.maskingKeyPos = 0 ∧ p.payload = []
  | .maskingKey => p.maskingKeyPos < 4 ∧ p.payload = []
  | .payloadData => p.payload.length ≤ p.frameHeader.payloadRealyLen % 2 ^ 32

/-- How many octets of the current field are stored. -/
def progress (p : FrameParser) : Nat :=
  match p.parserStep with
  | .fixedHeader => 0
  | .payloadLen => 0
  | .extenedPayloadLen => p.payloadLenOffset
  | .maskingKey => p.maskingKeyPos
  | .payloadData => p.payload.length

/-- The remainder is zero and the payload is not complete. -/
def Stuck (p : FrameParser) : Prop :=
  p.parserStep = .payloadData ∧ p.payload.length = p.frameHeader.payloadRealyLen % 2 ^ 32 ∧
    p.payload.length ≠ p.frameHeader.payloadRealyLen

theorem reset_coherent : reset.Coherent := rfl

/-- A part parser called `place` octets into a chunk leaves what the run over
the octets it consumed leaves. -/
structure Follows (p : FrameParser) (rest : Bytes) (place : Nat) (part : Parsed) : Prop where
  coherent : part.parser.Coherent
  start : place + part.used = 0 ∨ part.parser.progress = 0 ∨ rest.drop part.used = [] ∨
    part.parser.Stuck
  remaining : run p (rest.zipIdx place) =
    after part.messages (run part.parser ((rest.drop part.used).zipIdx (place + part.used)))
  moves : 0 < part.used ∨
    p.parserStep = .payloadData ∧ part.used = 0 ∧ part.parser = reset ∨
    p.Stuck ∧ part = ⟨0, p, []⟩

theorem zipIdx_split (rest : Bytes) (place used : Nat) (bound : used ≤ rest.length) :
    rest.zipIdx place =
      (rest.take used).zipIdx place ++ (rest.drop used).zipIdx (place + used) := by
  conv_lhs => rw [← List.take_append_drop used rest, List.zipIdx_append, List.length_take,
    Nat.min_eq_left bound]

theorem parseFixedHeader_follows {p : FrameParser} (coherent : p.Coherent)
    (step : p.parserStep = .fixedHeader) {rest : Bytes} (more : rest ≠ []) (place : Nat) :
    Follows p rest place (parseFixedHeader p rest) := by
  obtain ⟨octet, rest, rfl⟩ := List.exists_cons_of_ne_nil more
  have start : p = reset := by simpa only [Coherent, step] using coherent
  refine ⟨?_, .inr (.inl rfl), ?_, .inl Nat.one_pos⟩
  · rw [start]
    exact ⟨rfl, rfl, rfl⟩
  · have stepped : p.octetStep octet place = some ((parseFixedHeader p [octet]).parser, []) := by
      rw [octetStep, step]
    rw [List.zipIdx_cons, run_step stepped]
    rfl

/-- The parser behind the second octet of a frame. -/
def coded (p : FrameParser) (octet : UInt8) : FrameParser :=
  let header : FrameHeader :=
    { p.frameHeader with mask := octet &&& 0x80, payloadLen := octet &&& 0x7f }
  if octet &&& 0x7f ≤ 125 then
    { p with
      frameHeader := { header with payloadRealyLen := (octet &&& 0x7f).toNat }
      parserStep := if octet &&& 0x80 ≠ 0 then .maskingKey else .payloadData }
  else { p with frameHeader := header, parserStep := .extenedPayloadLen }

theorem parsePayloadLen_eq (p : FrameParser) (octet : UInt8) (rest : Bytes) :
    parsePayloadLen p (octet :: rest) =
      if octet &&& 0x7f = 0 then ⟨1, reset, [(p.coded octet).message []]⟩
      else ⟨1, p.coded octet, []⟩ := rfl

theorem coded_coherent {p : FrameParser} (offset : p.payloadLenOffset = 0)
    (pos : p.maskingKeyPos = 0) (empty : p.payload = []) (octet : UInt8) :
    (p.coded octet).Coherent ∧ (p.coded octet).progress = 0 := by
  have low : octet &&& 0x7f ≤ 127 := UInt8.and_le_right
  by_cases short : octet &&& 0x7f ≤ 125
  · rw [coded, if_pos short]
    by_cases masked : octet &&& 0x80 = 0 <;>
      simp [Coherent, progress, masked, pos, empty]
  · rw [coded, if_neg short]
    refine ⟨⟨?_, ?_, pos, empty⟩, offset⟩
    · simp only [← UInt8.toNat_inj, UInt8.le_iff_toNat_le] at low short ⊢
      simp only [UInt8.reduceToNat] at low short ⊢
      omega
    · simp only [offset, extWidth]
      split <;> decide

theorem parsePayloadLen_follows {p : FrameParser} (coherent : p.Coherent)
    (step : p.parserStep = .payloadLen) {rest : Bytes} (more : rest ≠ []) (place : Nat) :
    Follows p rest place (parsePayloadLen p rest) := by
  obtain ⟨octet, rest, rfl⟩ := List.exists_cons_of_ne_nil more
  obtain ⟨offset, pos, empty⟩ : p.payloadLenOffset = 0 ∧ p.maskingKeyPos = 0 ∧ p.payload = [] := by
    simpa only [Coherent, step] using coherent
  have used : (parsePayloadLen p (octet :: rest)).used = 1 := by
    rw [parsePayloadLen_eq]
    split <;> rfl
  have read : (parsePayloadLen p (octet :: rest)).parser.Coherent ∧
      (parsePayloadLen p (octet :: rest)).parser.progress = 0 := by
    rw [parsePayloadLen_eq]
    split
    · exact ⟨reset_coherent, rfl⟩
    · exact coded_coherent offset pos empty octet
  have stepped : p.octetStep octet place =
      some ((parsePayloadLen p [octet]).parser, (parsePayloadLen p [octet]).messages) := by
    rw [octetStep, step]
  refine ⟨read.1, .inr (.inl read.2), ?_, .inl (used ▸ Nat.one_pos)⟩
  rw [List.zipIdx_cons, run_step stepped, used]
  rfl

namespace FrameField
variable (F : FrameField)

/-- What the part parser of a field does: it copies to the start of the field,
whatever earlier calls stored. -/
def read (p : FrameParser) (rest : Bytes) : Parsed :=
  let used := min (F.width p - F.stored p) rest.length
  let closed := F.close (F.store p 0 (rest.take used))
  ⟨used, closed.1, closed.2⟩

theorem read_follows {p : FrameParser} (step : p.parserStep = F.step)
    (room : F.stored p < F.width p)
    {rest : Bytes} (more : rest ≠ []) (place : Nat) (start : place = 0 ∨ F.stored p = 0)
    (closed : ∀ block, F.stored p + block.length ≤ F.width p →
      (F.close (F.store p 0 block)).1.Coherent ∧
        (F.stored p + block.length < F.width p ∨ (F.close (F.store p 0 block)).1.progress = 0 ∨
          (F.close (F.store p 0 block)).1.Stuck)) :
    Follows p rest place (F.read p rest) := by
  have some_octets : 0 < rest.length := List.length_pos_iff.mpr more
  have address : min (F.stored p) place = 0 := by omega
  simp only [read]
  generalize width : min (F.width p - F.stored p) rest.length = used
  have length : (rest.take used).length = used := by
    rw [List.length_take]
    omega
  have block : (rest.take used).zipIdx place ≠ [] := by
    intro none
    have zero := congrArg List.length none
    rw [List.length_zipIdx, length, List.length_nil] at zero
    omega
  obtain ⟨coherent, short⟩ := closed (rest.take used) (by omega)
  refine ⟨coherent, .inr ?_, ?_, .inl (show 0 < used by omega)⟩
  · rcases short with short | start | stuck
    · rw [length] at short
      exact .inr (.inl (List.drop_eq_nil_of_le (show rest.length ≤ used by omega)))
    · exact .inl start
    · exact .inr (.inr stuck)
  · rw [zipIdx_split rest place used (by omega),
      F.run_deposit step _ block (by rw [List.length_zipIdx]; omega), deposit_zipIdx, address]

end FrameField

theorem parseExtenedPayloadLen_eq {p : FrameParser}
    (code : p.frameHeader.payloadLen = 126 ∨ p.frameHeader.payloadLen = 127) (rest : Bytes) :
    parseExtenedPayloadLen p rest = lengthField.read p rest := by
  rcases code with code | code <;>
    simp [parseExtenedPayloadLen, FrameField.read, lengthField, storeLength, closeLength, extWidth,
      code, decodeExtenedPayloadLen]

theorem parseMaskingKey_eq {p : FrameParser} (step : p.parserStep = .maskingKey) (rest : Bytes) :
    parseMaskingKey p rest = keyField.read p rest := by
  simp [parseMaskingKey, FrameField.read, keyField, storeKey, closeKey, step]

theorem parsePayload_eq {p : FrameParser}
    (bound : p.payload.length ≤ p.frameHeader.payloadRealyLen % 2 ^ 32) (rest : Bytes) :
    parsePayload p rest = payloadField.read p rest := by
  have remain : (p.frameHeader.payloadRealyLen + (2 ^ 32 - p.payload.length % 2 ^ 32)) % 2 ^ 32 =
      p.frameHeader.payloadRealyLen % 2 ^ 32 - p.payload.length := by
    omega
  simp only [parsePayload, remain, FrameField.read, payloadField]
  generalize min (p.frameHeader.payloadRealyLen % 2 ^ 32 - p.payload.length) rest.length = used
  by_cases full : (p.storePayload 0 (rest.take used)).payload.length =
      (p.storePayload 0 (rest.take used)).frameHeader.payloadRealyLen
  · simp only [closePayload, if_pos full]
    exact if_pos full
  · simp only [closePayload, if_neg full]
    exact if_neg full

theorem closeLength_coherent {p : FrameParser} (step : p.parserStep = .extenedPayloadLen)
    (code : p.frameHeader.payloadLen = 126 ∨ p.frameHeader.payloadLen = 127)
    (bound : p.payloadLenOffset ≤ p.extWidth) (pos : p.maskingKeyPos = 0) (empty : p.payload = []) :
    p.closeLength.Coherent ∧ (p.payloadLenOffset < p.extWidth ∨ p.closeLength.progress = 0) := by
  by_cases full : p.payloadLenOffset = p.extWidth
  · rw [closeLength, if_pos full]
    by_cases masked : p.frameHeader.mask = 0 <;>
      simp [Coherent, progress, decodeExtenedPayloadLen, masked, pos, empty]
  · rw [closeLength, if_neg full]
    have room : p.payloadLenOffset < p.extWidth := by omega
    simp [Coherent, step, code, room, pos, empty]

theorem parseExtenedPayloadLen_follows {p : FrameParser} (coherent : p.Coherent)
    (step : p.parserStep = .extenedPayloadLen) {rest : Bytes} (more : rest ≠ []) (place : Nat)
    (start : place = 0 ∨ p.progress = 0) :
    Follows p rest place (parseExtenedPayloadLen p rest) := by
  obtain ⟨code, room, pos, empty⟩ :
      (p.frameHeader.payloadLen = 126 ∨ p.frameHeader.payloadLen = 127) ∧
        p.payloadLenOffset < p.extWidth ∧ p.maskingKeyPos = 0 ∧ p.payload = [] := by
    simpa only [Coherent, step] using coherent
  rw [parseExtenedPayloadLen_eq code]
  have start : place = 0 ∨ p.payloadLenOffset = 0 := by simpa only [progress, step] using start
  apply lengthField.read_follows step room more place start
  intro block bound
  obtain ⟨coherent, short⟩ := closeLength_coherent (p := p.storeLength 0 block) step
    (by rwa [storeLength_code]) (by rwa [storeLength_width]) pos empty
  rw [storeLength_width] at short
  exact ⟨coherent, short.imp_right .inl⟩

theorem closeKey_coherent {p : FrameParser} (step : p.parserStep = .maskingKey)
    (bound : p.maskingKeyPos ≤ 4) (empty : p.payload = []) :
    p.closeKey.Coherent ∧ (p.maskingKeyPos < 4 ∨ p.closeKey.progress = 0) := by
  by_cases full : p.maskingKeyPos = 4
  · rw [closeKey, if_pos full]
    simp [Coherent, progress, empty]
  · rw [closeKey, if_neg full]
    have room : p.maskingKeyPos < 4 := by omega
    simp [Coherent, step, room, empty]

theorem parseMaskingKey_follows {p : FrameParser} (coherent : p.Coherent)
    (step : p.parserStep = .maskingKey) {rest : Bytes} (more : rest ≠ []) (place : Nat)
    (start : place = 0 ∨ p.progress = 0) :
    Follows p rest place (parseMaskingKey p rest) := by
  obtain ⟨room, empty⟩ : p.maskingKeyPos < 4 ∧ p.payload = [] := by
    simpa only [Coherent, step] using coherent
  rw [parseMaskingKey_eq step]
  have start : place = 0 ∨ p.maskingKeyPos = 0 := by simpa only [progress, step] using start
  apply keyField.read_follows step room more place start
  intro block bound
  obtain ⟨coherent, short⟩ := closeKey_coherent (p := p.storeKey 0 block) step bound empty
  exact ⟨coherent, short.imp_right .inl⟩

theorem closePayload_coherent {p : FrameParser} (step : p.parserStep = .payloadData)
    (bound : p.payload.length ≤ p.frameHeader.payloadRealyLen % 2 ^ 32) :
    p.closePayload.1.Coherent ∧
      (p.payload.length < p.frameHeader.payloadRealyLen % 2 ^ 32 ∨
        p.closePayload.1.progress = 0 ∨ p.closePayload.1.Stuck) := by
  by_cases full : p.payload.length = p.frameHeader.payloadRealyLen
  · rw [closePayload, if_pos full]
    exact ⟨reset_coherent, .inr (.inl rfl)⟩
  · rw [closePayload, if_neg full]
    refine ⟨by simpa only [Coherent, step] using bound, ?_⟩
    rcases Nat.lt_or_eq_of_le bound with short | truncated
    · exact .inl short
    · exact .inr (.inr ⟨step, truncated, full⟩)

/-- An announced length of zero: the part parser completes the frame and
consumes nothing. -/
theorem run_complete {p : FrameParser} (step : p.parserStep = .payloadData)
    (complete : p.payload.length = p.frameHeader.payloadRealyLen)
    (item : UInt8 × Nat) (tape : Tape) :
    run p (item :: tape) = after [p.message p.payload] (run reset (item :: tape)) := by
  obtain ⟨octet, place⟩ := item
  have first : reset.octetStep octet place = some ((parseFixedHeader reset [octet]).parser, []) :=
    rfl
  rw [run_step first, after_nil, run, octetStep, step]
  simp only [payloadOctet, if_pos complete, Option.bind_some]

theorem run_stuck {p : FrameParser} (stuck : p.Stuck) (item : UInt8 × Nat) (tape : Tape) :
    run p (item :: tape) = none := by
  obtain ⟨step, truncated, incomplete⟩ := stuck
  rw [run, octetStep, step]
  simp only [payloadOctet, if_neg incomplete, if_pos truncated, Option.bind_none]

theorem parsePayload_truncated {p : FrameParser}
    (truncated : p.payload.length = p.frameHeader.payloadRealyLen % 2 ^ 32) (rest : Bytes) :
    parsePayload p rest = ⟨0, p.closePayload.1, p.closePayload.2⟩ := by
  rw [parsePayload_eq (Nat.le_of_eq truncated)]
  simp only [FrameField.read, payloadField, truncated, Nat.sub_self, Nat.zero_min, List.take_zero,
    storePayload_nil]

theorem parsePayload_follows {p : FrameParser} (coherent : p.Coherent)
    (step : p.parserStep = .payloadData) {rest : Bytes} (more : rest ≠ []) (place : Nat)
    (start : place = 0 ∨ p.progress = 0 ∨ p.Stuck) :
    Follows p rest place (parsePayload p rest) := by
  have bound : p.payload.length ≤ p.frameHeader.payloadRealyLen % 2 ^ 32 := by
    simpa only [Coherent, step] using coherent
  rcases Nat.lt_or_eq_of_le bound with room | truncated
  · rw [parsePayload_eq bound]
    have start : place = 0 ∨ p.payload.length = 0 := by
      rcases start with start | start | stuck
      · exact .inl start
      · exact .inr (by simpa only [progress, step] using start)
      · exact absurd stuck.2.1 (Nat.ne_of_lt room)
    apply payloadField.read_follows step room more place start
    intro block bound
    obtain ⟨coherent, short⟩ := closePayload_coherent (p := p.storePayload 0 block) step
      (by rwa [storePayload_length])
    rw [storePayload_length] at short
    exact ⟨coherent, short⟩
  · rw [parsePayload_truncated truncated]
    by_cases complete : p.payload.length = p.frameHeader.payloadRealyLen
    · obtain ⟨octet, rest, rfl⟩ := List.exists_cons_of_ne_nil more
      simp only [closePayload, if_pos complete]
      exact ⟨reset_coherent, .inr (.inl rfl), run_complete step complete _ _,
        .inr (.inl ⟨step, rfl, rfl⟩)⟩
    · have stuck : p.Stuck := ⟨step, truncated, complete⟩
      simp only [closePayload, if_neg complete]
      exact ⟨coherent, .inr (.inr (.inr stuck)), (after_nil _).symm, .inr (.inr ⟨stuck, rfl⟩)⟩

/-- A cursor `place` octets into its chunk, from which the run gives `result`. -/
structure Reads (result : Option (FrameParser × List Message)) (c : Cursor) (place : Nat) :
    Prop where
  coherent : c.parser.Coherent
  start : place = 0 ∨ c.parser.progress = 0 ∨ c.rest = [] ∨ c.parser.Stuck
  remaining : after c.messages (run c.parser (c.rest.zipIdx place)) = result

/-- Bounds the iterations of the loop. -/
def need (c : Cursor) : Nat :=
  2 * c.rest.length + if c.parser.parserStep = .payloadData then 1 else 0

/-- Unless nothing more can happen in one of the steps, the cursor came closer
to the end. -/
def Advances (steps : List ParserStep) (c d : Cursor) : Prop :=
  need d < need c ∨ d = c ∧ (c.parser.parserStep ∈ steps → c.rest = [] ∨ c.parser.Stuck)

theorem Advances.trans (first : Advances [step] c d) (second : Advances steps d e) :
    Advances (step :: steps) c e := by
  rcases first with first | ⟨rfl, first⟩ <;> rcases second with second | ⟨rfl, second⟩
  · exact .inl (second.trans first)
  · exact .inl first
  · exact .inl second
  · refine .inr ⟨rfl, fun member => ?_⟩
    rcases List.mem_cons.mp member with here | there
    · exact first (List.mem_singleton.mpr here)
    · exact second there

theorem Reads.advance (step : ParserStep) (reads : Reads result c place)
    (follows : c.parser.parserStep = step → c.rest ≠ [] →
      Follows c.parser c.rest place (parsePart c.parser c.rest)) :
    (∃ place, Reads result (c.advance step parsePart) place) ∧
      Advances [step] c (c.advance step parsePart) := by
  by_cases fires : c.parser.parserStep = step ∧ c.rest ≠ []
  · rw [Cursor.advance, if_pos fires]
    have follows := follows fires.1 fires.2
    have some_octets : 0 < c.rest.length := List.length_pos_iff.mpr fires.2
    refine ⟨⟨_, follows.coherent, follows.start, ?_⟩, ?_⟩
    · rw [← after_after, ← follows.remaining]
      exact reads.remaining
    · rcases follows.moves with consumed | ⟨payload, none, again⟩ | ⟨stuck, still⟩
      · refine .inl ?_
        simp only [need, List.length_drop]
        split <;> omega
      · refine .inl ?_
        have idle : reset.parserStep ≠ .payloadData := by decide
        simp only [need, none, again, payload, List.drop_zero, if_true, if_neg idle]
        omega
      · refine .inr ⟨?_, fun _ => .inr stuck⟩
        simp only [still, List.drop_zero, List.append_nil]
  · rw [Cursor.advance, if_neg fires]
    refine ⟨⟨place, reads⟩, .inr ⟨rfl, fun member => .inl ?_⟩⟩
    by_contra more
    exact fires ⟨List.mem_singleton.mp member, more⟩

theorem Reads.start_of_step (reads : Reads result c place) (more : c.rest ≠ [])
    (step : c.parser.parserStep ≠ .payloadData) : place = 0 ∨ c.parser.progress = 0 := by
  rcases reads.start with start | start | start | stuck
  · exact .inl start
  · exact .inr start
  · exact absurd start more
  · exact absurd stuck.1 step

theorem Reads.parseBody (reads : Reads result c place) :
    (∃ place, Reads result (parseBody c) place) ∧
      ((parseBody c).rest = [] ∨ (parseBody c).parser.Stuck ∨ need (parseBody c) < need c) := by
  obtain ⟨⟨_, reads₁⟩, moves₁⟩ := reads.advance .fixedHeader fun step more =>
    parseFixedHeader_follows reads.coherent step more _
  obtain ⟨⟨_, reads₂⟩, moves₂⟩ := reads₁.advance .payloadLen fun step more =>
    parsePayloadLen_follows reads₁.coherent step more _
  obtain ⟨⟨_, reads₃⟩, moves₃⟩ := reads₂.advance .extenedPayloadLen fun step more =>
    parseExtenedPayloadLen_follows reads₂.coherent step more _
      (reads₂.start_of_step more (by simp [step]))
  obtain ⟨⟨_, reads₄⟩, moves₄⟩ := reads₃.advance .maskingKey fun step more =>
    parseMaskingKey_follows reads₃.coherent step more _ (reads₃.start_of_step more (by simp [step]))
  obtain ⟨⟨_, reads₅⟩, moves₅⟩ := reads₄.advance .payloadData fun step more =>
    parsePayload_follows reads₄.coherent step more _ (by
      rcases reads₄.start with start | start | start | stuck
      · exact .inl start
      · exact .inr (.inl start)
      · exact absurd start more
      · exact .inr (.inr stuck))
  refine ⟨⟨_, reads₅⟩, ?_⟩
  rcases moves₁.trans (moves₂.trans (moves₃.trans (moves₄.trans moves₅))) with closer | ⟨still,
    idle⟩
  · exact .inr (.inr closer)
  · have finished : c.rest = [] ∨ c.parser.Stuck := idle (by cases c.parser.parserStep <;> simp)
    rw [FrameParser.parseBody, still]
    exact finished.imp_right .inl

theorem parseBody_stuck {c : Cursor} (stuck : c.parser.Stuck) : parseBody c = c := by
  obtain ⟨step, truncated, incomplete⟩ := stuck
  have other : ∀ part, part ≠ .payloadData → c.parser.parserStep ≠ part := by
    rintro part differs rfl
    exact differs step
  rw [parseBody, Cursor.advance_of_ne (other .fixedHeader (by decide)),
    Cursor.advance_of_ne (other .payloadLen (by decide)),
    Cursor.advance_of_ne (other .extenedPayloadLen (by decide)),
    Cursor.advance_of_ne (other .maskingKey (by decide))]
  by_cases more : c.rest = []
  · exact if_neg fun fires => fires.2 more
  · rw [Cursor.advance_of_step .payloadData step more, parsePayload_truncated truncated]
    simp only [closePayload, if_neg incomplete, List.drop_zero, List.append_nil]

theorem parseLoop_stuck {c : Cursor} (stuck : c.parser.Stuck) (more : c.rest ≠ []) (fuel : Nat) :
    parseLoop fuel c = none := by
  induction fuel with
  | zero => rfl
  | succ fuel ih => simp only [parseLoop, parseBody_stuck stuck, if_pos more, ih]

theorem Reads.parseLoop (reads : Reads result c place) (more : c.rest ≠ []) {fuel : Nat}
    (enough : need c ≤ fuel) :
    result = none ∧ parseLoop fuel c = none ∨
      ∃ d, result = some (d.parser, d.messages) ∧ parseLoop fuel c = some d ∧ d.parser.Coherent := by
  induction fuel generalizing c place with
  | zero =>
    have some_octets : 0 < c.rest.length := List.length_pos_iff.mpr more
    rw [need] at enough
    omega
  | succ fuel ih =>
    obtain ⟨⟨next, readsBody⟩, finished⟩ := reads.parseBody
    by_cases rest : (FrameParser.parseBody c).rest = []
    · refine .inr ⟨FrameParser.parseBody c, ?_, ?_, readsBody.coherent⟩
      · rw [← readsBody.remaining, rest]
        simp [run]
      · simp only [FrameParser.parseLoop, rest, ne_eq, not_true_eq_false, if_false]
    · rw [FrameParser.parseLoop, if_pos rest]
      rcases finished with ended | stuck | closer
      · exact absurd ended rest
      · refine .inl ⟨?_, parseLoop_stuck stuck rest fuel⟩
        obtain ⟨octet, tail, cons⟩ := List.exists_cons_of_ne_nil rest
        rw [← readsBody.remaining, cons, List.zipIdx_cons, run_stuck stuck, after_none]
      · exact ih readsBody rest (by omega)

/-- A call on a chunk is the run over its octets, each with its place in the
chunk. -/
theorem parse_eq_run (ndebug : Bool) {p : FrameParser} (coherent : p.Coherent) {chunk : Bytes}
    (some_octets : chunk ≠ []) :
    parse ndebug p chunk = (run p chunk.zipIdx).map fun r => ⟨true, "", r.1, r.2⟩ := by
  have reads : Reads (run p chunk.zipIdx) ⟨p, chunk, []⟩ 0 := ⟨coherent, .inl rfl, after_nil _⟩
  have enough : need ⟨p, chunk, []⟩ ≤ fuelFor chunk := by
    simp only [need, fuelFor]
    split <;> omega
  rw [parse, if_pos (.inr some_octets)]
  rcases reads.parseLoop some_octets enough with ⟨none, loops⟩ | ⟨d, some, ends, -⟩
  · rw [none, loops]
    rfl
  · rw [some, ends]
    rfl

theorem run_coherent {p : FrameParser} (coherent : p.Coherent) {chunk : Bytes}
    (some_octets : chunk ≠ []) (ran : run p chunk.zipIdx = some (q, messages)) : q.Coherent := by
  have reads : Reads (run p chunk.zipIdx) ⟨p, chunk, []⟩ 0 := ⟨coherent, .inl rfl, after_nil _⟩
  rcases reads.parseLoop some_octets (Nat.le_refl _) with ⟨none, -⟩ | ⟨d, some, -, coherent⟩
  · rw [ran] at none
    exact absurd none (by simp)
  · rw [ran] at some
    cases some
    exact coherent

end Da4qi4.Websocket.FrameParser
