import Da4qi4.Websocket.FrameOctets

/-! Streams cut into chunks. The octets of a frame are compared with what the
parser makes of them, given how far each octet is from the last cut. -/
namespace Da4qi4.Websocket
open FrameParser

namespace FrameParser

/-- A stream in chunks, each octet with its place in its chunk. -/
def tapeOf (chunks : List Bytes) : Tape := chunks.flatMap fun chunk => chunk.zipIdx

theorem parseChunks_eq_run (ndebug : Bool) {p : FrameParser} (coherent : p.Coherent)
    {chunks : List Bytes} (some_octets : ∀ chunk ∈ chunks, chunk ≠ []) :
    parseChunks ndebug p chunks = run p (tapeOf chunks) := by
  induction chunks generalizing p with
  | nil => rfl
  | cons chunk chunks ih =>
    have here := some_octets chunk List.mem_cons_self
    have there : ∀ c ∈ chunks, c ≠ [] :=
      fun c member => some_octets c (List.mem_cons_of_mem _ member)
    have parsed := parse_eq_run ndebug coherent here
    rw [tapeOf, List.flatMap_cons, run_append, parseChunks, parsed]
    cases ran : run p chunk.zipIdx with
    | none => rfl
    | some r =>
      have next := ih (run_coherent coherent here ran) there
      simp only [Option.map_some, Option.bind_eq_bind, Option.bind_some, next, tapeOf]
      cases run r.1 (chunks.flatMap fun chunk => chunk.zipIdx) <;> rfl

end FrameParser

namespace FrameParser.Tape

def octets (tape : Tape) : Bytes := tape.map Prod.fst

/-- A part of a stream that starts in the chunk where its first octet is, or
later: no octet is closer to the last cut than to the first octet. -/
def Uncut (tape : Tape) : Prop :=
  ∀ (i : Nat) (item : UInt8 × Nat), tape[i]? = some item → i ≤ item.2

/-- An object filled octet by octet, each at the smaller of its two offsets. -/
def fill (m : Memory size) (start : Nat) : Tape → Memory size
  | [] => m
  | (octet, place) :: tape => fill (m.store (min start place) octet) (start + 1) tape

end FrameParser.Tape

/-- The header of a frame in front of the rest of a tape. -/
structure Head where
  first : UInt8
  second : UInt8
  lengthField : Tape
  keyField : Tape
  rest : Tape
  deriving DecidableEq

namespace Head

abbrev code (second : UInt8) : UInt8 := second &&& 0x7f

def masked (second : UInt8) : Bool := second &&& 0x80 != 0

def lengthWidth (second : UInt8) : Nat :=
  if code second = 126 then 2 else if code second = 127 then 8 else 0

/-- The parser reads no key in an empty frame. -/
def keyWidth (second : UInt8) : Nat := if masked second ∧ code second ≠ 0 then 4 else 0

def ofTape : Tape → Option Head
  | (first, _) :: (second, _) :: tape =>
    if lengthWidth second + keyWidth second ≤ tape.length then
      some ⟨first, second, tape.take (lengthWidth second),
        (tape.drop (lengthWidth second)).take (keyWidth second),
        tape.drop (lengthWidth second + keyWidth second)⟩
    else none
  | _ => none

/-- The length that the header announces. -/
def announced (h : Head) : Nat :=
  if lengthWidth h.second = 0 then (code h.second).toNat else Bytes.bigEndian h.lengthField.octets

/-- The length that the parser reads. -/
def lengthRead (h : Head) : Nat :=
  if lengthWidth h.second = 0 then (code h.second).toNat
  else if code h.second = 126 then Bytes.bigEndian (h.lengthField.fill (Memory.zero 2) 0).bytes
  else Bytes.bigEndian (h.lengthField.fill (Memory.zero 8) 0).bytes

def key (h : Head) : Memory 4 := (Memory.zero 4).copy 0 h.keyField.octets

/-- The key that the parser reads. -/
def keyRead (h : Head) : Memory 4 := h.keyField.fill (Memory.zero 4) 0

def message (h : Head) (payload : Bytes) : Message :=
  ⟨payload, h.first &&& 0x0f, h.first &&& 0xf0 != 0⟩

def payload (h : Head) : Bytes :=
  let octets := Tape.octets (h.rest.take h.announced)
  if masked h.second then Bytes.xorFrom (fun i => h.key.load (i % 4)) 0 octets else octets

/-- The message of a frame, once an octet behind its header completes it. -/
def sent (h : Head) : Option Message :=
  if code h.second = 0 then some (h.message [])
  else if h.rest ≠ [] ∧ h.announced ≤ h.rest.length then some (h.message h.payload)
  else none

/-- Every payload octet meets its key octet. -/
def KeyRight (h : Head) : Prop :=
  masked h.second → ∀ item ∈ (h.rest.take h.announced).zipIdx,
    h.keyRead.load (min item.2 item.1.2 % 4) = h.key.load (item.2 % 4)

/-- The cuts do no harm to the frame. -/
def ReadRight (h : Head) : Prop :=
  code h.second = 0 ∨ h.rest = [] ∨
    if h.announced ≤ h.rest.length then h.lengthRead = h.announced ∧ h.KeyRight
    else h.rest.length < h.lengthRead ∧ h.rest.length ≤ h.lengthRead % 2 ^ 32

theorem ofTape_rest_length (found : ofTape tape = some h) : h.rest.length < tape.length := by
  match tape, found with
  | (first, _) :: (second, _) :: tape, found =>
    simp only [ofTape] at found
    split at found
    · cases found
      simp only [List.length_drop, List.length_cons]
      omega
    · cases found
  | [], found => cases found
  | [_], found => cases found

end Head

/-- The frames of a stream, by the lengths their headers announce. -/
def frameHeads (tape : Tape) : List Head :=
  match _found : Head.ofTape tape with
  | some h => h :: frameHeads (h.rest.drop h.announced)
  | none => []
termination_by tape.length
decreasing_by
  have shorter := Head.ofTape_rest_length _found
  rw [List.length_drop]
  omega

/-- The parser in front of the masking key, if there is one, and the payload. -/
structure SizedAs (h : Head) (p : FrameParser) : Prop where
  step : p.parserStep = if Head.masked h.second then .maskingKey else .payloadData
  payload : p.payload = []
  keyPos : p.maskingKeyPos = 0
  message : ∀ payload, p.message payload = h.message payload
  mask : p.frameHeader.mask ≠ 0 ↔ Head.masked h.second = true
  length : p.frameHeader.payloadRealyLen = h.lengthRead
  key : p.frameHeader.maskingKey = Memory.zero 4

theorem deposit_length (p : FrameParser) (field : Tape) :
    lengthField.deposit p field =
      { p with
        frameHeader :=
          if p.frameHeader.payloadLen = 126 then
            { p.frameHeader with
              extPayloadLen16 := Tape.fill p.frameHeader.extPayloadLen16 p.payloadLenOffset field }
          else
            { p.frameHeader with
              extPayloadLen64 := Tape.fill p.frameHeader.extPayloadLen64 p.payloadLenOffset field }
        payloadLenOffset := p.payloadLenOffset + field.length } := by
  induction field generalizing p with
  | nil =>
    simp only [FrameField.deposit, Tape.fill, List.length_nil, Nat.add_zero, ite_self]
  | cons item field ih =>
    obtain ⟨octet, place⟩ := item
    change lengthField.deposit (p.storeLength (min p.payloadLenOffset place) [octet]) field = _
    rw [ih, List.length_cons, Nat.add_comm field.length, ← Nat.add_assoc]
    by_cases code : p.frameHeader.payloadLen = 126 <;>
      simp [storeLength, code, Tape.fill, Memory.copy]

theorem deposit_key (p : FrameParser) (field : Tape) :
    keyField.deposit p field =
      { p with
        frameHeader := { p.frameHeader with
          maskingKey := Tape.fill p.frameHeader.maskingKey p.maskingKeyPos field }
        maskingKeyPos := p.maskingKeyPos + field.length } := by
  induction field generalizing p with
  | nil => rfl
  | cons item field ih =>
    obtain ⟨octet, place⟩ := item
    change keyField.deposit (p.storeKey (min p.maskingKeyPos place) [octet]) field = _
    rw [ih, List.length_cons, Nat.add_comm field.length, ← Nat.add_assoc]
    rfl

/-- The parser behind the first octet of a frame. -/
def begun (first : UInt8) : FrameParser := (parseFixedHeader reset [first]).parser

theorem run_first (first second : UInt8) (here there : Nat) (tape : Tape) :
    run reset ((first, here) :: (second, there) :: tape) =
      if Head.code second = 0 then
        after [((begun first).coded second).message []] (run reset tape)
      else run ((begun first).coded second) tape := by
  have opened : reset.octetStep first here = some (begun first, []) := rfl
  have step : (begun first).parserStep = .payloadLen := rfl
  rw [run_step opened, after_nil, run, octetStep, step]
  by_cases empty : second &&& 0x7f = 0
  · simp only [parsePayloadLen_eq, Option.bind_some, Head.code, if_pos empty]
  · simp only [parsePayloadLen_eq, Option.bind_some, Head.code, if_neg empty, after_nil]

theorem low_code (second : UInt8) :
    Head.code second ≤ 125 ∨ Head.code second = 126 ∨ Head.code second = 127 := by
  have low : second &&& 0x7f ≤ 127 := UInt8.and_le_right
  simp only [Head.code, ← UInt8.toNat_inj, UInt8.le_iff_toNat_le, UInt8.reduceToNat] at low ⊢
  omega

theorem lengthWidth_eq_zero (second : UInt8) :
    Head.lengthWidth second = 0 ↔ Head.code second ≤ 125 := by
  rcases low_code second with short | code | code
  · have other : Head.code second ≠ 126 ∧ Head.code second ≠ 127 := by
      constructor <;> rintro code <;> rw [code] at short <;> exact absurd short (by decide)
    simp only [Head.lengthWidth, other, if_false, short]
  · simp [Head.lengthWidth, code]
  · simp [Head.lengthWidth, code]

theorem coded_message (first second : UInt8) (payload : Bytes) :
    ((begun first).coded second).message payload =
      ⟨payload, first &&& 0x0f, first &&& 0xf0 != 0⟩ := by
  rw [coded]
  split <;> rfl

/-- The parser in front of an extended length. -/
structure CodedAs (h : Head) (p : FrameParser) : Prop where
  step : p.parserStep = .extenedPayloadLen
  offset : p.payloadLenOffset = 0
  payload : p.payload = []
  keyPos : p.maskingKeyPos = 0
  message : ∀ payload, p.message payload = h.message payload
  mask : p.frameHeader.mask ≠ 0 ↔ Head.masked h.second = true
  code : p.frameHeader.payloadLen = Head.code h.second
  length16 : p.frameHeader.extPayloadLen16 = Memory.zero 2
  length64 : p.frameHeader.extPayloadLen64 = Memory.zero 8
  key : p.frameHeader.maskingKey = Memory.zero 4

theorem mask_bit (second : UInt8) : second &&& 0x80 ≠ 0 ↔ Head.masked second = true := by
  rw [Head.masked, bne_iff_ne]

theorem coded_long (h : Head) (long : ¬Head.code h.second ≤ 125) :
    CodedAs h ((begun h.first).coded h.second) := by
  have message := coded_message h.first h.second
  rw [coded, if_neg long] at message ⊢
  exact ⟨rfl, rfl, rfl, rfl, message, mask_bit h.second, rfl, rfl, rfl, rfl⟩

theorem coded_short (h : Head) (short : Head.code h.second ≤ 125) :
    SizedAs h ((begun h.first).coded h.second) := by
  have message := coded_message h.first h.second
  have length : h.lengthRead = (Head.code h.second).toNat := by
    rw [Head.lengthRead, if_pos ((lengthWidth_eq_zero _).mpr short)]
  rw [coded, if_pos short] at message ⊢
  exact ⟨if_congr (mask_bit h.second) rfl rfl, rfl, rfl, message, mask_bit h.second, length.symm,
    rfl⟩

theorem CodedAs.width (coded : CodedAs h p) (long : ¬Head.code h.second ≤ 125) :
    p.extWidth = Head.lengthWidth h.second := by
  rcases (low_code h.second).resolve_left long with code | code <;>
    simp [extWidth, Head.lengthWidth, coded.code, code]

theorem CodedAs.decode (coded : CodedAs h p) (long : ¬Head.code h.second ≤ 125) :
    SizedAs h (lengthField.deposit p h.lengthField).decodeExtenedPayloadLen := by
  have wide : Head.lengthWidth h.second ≠ 0 := fun width => long ((lengthWidth_eq_zero _).mp width)
  rw [deposit_length, coded.offset, coded.code, coded.length16, coded.length64]
  have distinct : (127 : UInt8) ≠ 126 := by decide
  rcases (low_code h.second).resolve_left long with code | code
  all_goals
    refine ⟨?_, coded.payload, coded.keyPos, ?_, ?_, ?_, ?_⟩
    all_goals simp only [code, if_true, if_neg distinct, decodeExtenedPayloadLen, coded.code]
    · exact if_congr coded.mask rfl rfl
    · exact coded.message
    · exact coded.mask
    · simp only [Head.lengthRead, if_neg wide, code, if_true, if_neg distinct]
    · exact coded.key

/-- The header octets up to the masking key. -/
theorem run_lengthField (h : Head) (tape : Tape)
    (length : h.lengthField.length = Head.lengthWidth h.second) :
    ∃ p, SizedAs h p ∧
      run ((begun h.first).coded h.second) (h.lengthField ++ tape) = run p tape := by
  by_cases short : Head.code h.second ≤ 125
  · have none : h.lengthField = [] := by
      rw [(lengthWidth_eq_zero _).mpr short] at length
      exact List.length_eq_zero_iff.mp length
    exact ⟨(begun h.first).coded h.second, coded_short h short, by rw [none, List.nil_append]⟩
  · have coded := coded_long h short
    generalize (begun h.first).coded h.second = q at coded ⊢
    have wide : Head.lengthWidth h.second ≠ 0 :=
      fun width => short ((lengthWidth_eq_zero _).mp width)
    have some_octet : h.lengthField ≠ [] := by
      rintro none
      rw [none] at length
      exact wide length.symm
    have width := coded.width short
    have room : lengthField.stored q + h.lengthField.length ≤ lengthField.width q := by
      simp only [lengthField, length, width, coded.offset, Nat.zero_add, Nat.le_refl]
    have full : (lengthField.deposit q h.lengthField).payloadLenOffset =
        (lengthField.deposit q h.lengthField).extWidth := by
      have stored := lengthField.deposit_stored q h.lengthField
      have same := lengthField.deposit_width q h.lengthField
      simp only [lengthField, coded.offset, length, Nat.zero_add] at stored same ⊢
      rw [stored, same, width]
    refine ⟨_, coded.decode short, ?_⟩
    rw [lengthField.run_deposit coded.step h.lengthField some_octet room tape]
    simp only [lengthField] at full ⊢
    rw [closeLength, if_pos full, after_nil]

/-- The parser in front of the payload. -/
structure Ready (h : Head) (p : FrameParser) : Prop where
  step : p.parserStep = .payloadData
  payload : p.payload = []
  message : ∀ payload, p.message payload = h.message payload
  mask : p.frameHeader.mask ≠ 0 ↔ Head.masked h.second = true
  length : p.frameHeader.payloadRealyLen = h.lengthRead
  key : Head.masked h.second = true → p.frameHeader.maskingKey = h.keyRead

theorem SizedAs.close (sized : SizedAs h p) (length : h.keyField.length = 4) :
    Ready h (keyField.deposit p h.keyField).closeKey := by
  rw [deposit_key, sized.keyPos, sized.key, length, closeKey, if_pos rfl]
  exact ⟨rfl, sized.payload, sized.message, sized.mask, sized.length, fun _ => rfl⟩

theorem SizedAs.unmasked (sized : SizedAs h p) (plain : ¬Head.masked h.second = true) : Ready h p :=
  ⟨by rw [sized.step, if_neg plain], sized.payload, sized.message, sized.mask, sized.length,
    fun masked => absurd masked plain⟩

theorem run_keyField (sized : SizedAs h p) (nonempty : Head.code h.second ≠ 0)
    (length : h.keyField.length = Head.keyWidth h.second) (tape : Tape) :
    ∃ q, Ready h q ∧ run p (h.keyField ++ tape) = run q tape := by
  by_cases masked : Head.masked h.second = true
  · rw [Head.keyWidth, if_pos ⟨masked, nonempty⟩] at length
    have some_octet : h.keyField ≠ [] := List.ne_nil_of_length_pos (by omega)
    have step : p.parserStep = .maskingKey := by rw [sized.step, if_pos masked]
    have room : keyField.stored p + h.keyField.length ≤ keyField.width p := by
      simp only [keyField, sized.keyPos, length, Nat.zero_add, Nat.le_refl]
    refine ⟨_, sized.close length, ?_⟩
    rw [keyField.run_deposit step h.keyField some_octet room tape]
    exact after_nil _
  · rw [Head.keyWidth, if_neg fun both => masked both.1] at length
    rw [List.length_eq_zero_iff.mp length]
    exact ⟨p, sized.unmasked masked, rfl⟩

/-- The octets of a frame that starts a tape. -/
theorem ofTape_split (found : Head.ofTape tape = some h) :
    ∃ here there,
      tape = (h.first, here) :: (h.second, there) :: (h.lengthField ++ (h.keyField ++ h.rest)) ∧
      h.lengthField.length = Head.lengthWidth h.second ∧
      h.keyField.length = Head.keyWidth h.second := by
  match tape, found with
  | (first, here) :: (second, there) :: tape, found =>
    simp only [Head.ofTape] at found
    split at found
    · rename_i room
      cases found
      refine ⟨here, there, ?_, ?_, ?_⟩
      · rw [← List.drop_drop, List.take_append_drop, List.take_append_drop]
      · exact List.length_take_of_le (by omega)
      · exact List.length_take_of_le (by rw [List.length_drop]; omega)
    · cases found
  | [], found => cases found
  | [_], found => cases found

theorem run_head (found : Head.ofTape tape = some h) (nonempty : Head.code h.second ≠ 0) :
    ∃ p, Ready h p ∧ run reset tape = run p h.rest := by
  obtain ⟨here, there, tape, length, key⟩ := ofTape_split found
  obtain ⟨p, sized, sizes⟩ := run_lengthField h (h.keyField ++ h.rest) length
  obtain ⟨q, ready, keys⟩ := run_keyField sized nonempty key h.rest
  exact ⟨q, ready, by rw [tape, run_first, if_neg nonempty, sizes, keys]⟩

/-- An empty frame needs no more than its two octets. -/
theorem run_head_empty (found : Head.ofTape tape = some h) (empty : Head.code h.second = 0) :
    run reset tape = after [h.message []] (run reset h.rest) := by
  obtain ⟨here, there, tape, length, key⟩ := ofTape_split found
  have noLength : h.lengthField = [] :=
    List.length_eq_zero_iff.mp (by simp [length, Head.lengthWidth, empty])
  have noKey : h.keyField = [] :=
    List.length_eq_zero_iff.mp (by simp [key, Head.keyWidth, empty])
  rw [tape, run_first, if_pos empty, coded_message, noLength, noKey]
  rfl

/-- A header that the stream does not complete makes no callback. -/
theorem run_incomplete (missing : Head.ofTape tape = none) :
    ∃ p, run reset tape = some (p, []) := by
  match tape, missing with
  | [], _ => exact ⟨reset, rfl⟩
  | [(first, _)], _ => exact ⟨begun first, rfl⟩
  | (first, here) :: (second, there) :: tape, missing =>
    have lacking : tape.length < Head.lengthWidth second + Head.keyWidth second := by
      simp only [Head.ofTape] at missing
      split at missing
      · cases missing
      · omega
    have nonempty : Head.code second ≠ 0 := by
      intro empty
      simp [Head.lengthWidth, Head.keyWidth, empty] at lacking
    rw [run_first, if_neg nonempty]
    by_cases cut : tape.length < Head.lengthWidth second
    · have long : ¬Head.code second ≤ 125 := by
        intro short
        rw [(lengthWidth_eq_zero _).mpr short] at cut
        omega
      have coded := coded_long ⟨first, second, [], [], []⟩ long
      have room : lengthField.stored ((begun first).coded second) + tape.length <
          lengthField.width ((begun first).coded second) := by
        simp only [lengthField, coded.offset, coded.width long]
        omega
      exact ⟨_, lengthField.run_open coded.step tape room⟩
    · obtain ⟨p, sized, sizes⟩ := run_lengthField
        ⟨first, second, tape.take (Head.lengthWidth second), [], []⟩
        (tape.drop (Head.lengthWidth second)) (List.length_take_of_le (by omega))
      rw [List.take_append_drop] at sizes
      have masked : Head.masked second = true := by
        by_contra plain
        rw [Head.keyWidth, if_neg fun both => plain both.1] at lacking
        omega
      have step : p.parserStep = .maskingKey := by rw [sized.step, if_pos masked]
      have room : keyField.stored p + (tape.drop (Head.lengthWidth second)).length <
          keyField.width p := by
        rw [Head.keyWidth, if_pos ⟨masked, nonempty⟩] at lacking
        simp only [keyField, sized.keyPos, List.length_drop]
        omega
      exact ⟨_, by rw [sizes, keyField.run_open step _ room]⟩

/-- Unmasks octets, each with the key octet at the smaller of its two offsets. -/
def unmask (key : Memory 4) (start : Nat) : Tape → Bytes
  | [] => []
  | (octet, place) :: tape =>
    (octet ^^^ key.load (min start place % 4)) :: unmask key (start + 1) tape

namespace Head

/-- The octets that the parser makes of a payload. -/
def unmasked (h : Head) (octets : Tape) : Bytes :=
  if masked h.second then unmask h.keyRead 0 octets else Tape.octets octets

end Head

theorem deposit_payload (p : FrameParser) (field : Tape) :
    payloadField.deposit p field =
      { p with
        payload := p.payload ++
          if p.frameHeader.mask ≠ 0 then unmask p.frameHeader.maskingKey p.payload.length field
          else Tape.octets field } := by
  induction field generalizing p with
  | nil => simp [FrameField.deposit, unmask, Tape.octets]
  | cons item field ih =>
    obtain ⟨octet, place⟩ := item
    change payloadField.deposit (p.storePayload (min p.payload.length place) [octet]) field = _
    rw [ih]
    by_cases plain : p.frameHeader.mask = 0 <;>
      simp [storePayload, plain, unmask, Tape.octets, Bytes.xorFrom]

theorem Ready.deposit (ready : Ready h p) (field : Tape) :
    payloadField.deposit p field = { p with payload := h.unmasked field } := by
  rw [deposit_payload, ready.payload, List.nil_append, Head.unmasked]
  by_cases masked : Head.masked h.second = true
  · rw [if_pos (ready.mask.mpr masked), if_pos masked, ready.key masked]
    rfl
  · rw [if_neg fun mask => masked (ready.mask.mp mask), if_neg masked]

theorem unmasked_length (h : Head) (octets : Tape) :
    (h.unmasked octets).length = octets.length := by
  have unmask_length : ∀ (key : Memory 4) (octets : Tape) (start : Nat),
      (unmask key start octets).length = octets.length := by
    intro key octets
    induction octets with
    | nil => intro start; rfl
    | cons item octets ih => intro start; simp [unmask, ih]
  rw [Head.unmasked]
  split
  · exact unmask_length _ _ _
  · exact List.length_map _

/-- A payload block of the width that the parser still asks for. -/
theorem Ready.run_block (ready : Ready h p) {block : Tape} (some_octet : block ≠ [])
    (width : block.length = h.lengthRead % 2 ^ 32) (tape : Tape) :
    run p (block ++ tape) =
      if block.length = h.lengthRead then after [h.message (h.unmasked block)] (run reset tape)
      else run { p with payload := h.unmasked block } tape := by
  have room : payloadField.stored p + block.length ≤ payloadField.width p := by
    simp only [payloadField, ready.payload, ready.length, width, List.length_nil, Nat.zero_add,
      Nat.le_refl]
  rw [payloadField.run_deposit ready.step block some_octet room, ready.deposit]
  by_cases full : block.length = h.lengthRead
  · simp only [payloadField, closePayload, unmasked_length, ready.length, full, if_true]
    rw [← ready.message]
    rfl
  · simp only [payloadField, closePayload, unmasked_length, ready.length, full, if_false, after_nil]

/-- A payload that comes whole is reported, and the next frame begins. -/
theorem Ready.run_whole (ready : Ready h p) (some_ : h.rest ≠ [])
    (complete : h.lengthRead ≤ h.rest.length) (small : h.lengthRead < 2 ^ 32) :
    (run p h.rest).map Prod.snd =
      ((run reset (h.rest.drop h.lengthRead)).map Prod.snd).map
        (h.message (h.unmasked (h.rest.take h.lengthRead)) :: ·) := by
  by_cases empty : h.lengthRead = 0
  · obtain ⟨item, tape, cons⟩ := List.exists_cons_of_ne_nil some_
    have nothing : p.payload.length = p.frameHeader.payloadRealyLen := by
      rw [ready.payload, ready.length, empty]
      rfl
    have noOctets : h.unmasked [] = [] := List.eq_nil_of_length_eq_zero (unmasked_length h [])
    rw [empty, cons, run_complete ready.step nothing, ready.payload, ready.message,
      List.take_zero, List.drop_zero, noOctets]
    cases run reset (item :: tape) <;> rfl
  · have length : (h.rest.take h.lengthRead).length = h.lengthRead :=
      List.length_take_of_le complete
    have block : h.rest.take h.lengthRead ≠ [] := List.ne_nil_of_length_pos (by omega)
    conv_lhs => rw [← List.take_append_drop h.lengthRead h.rest]
    rw [ready.run_block block (by rw [length, Nat.mod_eq_of_lt small]), if_pos length]
    cases run reset (h.rest.drop h.lengthRead) <;> rfl

/-- A length that wraps around: the parser has its payload and never sees it full. -/
theorem Ready.run_wrapped (ready : Ready h p) (long : h.lengthRead % 2 ^ 32 < h.rest.length)
    (wraps : h.lengthRead % 2 ^ 32 ≠ h.lengthRead) : (run p h.rest).map Prod.snd = none := by
  by_cases empty : h.lengthRead % 2 ^ 32 = 0
  · have stuck : p.Stuck := by
      refine ⟨ready.step, ?_, ?_⟩ <;> rw [ready.payload, ready.length, List.length_nil]
      · exact empty.symm
      · omega
    obtain ⟨item, tape, cons⟩ := List.exists_cons_of_length_pos (Nat.zero_lt_of_lt long)
    rw [cons, run_stuck stuck]
    rfl
  · have length : (h.rest.take (h.lengthRead % 2 ^ 32)).length = h.lengthRead % 2 ^ 32 :=
      List.length_take_of_le (Nat.le_of_lt long)
    have block : h.rest.take (h.lengthRead % 2 ^ 32) ≠ [] :=
      List.ne_nil_of_length_pos (by omega)
    have more : h.rest.drop (h.lengthRead % 2 ^ 32) ≠ [] :=
      List.ne_nil_of_length_pos (by rw [List.length_drop]; omega)
    obtain ⟨item, tape, cons⟩ := List.exists_cons_of_ne_nil more
    have stuck : ({ p with payload := h.unmasked (h.rest.take (h.lengthRead % 2 ^ 32)) } :
        FrameParser).Stuck := by
      refine ⟨ready.step, ?_, ?_⟩ <;> simp only [unmasked_length, length, ready.length]
      exact wraps
    rw [← List.take_append_drop (h.lengthRead % 2 ^ 32) h.rest,
      ready.run_block block length, if_neg (by rw [length]; exact wraps), cons, run_stuck stuck]
    rfl

/-- What the callbacks behind a header are. -/
theorem run_ready (ready : Ready h p) :
    (run p h.rest).map Prod.snd =
      if h.rest = [] then some []
      else if h.lengthRead ≤ h.rest.length ∧ h.lengthRead < 2 ^ 32 then
        ((run reset (h.rest.drop h.lengthRead)).map Prod.snd).map
          (h.message (h.unmasked (h.rest.take h.lengthRead)) :: ·)
      else if h.rest.length ≤ h.lengthRead % 2 ^ 32 then some [] else none := by
  by_cases none : h.rest = []
  · rw [if_pos none, none]
    rfl
  rw [if_neg none]
  have some_octet : 0 < h.rest.length := List.length_pos_iff.mpr none
  by_cases complete : h.lengthRead ≤ h.rest.length ∧ h.lengthRead < 2 ^ 32
  · rw [if_pos complete]
    exact ready.run_whole none complete.1 complete.2
  rw [if_neg complete]
  rcases Nat.lt_trichotomy h.rest.length (h.lengthRead % 2 ^ 32) with short | exactly | long
  · have room : payloadField.stored p + h.rest.length < payloadField.width p := by
      simp only [payloadField, ready.payload, ready.length, List.length_nil, Nat.zero_add, short]
    rw [payloadField.run_open ready.step h.rest room, if_pos (Nat.le_of_lt short)]
    rfl
  · have differs : h.rest.length ≠ h.lengthRead := fun same =>
      complete ⟨Nat.le_of_eq same.symm, by omega⟩
    have ran := ready.run_block none exactly []
    rw [List.append_nil, if_neg differs] at ran
    rw [ran, if_pos (Nat.le_of_eq exactly)]
    rfl
  · rw [if_neg (by omega)]
    refine ready.run_wrapped long ?_
    intro same
    exact complete ⟨by omega, by omega⟩

/-- The messages of the frames that a stream completes. -/
def decode (tape : Tape) : List Message := (frameHeads tape).filterMap Head.sent

theorem frameHeads_cons (found : Head.ofTape tape = some h) :
    frameHeads tape = h :: frameHeads (h.rest.drop h.announced) := by
  rw [frameHeads]
  split
  · rename_i other same
    rw [found] at same
    cases same
    rfl
  · rename_i same
    rw [found] at same
    cases same

theorem frameHeads_nil (missing : Head.ofTape tape = none) : frameHeads tape = [] := by
  rw [frameHeads]
  split
  · rename_i same
    rw [missing] at same
    cases same
  · rfl

theorem decode_cons (found : Head.ofTape tape = some h) :
    decode tape = h.sent.toList ++ decode (h.rest.drop h.announced) := by
  rw [decode, frameHeads_cons found, List.filterMap_cons]
  cases h.sent with
  | none => rfl
  | some m => rfl

theorem unmask_eq_iff (key sent : Memory 4) (start : Nat) (octets : Tape) :
    unmask key start octets =
        Bytes.xorFrom (fun i => sent.load (i % 4)) start (Tape.octets octets) ↔
      ∀ item ∈ octets.zipIdx start,
        key.load (min item.2 item.1.2 % 4) = sent.load (item.2 % 4) := by
  induction octets generalizing start with
  | nil => simp [unmask, Tape.octets, Bytes.xorFrom]
  | cons item octets ih =>
    have next := ih (start + 1)
    simp only [Tape.octets] at next
    simp only [unmask, Tape.octets, List.map_cons, Bytes.xorFrom, List.cons.injEq, List.zipIdx_cons,
      List.forall_mem_cons, UInt8.xor_right_inj, next]

namespace Head

theorem unmasked_eq_iff (h : Head) :
    h.unmasked (h.rest.take h.announced) = h.payload ↔ h.KeyRight := by
  rw [unmasked, payload, KeyRight]
  by_cases plain : masked h.second = true
  · simp only [plain, if_true, forall_const]
    exact unmask_eq_iff _ _ _ _
  · simp [plain]

/-- A header whose code is its length. -/
theorem announced_of_empty (h : Head) (empty : code h.second = 0) : h.announced = 0 := by
  have width : lengthWidth h.second = 0 := by simp [lengthWidth, empty]
  rw [announced, if_pos width, empty]
  rfl

end Head

theorem map_snd_after (messages : List Message) (result : Option (FrameParser × List Message)) :
    (after messages result).map Prod.snd = (result.map Prod.snd).map (messages ++ ·) := by
  cases result <;> rfl

theorem map_cons_eq_some (m n : Message) (later : Option (List Message)) (rest : List Message) :
    later.map (m :: ·) = some (n :: rest) ↔ m = n ∧ later = some rest := by
  cases later <;> simp

theorem decode_nil : decode [] = [] := by
  rw [decode, frameHeads_nil rfl]
  rfl

/-- A frame whose payload the stream completes. -/
theorem complete_iff (found : Head.ofTape tape = some h) (nonempty : Head.code h.second ≠ 0)
    (small : h.announced < 2 ^ 32) (more : h.rest ≠ []) (enough : h.announced ≤ h.rest.length)
    (later : List Message) :
    (run reset tape).map Prod.snd = some (h.message h.payload :: later) ↔
      (h.lengthRead = h.announced ∧ h.KeyRight) ∧
        (run reset (h.rest.drop h.announced)).map Prod.snd = some later := by
  obtain ⟨p, ready, ran⟩ := run_head found nonempty
  have callbacks := run_ready ready
  rw [if_neg more] at callbacks
  rw [ran, callbacks]
  by_cases same : h.lengthRead = h.announced
  · have agrees : h.message (h.unmasked (h.rest.take h.announced)) = h.message h.payload ↔
        h.KeyRight := by
      rw [← h.unmasked_eq_iff]
      simp [Head.message]
    rw [same, if_pos ⟨enough, small⟩, map_cons_eq_some, agrees]
    simp only [true_and]
  · refine iff_of_false ?_ fun right => same right.1.1
    split
    · rename_i read
      rw [map_cons_eq_some]
      rintro ⟨message, -⟩
      have lengths : (h.rest.take h.lengthRead).length = (h.rest.take h.announced).length := by
        have payload : h.payload.length = (h.rest.take h.announced).length := by
          simp only [Head.payload, Tape.octets]
          split <;> simp
        rw [← payload, ← unmasked_length h]
        exact congrArg (fun m => m.payload.length) message
      rw [List.length_take_of_le read.1, List.length_take_of_le enough] at lengths
      exact same lengths
    · split <;> simp

/-- A frame whose payload the stream does not complete. -/
theorem incomplete_iff (found : Head.ofTape tape = some h) (nonempty : Head.code h.second ≠ 0)
    (more : h.rest ≠ []) :
    (run reset tape).map Prod.snd = some [] ↔
      h.rest.length < h.lengthRead ∧ h.rest.length ≤ h.lengthRead % 2 ^ 32 := by
  obtain ⟨p, ready, ran⟩ := run_head found nonempty
  have callbacks := run_ready ready
  rw [if_neg more] at callbacks
  rw [ran, callbacks]
  have truncated : h.lengthRead % 2 ^ 32 < 2 ^ 32 := Nat.mod_lt _ (by decide)
  split
  · refine iff_of_false ?_ (by omega)
    cases (run reset (h.rest.drop h.lengthRead)) <;> simp
  · split
    · exact iff_of_true rfl (by omega)
    · exact iff_of_false (by simp) (by omega)

/-- The callbacks on a stream in chunks are the messages of its frames exactly
if the cuts do no harm to any of them. -/
theorem callbacks_iff (tape : Tape) (bounded : ∀ h ∈ frameHeads tape, h.announced < 2 ^ 32) :
    (run reset tape).map Prod.snd = some (decode tape) ↔ ∀ h ∈ frameHeads tape, h.ReadRight := by
  induction size : tape.length using Nat.strongRecOn generalizing tape with
  | ind size ih =>
    cases found : Head.ofTape tape with
    | none =>
      obtain ⟨p, ran⟩ := run_incomplete found
      simp [decode, frameHeads_nil found, ran]
    | some h =>
      have heads := frameHeads_cons found
      have shorter := Head.ofTape_rest_length found
      have next := ih (h.rest.drop h.announced).length (by rw [List.length_drop]; omega)
        (h.rest.drop h.announced)
        (fun g member => bounded g (heads ▸ List.mem_cons_of_mem h member)) rfl
      have small := bounded h (heads ▸ List.mem_cons_self)
      rw [heads, List.forall_mem_cons, ← next, decode_cons found, Head.sent, Head.ReadRight]
      by_cases empty : Head.code h.second = 0
      · rw [run_head_empty found empty, map_snd_after, h.announced_of_empty empty, List.drop_zero]
        simp [empty]
      by_cases none : h.rest = []
      · obtain ⟨p, ready, ran⟩ := run_head found empty
        simp [empty, none, decode_nil, ran, run]
      by_cases enough : h.announced ≤ h.rest.length
      · simp only [empty, none, enough, false_or, if_true, if_false, ne_eq, not_false_eq_true,
          and_self, Option.toList_some, List.singleton_append]
        exact complete_iff found empty small none enough _
      · have consumed : h.rest.drop h.announced = [] := List.drop_eq_nil_of_le (by omega)
        simp only [empty, none, enough, false_or, if_false, and_false, Option.toList_none,
          List.nil_append, consumed, decode_nil]
        rw [incomplete_iff found empty none]
        simp [run]

/-- A tape without its cuts: its frames and their messages are the same. -/
def erase (tape : Tape) : Tape := tape.map fun item => (item.1, 0)

def Head.erase (h : Head) : Head :=
  { h with
    lengthField := Websocket.erase h.lengthField
    keyField := Websocket.erase h.keyField
    rest := Websocket.erase h.rest }

theorem erase_eq_of_octets {first second : Tape} (same : Tape.octets first = Tape.octets second) :
    erase first = erase second := by
  have mapped : ∀ tape : Tape, erase tape = (Tape.octets tape).map fun octet => (octet, 0) := by
    intro tape
    rw [erase, Tape.octets, List.map_map]
    rfl
  rw [mapped, mapped, same]

@[simp] theorem octets_erase (tape : Tape) : Tape.octets (erase tape) = Tape.octets tape := by
  simp [Tape.octets, erase, Function.comp_def]

theorem Head.ofTape_erase (tape : Tape) :
    ofTape (Websocket.erase tape) = (ofTape tape).map Head.erase := by
  match tape with
  | (first, _) :: (second, _) :: tape =>
    simp only [Websocket.erase, List.map_cons, ofTape, List.length_map]
    split
    · simp only [Option.map_some, Head.erase, Websocket.erase, List.map_take, List.map_drop]
    · rfl
  | [] => rfl
  | [_] => rfl

@[simp] theorem Head.announced_erase (h : Head) : h.erase.announced = h.announced := by
  simp only [announced, erase, octets_erase]

theorem Head.sent_erase (h : Head) : h.erase.sent = h.sent := by
  have octets : Tape.octets (h.erase.rest.take h.erase.announced) =
      Tape.octets (h.rest.take h.announced) := by
    rw [announced_erase]
    simp [erase, Websocket.erase, Tape.octets, List.map_take, Function.comp_def]
  have key : h.erase.key = h.key := by simp only [Head.key, erase, octets_erase]
  have payload : h.erase.payload = h.payload := by
    simp only [Head.payload, octets, key]
    rfl
  simp only [sent, payload, announced_erase]
  simp [erase, Websocket.erase, message]

theorem frameHeads_erase (tape : Tape) :
    frameHeads (erase tape) = (frameHeads tape).map Head.erase := by
  induction size : tape.length using Nat.strongRecOn generalizing tape with
  | ind size ih =>
    have erased := Head.ofTape_erase tape
    cases found : Head.ofTape tape with
    | none => rw [frameHeads_nil found, frameHeads_nil (by rw [erased, found]; rfl), List.map_nil]
    | some h =>
      have shorter := Head.ofTape_rest_length found
      have next := ih (h.rest.drop h.announced).length (by rw [List.length_drop]; omega)
        (h.rest.drop h.announced) rfl
      rw [found, Option.map_some] at erased
      rw [frameHeads_cons found, frameHeads_cons erased, List.map_cons, ← next,
        Head.announced_erase]
      simp only [Head.erase, erase, List.map_drop]

theorem decode_erase (tape : Tape) : decode (erase tape) = decode tape := by
  rw [decode, frameHeads_erase, List.filterMap_map, decode]
  exact List.filterMap_congr fun h _ => h.sent_erase

theorem FrameParser.Tape.fill_uncut (m : Memory size) (start : Nat) (field : Tape)
    (uncut : ∀ (i : Nat) (item : UInt8 × Nat), field[i]? = some item → start + i ≤ item.2) :
    Tape.fill m start field = m.copy start (Tape.octets field) := by
  induction field generalizing m start with
  | nil => rfl
  | cons item field ih =>
    obtain ⟨octet, place⟩ := item
    have here : start ≤ place := uncut 0 (octet, place) rfl
    have there :
        ∀ (i : Nat) (item : UInt8 × Nat), field[i]? = some item → start + 1 + i ≤ item.2 := by
      intro i item found
      have bound := uncut (i + 1) item found
      omega
    rw [Tape.fill, Nat.min_eq_left here, ih _ _ there]
    rfl

theorem FrameParser.Tape.fill_zero (field : Tape) (uncut : Tape.Uncut field)
    (full : field.length = size) :
    (Tape.fill (Memory.zero size) 0 field).bytes = Tape.octets field := by
  rw [Tape.fill_uncut _ 0 field fun i item found => by
    rw [Nat.zero_add]
    exact uncut i item found]
  exact Memory.copy_all _ _ (by rw [Tape.octets, List.length_map, full])

namespace Head

/-- No cut inside the length or the key, and cuts inside a masked payload only
at multiples of the key's length. -/
structure Uncut (h : Head) : Prop where
  length : Tape.Uncut h.lengthField
  key : Tape.Uncut h.keyField
  payload : masked h.second →
    ∀ item ∈ (h.rest.take h.announced).zipIdx, min item.2 item.1.2 % 4 = item.2 % 4

theorem Uncut.lengthRead_eq (found : ofTape tape = some h) (uncut : h.Uncut) :
    h.lengthRead = h.announced := by
  obtain ⟨-, -, -, length, -⟩ := ofTape_split found
  rw [lengthRead, announced]
  split
  · rfl
  · rename_i wide
    split
    · rename_i code
      rw [Tape.fill_zero _ uncut.length (by rw [length, lengthWidth, if_pos code])]
    · rename_i other
      have code : code h.second = 127 := by
        by_contra another
        exact wide (by rw [lengthWidth, if_neg other, if_neg another])
      rw [Tape.fill_zero _ uncut.length (by rw [length, lengthWidth, if_neg other, if_pos code])]

theorem Uncut.readRight (found : ofTape tape = some h) (uncut : h.Uncut)
    (small : h.announced < 2 ^ 32) : h.ReadRight := by
  have length := uncut.lengthRead_eq found
  have key : h.keyRead = h.key :=
    Tape.fill_uncut _ 0 _ fun i item found => by
      rw [Nat.zero_add]
      exact uncut.key i item found
  refine .inr (.inr ?_)
  rw [length]
  split
  · refine ⟨rfl, fun plain item member => ?_⟩
    rw [key, uncut.payload plain item member]
  · rw [Nat.mod_eq_of_lt small]
    omega

end Head

theorem FrameParser.Tape.Uncut.left {first second : Tape} (uncut : Tape.Uncut (first ++ second)) :
    Tape.Uncut first := by
  intro i item found
  apply uncut i item
  rw [List.getElem?_append_left (List.getElem?_eq_some_iff.mp found).1, found]

theorem FrameParser.Tape.Uncut.right {first second : Tape} (uncut : Tape.Uncut (first ++ second)) :
    Tape.Uncut second := by
  intro i item found
  have bound := uncut (first.length + i) item (by
    rw [List.getElem?_append_right (Nat.le_add_right _ _), Nat.add_sub_cancel_left, found])
  omega

theorem FrameParser.Tape.uncut_zipIdx (octets : Bytes) : Tape.Uncut octets.zipIdx := by
  intro i item found
  rw [List.getElem?_zipIdx, Option.map_eq_some_iff] at found
  obtain ⟨octet, -, rfl⟩ := found
  omega

theorem uncut_of_found (uncut : Tape.Uncut tape) (found : Head.ofTape tape = some h) :
    h.Uncut ∧ Tape.Uncut h.rest := by
  obtain ⟨here, there, split, -, -⟩ := ofTape_split found
  have whole : Tape.Uncut ([(h.first, here), (h.second, there)] ++
      (h.lengthField ++ (h.keyField ++ h.rest))) := by
    rw [split] at uncut
    exact uncut
  have fields := whole.right
  refine ⟨⟨fields.left, fields.right.left, fun _ item member => ?_⟩, fields.right.right⟩
  have taken : Tape.Uncut (h.rest.take h.announced) := by
    have rest := fields.right.right
    rw [← List.take_append_drop h.announced h.rest] at rest
    exact rest.left
  rw [Nat.min_eq_left (taken item.2 item.1 (List.mem_zipIdx_iff_getElem?.mp member))]

theorem uncut_readRight (tape : Tape) (uncut : Tape.Uncut tape)
    (bounded : ∀ h ∈ frameHeads tape, h.announced < 2 ^ 32) :
    ∀ h ∈ frameHeads tape, h.ReadRight := by
  induction size : tape.length using Nat.strongRecOn generalizing tape with
  | ind size ih =>
    cases found : Head.ofTape tape with
    | none =>
      rw [frameHeads_nil found]
      intro h member
      exact absurd member List.not_mem_nil
    | some h =>
      have shorter := Head.ofTape_rest_length found
      obtain ⟨here, later⟩ := uncut_of_found uncut found
      rw [← List.take_append_drop h.announced h.rest] at later
      rw [frameHeads_cons found, List.forall_mem_cons] at bounded ⊢
      exact ⟨here.readRight found bounded.1,
        ih _ (by rw [List.length_drop]; omega) _ later.right bounded.2 rfl⟩

/-- The whole stream in one call makes the callbacks of its frames. -/
theorem parse_whole (ndebug : Bool) {stream : Bytes} (called : ndebug = true ∨ stream ≠ [])
    (bounded : ∀ h ∈ frameHeads stream.zipIdx, h.announced < 2 ^ 32) :
    (parse ndebug fresh stream).map Outcome.messages = some (decode stream.zipIdx) := by
  by_cases none : stream = []
  · have debug : ndebug = true := called.resolve_right fun more => more none
    rw [none, debug, List.zipIdx_nil, decode_nil]
    rfl
  · have right := uncut_readRight _ (Tape.uncut_zipIdx stream) bounded
    rw [← (callbacks_iff _ bounded).mpr right, fresh, parse_eq_run ndebug reset_coherent none,
      Option.map_map]
    rfl

theorem octets_tapeOf (chunks : List Bytes) :
    Tape.octets (tapeOf chunks) = Tape.octets chunks.flatten.zipIdx := by
  have octets : ∀ (stream : Bytes), Tape.octets stream.zipIdx = stream := fun stream =>
    List.zipIdx_map_fst 0 stream
  rw [octets]
  induction chunks with
  | nil => rfl
  | cons chunk chunks ih =>
    have here := octets chunk
    simp only [tapeOf, Tape.octets] at ih here
    rw [tapeOf, Tape.octets, List.flatMap_cons, List.map_append, here, ih, List.flatten_cons]

/-- A text frame with the payload `ab`, masked, whose last octet is a chunk of its own. -/
def cutPayload : List Bytes := [[0x81, 0x82, 1, 2, 3, 4, 0x60], [0x60]]

theorem cutPayload_heads : frameHeads (tapeOf cutPayload) =
    [⟨0x81, 0x82, [], [(1, 2), (2, 3), (3, 4), (4, 5)], [(0x60, 6), (0x60, 0)]⟩] := by
  rw [frameHeads_cons (h := ⟨0x81, 0x82, [], [(1, 2), (2, 3), (3, 4), (4, 5)],
    [(0x60, 6), (0x60, 0)]⟩) (by decide), frameHeads_nil (by decide)]

end Da4qi4.Websocket
