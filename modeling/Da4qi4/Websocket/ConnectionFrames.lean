import Da4qi4.Websocket.ConnectionReading
import Da4qi4.Websocket.FrameTermination

/-! Frames of a client, cut into reads. The operation codes that the parser reports are
those of the frames that have come whole, as long as it reads their lengths right; what
it makes of a payload does not matter here. -/
namespace Da4qi4.Websocket
open FrameParser

/-- The cuts leave the lengths of the frames as they are. -/
def Sized (tape : Tape) : Prop := ∀ h ∈ frameHeads tape, h.lengthRead = h.announced

theorem run_of_map_snd {p : FrameParser} (ran : (run p tape).map Prod.snd = some messages) :
    ∃ q, run p tape = some (q, messages) := by
  obtain ⟨⟨q, _⟩, result, rfl⟩ := Option.map_eq_some_iff.mp ran
  exact ⟨q, result⟩

theorem after_opcodes {m n : Message} (same : m.opcode = n.opcode)
    (later : ∃ p found, run reset tape = some (p, found) ∧
      found.map Message.opcode = messages.map Message.opcode) :
    ∃ p found, after [m] (run reset tape) = some (p, found) ∧
      found.map Message.opcode = (n :: messages).map Message.opcode := by
  obtain ⟨p, found, ran, opcodes⟩ := later
  refine ⟨p, m :: found, by rw [ran]; rfl, ?_⟩
  rw [List.map_cons, List.map_cons, same, opcodes]

/-- The callbacks on a tape have the codes of its frames. -/
theorem run_opcodes (tape : Tape) (sized : Sized tape)
    (bounded : ∀ h ∈ frameHeads tape, h.announced < 2 ^ 32) :
    ∃ p messages, run reset tape = some (p, messages) ∧
      messages.map Message.opcode = (decode tape).map Message.opcode := by
  induction size : tape.length using Nat.strongRecOn generalizing tape with
  | ind size ih =>
    cases found : Head.ofTape tape with
    | none =>
      obtain ⟨p, ran⟩ := run_incomplete found
      exact ⟨p, [], ran, by rw [decode, frameHeads_nil found]; rfl⟩
    | some h =>
      have heads := frameHeads_cons found
      have shorter := Head.ofTape_rest_length found
      have right := sized h (heads ▸ List.mem_cons_self)
      have small := bounded h (heads ▸ List.mem_cons_self)
      have later := ih (h.rest.drop h.announced).length (by rw [List.length_drop]; omega)
        (h.rest.drop h.announced)
        (fun g member => sized g (heads ▸ List.mem_cons_of_mem h member))
        (fun g member => bounded g (heads ▸ List.mem_cons_of_mem h member)) rfl
      rw [decode_cons found]
      by_cases empty : Head.code h.second = 0
      · rw [h.announced_of_empty empty, List.drop_zero] at later ⊢
        rw [Head.sent, if_pos empty, run_head_empty found empty]
        exact after_opcodes rfl later
      obtain ⟨p, ready, ran⟩ := run_head found empty
      have callbacks := run_ready ready
      rw [right] at callbacks
      rw [ran, Head.sent, if_neg empty]
      by_cases none : h.rest = []
      · rw [if_pos none] at callbacks
        obtain ⟨q, result⟩ := run_of_map_snd callbacks
        refine ⟨q, [], result, ?_⟩
        rw [if_neg fun some_ => some_.1 none, none, List.drop_nil, decode_nil]
        rfl
      by_cases enough : h.announced ≤ h.rest.length
      · rw [if_neg none, if_pos ⟨enough, small⟩] at callbacks
        obtain ⟨q, found, result, opcodes⟩ := later
        rw [result, Option.map_some, Option.map_some] at callbacks
        obtain ⟨r, again⟩ := run_of_map_snd callbacks
        refine ⟨r, _, again, ?_⟩
        rw [if_pos ⟨none, enough⟩, List.map_cons, opcodes]
        rfl
      · have consumed : h.rest.drop h.announced = [] := List.drop_eq_nil_of_le (by omega)
        rw [if_neg none, if_neg fun both => enough both.1,
          if_pos (by rw [Nat.mod_eq_of_lt small]; omega)] at callbacks
        obtain ⟨q, result⟩ := run_of_map_snd callbacks
        refine ⟨q, [], result, ?_⟩
        rw [if_neg fun both => enough both.2, consumed, decode_nil]
        rfl

/-- The frames that the first octets of a stream complete. -/
def arrived : List Frame → Nat → List Frame
  | [], _ => []
  | f :: frames, octets =>
    if f.encode.length ≤ octets then f :: arrived frames (octets - f.encode.length) else []

namespace Frame

/-- The octets in front of the payload. -/
def header (f : Frame) : Bytes :=
  (f.finBit ||| f.opcode) :: (lengthField f.maskBit f.payload.length ++ f.keyField)

theorem encode_eq (f : Frame) : f.encode = f.header ++ f.payloadField := by
  simp only [encode, header, List.cons_append, List.append_assoc]

/-- How a length is coded: in the second octet, and behind it. -/
theorem lengthField_coded (masked : Bool) {len : Nat} (bound : len < 2 ^ 32) :
    ∃ code ext, lengthField (if masked then 0x80 else 0) len =
        ((if masked then 0x80 else 0) ||| code.toUInt8) :: ext ∧ code < 128 ∧
      ext.length = (if code = 126 then 2 else if code = 127 then 8 else 0) ∧
      (if ext = [] then code else Bytes.bigEndian ext) = len ∧ (code = 0 ↔ len = 0) := by
  rw [lengthField]
  split
  · rename_i short
    refine ⟨len, [], rfl, by omega, ?_, if_pos rfl, Iff.rfl⟩
    rw [if_neg (by omega), if_neg (by omega)]
    rfl
  · rename_i long
    split
    · rename_i medium
      refine ⟨126, Bytes.ofBigEndian 2 len, rfl, by omega, Bytes.ofBigEndian_length 2 len, ?_, ?_⟩
      · exact Bytes.bigEndian_ofBigEndian medium
      · omega
    · rename_i large
      refine ⟨127, Bytes.ofBigEndian 8 len, rfl, by omega, Bytes.ofBigEndian_length 8 len, ?_, ?_⟩
      · exact Bytes.bigEndian_ofBigEndian (by omega)
      · omega

/-- What the second octet says of the fields behind it. -/
theorem second_fields (masked : Bool) {code : Nat} (bound : code < 128) :
    let second := (if masked then 0x80 else 0) ||| code.toUInt8
    (Head.code second).toNat = code ∧ Head.masked second = masked ∧
      Head.lengthWidth second = if code = 126 then 2 else if code = 127 then 8 else 0 := by
  have codes : ∀ n : Fin 128, n.val.toUInt8.toNat = n.val ∧
      (n.val.toUInt8 = 126 ↔ n.val = 126) ∧ (n.val.toUInt8 = 127 ↔ n.val = 127) := by
    decide +kernel
  obtain ⟨back, medium, large⟩ := codes ⟨code, bound⟩
  obtain ⟨mask, low⟩ := second_octet masked bound
  refine ⟨?_, ?_, ?_⟩
  · rw [Head.code, low, back]
  · rw [Head.masked, mask]
    cases masked with
    | true => rfl
    | false => rfl
  · rw [Head.lengthWidth, Head.code, low]
    exact if_congr medium rfl (if_congr large rfl rfl)

theorem keyField_length (f : Frame) : f.keyField.length = if f.key.isSome then 4 else 0 := by
  rw [keyField]
  cases f.key with
  | none => rfl
  | some key => exact key.fits

/-- The second octet of a frame, and what extends it, say how long the fields are. -/
structure Coded (f : Frame) (second : UInt8) (ext : Bytes) : Prop where
  header : f.header = (f.finBit ||| f.opcode) :: second :: (ext ++ f.keyField)
  empty : Head.code second = 0 ↔ f.payload = []
  width : ext.length = Head.lengthWidth second
  keyWidth : Head.keyWidth second = f.keyField.length
  value : (if ext = [] then (Head.code second).toNat else Bytes.bigEndian ext) = f.payload.length

theorem header_coded (f : Frame) (keyed : ¬f.MaskedEmpty) (short : f.payload.length < 2 ^ 32) :
    ∃ second ext, f.Coded second ext := by
  obtain ⟨code, ext, coded, bound, width, value, zero⟩ := lengthField_coded f.key.isSome short
  obtain ⟨low, masked, lengthWidth⟩ := second_fields f.key.isSome bound
  have empty : Head.code ((if f.key.isSome then 0x80 else 0) ||| code.toUInt8) = 0 ↔
      f.payload = [] := by
    refine Iff.trans ?_ (zero.trans List.length_eq_zero_iff)
    rw [← UInt8.toNat_inj, low]
    rfl
  refine ⟨_, ext, ?_, empty, width.trans lengthWidth.symm, ?_, ?_⟩
  · rw [header, maskBit, coded]
    rfl
  · rw [Head.keyWidth, masked, f.keyField_length]
    refine if_congr (and_iff_left_of_imp fun key => ?_) rfl rfl
    exact fun none => keyed ⟨key, empty.mp none⟩
  · rw [low, value]

end Frame

/-- The head of a frame, as far as the octets of a stream have come. -/
structure HeadOf (f : Frame) (more : Bytes) (octets : Nat) (h : Head) : Prop where
  announced : h.announced = f.payload.length
  empty : Head.code h.second = 0 ↔ f.payload = []
  opcode : h.first &&& 0x0f = f.opcode
  rest : Tape.octets h.rest = (f.payloadField ++ more).take (octets - f.header.length)

theorem map_fst_cons {tape : Tape} (same : Tape.octets tape = octet :: octets) :
    ∃ place later, tape = (octet, place) :: later ∧ Tape.octets later = octets := by
  obtain ⟨⟨first, place⟩, later, rfl, rfl, rest⟩ := List.map_eq_cons_iff.mp same
  exact ⟨place, later, rfl, rest⟩

theorem ofTape_whole {f : Frame} (coded : f.Coded b ext) {more : Bytes} {octets : Nat} {tape : Tape}
    (cut : Tape.octets tape = (f.finBit ||| f.opcode) :: b ::
      (ext ++ (f.keyField ++ (f.payloadField ++ more).take (octets - f.header.length)))) :
    ∃ h, Head.ofTape tape = some h ∧ HeadOf f more octets h := by
  obtain ⟨here, _, rfl, behind⟩ := map_fst_cons cut
  obtain ⟨there, later, rfl, fields⟩ := map_fst_cons behind
  have widths := coded.width
  have keyWidth := coded.keyWidth
  have length := congrArg List.length fields
  simp only [Tape.octets, List.length_map, List.length_append] at length
  refine ⟨_, if_pos (by omega), ?_⟩
  constructor
  · have field : Tape.octets (later.take (Head.lengthWidth b)) = ext := by
      rw [Tape.octets, List.map_take]
      exact (congrArg (List.take _) fields).trans (List.take_left' widths)
    rw [Head.announced, field, ← coded.value, ← widths]
    exact if_congr List.length_eq_zero_iff rfl rfl
  · exact coded.empty
  · exact (first_octet f.fin f.nibble).2.2.2.2
  · rw [Tape.octets, List.map_drop]
    refine (congrArg (List.drop _) fields).trans ?_
    rw [← List.append_assoc]
    exact List.drop_left' (by rw [List.length_append, widths, keyWidth])

theorem ofTape_partly {f : Frame} (coded : f.Coded b ext) {octets : Nat}
    (partly : octets < f.header.length) {tape : Tape}
    (cut : Tape.octets tape = f.header.take octets) : Head.ofTape tape = none := by
  rw [coded.header] at cut
  rw [coded.header, List.length_cons, List.length_cons, List.length_append, coded.width,
    ← coded.keyWidth] at partly
  rcases octets with _ | _ | octets
  · rw [List.map_eq_nil_iff.mp cut]
    rfl
  · obtain ⟨here, later, rfl, none⟩ := map_fst_cons cut
    rw [List.map_eq_nil_iff.mp none]
    rfl
  · obtain ⟨here, _, rfl, behind⟩ := map_fst_cons cut
    obtain ⟨there, later, rfl, fields⟩ := map_fst_cons behind
    have length := congrArg List.length fields
    rw [Tape.octets, List.length_map, List.length_take] at length
    exact if_neg (by omega)

theorem ofTape_encode (f : Frame) (keyed : ¬f.MaskedEmpty) (short : f.payload.length < 2 ^ 32)
    (more : Bytes) (octets : Nat) {tape : Tape}
    (cut : Tape.octets tape = (f.encode ++ more).take octets) :
    if f.header.length ≤ octets then ∃ h, Head.ofTape tape = some h ∧ HeadOf f more octets h
    else Head.ofTape tape = none := by
  obtain ⟨b, ext, coded⟩ := f.header_coded keyed short
  split
  · rename_i whole
    have split : (f.encode ++ more).take octets =
        (f.finBit ||| f.opcode) :: b ::
          (ext ++ (f.keyField ++ (f.payloadField ++ more).take (octets - f.header.length))) := by
      rw [f.encode_eq, List.append_assoc, List.take_append, List.take_of_length_le whole,
        coded.header]
      simp only [List.cons_append, List.append_assoc]
    rw [split] at cut
    exact ofTape_whole coded cut
  · rename_i partly
    have front : (f.encode ++ more).take octets = f.header.take octets := by
      rw [f.encode_eq, List.append_assoc, List.take_append_of_le_length (by omega)]
    rw [front] at cut
    exact ofTape_partly coded (by omega) cut

theorem Frame.encode_size (f : Frame) :
    f.encode.length = f.header.length + f.payload.length := by
  rw [f.encode_eq, List.length_append, f.payloadField_length]

/-- The frames on a tape are those that have arrived. -/
theorem decode_arrived (frames : List Frame) (keyed : ∀ f ∈ frames, ¬f.MaskedEmpty)
    (short : ∀ f ∈ frames, f.payload.length < 2 ^ 32) (octets : Nat) {tape : Tape}
    (cut : Tape.octets tape = (Frame.encodeAll frames).take octets) :
    (decode tape).map Message.opcode = (arrived frames octets).map Frame.opcode ∧
      ∀ h ∈ frameHeads tape, h.announced < 2 ^ 32 := by
  have nothing : ∀ t : Tape, frameHeads t = [] →
      decode t = [] ∧ ∀ h ∈ frameHeads t, h.announced < 2 ^ 32 := by
    intro t none
    rw [decode, none]
    exact ⟨rfl, List.forall_mem_nil _⟩
  induction frames generalizing octets tape with
  | nil =>
    have none : tape = [] := List.map_eq_nil_iff.mp (cut.trans List.take_nil)
    obtain ⟨messages, bounded⟩ := nothing tape (by rw [none]; exact frameHeads_nil rfl)
    rw [messages]
    exact ⟨rfl, bounded⟩
  | cons f frames ih =>
    obtain ⟨keyedHere, keyedLater⟩ := List.forall_mem_cons.mp keyed
    obtain ⟨shortHere, shortLater⟩ := List.forall_mem_cons.mp short
    have size := f.encode_size
    have found := ofTape_encode f keyedHere shortHere (Frame.encodeAll frames) octets cut
    split at found
    · rename_i begun
      obtain ⟨h, here, head⟩ := found
      have behind : h.rest.length =
          min (octets - f.header.length) (f.payload.length + (Frame.encodeAll frames).length) := by
        have length := congrArg List.length head.rest
        rw [Tape.octets, List.length_map, List.length_take, List.length_append,
          f.payloadField_length] at length
        exact length
      have heads := frameHeads_cons here
      rw [decode_cons here, heads, List.forall_mem_cons, head.announced, arrived]
      split
      · rename_i whole
        have later : Tape.octets (h.rest.drop f.payload.length) =
            (Frame.encodeAll frames).take (octets - f.encode.length) := by
          rw [Tape.octets, List.map_drop]
          refine (congrArg (List.drop _) head.rest).trans ?_
          rw [List.take_append, List.drop_left' (by
            rw [List.length_take, f.payloadField_length]; omega), f.payloadField_length]
          congr 1
          omega
        obtain ⟨opcodes, bounded⟩ := ih keyedLater shortLater _ later
        obtain ⟨payload, sent⟩ : ∃ payload, h.sent = some (h.message payload) := by
          rw [Head.sent]
          by_cases empty : Head.code h.second = 0
          · exact ⟨[], if_pos empty⟩
          · have positive : 0 < f.payload.length :=
              List.length_pos_iff.mpr fun none => empty (head.empty.mpr none)
            refine ⟨h.payload, (if_neg empty).trans (if_pos ?_)⟩
            rw [← List.length_pos_iff, head.announced, behind]
            omega
        rw [sent, Option.toList_some, List.singleton_append, List.map_cons, List.map_cons, opcodes]
        exact ⟨congrArg (· :: _) head.opcode, shortHere, bounded⟩
      · rename_i partly
        have none : h.rest.drop f.payload.length = [] :=
          List.drop_eq_nil_of_le (by rw [behind]; omega)
        have positive : 0 < f.payload.length := by omega
        have nonempty : Head.code h.second ≠ 0 := fun zero =>
          positive.ne' (List.length_eq_zero_iff.mpr (head.empty.mp zero))
        have unsent : h.sent = Option.none := by
          rw [Head.sent, if_neg nonempty, if_neg]
          rw [head.announced, behind]
          omega
        obtain ⟨messages, bounded⟩ := nothing (h.rest.drop f.payload.length)
          (by rw [none]; exact frameHeads_nil rfl)
        rw [unsent, messages]
        exact ⟨rfl, shortHere, bounded⟩
    · rename_i early
      obtain ⟨messages, bounded⟩ := nothing _ (frameHeads_nil found)
      rw [messages, arrived, if_neg (by omega)]
      exact ⟨rfl, bounded⟩

theorem ofTape_append (found : Head.ofTape front = some h) (back : Tape) :
    Head.ofTape (front ++ back) = some { h with rest := h.rest ++ back } := by
  match front, found with
  | (first, here) :: (second, there) :: tape, found =>
    simp only [Head.ofTape] at found
    split at found
    · rename_i room
      cases found
      rw [List.cons_append, List.cons_append, Head.ofTape, if_pos (by
        rw [List.length_append]; omega)]
      rw [List.take_append_of_le_length (by omega), List.drop_append_of_le_length (by omega),
        List.drop_append_of_le_length (by omega), List.take_append_of_le_length (by
          rw [List.length_drop]; omega)]
    · cases found
  | [], found => cases found
  | [_], found => cases found

theorem Sized.front {front back : Tape} (sized : Sized (front ++ back)) : Sized front := by
  induction size : front.length using Nat.strongRecOn generalizing front with
  | ind size ih =>
    cases found : Head.ofTape front with
    | none =>
      rw [Sized, frameHeads_nil found]
      exact List.forall_mem_nil _
    | some h =>
      have shorter := Head.ofTape_rest_length found
      rw [Sized, frameHeads_cons (ofTape_append found back), List.forall_mem_cons] at sized
      rw [Sized, frameHeads_cons found, List.forall_mem_cons]
      refine ⟨sized.1, ?_⟩
      by_cases enough : h.announced ≤ h.rest.length
      · have later := sized.2
        simp only [Head.announced] at enough later
        rw [List.drop_append_of_le_length enough] at later
        exact ih _ (by rw [List.length_drop]; omega) later rfl
      · rw [List.drop_eq_nil_of_le (by omega), frameHeads_nil rfl]
        exact List.forall_mem_nil _

theorem tapeOf_append (front back : List Bytes) :
    tapeOf (front ++ back) = tapeOf front ++ tapeOf back := List.flatMap_append

/-- What a client may send in front of its close frame. -/
def Conforming (unfinished : Bool) : List Frame → Prop
  | [] => True
  | f :: frames =>
    f.key.isSome = true ∧
      (if f.opcode = FrameType.continuation.code then unfinished = true
        else if f.opcode = FrameType.text.code ∨ f.opcode = FrameType.binary.code then
          unfinished = false
        else (f.opcode = FrameType.ping.code ∨ f.opcode = FrameType.pong.code) ∧ f.fin = true ∧
          f.payload.length ≤ 125) ∧
      Conforming (if Connection.IsData f.opcode then !f.fin else unfinished) frames

theorem Conforming.front {unfinished : Bool} {front back : List Frame}
    (conforming : Conforming unfinished (front ++ back)) : Conforming unfinished front := by
  induction front generalizing unfinished with
  | nil => trivial
  | cons f front ih => exact ⟨conforming.1, conforming.2.1, ih conforming.2.2⟩

theorem arrived_begins (frames : List Frame) (octets : Nat) : arrived frames octets <+: frames := by
  induction frames generalizing octets with
  | nil => exact List.prefix_refl []
  | cons f frames ih =>
    rw [arrived]
    split
    · obtain ⟨later, split⟩ := ih (octets - f.encode.length)
      exact ⟨later, by rw [List.cons_append, split]⟩
    · exact List.nil_prefix

/-- Codes of frames behind which the connection reads on: the last is supported, and has
a type if it is a continuation. -/
def Settled (codes : List UInt8) : Prop :=
  ∀ front code, codes = front ++ [code] → ¬Connection.Unsupported code ∧
    (code = FrameType.continuation.code →
      ∃ first ∈ front, first = FrameType.text.code ∨ first = FrameType.binary.code)

theorem Conforming.begun {unfinished : Bool} {front : List Frame} {f : Frame}
    (conforming : Conforming unfinished (front ++ [f]))
    (continuation : f.opcode = FrameType.continuation.code) : unfinished = true ∨
      ∃ g ∈ front, g.opcode = FrameType.text.code ∨ g.opcode = FrameType.binary.code := by
  induction front generalizing unfinished with
  | nil =>
    have legal := conforming.2.1
    rw [if_pos continuation] at legal
    exact .inl legal
  | cons g front ih =>
    by_cases first : g.opcode = FrameType.text.code ∨ g.opcode = FrameType.binary.code
    · exact .inr ⟨g, List.mem_cons_self, first⟩
    rcases ih conforming.2.2 with open_ | ⟨h, member, known⟩
    · split at open_
      · rename_i data
        have legal := conforming.2.1
        rw [if_pos (data.resolve_right first)] at legal
        exact .inl legal
      · exact .inl open_
    · exact .inr ⟨h, List.mem_cons_of_mem g member, known⟩

/-- Of what a client may send, the pong is what the connection does not know. -/
theorem Conforming.unsupported {unfinished : Bool} {frames : List Frame}
    (conforming : Conforming unfinished frames) : ∀ f ∈ frames,
      Connection.Unsupported f.opcode ↔ f.opcode = FrameType.pong.code := by
  induction frames generalizing unfinished with
  | nil => exact List.forall_mem_nil _
  | cons f frames ih =>
    refine List.forall_mem_cons.mpr ⟨?_, ih conforming.2.2⟩
    constructor
    · rintro ⟨control, -, notPing⟩
      have legal := conforming.2.1
      rw [if_neg fun continuation => control (.inl continuation),
        if_neg fun first => control (.inr first)] at legal
      exact legal.1.resolve_left notPing
    · intro pong
      rw [pong]
      decide

theorem Conforming.settled_iff {frames : List Frame} (conforming : Conforming false frames) :
    Settled (frames.map Frame.opcode) ↔ ∀ f ∈ frames.getLast?, f.opcode ≠ FrameType.pong.code := by
  rcases List.eq_nil_or_concat frames with rfl | ⟨front, f, rfl⟩
  · apply iff_of_true
    · intro front code split
      exact absurd split.symm (List.append_ne_nil_of_right_ne_nil front (List.cons_ne_nil _ _))
    · intro f none
      cases none
  · rw [List.concat_eq_append] at conforming ⊢
    have unsupported := conforming.unsupported f (List.mem_append_right _ List.mem_cons_self)
    rw [List.getLast?_concat]
    constructor
    · intro settled g last
      cases last
      exact mt unsupported.mpr (settled _ _ (List.map_append ..)).1
    · intro known codes code split
      rw [List.map_append, List.map_singleton] at split
      obtain ⟨rfl, rfl⟩ := List.append_singleton_inj.mp split
      refine ⟨mt unsupported.mp (known f rfl), fun continuation => ?_⟩
      rcases conforming.begun continuation with none | ⟨g, member, first⟩
      · cases none
      · exact ⟨g.opcode, List.mem_map_of_mem member, first⟩

namespace Connection

theorem remembered_first {last : UInt8} {messages : List Message} :
    (remembered last messages = FrameType.text.code ∨
        remembered last messages = FrameType.binary.code) ↔
      (last = FrameType.text.code ∨ last = FrameType.binary.code) ∨
        ∃ first ∈ messages.map Message.opcode,
          first = FrameType.text.code ∨ first = FrameType.binary.code := by
  induction messages generalizing last with
  | nil => simp [remembered]
  | cons m messages ih =>
    have here : (lastAfter last m.opcode = FrameType.text.code ∨
        lastAfter last m.opcode = FrameType.binary.code) ↔
        (last = FrameType.text.code ∨ last = FrameType.binary.code) ∨
          (m.opcode = FrameType.text.code ∨ m.opcode = FrameType.binary.code) := by
      rw [lastAfter]
      split
      · rename_i first
        exact iff_of_true first (.inr first)
      · rename_i other
        exact (or_iff_left other).symm
    rw [remembered, ih, here, or_assoc, List.map_cons, List.exists_mem_cons_iff]

/-- The flag is put back by the frame that is last. -/
theorem flagged_eq_zero_iff (messages : List Message) :
    flagged 0 0 messages = 0 ↔ Settled (messages.map Message.opcode) := by
  rcases List.eq_nil_or_concat messages with rfl | ⟨front, m, rfl⟩
  · apply iff_of_true rfl
    intro front code split
    exact absurd split.symm (List.append_ne_nil_of_right_ne_nil front (List.cons_ne_nil _ _))
  · rw [List.concat_eq_append, flagged_append, flagged, flagged, errorAfter_eq_zero_iff,
      remembered_first, or_iff_right (by decide), List.map_append, List.map_singleton]
    constructor
    · intro known codes code split
      obtain ⟨rfl, rfl⟩ := List.append_singleton_inj.mp split
      exact known
    · intro settled
      exact settled _ _ rfl

theorem callbacks_eq_run (ndebug : Bool) {p : FrameParser} (coherent : p.Coherent) (data : Bytes) :
    p.callbacks ndebug data = run p data.zipIdx := by
  rw [callbacks]
  split
  · rename_i none
    rw [none]
    rfl
  · rename_i octets
    rw [parse_eq_run ndebug coherent octets, Option.map_map]
    exact Option.map_id'

/-- A connection behind reads that reported the messages. -/
structure Behind (done : List Bytes) (messages : List Message) (c : Connection) : Prop where
  ran : run reset (tapeOf done) = some (c.parser, messages)
  coherent : c.parser.Coherent
  last : c.lastDataType = remembered 0 messages
  error : c.errorOnParse = flagged 0 0 messages
  single : c.reads ≤ 1

theorem tapeOf_concat (done : List Bytes) (data : Bytes) :
    tapeOf (done ++ [data]) = tapeOf done ++ data.zipIdx := by
  rw [tapeOf_append, tapeOf, tapeOf, List.flatMap_singleton]

theorem Behind.read {done : List Bytes} {messages : List Message} {c d : Connection}
    (behind : Behind done messages c) (came : c.read ndebug data = some d) :
    ∃ more, Behind (done ++ [data]) (messages ++ more) d ∧
      d.events = c.events ++ toldAll c.lastDataType more ∧
      (0 < d.reads ↔ flagged 0 0 (messages ++ more) = 0) := by
  obtain ⟨outstanding, p, new, returned, read⟩ := read_cases came
  rw [callbacks_eq_run ndebug behind.coherent] at returned
  have error : d.errorOnParse = flagged 0 0 (messages ++ new) := by
    rw [read.error, behind.last, behind.error, flagged_append]
  have single := behind.single
  have reads := read.reads
  refine ⟨new, ?_, read.events, ?_⟩
  · constructor
    · rw [tapeOf_concat, run_append, behind.ran, Option.bind_some, returned, read.parser]
      rfl
    · rw [read.parser]
      by_cases octets : data = []
      · rw [octets] at returned
        cases returned
        exact behind.coherent
      · exact run_coherent behind.coherent octets returned
    · rw [read.last, behind.last, remembered_append]
    · exact error
    · split at reads
      · omega
      · omega
  · rw [reads, ← error]
    split
    · rename_i fine
      exact iff_of_true (by omega) fine
    · rename_i wrong
      exact iff_of_false (by omega) wrong

theorem Behind.codes {done : List Bytes} {messages : List Message} {c : Connection}
    (behind : Behind done messages c) : messages.map Message.opcode = codes (tapeOf done) :=
  run_codes behind.ran

/-- The parser returns from the reads, and by the lengths that it reads the last frame that
has come whole is one behind which the connection reads on. -/
def GoesOn (chunks : List Bytes) : Prop :=
  (∀ h ∈ readHeads (tapeOf chunks), h.Narrow) ∧ Settled (codes (tapeOf chunks))

/-- A read is handled whenever the parser returns from it. -/
theorem Behind.returns_iff (ndebug : Bool) {done : List Bytes} {messages : List Message}
    {c : Connection} (behind : Behind done messages c) (outstanding : 0 < c.reads)
    (data : Bytes) : (∃ d, c.read ndebug data = some d) ↔
      ∀ h ∈ readHeads (tapeOf (done ++ [data])), h.Narrow := by
  rw [← run_returns_iff, tapeOf_concat, run_append, behind.ran, Option.bind_some,
    ← callbacks_eq_run ndebug behind.coherent]
  constructor
  · rintro ⟨d, came⟩
    obtain ⟨-, p, messages, returned, -⟩ := read_cases came
    rw [returned]
    exact Option.some_ne_none _
  · intro returns
    obtain ⟨result, returned⟩ := Option.ne_none_iff_exists'.mp ((map_ne_none _).mp returns)
    exact read_of_callbacks outstanding.ne' returned

theorem Behind.reads_on_iff (ndebug : Bool) {done : List Bytes} {messages : List Message}
    {c : Connection} (behind : Behind done messages c) (outstanding : 0 < c.reads)
    (data : Bytes) :
    (∃ d, c.read ndebug data = some d ∧ 0 < d.reads) ↔ GoesOn (done ++ [data]) := by
  rw [GoesOn, ← behind.returns_iff ndebug outstanding]
  have settled {d : Connection} (came : c.read ndebug data = some d) :
      0 < d.reads ↔ Settled (Websocket.codes (tapeOf (done ++ [data]))) := by
    obtain ⟨more, next, -, goes⟩ := behind.read came
    rw [goes, flagged_eq_zero_iff, next.codes]
  constructor
  · rintro ⟨d, came, goes⟩
    exact ⟨⟨d, came⟩, (settled came).mp goes⟩
  · rintro ⟨⟨d, came⟩, goes⟩
    exact ⟨d, came, (settled came).mpr goes⟩

theorem behind_opened (response : Bytes) : Behind [] [] (opened response) :=
  ⟨rfl, reset_coherent, rfl, rfl, Nat.le_refl 1⟩

theorem behind_run {response : Bytes} {chunks : List Bytes} {c : Connection}
    (ran : Transition.run (read ndebug) (opened response) chunks = some c) :
    ∃ messages, Behind chunks messages c := by
  induction chunks using List.reverseRecOn generalizing c with
  | nil =>
    cases ran
    exact ⟨[], behind_opened response⟩
  | append_singleton front data ih =>
    rw [Transition.run_append] at ran
    obtain ⟨d, before, came⟩ := Option.bind_eq_some_iff.mp ran
    obtain ⟨messages, behind⟩ := ih before
    rw [Transition.run_singleton] at came
    obtain ⟨more, next, -⟩ := behind.read came
    exact ⟨messages ++ more, next⟩

/-- All of the reads have been handled, and there is a further one outstanding. -/
def ReadsOn (ndebug : Bool) (response : Bytes) (chunks : List Bytes) : Prop :=
  ∃ c, Transition.run (read ndebug) (opened response) chunks = some c ∧ 0 < c.reads

theorem readsOn_iff (ndebug : Bool) (response : Bytes) (chunks : List Bytes) :
    ReadsOn ndebug response chunks ↔ ∀ front, front <+: chunks → GoesOn front := by
  induction chunks using List.reverseRecOn with
  | nil =>
    refine iff_of_true ⟨opened response, rfl, Nat.one_pos⟩ fun front none => ?_
    rw [List.prefix_nil.mp none, GoesOn, ← (behind_opened response).codes]
    exact ⟨(run_returns_iff []).mp (Option.some_ne_none _), (flagged_eq_zero_iff []).mp rfl⟩
  | append_singleton front data ih =>
    have last : ReadsOn ndebug response (front ++ [data]) ↔
        ReadsOn ndebug response front ∧ GoesOn (front ++ [data]) := by
      constructor
      · rintro ⟨d, ran, goes⟩
        rw [Transition.run_append] at ran
        obtain ⟨c, before, came⟩ := Option.bind_eq_some_iff.mp ran
        rw [Transition.run_singleton] at came
        obtain ⟨messages, behind⟩ := behind_run before
        have outstanding := (read_cases came).1
        exact ⟨⟨c, before, outstanding⟩,
          (behind.reads_on_iff ndebug outstanding data).mp ⟨d, came, goes⟩⟩
      · rintro ⟨⟨c, before, outstanding⟩, goes⟩
        obtain ⟨messages, behind⟩ := behind_run before
        obtain ⟨d, came, further⟩ := (behind.reads_on_iff ndebug outstanding data).mpr goes
        refine ⟨d, ?_, further⟩
        rw [Transition.run_append, before, Option.bind_some, Transition.run_singleton, came]
    rw [last, ih]
    constructor
    · rintro ⟨all, here⟩ early begins
      rcases List.prefix_concat_iff.mp begins with rfl | earlier
      · exact here
      · exact all early earlier
    · intro all
      exact ⟨fun early begins => all early (begins.trans (List.prefix_append front [data])),
        all _ (List.prefix_refl _)⟩

/-- The parser reads the frames right: none that is masked is empty, and the cuts leave the
lengths alone. -/
structure Intact (frames : List Frame) (chunks : List Bytes) : Prop where
  keyed : ∀ f ∈ frames, ¬f.MaskedEmpty
  short : ∀ f ∈ frames, f.payload.length < 2 ^ 32
  sized : Sized (tapeOf chunks)

theorem flatten_tapeOf (chunks : List Bytes) : Tape.octets (tapeOf chunks) = chunks.flatten := by
  rw [octets_tapeOf]
  exact List.zipIdx_map_fst 0 _

theorem length_tapeOf (chunks : List Bytes) : (tapeOf chunks).length = chunks.flatten.length := by
  rw [← flatten_tapeOf, Tape.octets, List.length_map]

/-- The parser returns, and the frames that have come whole are the beginning of what was
sent. -/
theorem Intact.arrived {frames : List Frame} {chunks : List Bytes} {tape : Tape}
    (intact : Intact frames chunks) (stream : chunks.flatten <+: Frame.encodeAll frames)
    (begins : tape <+: tapeOf chunks) : (∀ h ∈ readHeads tape, h.Narrow) ∧
      codes tape = (arrived frames tape.length).map Frame.opcode := by
  obtain ⟨back, split⟩ := begins
  have sized := intact.sized
  rw [← split] at sized
  have cut : Tape.octets tape = (Frame.encodeAll frames).take tape.length := by
    rw [← flatten_tapeOf, ← split, Tape.octets, List.map_append] at stream
    have begun := List.prefix_iff_eq_take.mp ((List.prefix_append _ _).trans stream)
    rwa [List.length_map] at begun
  obtain ⟨opcodes, bounded⟩ := decode_arrived frames intact.keyed intact.short _ cut
  obtain ⟨p, messages, ran, same⟩ := run_opcodes tape sized.front bounded
  refine ⟨(run_returns_iff _).mp (ran ▸ Option.some_ne_none _), ?_⟩
  rw [← run_codes ran, same, opcodes]

/-- A text frame with the payload `a`, as a client sends it. -/
def greeting : Frame := ⟨true, FrameType.text.code, by decide, some (Memory.zero 4), [97]⟩

/-- A pong that nothing has asked for. -/
def heartbeat : Frame := ⟨true, FrameType.pong.code, by decide, some (Memory.zero 4), [97]⟩

end Connection
end Da4qi4.Websocket
