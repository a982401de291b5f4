import Da4qi4.Websocket.FrameCodec
import Mathlib.Data.List.Forall2

/-! Whole lists of frames in one call. The parser stays on frame boundaries as
long as no frame is both masked and empty; behind such a frame its unread key
is taken for frames of its own. -/
namespace Da4qi4.Websocket

namespace Frame

theorem encode_length (f : Frame) :
    2 + f.keyField.length + f.payload.length ≤ f.encode.length := by
  have field : 1 ≤ (lengthField f.maskBit f.payload.length).length :=
    List.length_pos_iff.mpr (lengthField_ne_nil _ _)
  simp only [encode, List.cons_append, List.length_cons, List.length_append, f.payloadField_length]
  omega

/-- The same frames up to the choice of masking keys. -/
structure SameButKey (f g : Frame) : Prop where
  fin : f.fin = g.fin
  opcode : f.opcode = g.opcode
  payload : f.payload = g.payload
  masked : f.key.isSome = g.key.isSome

theorem SameButKey.refl (f : Frame) : SameButKey f f := ⟨rfl, rfl, rfl, rfl⟩

theorem SameButKey.maskedEmpty (same : SameButKey f g) : f.MaskedEmpty ↔ g.MaskedEmpty := by
  rw [MaskedEmpty, MaskedEmpty, same.payload, same.masked]

/-- The frame with an all-zero key in place of its own. -/
def zeroKey (f : Frame) : Frame := { f with key := f.key.map fun _ => Memory.zero 4 }

theorem sameButKey_zeroKey (f : Frame) : SameButKey f f.zeroKey :=
  ⟨rfl, rfl, rfl, by simp [zeroKey]⟩

end Frame

namespace FrameParser

/-- The callback for two zero octets read as a frame. -/
def spurious : Message := ⟨[], 0, false⟩

/-- The callbacks for one frame, when an unread key is all zero. -/
def received (f : Frame) : List Message :=
  if f.MaskedEmpty then [f.message, spurious, spurious] else [f.message]

theorem parseLoop_step (fuel : Nat) (c : Cursor) :
    parseLoop (fuel + 1) c =
      if (parseBody c).rest ≠ [] then parseLoop fuel (parseBody c) else some (parseBody c) := rfl

/-- One iteration reads a whole frame when nothing of it is left unread. -/
theorem parseBody_whole (f : Frame) (whole : f.payload = [] → f.key = none)
    (bound : f.payload.length < 2 ^ 32) (tail : Bytes) (messages : List Message) :
    parseBody ⟨fresh, f.encode ++ tail, messages⟩ = ⟨fresh, tail, messages ++ [f.message]⟩ := by
  by_cases empty : f.payload = []
  · rw [parseBody_empty f empty]
    simp [Frame.keyField, whole empty]
  · exact parseBody_frame f empty bound tail messages

/-- Two zero octets are an unmasked continuation frame without payload. -/
def zeroFrame : Frame := ⟨false, 0, by decide, none, []⟩

theorem parseBody_zero (tail : Bytes) (messages : List Message) :
    parseBody ⟨fresh, 0 :: 0 :: tail, messages⟩ = ⟨fresh, tail, messages ++ [spurious]⟩ :=
  parseBody_whole zeroFrame (fun _ => rfl) (by decide) tail messages

/-- The iterations that read one frame and, if need be, its stray key. -/
theorem parseLoop_frame (f : Frame) (zeroed : f.MaskedEmpty → f.key = some (Memory.zero 4))
    (bound : f.payload.length < 2 ^ 32) (tail : Bytes) (messages : List Message) (fuel : Nat) :
    parseLoop (fuel + f.encode.length) ⟨fresh, f.encode ++ tail, messages⟩ =
      if tail ≠ [] then parseLoop (fuel + f.encode.length - (received f).length)
          ⟨fresh, tail, messages ++ received f⟩
      else some ⟨fresh, tail, messages ++ received f⟩ := by
  have size := f.encode_length
  by_cases stray : f.MaskedEmpty
  · have field : f.keyField = [0, 0, 0, 0] := by
      rw [Frame.keyField, zeroed stray]
      rfl
    obtain ⟨steps, enough⟩ : ∃ steps, fuel + f.encode.length = steps + 1 + 1 + 1 := by
      rw [field] at size
      exact ⟨fuel + f.encode.length - 3, by simp only [List.length_cons] at size; omega⟩
    simp only [enough, received, stray, if_true, List.length_cons, List.length_nil]
    rw [parseLoop_step, parseBody_empty f stray.2, field]
    simp only [List.cons_append, List.nil_append, ne_eq, reduceCtorEq, not_false_eq_true, if_true]
    rw [parseLoop_step, parseBody_zero]
    simp only [ne_eq, reduceCtorEq, not_false_eq_true, if_true]
    rw [parseLoop_step, parseBody_zero]
    simp only [List.append_assoc, List.singleton_append]
    rfl
  · have whole : f.payload = [] → f.key = none := by
      intro empty
      cases masked : f.key with
      | none => rfl
      | some key => exact absurd ⟨by simp [masked], empty⟩ stray
    obtain ⟨steps, enough⟩ : ∃ steps, fuel + f.encode.length = steps + 1 :=
      ⟨fuel + f.encode.length - 1, by omega⟩
    simp only [enough, received, stray, if_false, List.length_singleton, Nat.add_sub_cancel]
    rw [parseLoop_step, parseBody_whole f whole bound]

theorem parseLoop_mono {fuel more : Nat} (enough : fuel ≤ more) {c : Cursor}
    (done : parseLoop fuel c = some result) : parseLoop more c = some result := by
  induction fuel generalizing more c with
  | zero => simp [parseLoop] at done
  | succ fuel ih =>
    obtain ⟨more, rfl⟩ : ∃ n, more = n + 1 := ⟨more - 1, by omega⟩
    rw [parseLoop_step] at done ⊢
    split at done
    · rename_i left
      rw [if_pos left]
      exact ih (by omega) done
    · rename_i left
      rw [if_neg left]
      exact done

/-- The run over a list of frames: every frame is delivered from a frame
boundary, and the parser ends on one. -/
theorem parseLoop_frames (frames : List Frame) (some_frame : frames ≠ [])
    (zeroed : ∀ f ∈ frames, f.MaskedEmpty → f.key = some (Memory.zero 4))
    (bound : ∀ f ∈ frames, f.payload.length < 2 ^ 32) (messages : List Message) :
    parseLoop (Frame.encodeAll frames).length ⟨fresh, Frame.encodeAll frames, messages⟩ =
      some ⟨fresh, [], messages ++ frames.flatMap received⟩ := by
  induction frames generalizing messages with
  | nil => exact absurd rfl some_frame
  | cons f rest ih =>
    have first := parseLoop_frame f (zeroed f (by simp)) (bound f (by simp))
      (Frame.encodeAll rest) messages (Frame.encodeAll rest).length
    have size : (Frame.encodeAll (f :: rest)).length =
        (Frame.encodeAll rest).length + f.encode.length := by
      simp [Frame.encodeAll, Nat.add_comm]
    rw [size]
    change parseLoop _ ⟨fresh, f.encode ++ Frame.encodeAll rest, messages⟩ = _
    rw [first]
    by_cases last : rest = []
    · subst last
      simp [Frame.encodeAll]
    · have more : Frame.encodeAll rest ≠ [] := by
        obtain ⟨g, others, rfl⟩ := List.exists_cons_of_ne_nil last
        have positive := g.encode_length
        intro empty
        rw [Frame.encodeAll, List.flatMap_cons, List.append_eq_nil_iff] at empty
        simp only [empty.1, List.length_nil] at positive
        omega
      have spent : (received f).length ≤ f.encode.length := by
        have positive := f.encode_length
        unfold received
        split
        · rename_i stray
          have key := zeroed f (by simp) stray
          have four : f.keyField.length = 4 := by rw [Frame.keyField, key]; rfl
          simp only [List.length_cons, List.length_nil]
          omega
        · simp only [List.length_singleton]
          omega
      rw [if_pos more]
      apply parseLoop_mono (show (Frame.encodeAll rest).length ≤ _ by omega)
      rw [ih last (fun g hg => zeroed g (by simp [hg])) (fun g hg => bound g (by simp [hg]))]
      simp only [List.flatMap_cons, List.append_assoc]

theorem parse_frames (ndebug : Bool) (frames : List Frame) (called : ndebug = true ∨ frames ≠ [])
    (zeroed : ∀ f ∈ frames, f.MaskedEmpty → f.key = some (Memory.zero 4))
    (bound : ∀ f ∈ frames, f.payload.length < 2 ^ 32) :
    parse ndebug fresh (Frame.encodeAll frames) =
      some ⟨true, "", fresh, frames.flatMap received⟩ := by
  by_cases none_left : frames = []
  · subst none_left
    obtain rfl : ndebug = true := by simpa using called
    rfl
  · have run := parseLoop_frames frames none_left zeroed bound []
    have enough : (Frame.encodeAll frames).length ≤ fuelFor (Frame.encodeAll frames) := by
      unfold fuelFor
      omega
    have guard : ndebug = true ∨ Frame.encodeAll frames ≠ [] := by
      apply Or.inr
      intro empty
      obtain ⟨f, rest, rfl⟩ := List.exists_cons_of_ne_nil none_left
      rw [Frame.encodeAll, List.flatMap_cons, List.append_eq_nil_iff] at empty
      simp [Frame.encode] at empty
    simp only [parse, guard, if_true, parseLoop_mono enough run, Option.map_some, List.nil_append]

end FrameParser

theorem Frame.payload_bound {frames : List Frame} {limit : Nat}
    (short : (Frame.encodeAll frames).length < limit) : ∀ f ∈ frames, f.payload.length < limit := by
  intro f member
  obtain ⟨before, after, rfl⟩ := List.append_of_mem member
  have size := f.encode_length
  simp only [Frame.encodeAll, List.flatMap_append, List.flatMap_cons, List.length_append] at short
  omega

/-- One call on the encoded list makes exactly the callbacks the list asks for. -/
def Delivered (ndebug : Bool) (frames : List Frame) : Prop :=
  ∃ outcome, FrameParser.parse ndebug .fresh (Frame.encodeAll frames) = some outcome ∧
    outcome.messages = frames.map Frame.message

theorem received_whole (frames : List Frame) (whole : ∀ f ∈ frames, ¬ f.MaskedEmpty) :
    frames.flatMap FrameParser.received = frames.map Frame.message := by
  induction frames with
  | nil => rfl
  | cons f rest ih =>
    simp only [List.flatMap_cons, List.map_cons, ih fun g hg => whole g (by simp [hg]),
      FrameParser.received, whole f (by simp), if_false, List.singleton_append]

theorem received_length (frames : List Frame) :
    (frames.flatMap FrameParser.received).length =
      frames.length + 2 * frames.countP fun f => decide f.MaskedEmpty := by
  induction frames with
  | nil => rfl
  | cons f rest ih =>
    by_cases stray : f.MaskedEmpty
    · simp only [List.flatMap_cons, List.length_append, ih, FrameParser.received, stray, if_true,
        List.length_cons, List.length_nil, List.countP_cons, decide_true]
      omega
    · simp only [List.flatMap_cons, List.length_append, ih, FrameParser.received, stray, if_false,
        List.length_cons, List.length_nil, List.countP_cons, decide_false]
      simp only [Bool.false_eq_true, if_false]
      omega

/-- Frames are delivered when none of them is both masked and empty. -/
theorem delivered_of_whole (ndebug : Bool) (frames : List Frame)
    (called : ndebug = true ∨ frames ≠ []) (short : (Frame.encodeAll frames).length < 2 ^ 32)
    (whole : ∀ f ∈ frames, ¬ f.MaskedEmpty) : Delivered ndebug frames :=
  ⟨_, FrameParser.parse_frames ndebug frames called
    (fun f member stray => absurd stray (whole f member)) (Frame.payload_bound short),
    received_whole frames whole⟩

/-- An all-zero stray key is received as two further messages. -/
theorem not_delivered_zeroKey (ndebug : Bool) (frames : List Frame)
    (called : ndebug = true ∨ frames ≠ []) (short : (Frame.encodeAll frames).length < 2 ^ 32)
    (stray : f ∈ frames) (empty : f.MaskedEmpty)
    (zeroed : ∀ g ∈ frames, g.MaskedEmpty → g.key = some (Memory.zero 4)) :
    ¬ Delivered ndebug frames := by
  rintro ⟨outcome, parsed, same⟩
  rw [FrameParser.parse_frames ndebug frames called zeroed (Frame.payload_bound short),
    Option.some.injEq] at parsed
  subst parsed
  have count : 0 < frames.countP fun g => decide g.MaskedEmpty :=
    List.countP_pos_iff.mpr ⟨f, stray, by simpa using empty⟩
  have lengths := congrArg List.length same
  simp only [received_length, List.length_map] at lengths
  omega

namespace Frame

theorem SameButKey.encode_length (same : SameButKey f g) : f.encode.length = g.encode.length := by
  have field : f.keyField.length = g.keyField.length := by
    have masked := same.masked
    cases fk : f.key <;> cases gk : g.key <;>
      simp only [fk, gk, Option.isSome_none, Option.isSome_some, reduceCtorEq] at masked <;>
      simp [keyField, fk, gk, Memory.fits]
  have bit : f.maskBit = g.maskBit := by rw [maskBit, maskBit, same.masked]
  simp only [encode, List.cons_append, List.length_cons, List.length_append, field, bit,
    payloadField_length, same.payload]

theorem encodeAll_length_of_sameButKey (same : List.Forall₂ SameButKey frames others) :
    (encodeAll frames).length = (encodeAll others).length := by
  induction same with
  | nil => rfl
  | cons head tail ih =>
    simp only [encodeAll, List.flatMap_cons, List.length_append] at ih ⊢
    rw [head.encode_length, ih]

theorem maskedEmpty_of_sameButKey (same : List.Forall₂ SameButKey frames others)
    (whole : ∀ f ∈ frames, ¬ f.MaskedEmpty) : ∀ g ∈ others, ¬ g.MaskedEmpty := by
  induction same with
  | nil => simp
  | cons head tail ih =>
    intro g member
    rcases List.mem_cons.mp member with rfl | member
    · intro stray
      exact whole _ (by simp) (head.maskedEmpty.mpr stray)
    · exact ih (fun f hf => whole f (by simp [hf])) g member

end Frame

/-- Whatever the masking keys are, a list of frames is delivered exactly when
none of its frames is both masked and empty. -/
theorem frames_delivered_iff (ndebug : Bool) (frames : List Frame)
    (called : ndebug = true ∨ frames ≠ []) (short : (Frame.encodeAll frames).length < 2 ^ 32) :
    (∀ others, List.Forall₂ Frame.SameButKey frames others → Delivered ndebug others) ↔
      ∀ f ∈ frames, ¬ f.MaskedEmpty := by
  have called_of {others : List Frame} (same : List.Forall₂ Frame.SameButKey frames others) :
      ndebug = true ∨ others ≠ [] := by
    refine called.imp_right fun nonempty empty => nonempty ?_
    subst empty
    exact List.forall₂_nil_right_iff.mp same
  constructor
  · intro delivered f member empty
    have same : List.Forall₂ Frame.SameButKey frames (frames.map Frame.zeroKey) :=
      List.forall₂_map_right_iff.mpr (List.forall₂_same.mpr fun g _ => g.sameButKey_zeroKey)
    refine not_delivered_zeroKey ndebug _ (called_of same)
      (Frame.encodeAll_length_of_sameButKey same ▸ short) (List.mem_map_of_mem member)
      (f.sameButKey_zeroKey.maskedEmpty.mp empty) ?_ (delivered _ same)
    intro g hg masked
    obtain ⟨h, _, rfl⟩ := List.mem_map.mp hg
    obtain ⟨key, present⟩ :=
      Option.isSome_iff_exists.mp (h.sameButKey_zeroKey.maskedEmpty.mpr masked).1
    simp [Frame.zeroKey, present]
  · intro whole others same
    exact delivered_of_whole ndebug others (called_of same)
      (Frame.encodeAll_length_of_sameButKey same ▸ short)
      (Frame.maskedEmpty_of_sameButKey same whole)

/-- A ping with an empty payload, masked as every client frame must be. -/
def maskedPing : Frame := ⟨true, FrameType.ping.code, by decide, some (Memory.zero 4), []⟩

/-- Its key is received as two empty continuation frames. -/
theorem maskedPing_not_delivered :
    ¬ ∀ (ndebug : Bool) (frames : List Frame), (ndebug = true ∨ frames ≠ []) →
      (Frame.encodeAll frames).length < 2 ^ 32 → Delivered ndebug frames := by
  intro all
  exact not_delivered_zeroKey false [maskedPing] (by decide) (by decide)
    (List.mem_singleton.mpr rfl)
    (by decide) (by decide) (all false [maskedPing] (by decide) (by decide))

theorem frames_delivered_iff_text :
    let text : Frame := ⟨true, FrameType.text.code, by decide, some (Memory.zero 4), [104, 105]⟩
    (∀ others, List.Forall₂ Frame.SameButKey [text] others → Delivered false others) ↔
      ∀ f ∈ [text], ¬ f.MaskedEmpty :=
  frames_delivered_iff false _ (by decide) (by decide)

/-- A message handed to the builder, which makes of it its frame in the diagram, with the
key left out of an empty one. -/
structure Outgoing where
  payload : Bytes
  type : FrameType
  fin : Bool
  key : Option UInt32
  deriving DecidableEq

namespace Outgoing

def builder (m : Outgoing) : FrameBuilder :=
  let configured := ((({} : FrameBuilder).setFIN m.fin).setFrameType m.type)
  match m.key with
  | none => configured.resetMaskingKey
  | some key => configured.setMaskingKey key

def build (m : Outgoing) : Bytes := m.builder.buildString m.payload

def message (m : Outgoing) : Message := ⟨m.payload, m.type.code, m.fin⟩

def keyMemory (key : UInt32) : Memory 4 := ⟨FrameBuilder.keyBytes key, rfl⟩

def frame (m : Outgoing) : Frame where
  fin := m.fin
  opcode := m.type.code
  nibble := by cases m.type <;> decide
  key := if m.payload = [] then none else m.key.map keyMemory
  payload := m.payload

theorem frame_not_maskedEmpty (m : Outgoing) : ¬ m.frame.MaskedEmpty := by
  rintro ⟨masked, empty⟩
  simp [frame, show m.payload = [] from empty] at masked

theorem builder_header (m : Outgoing) :
    m.builder.fin = m.frame.finBit ∧ m.builder.opcode = m.frame.opcode := by
  cases key : m.key <;>
    simp [builder, key, FrameBuilder.resetMaskingKey, FrameBuilder.setMaskingKey,
      FrameBuilder.setFIN, FrameBuilder.setFrameType, Frame.finBit, frame]

theorem builder_mask (m : Outgoing) (positive : m.payload ≠ []) :
    m.builder.mask = m.frame.maskBit := by
  cases key : m.key <;>
    simp [builder, key, FrameBuilder.resetMaskingKey, FrameBuilder.setMaskingKey,
      Frame.maskBit, frame, positive]

theorem lengthBytes_eq (mask : UInt8) (len : Nat) :
    FrameBuilder.lengthBytes mask len = Frame.lengthField mask len := by
  unfold FrameBuilder.lengthBytes Frame.lengthField
  by_cases short : len ≤ 125
  · simp only [short, if_true]
  · by_cases medium : len ≤ 65535
    · simp only [short, if_false, medium, if_true, show len < 2 ^ 16 by omega,
        Bytes.ofBigEndian]
      rfl
    · simp only [short, if_false, medium, show ¬ len < 2 ^ 16 by omega, Bytes.ofBigEndian]
      rfl

/-- The builder refines the diagram. -/
theorem build_eq_encode (m : Outgoing) : m.build = m.frame.encode := by
  obtain ⟨fin, opcode⟩ := m.builder_header
  have payload : m.frame.payload = m.payload := rfl
  by_cases empty : m.payload = []
  · have bit : m.frame.maskBit = 0 := by simp [Frame.maskBit, frame, empty]
    have field : m.frame.keyField = [] := by simp [Frame.keyField, frame, empty]
    have body : m.frame.payloadField = [] := by
      apply List.eq_nil_of_length_eq_zero
      rw [Frame.payloadField_length, payload, empty, List.length_nil]
    simp only [build, FrameBuilder.buildString, FrameBuilder.build, Frame.encode, fin, opcode,
      lengthBytes_eq, bit, field, body, payload, empty, List.length_nil, ne_eq, not_true_eq_false,
      if_false, if_true, List.append_nil]
  · have nonzero : m.payload.length ≠ 0 := by simpa using empty
    have mask := m.builder_mask empty
    simp only [build, FrameBuilder.buildString, FrameBuilder.build, Frame.encode, fin, opcode,
      lengthBytes_eq, mask, payload, nonzero, ne_eq, not_false_eq_true, if_true, if_false,
      List.take_length, FrameParser.maskBit_ne_zero]
    cases key : m.key with
    | none =>
      simp [frame, key, Frame.keyField, Frame.payloadField, empty]
    | some value =>
      simp only [frame, key, Frame.keyField, Frame.payloadField, empty, if_false, Option.map_some,
        Option.isSome_some, if_true, Option.getD_some, builder, FrameBuilder.setMaskingKey]
      rfl

end Outgoing

/-- The parser inverts the builder on every list of messages, and is then as
newly constructed. -/
theorem parse_build (ndebug : Bool) (messages : List Outgoing)
    (called : ndebug = true ∨ messages ≠ [])
    (short : (messages.flatMap Outgoing.build).length < 2 ^ 32) :
    FrameParser.parse ndebug .fresh (messages.flatMap Outgoing.build) =
      some ⟨true, "", .fresh, messages.map Outgoing.message⟩ := by
  have encoded :
      messages.flatMap Outgoing.build = Frame.encodeAll (messages.map Outgoing.frame) := by
    rw [Frame.encodeAll, List.flatMap_map]
    exact List.flatMap_congr fun m _ => m.build_eq_encode
  have whole : ∀ f ∈ messages.map Outgoing.frame, ¬ f.MaskedEmpty := by
    intro f member
    obtain ⟨m, _, rfl⟩ := List.mem_map.mp member
    exact m.frame_not_maskedEmpty
  rw [encoded] at short ⊢
  rw [FrameParser.parse_frames ndebug _ (by simpa using called)
    (fun f member stray => absurd stray (whole f member)) (Frame.payload_bound short),
    received_whole _ whole, List.map_map]
  rfl

theorem parse_build_hello :
    let messages : List Outgoing :=
      [⟨[104, 105], .text, false, some 0x01020304⟩, ⟨[], .ping, true, none⟩]
    FrameParser.parse false .fresh (messages.flatMap Outgoing.build) =
      some ⟨true, "", .fresh, messages.map Outgoing.message⟩ :=
  parse_build false _ (by decide) (by decide)

end Da4qi4.Websocket
