import Da4qi4.Websocket.Frame
import Mathlib.Data.Fintype.Basic

/-! The frame layout of the diagram, and the parser on whole frames. The layout
is written down independently of the builder and of the parser; the builder is
proved to produce it and the parser to consume it frame by frame. -/
namespace Da4qi4.Websocket

/-- A frame as the diagram lays it out, with the reserved bits zero. -/
structure Frame where
  fin : Bool
  opcode : UInt8
  nibble : opcode < 16
  key : Option (Memory 4)
  payload : Bytes
  deriving DecidableEq

namespace Frame

def finBit (f : Frame) : UInt8 := if f.fin then 0x80 else 0

def maskBit (f : Frame) : UInt8 := if f.key.isSome then 0x80 else 0

/-- The length in its shortest form, behind the mask bit. -/
def lengthField (maskBit : UInt8) (len : Nat) : Bytes :=
  if len ≤ 125 then [maskBit ||| len.toUInt8]
  else if len < 2 ^ 16 then (maskBit ||| 126) :: Bytes.ofBigEndian 2 len
  else (maskBit ||| 127) :: Bytes.ofBigEndian 8 len

def keyStream (key : Memory 4) (i : Nat) : UInt8 := key.load (i % 4)

def keyField (f : Frame) : Bytes := (f.key.map Memory.bytes).getD []

def payloadField (f : Frame) : Bytes :=
  match f.key with
  | none => f.payload
  | some key => Bytes.xorFrom (keyStream key) 0 f.payload

def encode (f : Frame) : Bytes :=
  (f.finBit ||| f.opcode) :: lengthField f.maskBit f.payload.length ++ f.keyField ++ f.payloadField

/-- The callback a receiver owes the frame. -/
def message (f : Frame) : Message := ⟨f.payload, f.opcode, f.fin⟩

def encodeAll (frames : List Frame) : Bytes := frames.flatMap encode

/-- The only frames whose key the parser leaves unread. -/
def MaskedEmpty (f : Frame) : Prop := f.key.isSome = true ∧ f.payload = []

instance (f : Frame) : Decidable f.MaskedEmpty := inferInstanceAs (Decidable (_ ∧ _))

theorem lengthField_ne_nil (maskBit : UInt8) (len : Nat) : lengthField maskBit len ≠ [] := by
  unfold lengthField
  split
  · simp
  · split <;> simp

theorem payloadField_length (f : Frame) : f.payloadField.length = f.payload.length := by
  unfold payloadField
  split <;> simp

end Frame

/-- The parts of the first octet, for every operation code. -/
theorem first_octet (fin : Bool) {opcode : UInt8} (nibble : opcode < 16) :
    let octet := (if fin then 0x80 else 0) ||| opcode
    octet &&& 0xf0 = (if fin then 0x80 else 0) ∧ octet &&& 0x40 = 0 ∧ octet &&& 0x20 = 0 ∧
      octet &&& 0x10 = 0 ∧ octet &&& 0x0f = opcode := by
  have small : opcode.toNat < 16 := nibble
  have all : ∀ fin : Bool, ∀ n : Fin 16,
      let octet := (if fin then 0x80 else 0) ||| UInt8.ofNat n
      octet &&& 0xf0 = (if fin then 0x80 else 0) ∧ octet &&& 0x40 = 0 ∧ octet &&& 0x20 = 0 ∧
        octet &&& 0x10 = 0 ∧ octet &&& 0x0f = UInt8.ofNat n := by decide +kernel
  simpa using all fin ⟨opcode.toNat, small⟩

/-- The parts of the second octet, for every length code. -/
theorem second_octet (masked : Bool) {code : Nat} (bound : code < 128) :
    ((if masked then 0x80 else 0) ||| code.toUInt8) &&& 0x80 = (if masked then 0x80 else 0) ∧
      ((if masked then 0x80 else 0) ||| code.toUInt8) &&& 0x7f = code.toUInt8 := by
  have all : ∀ masked : Bool, ∀ n : Fin 128,
      ((if masked then 0x80 else 0) ||| n.val.toUInt8) &&& 0x80 = (if masked then 0x80 else 0) ∧
        ((if masked then 0x80 else 0) ||| n.val.toUInt8) &&& 0x7f = n.val.toUInt8 := by
    decide +kernel
  exact all masked ⟨code, bound⟩

namespace FrameParser

theorem Cursor.advance_of_step (step : ParserStep) {c : Cursor}
    {parsePart : FrameParser → Bytes → Parsed} (ready : c.parser.parserStep = step)
    (more : c.rest ≠ []) :
    c.advance step parsePart =
      ⟨(parsePart c.parser c.rest).parser, c.rest.drop (parsePart c.parser c.rest).used,
        c.messages ++ (parsePart c.parser c.rest).messages⟩ := by
  simp only [Cursor.advance, ready, more, ne_eq, not_false_eq_true, and_self, if_true]

theorem Cursor.advance_of_ne {c : Cursor} {parsePart : FrameParser → Bytes → Parsed}
    (other : c.parser.parserStep ≠ step) : c.advance step parsePart = c := by
  simp only [Cursor.advance, other, false_and, if_false]

/-- The parser once it has read the first octet of `f`. -/
def opened (f : Frame) : FrameParser :=
  { parserStep := .payloadLen, frameHeader := { fin := f.finBit, opcode := f.opcode } }

/-- The parser between the length of `f` and what follows it. -/
structure Sized (f : Frame) (p : FrameParser) : Prop where
  step : p.parserStep = if f.key.isSome then .maskingKey else .payloadData
  payload : p.payload = []
  keyPos : p.maskingKeyPos = 0
  fin : p.frameHeader.fin = f.finBit
  opcode : p.frameHeader.opcode = f.opcode
  mask : p.frameHeader.mask = f.maskBit
  realyLen : p.frameHeader.payloadRealyLen = f.payload.length

theorem maskBit_ne_zero (f : Frame) : f.maskBit ≠ 0 ↔ f.key.isSome = true := by
  cases h : f.key.isSome <;> simp [Frame.maskBit, h]

theorem finBit_bne_zero (f : Frame) : (f.finBit != 0) = f.fin := by
  cases h : f.fin <;> simp [Frame.finBit, h]

theorem parseFixedHeader_first (f : Frame) (tail : Bytes) :
    parseFixedHeader fresh ((f.finBit ||| f.opcode) :: tail) = ⟨1, opened f, []⟩ := by
  obtain ⟨fin, rsv1, rsv2, rsv3, opcode⟩ := first_octet f.fin f.nibble
  simp only [parseFixedHeader, List.headD_cons, Frame.finBit, fin, rsv1, rsv2, rsv3, opcode, opened]
  rfl

theorem parsePayloadLen_code (f : Frame) (code : Nat) (bound : code < 128) (tail : Bytes) :
    parsePayloadLen (opened f) ((f.maskBit ||| code.toUInt8) :: tail) =
      let header : FrameHeader :=
        { (opened f).frameHeader with mask := f.maskBit, payloadLen := code.toUInt8 }
      let read : FrameParser :=
        if code ≤ 125 then
          { opened f with
            frameHeader := { header with payloadRealyLen := code }
            parserStep := if f.key.isSome then .maskingKey else .payloadData }
        else { opened f with frameHeader := header, parserStep := .extenedPayloadLen }
      if code = 0 then ⟨1, reset, [read.message []]⟩ else ⟨1, read, []⟩ := by
  obtain ⟨mask, low⟩ := second_octet f.key.isSome bound
  have value : code.toUInt8.toNat = code := by
    rw [Nat.toUInt8_eq, UInt8.toNat_ofNat', Nat.mod_eq_of_lt (by omega)]
  have small : code.toUInt8 ≤ 125 ↔ code ≤ 125 := by
    rw [UInt8.le_iff_toNat_le, value]
    rfl
  have zero : code.toUInt8 = 0 ↔ code = 0 := by
    rw [← UInt8.toNat_inj, value]
    rfl
  have masked : (f.maskBit ≠ 0) = (f.key.isSome = true) := propext (maskBit_ne_zero f)
  simp only [Frame.maskBit] at masked ⊢
  simp only [parsePayloadLen, List.headD_cons, mask, low, small, zero, value, masked]

/-- A frame without payload is complete at its second octet, masked or not. -/
theorem advance_empty (f : Frame) (empty : f.payload = []) (tail : Bytes)
    (messages : List Message) :
    Cursor.advance .payloadLen parsePayloadLen
        ⟨opened f, Frame.lengthField f.maskBit f.payload.length ++ tail, messages⟩ =
      ⟨fresh, tail, messages ++ [f.message]⟩ := by
  rw [Cursor.advance_of_step .payloadLen rfl (by simp [Frame.lengthField_ne_nil])]
  have code := parsePayloadLen_code f 0 (by decide) tail
  simp only [empty, List.length_nil, Frame.lengthField, Nat.zero_le, if_true,
    List.singleton_append, code, List.drop_succ_cons, List.drop_zero]
  simp only [message, opened, finBit_bne_zero, Frame.message, empty]
  rfl

theorem advance_short (f : Frame) (positive : f.payload ≠ []) (short : f.payload.length ≤ 125)
    (tail : Bytes) (messages : List Message) :
    ∃ p, Sized f p ∧
      ((⟨opened f, Frame.lengthField f.maskBit f.payload.length ++ tail, messages⟩ : Cursor).advance
          .payloadLen parsePayloadLen).advance .extenedPayloadLen parseExtenedPayloadLen =
        ⟨p, tail, messages⟩ := by
  have nonzero : f.payload.length ≠ 0 := by simpa using positive
  rw [Cursor.advance_of_step .payloadLen rfl (by simp [Frame.lengthField_ne_nil])]
  have code := parsePayloadLen_code f f.payload.length (by omega) tail
  simp only [short, if_true, nonzero, if_false] at code
  simp only [Frame.lengthField, short, if_true, List.singleton_append, code, List.drop_succ_cons,
    List.drop_zero, List.append_nil]
  rw [Cursor.advance_of_ne (by cases f.key.isSome <;> simp)]
  exact ⟨_, ⟨rfl, rfl, rfl, rfl, rfl, rfl, rfl⟩, rfl⟩

/-- A whole extended length in front of the parser is read in one call. -/
theorem parseExtenedPayloadLen_whole (p : FrameParser) (start : p.payloadLenOffset = 0)
    (octets tail : Bytes)
    (width : p.frameHeader.payloadLen = 126 ∧ octets.length = 2 ∨
      p.frameHeader.payloadLen = 127 ∧ octets.length = 8) :
    ∃ q, parseExtenedPayloadLen p (octets ++ tail) = ⟨octets.length, q, []⟩ ∧
      q.parserStep = (if p.frameHeader.mask ≠ 0 then .maskingKey else .payloadData) ∧
      q.payload = p.payload ∧ q.maskingKeyPos = p.maskingKeyPos ∧
      q.frameHeader.fin = p.frameHeader.fin ∧ q.frameHeader.opcode = p.frameHeader.opcode ∧
      q.frameHeader.mask = p.frameHeader.mask ∧
      q.frameHeader.payloadRealyLen = Bytes.bigEndian octets := by
  have all : (octets ++ tail).take octets.length = octets := by simp
  rcases width with ⟨code, width⟩ | ⟨code, width⟩
  all_goals
    have enough : min octets.length (octets ++ tail).length = octets.length := by simp
    rw [width] at enough all
    simp only [parseExtenedPayloadLen, code, start, Nat.sub_zero, enough, all, Nat.zero_add,
      if_true, decodeExtenedPayloadLen, Memory.copy_all _ _ width, width]
    exact ⟨_, rfl, rfl, rfl, rfl, rfl, rfl, rfl, rfl⟩

theorem advance_long (f : Frame) (long : ¬ f.payload.length ≤ 125)
    (bound : f.payload.length < 2 ^ 64) (tail : Bytes) (messages : List Message) :
    ∃ p, Sized f p ∧
      ((⟨opened f, Frame.lengthField f.maskBit f.payload.length ++ tail, messages⟩ : Cursor).advance
          .payloadLen parsePayloadLen).advance .extenedPayloadLen parseExtenedPayloadLen =
        ⟨p, tail, messages⟩ := by
  obtain ⟨code, octets, codeWidth, field, value⟩ : ∃ (code : Nat) (octets : Bytes),
      (code = 126 ∧ octets.length = 2 ∨ code = 127 ∧ octets.length = 8) ∧
      Frame.lengthField f.maskBit f.payload.length = (f.maskBit ||| code.toUInt8) :: octets ∧
      Bytes.bigEndian octets = f.payload.length := by
    by_cases medium : f.payload.length < 2 ^ 16
    · refine ⟨126, Bytes.ofBigEndian 2 f.payload.length, Or.inl ⟨rfl, by simp⟩, ?_, ?_⟩
      · simp only [Frame.lengthField, long, medium, if_false, if_true]
        rfl
      · exact Bytes.bigEndian_ofBigEndian medium
    · refine ⟨127, Bytes.ofBigEndian 8 f.payload.length, Or.inr ⟨rfl, by simp⟩, ?_, ?_⟩
      · simp only [Frame.lengthField, long, medium, if_false]
        rfl
      · exact Bytes.bigEndian_ofBigEndian bound
  have codeBound : code < 128 ∧ ¬ code ≤ 125 ∧ code ≠ 0 := by omega
  rw [Cursor.advance_of_step .payloadLen rfl (by simp [Frame.lengthField_ne_nil])]
  simp only [field, List.cons_append, parsePayloadLen_code f code codeBound.1, codeBound.2.1,
    codeBound.2.2, if_false, List.drop_succ_cons, List.drop_zero, List.append_nil]
  have more : octets ++ tail ≠ [] := by
    have : octets ≠ [] := by rintro rfl; simp at codeWidth
    simp [this]
  rw [Cursor.advance_of_step .extenedPayloadLen rfl more]
  obtain ⟨q, read, step, payload, keyPos, fin, opcode, mask, realyLen⟩ :=
    parseExtenedPayloadLen_whole
      { opened f with
        frameHeader :=
          { (opened f).frameHeader with mask := f.maskBit, payloadLen := code.toUInt8 }
        parserStep := .extenedPayloadLen } rfl octets tail
      (by rcases codeWidth with ⟨rfl, width⟩ | ⟨rfl, width⟩
          · exact Or.inl ⟨rfl, width⟩
          · exact Or.inr ⟨rfl, width⟩)
  refine ⟨q, ⟨?_, payload, keyPos, fin, opcode, mask, realyLen.trans value⟩, ?_⟩
  · simpa only [ne_eq, maskBit_ne_zero] using step
  · simp only [read, List.drop_left, List.append_nil]

/-- Reading the length of a frame that carries a payload. -/
theorem advance_length (f : Frame) (positive : f.payload ≠ []) (bound : f.payload.length < 2 ^ 64)
    (tail : Bytes) (messages : List Message) :
    ∃ p, Sized f p ∧
      ((⟨opened f, Frame.lengthField f.maskBit f.payload.length ++ tail, messages⟩ : Cursor).advance
          .payloadLen parsePayloadLen).advance .extenedPayloadLen parseExtenedPayloadLen =
        ⟨p, tail, messages⟩ := by
  by_cases short : f.payload.length ≤ 125
  · exact advance_short f positive short tail messages
  · exact advance_long f short bound tail messages

/-- The parser in front of the payload of `f`. -/
structure Keyed (f : Frame) (p : FrameParser) : Prop where
  step : p.parserStep = .payloadData
  payload : p.payload = []
  fin : p.frameHeader.fin = f.finBit
  opcode : p.frameHeader.opcode = f.opcode
  mask : p.frameHeader.mask = f.maskBit
  realyLen : p.frameHeader.payloadRealyLen = f.payload.length
  key : ∀ key, f.key = some key → p.frameHeader.maskingKey = key

theorem advance_key (sized : Sized f p) (tail : Bytes) (messages : List Message) :
    ∃ q, Keyed f q ∧
      (⟨p, f.keyField ++ tail, messages⟩ : Cursor).advance .maskingKey parseMaskingKey =
        ⟨q, tail, messages⟩ := by
  cases masked : f.key with
  | none =>
    have step : p.parserStep = .payloadData := by simpa [masked] using sized.step
    refine ⟨p, ⟨step, sized.payload, sized.fin, sized.opcode, sized.mask, sized.realyLen, ?_⟩, ?_⟩
    · simp [masked]
    · rw [Cursor.advance_of_ne (by simp [step])]
      simp [Frame.keyField, masked]
  | some key =>
    have step : p.parserStep = .maskingKey := by simpa [masked] using sized.step
    have field : f.keyField = key.bytes := by simp [Frame.keyField, masked]
    have width : key.bytes.length = 4 := key.fits
    have all : (key.bytes ++ tail).take 4 = key.bytes := by simp [← width]
    have after : (key.bytes ++ tail).drop 4 = tail := by simp [← width]
    have enough : min 4 (key.bytes ++ tail).length = 4 := by simp [width]
    have more : key.bytes ++ tail ≠ [] := by
      intro empty
      simp [List.append_eq_nil_iff.mp empty] at width
    rw [field, Cursor.advance_of_step .maskingKey step more]
    simp only [parseMaskingKey, step, sized.keyPos, Nat.sub_zero, enough, all, after, Nat.zero_add,
      if_true, List.append_nil]
    refine ⟨_, ?_, rfl⟩
    refine ⟨rfl, sized.payload, sized.fin, sized.opcode, sized.mask, sized.realyLen, ?_⟩
    intro other same
    obtain rfl : key = other := Option.some.inj (masked.symm.trans same)
    exact Memory.ext (Memory.copy_all _ _ width)

theorem advance_payload (keyed : Keyed f p) (positive : f.payload ≠ [])
    (bound : f.payload.length < 2 ^ 32) (tail : Bytes) (messages : List Message) :
    (⟨p, f.payloadField ++ tail, messages⟩ : Cursor).advance .payloadData parsePayload =
      ⟨fresh, tail, messages ++ [f.message]⟩ := by
  have width : f.payloadField.length = f.payload.length := f.payloadField_length
  have more : f.payloadField ++ tail ≠ [] := by
    intro empty
    rw [(List.append_eq_nil_iff.mp empty).1] at width
    exact positive (List.eq_nil_of_length_eq_zero width.symm)
  have remain : (f.payload.length + (2 ^ 32 - 0 % 2 ^ 32)) % 2 ^ 32 = f.payload.length := by omega
  have enough : min f.payload.length (f.payloadField ++ tail).length = f.payload.length := by
    simp [width]
  have all : (f.payloadField ++ tail).take f.payload.length = f.payloadField := by simp [← width]
  have after : (f.payloadField ++ tail).drop f.payload.length = tail := by simp [← width]
  have octets : (if p.frameHeader.mask ≠ 0 then
      Bytes.xorFrom (fun i => p.frameHeader.maskingKey.load (i % 4)) 0 f.payloadField
      else f.payloadField) = f.payload := by
    simp only [keyed.mask, maskBit_ne_zero, Frame.payloadField]
    cases masked : f.key with
    | none => simp
    | some key =>
      simp only [keyed.key key masked, Option.isSome_some, if_true]
      exact Bytes.xorFrom_xorFrom (Frame.keyStream key) 0 f.payload
  rw [Cursor.advance_of_step .payloadData keyed.step more]
  simp only [parsePayload, keyed.realyLen, keyed.payload, List.length_nil, remain, enough, all,
    after, octets, List.nil_append, if_true]
  simp only [message, keyed.opcode, keyed.fin, finBit_bne_zero, Frame.message]
  rfl

theorem advance_opened (f : Frame) (tail : Bytes) (messages : List Message) :
    (⟨fresh, f.encode ++ tail, messages⟩ : Cursor).advance .fixedHeader parseFixedHeader =
      ⟨opened f, Frame.lengthField f.maskBit f.payload.length ++
        (f.keyField ++ (f.payloadField ++ tail)), messages⟩ := by
  rw [Cursor.advance_of_step .fixedHeader rfl (by simp [Frame.encode])]
  simp only [Frame.encode, List.cons_append, List.append_assoc, parseFixedHeader_first,
    List.drop_succ_cons, List.drop_zero, List.append_nil]

/-- One iteration of the loop reads one frame with a payload. -/
theorem parseBody_frame (f : Frame) (positive : f.payload ≠ []) (bound : f.payload.length < 2 ^ 32)
    (tail : Bytes) (messages : List Message) :
    parseBody ⟨fresh, f.encode ++ tail, messages⟩ = ⟨fresh, tail, messages ++ [f.message]⟩ := by
  obtain ⟨p, sized, lengthRead⟩ := advance_length f positive (by omega)
    (f.keyField ++ (f.payloadField ++ tail)) messages
  obtain ⟨q, keyed, keyRead⟩ := advance_key sized (f.payloadField ++ tail) messages
  rw [parseBody, advance_opened, lengthRead, keyRead,
    advance_payload keyed positive bound tail messages]

/-- A frame without payload is complete before its key is read. -/
theorem parseBody_empty (f : Frame) (empty : f.payload = []) (tail : Bytes)
    (messages : List Message) :
    parseBody ⟨fresh, f.encode ++ tail, messages⟩ =
      ⟨fresh, f.keyField ++ tail, messages ++ [f.message]⟩ := by
  have noPayload : f.payloadField = [] := by
    apply List.eq_nil_of_length_eq_zero
    rw [f.payloadField_length, empty, List.length_nil]
  rw [parseBody, advance_opened, noPayload, List.nil_append, advance_empty f empty]
  simp only [Cursor.advance, fresh, reset, reduceCtorEq, false_and, if_false]

end FrameParser
end Da4qi4.Websocket
