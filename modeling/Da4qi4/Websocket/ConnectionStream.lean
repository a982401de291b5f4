import Da4qi4.Websocket.ConnectionWriting
import Da4qi4.Websocket.FrameChunks
import Da4qi4.Websocket.FrameDelivery

/-! What threads send on one connection, as far as it has come at a parser of frames: the
whole frames of what has arrived, in the order of the list. -/
namespace Da4qi4.Websocket
open FrameParser

namespace Frame

/-- The fields of a frame without a key. -/
structure Plain (f : Frame) (second : UInt8) (length : Bytes) : Prop where
  layout : f.encode = (f.finBit ||| f.opcode) :: second :: (length ++ f.payload)
  unmasked : Head.masked second = false
  width : Head.lengthWidth second = length.length
  announced : (if Head.lengthWidth second = 0 then (Head.code second).toNat
    else Bytes.bigEndian length) = f.payload.length
  empty : Head.code second = 0 ↔ f.payload = []

theorem second_unmasked {code : Nat} (bound : code < 128) :
    Head.masked code.toUInt8 = false ∧ Head.code code.toUInt8 = code.toUInt8 := by
  have octet := second_octet false bound
  simp only [Bool.false_eq_true, if_false, UInt8.zero_or] at octet
  exact ⟨by rw [Head.masked, octet.1]; rfl, octet.2⟩

theorem plain (f : Frame) (unmasked : f.key = none) (bound : f.payload.length < 2 ^ 64) :
    ∃ second length, f.Plain second length := by
  have bit : f.maskBit = 0 := by rw [maskBit, unmasked]; rfl
  have key : f.keyField = [] := by rw [keyField, unmasked]; rfl
  have payload : f.payloadField = f.payload := by rw [payloadField, unmasked]
  have layout : f.encode =
      (f.finBit ||| f.opcode) :: (lengthField 0 f.payload.length ++ f.payload) := by
    rw [encode, bit, key, payload, List.append_nil, List.cons_append]
  by_cases short : f.payload.length ≤ 125
  · have narrow : f.payload.length < 128 := by omega
    obtain ⟨plain, code⟩ := second_unmasked narrow
    have value : f.payload.length.toUInt8.toNat = f.payload.length :=
      Nat.mod_eq_of_lt (show f.payload.length < 256 by omega)
    have other (n : UInt8) (large : 125 < n.toNat) : f.payload.length.toUInt8 ≠ n := by
      rintro rfl
      omega
    have width : Head.lengthWidth f.payload.length.toUInt8 = 0 := by
      rw [Head.lengthWidth, code, if_neg (other 126 (by decide)), if_neg (other 127 (by decide))]
    refine ⟨f.payload.length.toUInt8, [], ?_, plain, width, ?_, ?_⟩
    · rw [layout, lengthField, if_pos short, UInt8.zero_or]
      rfl
    · rw [if_pos width, code, value]
    · rw [code, ← List.length_eq_zero_iff]
      constructor
      · intro zero
        rw [← value, zero]
        rfl
      · intro zero
        rw [zero]
        rfl
  · have some_ : f.payload ≠ [] := fun none => short (by rw [none]; exact Nat.zero_le _)
    by_cases medium : f.payload.length < 2 ^ 16
    · refine ⟨126, Bytes.ofBigEndian 2 f.payload.length, ?_, by decide, ?_, ?_,
        iff_of_false (by decide) some_⟩
      · rw [layout, lengthField, if_neg short, if_pos medium]
        rfl
      · rw [Bytes.ofBigEndian_length]
        rfl
      · rw [if_neg (by decide), Bytes.bigEndian_ofBigEndian medium]
    · refine ⟨127, Bytes.ofBigEndian 8 f.payload.length, ?_, by decide, ?_, ?_,
        iff_of_false (by decide) some_⟩
      · rw [layout, lengthField, if_neg short, if_neg medium]
        rfl
      · rw [Bytes.ofBigEndian_length]
        rfl
      · rw [if_neg (by decide), Bytes.bigEndian_ofBigEndian bound]

end Frame

/-- Octets as they are on a tape without cuts. -/
def blank (octets : Bytes) : Tape := octets.map fun octet => (octet, 0)

theorem erase_eq_blank (tape : Tape) : erase tape = blank (Tape.octets tape) := by
  rw [erase, blank, Tape.octets, List.map_map]
  rfl

theorem octets_blank (octets : Bytes) : Tape.octets (blank octets) = octets := by
  rw [Tape.octets, blank, List.map_map]
  exact List.map_id _

/-- The header of a frame whose length field has arrived. -/
theorem Frame.Plain.head {f : Frame} (plain : f.Plain second length) (rest : Bytes)
    (enough : length.length ≤ rest.length) (field : rest.take length.length = length) :
    Head.ofTape (blank ((f.finBit ||| f.opcode) :: second :: rest)) =
      some ⟨f.finBit ||| f.opcode, second, blank length, [], blank (rest.drop length.length)⟩ := by
  have key : Head.keyWidth second = 0 := by
    rw [Head.keyWidth, if_neg fun masked => by rw [plain.unmasked] at masked; cases masked.1]
  simp only [blank, List.map_cons, Head.ofTape, key, plain.width, Nat.add_zero, List.length_map,
    enough, if_true, List.take_zero, List.map_nil, ← List.map_take, ← List.map_drop, field]

theorem Frame.Plain.missing {f : Frame} (plain : f.Plain second length) {rest : Bytes}
    (short : rest.length < length.length) :
    Head.ofTape (blank ((f.finBit ||| f.opcode) :: second :: rest)) = none := by
  have less : ¬length.length + Head.keyWidth second ≤ rest.length := by omega
  simp only [blank, List.map_cons, Head.ofTape, plain.width, List.length_map, less, if_false]

theorem Frame.Plain.announces {f : Frame} (plain : f.Plain second length) {key rest : Tape}
    {first : UInt8} : Head.announced ⟨first, second, blank length, key, rest⟩ = f.payload.length := by
  rw [Head.announced, octets_blank]
  exact plain.announced

theorem Frame.message_first (f : Frame) :
    (f.finBit ||| f.opcode) &&& 0x0f = f.opcode ∧ ((f.finBit ||| f.opcode) &&& 0xf0 != 0) = f.fin := by
  obtain ⟨high, -, -, -, low⟩ := first_octet f.fin f.nibble
  refine ⟨low, ?_⟩
  rw [Frame.finBit, high]
  exact finBit_bne_zero f

/-- A whole frame. -/
theorem Frame.Plain.decode {f : Frame} (plain : f.Plain second length) (tail : Bytes) :
    frameHeads (blank (f.encode ++ tail)) =
        ⟨f.finBit ||| f.opcode, second, blank length, [], blank (f.payload ++ tail)⟩ ::
          frameHeads (blank tail) ∧
      Websocket.decode (blank (f.encode ++ tail)) = f.message :: Websocket.decode (blank tail) := by
  have found := plain.head (length ++ (f.payload ++ tail)) (by simp) (by simp)
  rw [List.drop_left] at found
  have layout : f.encode ++ tail =
      (f.finBit ||| f.opcode) :: second :: (length ++ (f.payload ++ tail)) := by
    rw [plain.layout, List.cons_append, List.cons_append, List.append_assoc]
  have rest : (blank (f.payload ++ tail)).drop f.payload.length = blank tail := by
    rw [blank, ← List.map_drop, List.drop_left]
    rfl
  have payload : Head.payload
      ⟨f.finBit ||| f.opcode, second, blank length, [], blank (f.payload ++ tail)⟩ = f.payload := by
    rw [Head.payload, plain.announces]
    simp only [plain.unmasked, Bool.false_eq_true, if_false]
    rw [blank, ← List.map_take, List.take_left]
    exact octets_blank _
  have sent : Head.sent
      ⟨f.finBit ||| f.opcode, second, blank length, [], blank (f.payload ++ tail)⟩ =
        some f.message := by
    obtain ⟨opcode, fin⟩ := f.message_first
    rw [Head.sent, payload, plain.announces]
    split
    · rename_i empty
      rw [Head.message, Frame.message, opcode, fin, plain.empty.mp empty]
    · rename_i some_
      have more : f.payload ≠ [] := mt plain.empty.mpr some_
      rw [if_pos ⟨by simp [blank, more], by simp [blank]⟩, Head.message, Frame.message, opcode, fin]
  rw [layout, frameHeads_cons found, decode_cons found, sent, plain.announces, rest]
  exact ⟨rfl, rfl⟩

/-- A frame that has not arrived to its end. -/
theorem Frame.Plain.cut {f : Frame} (plain : f.Plain second length) {front : Bytes}
    (begun : front <+: f.encode) (short : front ≠ f.encode) :
    (∀ h ∈ frameHeads (blank front), h.announced = f.payload.length) ∧
      Websocket.decode (blank front) = [] := by
  obtain ⟨last, whole⟩ := begun
  have left : last ≠ [] := fun none => short (by rw [← whole, none, List.append_nil])
  rw [plain.layout] at whole
  have none_ : Head.ofTape (blank front) = none →
      (∀ h ∈ frameHeads (blank front), h.announced = f.payload.length) ∧
        Websocket.decode (blank front) = [] := by
    intro missing
    rw [Websocket.decode, frameHeads_nil missing]
    exact ⟨fun h member => absurd member List.not_mem_nil, rfl⟩
  rcases front with _ | ⟨first, _ | ⟨code, front⟩⟩
  · exact none_ rfl
  · exact none_ rfl
  · rw [List.cons_append, List.cons_append] at whole
    injection whole with same whole
    injection whole with same' whole
    subst same same'
    by_cases enough : length.length ≤ front.length
    · have field : front.take length.length = length := by
        have taken := congrArg (List.take length.length) whole
        rwa [List.take_append_of_le_length enough, List.take_left] at taken
      have found := plain.head _ enough field
      have rest : front.drop length.length ++ last = f.payload := by
        have dropped := congrArg (List.drop length.length) whole
        rwa [List.drop_append_of_le_length enough, List.drop_left] at dropped
      have less : (front.drop length.length).length < f.payload.length := by
        rw [← rest, List.length_append]
        have positive := List.length_pos_iff.mpr left
        omega
      have some_ : f.payload ≠ [] := fun none => by rw [none] at less; cases less
      have behind : (blank (front.drop length.length)).drop f.payload.length = [] := by
        rw [List.drop_eq_nil_iff, blank, List.length_map]
        omega
      rw [decode_cons found, frameHeads_cons found, plain.announces, behind, decode_nil,
        frameHeads_nil rfl, Head.sent, if_neg (mt plain.empty.mp some_), plain.announces,
        if_neg fun whole => ?_]
      · exact ⟨List.forall_mem_singleton.mpr plain.announces, rfl⟩
      · have all : f.payload.length ≤ (blank (front.drop length.length)).length := whole.2
        rw [blank, List.length_map] at all
        omega
    · exact none_ (plain.missing (Nat.lt_of_not_le enough))

/-- The front of a stream of frames: those that have arrived whole, and what is there of
the next one. -/
theorem decode_front (frames : List Frame) (unmasked : ∀ f ∈ frames, f.key = none)
    (bound : ∀ f ∈ frames, f.payload.length < 2 ^ 64) {stream : Bytes}
    (begun : stream <+: Frame.encodeAll frames) :
    (∀ h ∈ frameHeads (blank stream), ∃ f ∈ frames, h.announced = f.payload.length) ∧
      ∃ n ≤ frames.length, decode (blank stream) = (frames.take n).map Frame.message ∧
        Frame.encodeAll (frames.take n) <+: stream ∧
        ∀ m, n < m → m ≤ frames.length → ¬Frame.encodeAll (frames.take m) <+: stream := by
  induction frames generalizing stream with
  | nil =>
    have none : stream = [] := List.prefix_nil.mp begun
    rw [none]
    refine ⟨fun h member => ?_, 0, Nat.le_refl 0, decode_nil, List.nil_prefix, fun m more less => ?_⟩
    · rw [frameHeads_nil rfl] at member
      cases member
    · exact absurd less (Nat.not_le_of_lt more)
  | cons f frames ih =>
    obtain ⟨here, others⟩ := List.forall_mem_cons.mp unmasked
    obtain ⟨small, smaller⟩ := List.forall_mem_cons.mp bound
    obtain ⟨second, length, plain⟩ := f.plain here small
    have split : ∀ n, Frame.encodeAll ((f :: frames).take (n + 1)) =
        f.encode ++ Frame.encodeAll (frames.take n) := fun n => List.flatMap_cons
    by_cases whole : f.encode <+: stream
    · obtain ⟨rest, rfl⟩ := whole
      have later : rest <+: Frame.encodeAll frames := by
        rw [Frame.encodeAll, List.flatMap_cons] at begun
        exact (List.prefix_append_right_inj _).mp begun
      obtain ⟨heads, n, most, same, arrived, last⟩ := ih others smaller later
      obtain ⟨first, message⟩ := plain.decode rest
      refine ⟨?_, n + 1, Nat.succ_le_succ most, ?_, ?_, ?_⟩
      · rw [first, List.forall_mem_cons]
        refine ⟨⟨f, List.mem_cons_self, plain.announces⟩, fun h member => ?_⟩
        obtain ⟨g, inside, announced⟩ := heads h member
        exact ⟨g, List.mem_cons_of_mem f inside, announced⟩
      · rw [message, same]
        rfl
      · rw [split]
        exact (List.prefix_append_right_inj _).mpr arrived
      · intro m more less
        obtain ⟨k, rfl⟩ : ∃ k, m = k + 1 := ⟨m - 1, by omega⟩
        rw [split, List.prefix_append_right_inj]
        exact last k (by omega) (Nat.le_of_succ_le_succ less)
    · have inside : stream <+: f.encode := by
        rw [Frame.encodeAll, List.flatMap_cons] at begun
        exact (List.prefix_or_prefix_of_prefix begun (List.prefix_append _ _)).resolve_right whole
      obtain ⟨heads, none⟩ := plain.cut inside fun same => whole (same ▸ List.prefix_rfl)
      refine ⟨fun h member => ⟨f, List.mem_cons_self, heads h member⟩, 0, Nat.zero_le _, none,
        List.nil_prefix, fun m more less arrived => whole ?_⟩
      obtain ⟨k, rfl⟩ : ∃ k, m = k + 1 := ⟨m - 1, by omega⟩
      rw [split] at arrived
      exact (List.prefix_append _ _).trans arrived

namespace Writing

/-- However calls of any threads and completions interleave behind the response of the
handshake, and however far what was handed to the socket has come and in which pieces: if
the cuts do no harm to a frame, a parser has made the messages of the calls whose frames
have arrived whole, in the order in which the calls had the lock. -/
theorem written_parsed (ndebug : Bool) (response : Bytes) (messages : List Outgoing)
    (unmasked : ∀ m ∈ messages, m.key = none)
    (small : ∀ m ∈ messages, m.payload.length < 2 ^ 32) {actions : List Action} {s : Writing}
    (ran : Transition.run step constructed actions = some s)
    (calls : pushed actions = response :: messages.map Outgoing.build) {chunks : List Bytes}
    (some_octets : ∀ chunk ∈ chunks, chunk ≠ [])
    (arrived : response ++ chunks.flatten <+: s.connection.handed.flatten)
    (harmless : ∀ h ∈ frameHeads (tapeOf chunks), h.ReadRight) :
    ∃ n ≤ messages.length,
      (parseChunks ndebug fresh chunks).map Prod.snd =
        some ((messages.take n).map Outgoing.message) ∧
      (messages.take n).flatMap Outgoing.build <+: chunks.flatten ∧
      ∀ m, n < m → m ≤ messages.length →
        ¬(messages.take m).flatMap Outgoing.build <+: chunks.flatten := by
  have builds : ∀ front : List Outgoing,
      Frame.encodeAll (front.map Outgoing.frame) = front.flatMap Outgoing.build := by
    intro front
    rw [Frame.encodeAll, List.flatMap_map]
    exact List.flatMap_congr fun m _ => m.build_eq_encode.symm
  have queued : s.connection.queued = response :: messages.map Outgoing.build := by
    rw [queued_run ran, calls]
    rfl
  have inOrder : s.connection.handed <+: s.connection.queued :=
    ((served_throughout actions).final ran).inOrder
  have begun : chunks.flatten <+: Frame.encodeAll (messages.map Outgoing.frame) := by
    have all : response ++ chunks.flatten <+:
        response ++ (messages.map Outgoing.build).flatten := by
      obtain ⟨rest, whole⟩ := inOrder
      have list : response ++ (messages.map Outgoing.build).flatten =
          s.connection.handed.flatten ++ rest.flatten := by
        rw [← List.flatten_append, whole, queued, List.flatten_cons]
      rw [list]
      exact arrived.trans (List.prefix_append _ _)
    rw [builds, List.flatMap_def]
    exact (List.prefix_append_right_inj _).mp all
  obtain ⟨heads, n, most, decoded, front, last⟩ := decode_front (messages.map Outgoing.frame)
    (by
      intro f member
      obtain ⟨m, inside, rfl⟩ := List.mem_map.mp member
      rw [Outgoing.frame, unmasked m inside]
      exact ite_self _)
    (by
      intro f member
      obtain ⟨m, inside, rfl⟩ := List.mem_map.mp member
      exact (small m inside).trans (by decide)) begun
  have erased : erase (tapeOf chunks) = blank chunks.flatten := by
    rw [erase_eq_blank, octets_tapeOf, Tape.octets, List.zipIdx_map_fst]
  have bounded : ∀ h ∈ frameHeads (tapeOf chunks), h.announced < 2 ^ 32 := by
    intro h member
    have inside := List.mem_map_of_mem (f := Head.erase) member
    rw [← frameHeads_erase, erased] at inside
    obtain ⟨f, known, announced⟩ := heads _ inside
    obtain ⟨m, here, rfl⟩ := List.mem_map.mp known
    rw [← h.announced_erase, announced]
    exact small m here
  refine ⟨n, by simpa using most, ?_, ?_, ?_⟩
  · rw [fresh, parseChunks_eq_run ndebug reset_coherent some_octets,
      (callbacks_iff _ bounded).mpr harmless, ← decode_erase, erased, decoded, ← List.map_take,
      List.map_map]
    rfl
  · rwa [← List.map_take, builds] at front
  · intro m more less
    have missing := last m more (by simpa using less)
    rwa [← List.map_take, builds] at missing

def overtaken : List Outgoing := [⟨[104, 105], .text, true, none⟩, ⟨[7], .binary, true, none⟩]

/-- The second call comes before the write of the response is complete. -/
def overtaking : List Action :=
  [.push [1], .start, .push [129, 2, 104, 105], .push [130, 1, 7], .wrote 0, .pop, .start,
    .wrote 0, .pop, .start]

theorem written_parsed_overtaken :
    ∃ n ≤ 2, (parseChunks false fresh [[129, 2], [104, 105, 130]]).map Prod.snd =
        some ((overtaken.take n).map Outgoing.message) ∧
      (overtaken.take n).flatMap Outgoing.build <+: [129, 2, 104, 105, 130] ∧
      ∀ m, n < m → m ≤ 2 →
        ¬(overtaken.take m).flatMap Outgoing.build <+: [129, 2, 104, 105, 130] := by
  have ran : Transition.run step constructed overtaking =
      some ⟨{
        dataForWrite := [[130, 1, 7]]
        writes := [[130, 1, 7]]
        queued := [[1], [129, 2, 104, 105], [130, 1, 7]]
        handed := [[1], [129, 2, 104, 105], [130, 1, 7]] }, 0, 0⟩ := rfl
  have heads : frameHeads (tapeOf [[129, 2], [104, 105, 130]]) =
      [⟨129, 2, [], [], [(104, 0), (105, 1), (130, 2)]⟩] := by
    rw [frameHeads_cons (h := ⟨129, 2, [], [], [(104, 0), (105, 1), (130, 2)]⟩) rfl,
      frameHeads_nil rfl]
  refine written_parsed false [1] overtaken (by decide) (by decide) ran (by decide) (by decide)
    (by decide) ?_
  rw [heads]
  exact List.forall_mem_singleton.mpr (.inr (.inr ⟨rfl, fun masked => absurd masked (by decide)⟩))

end Writing
end Da4qi4.Websocket
