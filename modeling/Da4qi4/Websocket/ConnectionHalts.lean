import Da4qi4.Websocket.ConnectionFrames

/-! A frame with an operation code that the connection has no case for, in a stream of
frames that is cut into reads. The connection notes an error, and looks for it once, behind
all that the read has brought. -/
namespace Da4qi4.Websocket
open FrameParser

/-- Codes that the handler is told of, behind others. -/
def HasType (earlier : List UInt8) (code : UInt8) : Prop :=
  code = FrameType.text.code ∨ code = FrameType.binary.code ∨
    (code = FrameType.continuation.code ∧
      ∃ first ∈ earlier, first = FrameType.text.code ∨ first = FrameType.binary.code)

theorem settled_concat {front : List UInt8} {code : UInt8} : Settled (front ++ [code]) ↔
    ¬Connection.Unsupported code ∧ (code = FrameType.continuation.code →
      ∃ first ∈ front, first = FrameType.text.code ∨ first = FrameType.binary.code) := by
  constructor
  · intro settled
    exact settled _ _ rfl
  · intro known early final split
    obtain ⟨rfl, rfl⟩ := List.append_singleton_inj.mp split
    exact known

theorem hasType_append {front back : List UInt8}
    (other : ∀ code ∈ back, ¬(code = FrameType.text.code ∨ code = FrameType.binary.code))
    (code : UInt8) : HasType (front ++ back) code ↔ HasType front code := by
  have none : ¬∃ first ∈ back, first = FrameType.text.code ∨ first = FrameType.binary.code := by
    rintro ⟨first, member, known⟩
    exact other first member known
  have first : (∃ first ∈ front ++ back,
      first = FrameType.text.code ∨ first = FrameType.binary.code) ↔
        ∃ first ∈ front, first = FrameType.text.code ∨ first = FrameType.binary.code := by
    simp only [List.mem_append, or_and_right, exists_or]
    exact or_iff_left none
  rw [HasType, HasType, first]

theorem unsupported_untyped {code : UInt8} (unsupported : Connection.Unsupported code) :
    ¬(code = FrameType.text.code ∨ code = FrameType.binary.code) :=
  fun first => unsupported.1 (.inr first)

/-- Behind a frame with an unsupported code, where nothing has a type, the connection stops
if the last frame has an unsupported code too, or is a continuation. -/
theorem stops_iff {front later : List UInt8} {bad : UInt8}
    (unsupported : Connection.Unsupported bad) (untyped : ∀ code ∈ later, ¬HasType front code) :
    ¬Settled (front ++ bad :: later) ↔ ∀ code ∈ later.getLast?,
      Connection.Unsupported code ∨ code = FrameType.continuation.code := by
  rcases List.eq_nil_or_concat later with rfl | ⟨others, final, rfl⟩
  · refine iff_of_true ?_ ?_
    · rw [settled_concat]
      exact fun known => known.1 unsupported
    · intro code none
      cases none
  · rw [List.concat_eq_append] at untyped ⊢
    have here := untyped final (List.mem_append_right _ List.mem_cons_self)
    have silent : final = FrameType.continuation.code →
        ¬∃ first ∈ front ++ bad :: others,
          first = FrameType.text.code ∨ first = FrameType.binary.code := by
      rintro continuation ⟨first, member, known⟩
      rcases List.mem_append.mp member with before | behind
      · exact here (.inr (.inr ⟨continuation, first, before, known⟩))
      · rcases List.mem_cons.mp behind with rfl | after
        · exact unsupported_untyped unsupported known
        · refine untyped first (List.mem_append_left _ after) ?_
          exact known.elim .inl fun binary => .inr (.inl binary)
    rw [← List.cons_append, ← List.append_assoc, settled_concat, List.getLast?_concat]
    constructor
    · rintro stopped code ⟨⟩
      by_contra other
      rw [not_or] at other
      exact stopped ⟨other.1, fun continuation => absurd continuation other.2⟩
    · intro known settled
      rcases known final rfl with unknown | continuation
      · exact settled.1 unknown
      · exact silent continuation (settled.2 continuation)

/-- The octets of reads, and of the front of a further one. -/
def reach (front : List Bytes) (data : Bytes) (octets : Nat) : Tape :=
  tapeOf (front ++ [data.take octets])

/-- Behind the first `place` octets of a read nothing that has come whole has a type, and what
comes last by its end is an error. Frames are those that the parser reads, as far as it
returns. -/
structure Cut (front : List Bytes) (data : Bytes) (place : Nat) : Prop where
  silent : ∀ octets, place ≤ octets → (∀ h ∈ readHeads (reach front data octets), h.Narrow) →
    ∀ code ∈ (codes (reach front data octets)).drop (codes (reach front data place)).length,
      ¬HasType (codes (reach front data place)) code
  last : (∀ h ∈ readHeads (tapeOf (front ++ [data])), h.Narrow) →
    ¬Settled (codes (tapeOf (front ++ [data])))

namespace Connection

/-- Once the first `place` octets of a read have been parsed the handler is told nothing
more, and no further read is started. What it has been told by some octet of the read is
what a read tells it that ends there. -/
structure Halts (ndebug : Bool) (c : Connection) (data : Bytes) (place : Nat) : Prop where
  silent : ∀ octets d e, place ≤ octets → c.read ndebug (data.take place) = some d →
    c.read ndebug (data.take octets) = some e → e.events = d.events
  last : ∀ d, c.read ndebug data = some d → d.reads = 0

/-- The front of a read is parsed as the front of what is parsed of more of it. -/
theorem callbacks_take (ndebug : Bool) {p : FrameParser} (coherent : p.Coherent) {data : Bytes}
    {place octets : Nat} (less : place ≤ octets)
    (returned : p.callbacks ndebug (data.take octets) = some (q, messages)) :
    ∃ r front back, p.callbacks ndebug (data.take place) = some (r, front) ∧
      messages = front ++ back := by
  have split : data.take octets = data.take place ++ (data.take octets).drop place := by
    rw [← Nat.min_eq_left less, ← List.take_take, Nat.min_eq_left less, List.take_append_drop]
  rw [callbacks_eq_run ndebug coherent, split, List.zipIdx_append, run_append] at returned
  obtain ⟨⟨r, front⟩, first, rest⟩ := Option.bind_eq_some_iff.mp returned
  obtain ⟨⟨s, back⟩, -, same⟩ := Option.map_eq_some_iff.mp rest
  cases same
  exact ⟨r, front, back, (callbacks_eq_run ndebug coherent _).trans first, rfl⟩

theorem Behind.codes_read {done : List Bytes} {messages : List Message} {c : Connection}
    (behind : Behind done messages c)
    (returned : c.parser.callbacks ndebug data = some (p, new)) :
    Websocket.codes (tapeOf (done ++ [data])) = (messages ++ new).map Message.opcode := by
  rw [callbacks_eq_run ndebug behind.coherent] at returned
  refine (run_codes (p := p) ?_).symm
  rw [tapeOf_concat, run_append, behind.ran, Option.bind_some, returned]
  rfl

/-- What has a type behind messages. -/
theorem typed_iff {messages : List Message} {m : Message} :
    Typed (remembered 0 messages) m ↔ HasType (messages.map Message.opcode) m.opcode := by
  have initial : ¬((0 : UInt8) = FrameType.text.code ∨ (0 : UInt8) = FrameType.binary.code) := by
    decide
  rw [Typed, HasType, remembered_first, or_iff_right initial]

theorem Behind.halts_iff_cut (ndebug : Bool) {done : List Bytes} {messages : List Message}
    {c : Connection} (behind : Behind done messages c) (outstanding : 0 < c.reads)
    (data : Bytes) (place : Nat) : c.Halts ndebug data place ↔ Cut done data place := by
  have last : (∀ d, c.read ndebug data = some d → d.reads = 0) ↔
      ((∀ h ∈ readHeads (tapeOf (done ++ [data])), h.Narrow) →
        ¬Settled (Websocket.codes (tapeOf (done ++ [data])))) := by
    rw [← not_and, ← GoesOn, ← behind.reads_on_iff ndebug outstanding data, not_exists]
    refine forall_congr' fun d => ?_
    rw [not_and, Nat.not_lt, Nat.le_zero]
  have silent (octets : Nat) (less : place ≤ octets) :
      (∀ d e, c.read ndebug (data.take place) = some d →
        c.read ndebug (data.take octets) = some e → e.events = d.events) ↔
      ((∀ h ∈ readHeads (reach done data octets), h.Narrow) →
        ∀ code ∈ (Websocket.codes (reach done data octets)).drop
            (Websocket.codes (reach done data place)).length,
          ¬HasType (Websocket.codes (reach done data place)) code) := by
    rw [reach, reach, ← behind.returns_iff ndebug outstanding]
    by_cases returns : ∃ e, c.read ndebug (data.take octets) = some e
    · obtain ⟨e, whole⟩ := returns
      obtain ⟨-, p, all, returned, readAll⟩ := read_cases whole
      obtain ⟨q, front, back, early, rfl⟩ := callbacks_take ndebug behind.coherent less returned
      obtain ⟨d, part⟩ := read_of_callbacks outstanding.ne' early
      obtain ⟨-, _, _, again, readPart⟩ := read_cases part
      cases early.symm.trans again
      have same : e.events = d.events ↔
          ∀ m ∈ back, ¬Typed (remembered 0 (messages ++ front)) m := by
        rw [readAll.events, readPart.events, toldAll_append, ← List.append_assoc,
          List.append_right_eq_self, toldAll_eq_nil, behind.last, remembered_append]
      have each : (∀ d e, c.read ndebug (data.take place) = some d →
          c.read ndebug (data.take octets) = some e → e.events = d.events) ↔
          e.events = d.events := by
        constructor
        · exact fun all => all d e part whole
        · intro equal d' e' part' whole'
          cases part.symm.trans part'
          cases whole.symm.trans whole'
          exact equal
      have split : (messages ++ (front ++ back)).map Message.opcode =
          (messages ++ front).map Message.opcode ++ back.map Message.opcode := by
        rw [← List.append_assoc, List.map_append]
      rw [each, same, behind.codes_read returned, behind.codes_read early, split, List.drop_left]
      constructor
      · rintro untyped - code member
        obtain ⟨m, inside, rfl⟩ := List.mem_map.mp member
        exact mt typed_iff.mpr (untyped m inside)
      · intro untyped m member
        exact mt typed_iff.mp (untyped ⟨e, whole⟩ _ (List.mem_map_of_mem member))
    · refine iff_of_true (fun d e _ whole => absurd ⟨e, whole⟩ returns) fun narrow => ?_
      exact absurd narrow returns
  constructor
  · intro halts
    exact ⟨fun octets less => (silent octets less).mp fun d e => halts.silent octets d e less,
      last.mp halts.last⟩
  · intro cut
    exact ⟨fun octets d e less => (silent octets less).mpr (cut.silent octets less) d e,
      last.mpr cut.last⟩

/-- Behind these reads, this one brings the last of the first `n` octets. -/
def Brings (n : Nat) (front : List Bytes) (data : Bytes) : Prop :=
  front.flatten.length < n ∧ n ≤ front.flatten.length + data.length

/-- The read that brings the last of the first `n` octets of a stream, if the connection
comes to it, halts behind these octets. -/
def HaltsAt (ndebug : Bool) (response : Bytes) (n : Nat) (chunks : List Bytes) : Prop :=
  ∀ front data later, chunks = front ++ data :: later → Brings n front data →
    ∀ c, Transition.run (read ndebug) (opened response) front = some c →
      c.Halts ndebug data (n - front.flatten.length)

theorem haltsAt_iff (ndebug : Bool) (response : Bytes) (n : Nat) (chunks : List Bytes) :
    HaltsAt ndebug response n chunks ↔
      ∀ front data later, chunks = front ++ data :: later → Brings n front data →
        (∀ early, early <+: front → GoesOn early) → Cut front data (n - front.flatten.length) := by
  refine forall_congr' fun front => forall_congr' fun data => forall_congr' fun later =>
    imp_congr_right fun _ => imp_congr_right fun _ => ?_
  rw [← readsOn_iff ndebug response front]
  constructor
  · rintro halts ⟨c, ran, outstanding⟩
    obtain ⟨messages, behind⟩ := behind_run ran
    exact (behind.halts_iff_cut ndebug outstanding data _).mp (halts c ran)
  · intro cut c ran
    by_cases outstanding : 0 < c.reads
    · obtain ⟨messages, behind⟩ := behind_run ran
      exact (behind.halts_iff_cut ndebug outstanding data _).mpr (cut ⟨c, ran, outstanding⟩)
    · have unread : ∀ some_, c.read ndebug some_ = none := fun _ =>
        if_pos (Nat.eq_zero_of_not_pos outstanding)
      constructor
      · intro octets d e _ part
        rw [unread] at part
        cases part
      · intro d whole
        rw [unread] at whole
        cases whole

theorem arrived_zero (frames : List Frame) : arrived frames 0 = [] := by
  cases frames with
  | nil => rfl
  | cons f frames =>
    have octets : f.encode ≠ [] := List.cons_ne_nil _ _
    exact if_neg fun whole => octets (List.length_eq_zero_iff.mp (Nat.le_zero.mp whole))

theorem arrived_append (front back : List Frame) (octets : Nat) :
    arrived (front ++ back) ((Frame.encodeAll front).length + octets) =
      front ++ arrived back octets := by
  induction front with
  | nil => rw [Frame.encodeAll, List.flatMap_nil, List.length_nil, Nat.zero_add]; rfl
  | cons f front ih =>
    rw [Frame.encodeAll, List.flatMap_cons, List.length_append, Nat.add_assoc, List.cons_append,
      arrived, if_pos (Nat.le_add_right _ _), Nat.add_sub_cancel_left, List.cons_append]
    exact congrArg (f :: ·) ih

/-- Before a frame has come whole, what stands behind it does not matter. -/
theorem arrived_early (before after : List Frame) (bad : Frame) {octets : Nat}
    (early : octets < (Frame.encodeAll (before ++ [bad])).length) :
    arrived (before ++ bad :: after) octets = arrived before octets := by
  induction before generalizing octets with
  | nil =>
    rw [List.nil_append, Frame.encodeAll, List.flatMap_singleton] at early
    exact if_neg (Nat.not_le.mpr early)
  | cons f before ih =>
    rw [List.cons_append, Frame.encodeAll, List.flatMap_cons, List.length_append] at early
    rw [List.cons_append, arrived, arrived]
    split
    · rw [ih (by rw [Frame.encodeAll]; omega)]
    · rfl

theorem arrived_mono (frames : List Frame) {fewer octets : Nat} (less : fewer ≤ octets) :
    arrived frames fewer <+: arrived frames octets := by
  induction frames generalizing fewer octets with
  | nil => exact List.prefix_refl []
  | cons f frames ih =>
    rw [arrived, arrived]
    split
    · rename_i whole
      rw [if_pos (whole.trans less), List.prefix_cons_inj]
      exact ih (Nat.sub_le_sub_right less _)
    · exact List.nil_prefix

/-- What has come whole behind a frame with an unsupported code: nothing of it has a type,
and the last has an unsupported code too, or is a continuation. -/
def Quiet (before behind : List Frame) : Prop :=
  (∀ f ∈ behind, ¬HasType (before.map Frame.opcode) f.opcode) ∧
    ∀ f ∈ behind.getLast?,
      Connection.Unsupported f.opcode ∨ f.opcode = FrameType.continuation.code

theorem tapeOf_take_begins (front later : List Bytes) (data : Bytes) (octets : Nat) :
    reach front data octets <+: tapeOf (front ++ data :: later) := by
  refine ⟨(data.drop octets).zipIdx (data.take octets).length ++ tapeOf later, ?_⟩
  have whole : data.zipIdx =
      (data.take octets).zipIdx ++ (data.drop octets).zipIdx (data.take octets).length := by
    conv_lhs => rw [← List.take_append_drop octets data, List.zipIdx_append]
    rw [Nat.zero_add]
  rw [reach, tapeOf_append, tapeOf_append, List.append_assoc]
  congr 1
  rw [tapeOf, tapeOf, tapeOf, List.flatMap_singleton, List.flatMap_cons, whole, List.append_assoc]

theorem length_reach (front : List Bytes) (data : Bytes) (octets : Nat) :
    (reach front data octets).length = front.flatten.length + min octets data.length := by
  rw [reach, length_tapeOf, List.flatten_append, List.flatten_singleton, List.length_append,
    List.length_take]

/-- Once the frame in the middle has come whole, the codes are those of the frames before it,
its own, and those of what has come whole behind it. -/
theorem codes_reach {before after : List Frame} {bad : Frame} {front later : List Bytes}
    {data : Bytes} (intact : Intact (before ++ bad :: after) (front ++ data :: later))
    (stream : (front ++ data :: later).flatten <+: Frame.encodeAll (before ++ bad :: after))
    {octets : Nat} (come : (Frame.encodeAll (before ++ [bad])).length ≤
      front.flatten.length + min octets data.length) :
    (∀ h ∈ readHeads (reach front data octets), h.Narrow) ∧
      codes (reach front data octets) = before.map Frame.opcode ++ [bad.opcode] ++
        (arrived after (front.flatten.length + min octets data.length -
          (Frame.encodeAll (before ++ [bad])).length)).map Frame.opcode := by
  obtain ⟨narrow, codes⟩ := intact.arrived stream (tapeOf_take_begins front later data octets)
  refine ⟨narrow, ?_⟩
  rw [codes, length_reach, ← Nat.add_sub_cancel' come, List.append_cons, arrived_append,
    Nat.add_sub_cancel_left, List.map_append, List.map_append]
  rfl

/-- The read that brings the last octet of a frame with an unsupported code, for frames that
the parser reads right. -/
theorem cut_iff {before after : List Frame} {bad : Frame}
    (unsupported : Connection.Unsupported bad.opcode) {front later : List Bytes} {data : Bytes}
    (intact : Intact (before ++ bad :: after) (front ++ data :: later))
    (stream : (front ++ data :: later).flatten <+: Frame.encodeAll (before ++ bad :: after))
    (brings : Brings (Frame.encodeAll (before ++ [bad])).length front data) :
    Cut front data ((Frame.encodeAll (before ++ [bad])).length - front.flatten.length) ↔
      Quiet before (arrived after
        (front.flatten.length + data.length - (Frame.encodeAll (before ++ [bad])).length)) := by
  have come := fun octets => @codes_reach before after bad front later data intact stream octets
  generalize (Frame.encodeAll (before ++ [bad])).length = n at brings come ⊢
  obtain ⟨starts, ends⟩ := brings
  have here := (come (n - front.flatten.length) (by omega)).2
  have all := come data.length (by omega)
  have whole : reach front data data.length = tapeOf (front ++ [data]) := by
    rw [reach, List.take_length]
  rw [Nat.min_eq_left (by omega), Nat.add_sub_cancel' starts.le, Nat.sub_self, arrived_zero,
    List.map_nil, List.append_nil] at here
  rw [whole, Nat.min_self] at all
  generalize behind : arrived after (front.flatten.length + data.length - n) = frames at all ⊢
  have typed (code : UInt8) : HasType (before.map Frame.opcode ++ [bad.opcode]) code ↔
      HasType (before.map Frame.opcode) code := by
    refine hasType_append (fun other member => ?_) code
    rw [List.mem_singleton.mp member]
    exact unsupported_untyped unsupported
  have silent : (∀ octets, n - front.flatten.length ≤ octets →
      (∀ h ∈ readHeads (reach front data octets), h.Narrow) →
      ∀ code ∈ (codes (reach front data octets)).drop
          (codes (reach front data (n - front.flatten.length))).length,
        ¬HasType (codes (reach front data (n - front.flatten.length))) code) ↔
      ∀ f ∈ frames, ¬HasType (before.map Frame.opcode) f.opcode := by
    constructor
    · intro untyped f member
      have last := untyped data.length (by omega) (whole ▸ all.1)
      rw [here, whole, all.2, List.drop_left] at last
      exact mt (typed _).mpr (last _ (List.mem_map_of_mem member))
    · intro untyped octets some_ narrow
      rw [here, (come octets (by omega)).2, List.drop_left]
      intro code member
      obtain ⟨f, arrives, rfl⟩ := List.mem_map.mp member
      have fewer : arrived after (front.flatten.length + min octets data.length - n) <+:
          arrived after (front.flatten.length + data.length - n) := arrived_mono after (by omega)
      exact mt (typed _).mp (untyped f (behind ▸ fewer.subset arrives))
  have last (untyped : ∀ f ∈ frames, ¬HasType (before.map Frame.opcode) f.opcode) :
      ¬Settled (codes (tapeOf (front ++ [data]))) ↔ ∀ f ∈ frames.getLast?,
        Connection.Unsupported f.opcode ∨ f.opcode = FrameType.continuation.code := by
    rw [all.2, List.append_assoc, List.singleton_append, stops_iff unsupported]
    · simp only [List.getLast?_map, Option.mem_map, forall_exists_index, and_imp,
        forall_apply_eq_imp_iff₂]
    · exact List.forall_mem_map.mpr untyped
  constructor
  · intro cut
    have untyped := silent.mp cut.silent
    exact ⟨untyped, (last untyped).mp (cut.last all.1)⟩
  · rintro ⟨untyped, final⟩
    exact ⟨silent.mpr untyped, fun _ => (last untyped).mpr final⟩

/-- Reads whose octets end before a frame with an unsupported code does. -/
theorem goesOn_iff_early {before after : List Frame} {bad : Frame} {chunks early : List Bytes}
    (intact : Intact (before ++ bad :: after) chunks)
    (stream : chunks.flatten <+: Frame.encodeAll (before ++ bad :: after))
    (begins : tapeOf early <+: tapeOf chunks)
    (ends : early.flatten.length < (Frame.encodeAll (before ++ [bad])).length) :
    GoesOn early ↔ Settled ((arrived before early.flatten.length).map Frame.opcode) := by
  obtain ⟨narrow, codes⟩ := intact.arrived stream begins
  rw [GoesOn, and_iff_right narrow, codes, length_tapeOf, arrived_early before after bad ends]

/-- A frame without a payload, with an operation code that is reserved. -/
def reserved : Frame := ⟨true, 3, by decide, none, []⟩

def note : Frame := { greeting with key := none }

end Connection
end Da4qi4.Websocket
