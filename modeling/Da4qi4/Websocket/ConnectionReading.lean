import Da4qi4.Foundation.Transition
import Da4qi4.Websocket.Connection

/-! Reads one after another. The error of a frame is a flag, which the next frame puts
back and the connection looks at once for each read: what a frame leads to depends on
what else the read has brought. -/
namespace Da4qi4.Websocket

/-- The callbacks of the parser for a read, and the parser behind it. -/
def FrameParser.callbacks (ndebug : Bool) (p : FrameParser) (data : Bytes) :
    Option (FrameParser × List Message) :=
  if data = [] then some (p, []) else (p.parse ndebug data).map fun o => (o.parser, o.messages)

namespace Connection

/-- A read that is outstanding has brought something, and is handled. -/
def read (ndebug : Bool) (c : Connection) (data : Bytes) : Option Connection :=
  if c.reads = 0 then none else { c with reads := c.reads - 1 }.onRead ndebug (.ok data)

/-- A read that is outstanding has brought frames, as the parser reports them. -/
def readFrames (c : Connection) (messages : List Message) : Option Connection :=
  if c.reads = 0 then none
  else (onReadFrames { c with reads := c.reads - 1 } messages).map fun handled =>
    if handled.errorOnParse = 0 then handled.startRead else handled

def remembered (last : UInt8) : List Message → UInt8
  | [] => last
  | m :: messages => remembered (lastAfter last m.opcode) messages

def toldAll (last : UInt8) : List Message → List Event
  | [] => []
  | m :: messages => (told last m).toList ++ toldAll (lastAfter last m.opcode) messages

/-- The flag behind the frames, `error` in front of them. -/
def flagged (last error : UInt8) : List Message → UInt8
  | [] => error
  | m :: messages => flagged (lastAfter last m.opcode) (errorAfter last m) messages

theorem toldAll_append (last : UInt8) (front back : List Message) :
    toldAll last (front ++ back) = toldAll last front ++ toldAll (remembered last front) back := by
  induction front generalizing last with
  | nil => rfl
  | cons m front ih => rw [List.cons_append, toldAll, toldAll, ih, remembered, List.append_assoc]

theorem flagged_append (last error : UInt8) (front back : List Message) :
    flagged last error (front ++ back) =
      flagged (remembered last front) (flagged last error front) back := by
  induction front generalizing last error with
  | nil => rfl
  | cons m front ih => rw [List.cons_append, flagged, flagged, ih, remembered]

theorem remembered_append (last : UInt8) (front back : List Message) :
    remembered last (front ++ back) = remembered (remembered last front) back := by
  induction front generalizing last with
  | nil => rfl
  | cons m front ih => rw [List.cons_append, remembered, remembered, ih]

/-- All that frames change, the queue apart. -/
structure HandledAll (c : Connection) (messages : List Message) (d : Connection) : Prop where
  last : d.lastDataType = remembered c.lastDataType messages
  events : d.events = c.events ++ toldAll c.lastDataType messages
  error : d.errorOnParse = flagged c.lastDataType c.errorOnParse messages
  parser : d.parser = c.parser
  reads : d.reads = c.reads

theorem onReadFrames_handled (c : Connection) (messages : List Message) :
    ∃ d, c.onReadFrames messages = some d ∧ HandledAll c messages d := by
  induction messages generalizing c with
  | nil => exact ⟨c, rfl, rfl, (List.append_nil _).symm, rfl, rfl, rfl⟩
  | cons m messages ih =>
    obtain ⟨d, received, first⟩ := onReadFrame_handled c m
    obtain ⟨e, rest, later⟩ := ih d
    refine ⟨e, by rw [onReadFrames, received, Option.bind_some, rest], ?_⟩
    constructor
    · rw [later.last, first.last, remembered]
    · rw [later.events, first.events, first.last, toldAll, List.append_assoc]
    · rw [later.error, first.last, first.error, flagged]
    · rw [later.parser, first.parser]
    · rw [later.reads, first.reads]

/-- All that a read changes, the queue apart. -/
structure Read (c : Connection) (p : FrameParser) (messages : List Message) (d : Connection) :
    Prop where
  last : d.lastDataType = remembered c.lastDataType messages
  events : d.events = c.events ++ toldAll c.lastDataType messages
  error : d.errorOnParse = flagged c.lastDataType c.errorOnParse messages
  parser : d.parser = p
  reads : d.reads = c.reads - 1 + if d.errorOnParse = 0 then 1 else 0

/-- A call of the parser that returns has succeeded. -/
theorem parse_success {p : FrameParser} (parsed : p.parse ndebug data = some outcome) :
    outcome.success = true := by
  rw [FrameParser.parse] at parsed
  split at parsed
  · obtain ⟨c, -, rfl⟩ := Option.map_eq_some_iff.mp parsed
    rfl
  · cases parsed

theorem readFrames_cases {c d : Connection} {messages : List Message}
    (came : c.readFrames messages = some d) : 0 < c.reads ∧ Read c c.parser messages d := by
  rw [readFrames] at came
  split at came
  · cases came
  · rename_i outstanding
    obtain ⟨e, received, rfl⟩ := Option.map_eq_some_iff.mp came
    obtain ⟨_, again, handled⟩ := onReadFrames_handled { c with reads := c.reads - 1 } messages
    cases received.symm.trans again
    refine ⟨Nat.pos_of_ne_zero outstanding, ?_⟩
    split
    · rename_i fine
      refine ⟨handled.last, handled.events, handled.error, handled.parser, ?_⟩
      rw [startRead, if_pos fine, handled.reads]
    · rename_i flagged
      refine ⟨handled.last, handled.events, handled.error, handled.parser, ?_⟩
      rw [if_neg flagged, handled.reads, Nat.add_zero]

/-- What a read does is what the frames do that the parser reports of it. -/
theorem read_eq_readFrames (c : Connection) (ndebug : Bool) (data : Bytes) :
    c.read ndebug data = (c.parser.callbacks ndebug data).bind fun result =>
      { c with parser := result.1 }.readFrames result.2 := by
  rw [read, FrameParser.callbacks, onRead]
  by_cases outstanding : c.reads = 0
  · have never : ∀ result : FrameParser × List Message,
        { c with parser := result.1 }.readFrames result.2 = none := fun _ => if_pos outstanding
    rw [if_pos outstanding, funext never, Option.bind_fun_none]
  by_cases none : data = []
  · rw [if_neg outstanding, if_pos none, if_neg (not_not_intro none), Option.bind_some, readFrames,
      if_neg outstanding]
    simp only [onReadFrames, Option.map_some, true_and]
  · rw [if_neg outstanding, if_neg none, if_pos none, parseRead]
    cases parsed : c.parser.parse ndebug data with
    | none => rfl
    | some outcome =>
      rw [Option.bind_some, Option.map_some, Option.bind_some, readFrames, if_neg outstanding,
        Option.map_map]
      simp only [parse_success parsed, Function.comp_def, true_and]

theorem read_cases {c d : Connection} (came : c.read ndebug data = some d) :
    0 < c.reads ∧ ∃ p messages, c.parser.callbacks ndebug data = some (p, messages) ∧
      Read c p messages d := by
  rw [read_eq_readFrames] at came
  obtain ⟨⟨p, messages⟩, returned, read⟩ := Option.bind_eq_some_iff.mp came
  obtain ⟨outstanding, read⟩ := readFrames_cases read
  exact ⟨outstanding, p, messages, returned, read.last, read.events, read.error, read.parser,
    read.reads⟩

/-- The read is handled whenever the parser returns. -/
theorem read_of_callbacks {c : Connection} {p : FrameParser} {messages : List Message}
    (outstanding : c.reads ≠ 0)
    (returned : c.parser.callbacks ndebug data = some (p, messages)) :
    ∃ d, c.read ndebug data = some d := by
  obtain ⟨e, received, -⟩ := onReadFrames_handled
    { c with parser := p, reads := c.reads - 1 } messages
  rw [read_eq_readFrames, returned, Option.bind_some, readFrames, if_neg outstanding, received]
  exact ⟨_, rfl⟩

/-- Codes that `on_read_frame` has no case for. -/
def Unsupported (opcode : UInt8) : Prop :=
  ¬IsData opcode ∧ opcode ≠ FrameType.connectionClose.code ∧ opcode ≠ FrameType.ping.code

instance (opcode : UInt8) : Decidable (Unsupported opcode) :=
  inferInstanceAs (Decidable (_ ∧ _ ∧ _))

/-- Data that has a type, its own or the one that is remembered. -/
def Typed (last : UInt8) (m : Message) : Prop :=
  m.opcode = FrameType.text.code ∨ m.opcode = FrameType.binary.code ∨
    (m.opcode = FrameType.continuation.code ∧
      (last = FrameType.text.code ∨ last = FrameType.binary.code))

theorem eventOf_isSome {type : UInt8} {m : Message} : (eventOf type m).isSome = true ↔
    type = FrameType.text.code ∨ type = FrameType.binary.code := by
  rw [eventOf]
  split
  · rename_i text
    exact iff_of_true rfl (.inl text)
  · rename_i notText
    split
    · rename_i binary
      exact iff_of_true rfl (.inr binary)
    · rename_i notBinary
      exact iff_of_false Bool.false_ne_true fun typed => typed.elim notText notBinary

/-- The handler is told of data that has a type. -/
theorem told_isSome {last : UInt8} {m : Message} :
    (told last m).isSome = true ↔ Typed last m := by
  rw [told]
  split
  · rename_i data
    rw [eventOf_isSome, lastAfter, Typed]
    rcases data with continuation | text | binary
    · have untyped :
          ¬(m.opcode = FrameType.text.code ∨ m.opcode = FrameType.binary.code) := by
        rw [continuation]
        decide
      rw [if_neg untyped]
      constructor
      · intro typed
        exact .inr (.inr ⟨continuation, typed⟩)
      · rintro (text | binary | ⟨-, typed⟩)
        · exact absurd (.inl text) untyped
        · exact absurd (.inr binary) untyped
        · exact typed
    · rw [if_pos (.inl text)]
      exact iff_of_true (.inl text) (.inl text)
    · rw [if_pos (.inr binary)]
      exact iff_of_true (.inr binary) (.inr (.inl binary))
  · rename_i control
    apply iff_of_false Bool.false_ne_true
    rintro (text | binary | ⟨continuation, -⟩)
    · exact control (.inr (.inl text))
    · exact control (.inr (.inr binary))
    · exact control (.inl continuation)

theorem lastAfter_untyped {last : UInt8} {m : Message} (untyped : ¬Typed last m) :
    lastAfter last m.opcode = last :=
  if_neg fun typed => untyped (typed.elim .inl fun binary => .inr (.inl binary))

theorem toldAll_eq_nil {last : UInt8} {messages : List Message} :
    toldAll last messages = [] ↔ ∀ m ∈ messages, ¬Typed last m := by
  induction messages with
  | nil => exact iff_of_true rfl (List.forall_mem_nil _)
  | cons m messages ih =>
    have first : (told last m).toList = [] ↔ ¬Typed last m := by
      rw [Option.toList_eq_nil_iff, ← told_isSome, Option.not_isSome_iff_eq_none]
    rw [toldAll, List.append_eq_nil_iff, first, List.forall_mem_cons]
    apply and_congr_right
    intro untyped
    rw [lastAfter_untyped untyped, ih]

theorem errorAfter_untyped {last : UInt8} {m : Message} (untyped : ¬Typed last m) :
    errorAfter last m ≠ 0 ↔ Unsupported m.opcode ∨ m.opcode = FrameType.continuation.code := by
  have silent : (told last m).isSome = false := Bool.eq_false_iff.mpr (mt told_isSome.mp untyped)
  rw [errorAfter]
  split
  · rename_i data
    rw [silent]
    apply iff_of_true
    · decide
    · rcases data with continuation | text | binary
      · exact .inr continuation
      · exact absurd (.inl text) untyped
      · exact absurd (.inr (.inl binary)) untyped
  · rename_i control
    split
    · rename_i known
      apply iff_of_false
      · exact fun wrong => wrong rfl
      · rintro (⟨-, notClose, notPing⟩ | continuation)
        · exact known.elim notClose notPing
        · exact control (.inl continuation)
    · rename_i other
      apply iff_of_true
      · decide
      · exact .inl ⟨control, fun close => other (.inl close), fun ping => other (.inr ping)⟩

theorem errorAfter_eq_zero_iff {last : UInt8} {m : Message} :
    errorAfter last m = 0 ↔ ¬Unsupported m.opcode ∧
      (m.opcode = FrameType.continuation.code →
        last = FrameType.text.code ∨ last = FrameType.binary.code) := by
  by_cases typed : Typed last m
  · have data : IsData m.opcode := typed.elim (fun text => .inr (.inl text)) fun others =>
      others.elim (fun binary => .inr (.inr binary)) fun continuation => .inl continuation.1
    rw [errorAfter, if_pos data, told_isSome.mpr typed]
    refine iff_of_true rfl ⟨fun unsupported => unsupported.1 data, fun continuation => ?_⟩
    rcases typed with text | binary | ⟨-, known⟩
    · rw [continuation] at text
      cases text
    · rw [continuation] at binary
      cases binary
    · exact known
  · rw [← not_iff_not, ← ne_eq, errorAfter_untyped typed, not_and_or, not_not]
    apply or_congr_right
    constructor
    · intro continuation known
      exact typed (.inr (.inr ⟨continuation, known continuation⟩))
    · intro missing
      by_contra other
      exact missing fun continuation => absurd continuation other

end Connection
end Da4qi4.Websocket
