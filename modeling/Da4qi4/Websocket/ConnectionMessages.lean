import Da4qi4.Websocket.ConnectionReading

/-! Messages in fragments. The standard remembers the type of the message that is not
finished, and forgets it with the last fragment; the connection remembers the type of
the last data frame that had one. A frame that the connection does not accept ends its
reading only if no frame of the same read puts the flag back. -/
namespace Da4qi4.Websocket

inductive DataType where
  | text | binary
  deriving DecidableEq, Repr

namespace DataType

def code : DataType → UInt8
  | .text => FrameType.text.code
  | .binary => FrameType.binary.code

/-- The type of the message that a frame begins. -/
def ofOpcode (opcode : UInt8) : Option DataType :=
  if opcode = FrameType.text.code then some .text
  else if opcode = FrameType.binary.code then some .binary
  else none

def event (type : DataType) (m : Message) : Event :=
  match type with
  | .text => .text m.payload m.finished
  | .binary => .binary m.payload m.finished

theorem ofOpcode_eq_some : ofOpcode opcode = some type ↔ opcode = type.code := by
  rw [ofOpcode]
  split
  · rename_i text
    rw [text]
    cases type with
    | text => exact iff_of_true rfl rfl
    | binary => exact iff_of_false (by decide) (by decide)
  · rename_i notText
    split
    · rename_i binary
      rw [binary]
      cases type with
      | text => exact iff_of_false (by decide) (by decide)
      | binary => exact iff_of_true rfl rfl
    · rename_i notBinary
      apply iff_of_false
      · intro same
        cases same
      · intro same
        cases type with
        | text => exact notText same
        | binary => exact notBinary same

end DataType

/-- What is to be done with a frame. -/
inductive Verdict where
  | deliver (type : DataType)
  | pass
  | violation
  deriving DecidableEq, Repr

def Verdict.event (m : Message) : Verdict → Option Event
  | .deliver type => some (type.event m)
  | _ => none

/-- Section 5.4 of RFC 6455: the type of the message that stays unfinished, and what a
frame is. A frame that violates the order of fragments changes nothing. -/
def reassemble (unfinished : Option DataType) (m : Message) : Option DataType × Verdict :=
  if m.opcode = FrameType.continuation.code then
    match unfinished with
    | some type => (if m.finished then none else some type, .deliver type)
    | none => (none, .violation)
  else
    match DataType.ofOpcode m.opcode, unfinished with
    | some type, none => (if m.finished then none else some type, .deliver type)
    | some _, some type => (some type, .violation)
    | none, unfinished => (unfinished, .pass)

/-- The type of the message that is unfinished behind frames. -/
def unfinishedAfter (unfinished : Option DataType) : List Message → Option DataType
  | [] => unfinished
  | m :: messages => unfinishedAfter (reassemble unfinished m).1 messages

/-- The events that the frames owe the handler. -/
def deliveredAll (unfinished : Option DataType) : List Message → List Event
  | [] => []
  | m :: messages =>
    ((reassemble unfinished m).2.event m).toList ++ deliveredAll (reassemble unfinished m).1 messages

/-- A frame that violates the order, behind those in front of it. -/
def Violates (unfinished : Option DataType) (front : List Message) (m : Message) : Prop :=
  (reassemble (unfinishedAfter unfinished front) m).2 = .violation

/-- A connection, and the message that is unfinished by the standard. -/
structure Receiving where
  connection : Connection
  unfinished : Option DataType := none

namespace Receiving
open Da4qi4.Websocket.Connection (eventOf told toldAll lastAfter remembered errorAfter flagged
  IsData Unsupported readFrames readFrames_cases)

/-- A read that brings frames. -/
def step (r : Receiving) (frames : List Message) : Option Receiving :=
  (r.connection.readFrames frames).map fun c => ⟨c, unfinishedAfter r.unfinished frames⟩

/-- The handler is told what reassembly delivers, and nothing is read behind a read that
brings a violation. -/
structure Reassembled (r : Receiving) (frames : List Message) (s : Receiving) : Prop where
  events : s.connection.events = r.connection.events ++ deliveredAll r.unfinished frames
  refused : ∀ front m back, frames = front ++ m :: back → Violates r.unfinished front m →
    s.connection.reads = 0

/-- A continuation in front of all data. -/
def Early (last : UInt8) (front : List Message) (m : Message) : Prop :=
  m.opcode = FrameType.continuation.code ∧ remembered last front = 0

/-- The only violations are continuations in front of all data, and a read that brings
one ends with one, or with a frame of an unsupported code. -/
def Suits (r : Receiving) (frames : List Message) (_ : Receiving) : Prop :=
  ∀ front m back, frames = front ++ m :: back → Violates r.unfinished front m →
    Early r.connection.lastDataType front m ∧
      ∀ early final, frames = early ++ [final] →
        Unsupported final.opcode ∨ Early r.connection.lastDataType early final

/-- The type that is remembered is the one of the unfinished message. -/
structure Remembers (last : UInt8) (unfinished : Option DataType) : Prop where
  known : last = 0 ∨ ∃ type : DataType, last = type.code
  unfinished : ∀ type, unfinished = some type → last = type.code

/-- A type is remembered if a message is unfinished. -/
structure Typed (last : UInt8) (unfinished : Option DataType) : Prop where
  known : last = 0 ∨ ∃ type : DataType, last = type.code
  begun : last = 0 → unfinished = none

theorem eventOf_code (type : DataType) (m : Message) :
    eventOf type.code m = some (type.event m) := by
  cases type with
  | text => rfl
  | binary => rfl

theorem isData_code (type : DataType) : IsData type.code := by
  cases type with
  | text => decide
  | binary => decide

theorem lastAfter_code (last : UInt8) (type : DataType) : lastAfter last type.code = type.code := by
  cases type with
  | text => rfl
  | binary => rfl

theorem code_ne_zero (type : DataType) : type.code ≠ 0 := by
  cases type with
  | text => decide
  | binary => decide

theorem code_ne_continuation (type : DataType) : type.code ≠ FrameType.continuation.code := by
  cases type with
  | text => decide
  | binary => decide

theorem lastAfter_continuation (last : UInt8) :
    lastAfter last FrameType.continuation.code = last := rfl

/-- A frame is a continuation, begins a message, or is no data. -/
inductive Kind (m : Message) : Prop where
  | continuation (opcode : m.opcode = FrameType.continuation.code) : Kind m
  | first (type : DataType) (opcode : m.opcode = type.code) : Kind m
  | control (opcode : ¬IsData m.opcode) : Kind m

theorem kind (m : Message) : Kind m := by
  by_cases data : IsData m.opcode
  · rcases data with continuation | text | binary
    · exact .continuation continuation
    · exact .first .text text
    · exact .first .binary binary
  · exact .control data

variable {m : Message} {last : UInt8} {open_ : Option DataType}

theorem not_isData_ofOpcode (control : ¬IsData m.opcode) : DataType.ofOpcode m.opcode = none := by
  cases begins : DataType.ofOpcode m.opcode with
  | none => rfl
  | some type =>
    rw [DataType.ofOpcode_eq_some.mp begins] at control
    exact absurd (isData_code type) control

theorem reassemble_continuation (continuation : m.opcode = FrameType.continuation.code) :
    reassemble open_ m =
      match open_ with
      | some type => (if m.finished then none else some type, .deliver type)
      | none => (none, .violation) :=
  if_pos continuation

theorem reassemble_first {type : DataType} (first : m.opcode = type.code) :
    reassemble open_ m =
      match open_ with
      | some other => (some other, .violation)
      | none => (if m.finished then none else some type, .deliver type) := by
  rw [reassemble.eq_def, if_neg (first ▸ code_ne_continuation type),
    DataType.ofOpcode_eq_some.mpr first]
  cases open_ with
  | none => rfl
  | some other => rfl

theorem reassemble_control (control : ¬IsData m.opcode) :
    reassemble open_ m = (open_, .pass) := by
  rw [reassemble.eq_def, if_neg fun continuation => control (.inl continuation),
    not_isData_ofOpcode control]

theorem told_continuation (continuation : m.opcode = FrameType.continuation.code) (last : UInt8) :
    told last m = eventOf last m := by
  rw [told, if_pos (.inl continuation), continuation]
  rfl

theorem told_first {type : DataType} (first : m.opcode = type.code) (last : UInt8) :
    told last m = some (type.event m) := by
  rw [told, if_pos (first ▸ isData_code type), first, lastAfter_code, eventOf_code]

/-- What a frame that violates the order may be. -/
def Allowed (last : UInt8) (open_ : Option DataType) (m : Message) : Prop :=
  (reassemble open_ m).2 = .violation → Early last [] m

theorem Remembers.typed (remembers : Remembers last open_) : Typed last open_ := by
  refine ⟨remembers.known, fun none => ?_⟩
  cases begun : open_ with
  | none => rfl
  | some type => exact absurd ((remembers.unfinished type begun).symm.trans none) (code_ne_zero type)

theorem Remembers.step (remembers : Remembers last open_) (allowed : Allowed last open_ m) :
    Remembers (lastAfter last m.opcode) (reassemble open_ m).1 := by
  rcases kind m with continuation | ⟨type, first⟩ | control
  · rw [continuation, lastAfter_continuation, reassemble_continuation continuation]
    refine ⟨remembers.known, fun type same => ?_⟩
    cases before : open_ with
    | none =>
      rw [before] at same
      cases same
    | some other =>
      simp only [before] at same
      split at same
      · cases same
      · cases same
        exact remembers.unfinished type before
  · rw [first, lastAfter_code, reassemble_first first]
    refine ⟨.inr ⟨type, rfl⟩, fun other same => ?_⟩
    cases before : open_ with
    | none =>
      simp only [before] at same
      split at same
      · cases same
      · cases same
        rfl
    | some old =>
      have violation : (reassemble open_ m).2 = .violation := by
        rw [reassemble_first first, before]
      exact absurd (allowed violation).1 (first ▸ code_ne_continuation type)
  · rw [Connection.lastAfter_control control, reassemble_control control]
    exact remembers

theorem Typed.step (typed : Typed last open_) (m : Message) :
    Typed (lastAfter last m.opcode) (reassemble open_ m).1 := by
  rcases kind m with continuation | ⟨type, first⟩ | control
  · rw [continuation, lastAfter_continuation, reassemble_continuation continuation]
    refine ⟨typed.known, fun none => ?_⟩
    rw [typed.begun none]
  · rw [first, lastAfter_code]
    exact ⟨.inr ⟨type, rfl⟩, fun none => absurd none (code_ne_zero type)⟩
  · rw [Connection.lastAfter_control control, reassemble_control control]
    exact typed

/-- What reassembly delivers is what the handler is told. -/
theorem told_verdict (remembers : Remembers last open_) (allowed : Allowed last open_ m) :
    told last m = (reassemble open_ m).2.event m := by
  rcases kind m with continuation | ⟨type, first⟩ | control
  · rw [told_continuation continuation]
    cases before : open_ with
    | none =>
      have violation : (reassemble open_ m).2 = .violation := by
        rw [reassemble_continuation continuation, before]
      have zero : last = 0 := (allowed violation).2
      rw [zero, ← before, violation]
      rfl
    | some type =>
      rw [remembers.unfinished type before, eventOf_code, reassemble_continuation continuation]
      rfl
  · rw [told_first first]
    cases before : open_ with
    | none =>
      rw [reassemble_first first]
      rfl
    | some other =>
      have violation : (reassemble open_ m).2 = .violation := by
        rw [reassemble_first first, before]
      exact absurd (allowed violation).1 (first ▸ code_ne_continuation type)
  · rw [Connection.told_control control, reassemble_control control]
    rfl

/-- The handler is told nothing by a violation only if it is such a continuation. -/
theorem allowed_of_silent (typed : Typed last open_) (silent : told last m = none) :
    Allowed last open_ m := by
  intro violation
  rcases kind m with continuation | ⟨type, first⟩ | control
  · refine ⟨continuation, typed.known.resolve_right ?_⟩
    rintro ⟨type, known⟩
    rw [told_continuation continuation, known, eventOf_code] at silent
    cases silent
  · rw [told_first first] at silent
    cases silent
  · rw [reassemble_control control] at violation
    cases violation

/-- Of every frame that reassembly delivers the handler is told. -/
theorem delivered_told (typed : Typed last open_) (m : Message) :
    ((reassemble open_ m).2.event m).toList.length ≤ (told last m).toList.length := by
  cases silent : told last m with
  | some event =>
    cases (reassemble open_ m).2.event m with
    | none => exact Nat.zero_le 1
    | some other => exact Nat.le_refl 1
  | none =>
    have none : (reassemble open_ m).2.event m = none := by
      rcases kind m with continuation | ⟨type, first⟩ | control
      · rcases typed.known with zero | ⟨type, known⟩
        · rw [typed.begun zero, reassemble_continuation continuation]
          rfl
        · rw [told_continuation continuation, known, eventOf_code] at silent
          cases silent
      · rw [told_first first] at silent
        cases silent
      · rw [reassemble_control control]
        rfl
    rw [none]

theorem delivered_le (typed : Typed last open_) (frames : List Message) :
    (deliveredAll open_ frames).length ≤ (toldAll last frames).length := by
  induction frames generalizing last open_ with
  | nil => exact Nat.le_refl 0
  | cons m frames ih =>
    rw [deliveredAll, toldAll, List.length_append, List.length_append]
    exact Nat.add_le_add (delivered_told typed m) (ih (typed.step m))

/-- Each of the frames is as it may be. -/
def AllowedAll (last : UInt8) (open_ : Option DataType) (frames : List Message) : Prop :=
  ∀ front m back, frames = front ++ m :: back →
    Allowed (remembered last front) (unfinishedAfter open_ front) m

theorem allowedAll_cons {frames : List Message} : AllowedAll last open_ (m :: frames) ↔
    Allowed last open_ m ∧ AllowedAll (lastAfter last m.opcode) (reassemble open_ m).1 frames := by
  constructor
  · intro all
    refine ⟨all [] m frames rfl, fun front n back split => ?_⟩
    rw [split] at all
    exact all (m :: front) n back rfl
  · rintro ⟨here, later⟩ front n back split
    cases front with
    | nil =>
      cases split
      exact here
    | cons first front =>
      obtain ⟨rfl, rest⟩ := List.cons.inj split
      exact later front n back rest

theorem Remembers.frames {frames : List Message} (remembers : Remembers last open_)
    (allowed : AllowedAll last open_ frames) :
    Remembers (remembered last frames) (unfinishedAfter open_ frames) := by
  induction frames generalizing last open_ with
  | nil => exact remembers
  | cons m frames ih =>
    obtain ⟨here, later⟩ := allowedAll_cons.mp allowed
    exact ih (remembers.step here) later

/-- The handler is told what it is owed exactly if each frame is as it may be: where one is
not, the handler is told one event too many. -/
theorem toldAll_eq_iff (remembers : Remembers last open_) (frames : List Message) :
    toldAll last frames = deliveredAll open_ frames ↔ AllowedAll last open_ frames := by
  induction frames generalizing last open_ with
  | nil =>
    refine iff_of_true rfl fun front m back split => ?_
    exact absurd split.symm (List.append_ne_nil_of_right_ne_nil front (List.cons_ne_nil m back))
  | cons m frames ih =>
    rw [allowedAll_cons, toldAll, deliveredAll]
    by_cases allowed : Allowed last open_ m
    · rw [told_verdict remembers allowed, List.append_cancel_left_eq,
        ih (remembers.step allowed), and_iff_right allowed]
    · refine iff_of_false (fun same => ?_) fun both => allowed both.1
      have violation : (reassemble open_ m).2 = .violation := by
        by_contra other
        exact allowed fun wrong => absurd wrong other
      have event : (told last m).isSome = true := by
        by_contra silent
        exact allowed (allowed_of_silent remembers.typed (Option.not_isSome_iff_eq_none.mp silent))
      obtain ⟨e, told⟩ := Option.isSome_iff_exists.mp event
      have lengths := congrArg List.length same
      have later := delivered_le (remembers.typed.step m) frames
      rw [told, violation, List.length_append, List.length_append] at lengths
      simp only [Option.toList_some, List.length_singleton, Verdict.event, Option.toList_none,
        List.length_nil] at lengths
      omega

/-- The flag behind frames that end with `final`. -/
theorem flagged_last (typed : last = 0 ∨ ∃ type : DataType, last = type.code) (error : UInt8)
    (early : List Message) (final : Message) :
    flagged last error (early ++ [final]) ≠ 0 ↔
      Unsupported final.opcode ∨ Early last early final := by
  have known : remembered last early = FrameType.text.code ∨
      remembered last early = FrameType.binary.code ∨ remembered last early = 0 := by
    induction early generalizing last with
    | nil =>
      rcases typed with zero | ⟨type, code⟩
      · exact .inr (.inr zero)
      · cases type with
        | text => exact .inl code
        | binary => exact .inr (.inl code)
    | cons m early ih =>
      refine ih ?_
      rcases kind m with continuation | ⟨type, first⟩ | control
      · rw [continuation, lastAfter_continuation]
        exact typed
      · rw [first, lastAfter_code]
        exact .inr ⟨type, rfl⟩
      · rw [Connection.lastAfter_control control]
        exact typed
  have zero : ¬(remembered last early = FrameType.text.code ∨
      remembered last early = FrameType.binary.code) ↔ remembered last early = 0 := by
    constructor
    · intro other
      rcases known with text | binary | none
      · exact absurd (.inl text) other
      · exact absurd (.inr binary) other
      · exact none
    · intro none
      rw [none]
      decide
  rw [Connection.flagged_append, flagged, flagged, ne_eq, Connection.errorAfter_eq_zero_iff,
    not_and_or, not_not, Classical.not_imp, zero, Early]

theorem step_cases {r s : Receiving} {frames : List Message} (stepped : step r frames = some s) :
    0 < r.connection.reads ∧
      r.connection.Read r.connection.parser frames s.connection ∧
      s.unfinished = unfinishedAfter r.unfinished frames := by
  obtain ⟨c, came, rfl⟩ := Option.map_eq_some_iff.mp stepped
  obtain ⟨outstanding, read⟩ := readFrames_cases came
  exact ⟨outstanding, read, rfl⟩

/-- What holds in front of every read. -/
structure Ready (r : Receiving) : Prop where
  remembers : Remembers r.connection.lastDataType r.unfinished
  single : r.connection.reads ≤ 1

theorem suits_allowed {r s : Receiving} {frames : List Message} (suits : r.Suits frames s) :
    AllowedAll r.connection.lastDataType r.unfinished frames :=
  fun front m back split violation => (suits front m back split violation).1

/-- A read is treated as it should be exactly if its violations are continuations that come
when no type is remembered, and its last frame is an error too. -/
theorem reassembled_iff {r s : Receiving} {frames : List Message} (ready : r.Ready)
    (stepped : step r frames = some s) : r.Reassembled frames s ↔ r.Suits frames s := by
  obtain ⟨outstanding, read, -⟩ := step_cases stepped
  have stopped : s.connection.reads = 0 ↔ s.connection.errorOnParse ≠ 0 := by
    have single := ready.single
    rw [read.reads]
    split
    · rename_i fine
      exact iff_of_false (by omega) fun wrong => wrong fine
    · rename_i wrong
      exact iff_of_true (by omega) wrong
  have events : s.connection.events = r.connection.events ++ deliveredAll r.unfinished frames ↔
      AllowedAll r.connection.lastDataType r.unfinished frames := by
    rw [read.events, List.append_cancel_left_eq, toldAll_eq_iff ready.remembers]
  have refused (early : List Message) (final : Message) (split : frames = early ++ [final]) :
      s.connection.reads = 0 ↔
        Unsupported final.opcode ∨ Early r.connection.lastDataType early final := by
    rw [stopped, read.error, split, flagged_last ready.remembers.known]
  constructor
  · intro reassembled front m back split violation
    refine ⟨events.mp reassembled.events front m back split violation, fun early final last => ?_⟩
    exact (refused early final last).mp (reassembled.refused front m back split violation)
  · intro suits
    refine ⟨events.mpr (suits_allowed suits), fun front m back split violation => ?_⟩
    obtain ⟨early, final, last⟩ : ∃ early final, frames = early ++ [final] := by
      rcases List.eq_nil_or_concat frames with none | ⟨early, final, last⟩
      · rw [split] at none
        exact absurd none (List.append_ne_nil_of_right_ne_nil front (List.cons_ne_nil m back))
      · exact ⟨early, final, last.trans (List.concat_eq_append ..)⟩
    exact (refused early final last).mpr ((suits front m back split violation).2 early final last)

theorem Ready.step {r s : Receiving} {frames : List Message} (ready : r.Ready)
    (stepped : step r frames = some s) (suits : r.Suits frames s) : s.Ready := by
  obtain ⟨outstanding, read, unfinished⟩ := step_cases stepped
  have single := ready.single
  have reads := read.reads
  constructor
  · rw [read.last, unfinished]
    exact ready.remembers.frames (suits_allowed suits)
  · split at reads
    · omega
    · omega

/-- However the frames come in reads: the events of a connection are those of reassembly,
and its reading ends with a read that brings a violation, exactly if the only violations are
continuations in front of all data, and the reads that bring them end with an error. -/
theorem messages_reassembled_iff (response : Bytes) (reads : List (List Message)) :
    Transition.Steps step Reassembled ⟨.opened response, none⟩ reads ↔
      Transition.Steps step Suits ⟨.opened response, none⟩ reads :=
  Transition.steps_congr (I := Ready)
    (fun ready stepped suits => ready.step stepped suits)
    (fun ready stepped => reassembled_iff ready stepped)
    ⟨⟨.inl rfl, fun type open_ => by cases open_⟩, Nat.le_refl 1⟩

/-- A whole text message, and a continuation of nothing. -/
def continued : List Message :=
  [⟨[97], FrameType.text.code, true⟩, ⟨[98], FrameType.continuation.code, true⟩]

/-- The continuation is told as one more piece of text. -/
theorem continued_told : ¬Transition.Steps step Reassembled ⟨.opened [], none⟩ [continued] := by
  intro reassembled
  obtain ⟨told, -⟩ := reassembled _ rfl
  cases told.events

end Receiving
end Da4qi4.Websocket
