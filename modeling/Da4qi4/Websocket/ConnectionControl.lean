import Da4qi4.Foundation.Transition
import Da4qi4.Websocket.Connection

/-! The frames that a connection sends by itself: one for every ping, and one when it
is told to close. The application stops it whenever it wants, and as often. -/
namespace Da4qi4.Websocket.Connection

inductive Action where
  | received (m : Message)
  | stopped
  deriving DecidableEq, Repr

def act (c : Connection) : Action → Option Connection
  | .received m => c.onReadFrame m
  | .stopped => c.stop

/-- A pong that carries a payload. -/
def pongWith (payload : Bytes) : Bytes :=
  ((({} : FrameBuilder).setFrameType .pong).setFIN true).buildString payload

/-- The pongs that a sequence of actions calls for. -/
def pongsFor : List Action → List Bytes
  | [] => []
  | .received m :: actions =>
    if m.opcode = FrameType.ping.code then pongWith m.payload :: pongsFor actions
    else pongsFor actions
  | .stopped :: actions => pongsFor actions

/-- A pong for every ping, in order, and at most one close frame behind them. -/
def Controlled (actions : List Action) (own : List Bytes) : Prop :=
  own = pongsFor actions ∨ own = pongsFor actions ++ [closeFrame]

/-- Pings have no payload, and from the first close on, whoever began it, there is
neither a ping nor a stop. -/
def Plain (closing : Bool) : List Action → Prop
  | [] => True
  | .received m :: actions =>
    (m.opcode = FrameType.ping.code → closing = false ∧ m.payload = []) ∧
      Plain (closing || m.opcode = FrameType.connectionClose.code) actions
  | .stopped :: actions => closing = false ∧ Plain true actions

/-- The frames that the connection sends by itself. -/
def replies (stopBySelf : Bool) : List Action → List Bytes
  | [] => []
  | .received m :: actions =>
    answers stopBySelf m.opcode ++
      replies (stopBySelf || m.opcode = FrameType.connectionClose.code) actions
  | .stopped :: actions => closeFrame :: replies true actions

theorem run_queued (c : Connection) (actions : List Action) :
    (Transition.run act c actions).map queued =
      some (c.queued ++ replies c.stopBySelf actions) := by
  induction actions generalizing c with
  | nil => rw [replies, List.append_nil, Transition.run, Option.map_some]
  | cons action actions ih =>
    cases action with
    | received m =>
      obtain ⟨d, received, handled⟩ := onReadFrame_handled c m
      rw [Transition.run, act, received, Option.bind_some, ih, handled.queued, handled.stopped,
        replies, List.append_assoc]
    | stopped =>
      rw [Transition.run, act, stop, appendWriteData_eq, Option.bind_some, ih, replies,
        List.append_assoc]
      rfl

theorem pongWith_nil : pongWith [] = pongFrame := by decide

/-- A frame that the server sends has no mask. -/
theorem pongWith_eq (payload : Bytes) :
    pongWith payload = 0x8a :: (FrameBuilder.lengthBytes 0 payload.length ++ payload) := by
  rw [pongWith, FrameBuilder.buildString, FrameBuilder.build]
  cases payload with
  | nil => rfl
  | cons octet payload =>
    rw [if_neg (by simp), if_neg (by decide), List.take_length]
    simp only [FrameBuilder.setFIN, FrameBuilder.setFrameType, ite_self]
    rfl

theorem pongWith_eq_pongFrame : pongWith payload = pongFrame ↔ payload = [] := by
  constructor
  · intro same
    have lengths := congrArg List.length same
    have coded : 1 ≤ (FrameBuilder.lengthBytes 0 payload.length).length := by
      rw [FrameBuilder.lengthBytes]
      split
      · exact Nat.le_refl 1
      · split
        · exact Nat.le_add_left 1 2
        · exact Nat.le_add_left 1 8
    have short : pongFrame.length = 2 := by decide
    rw [pongWith_eq, short, List.length_cons, List.length_append] at lengths
    exact List.length_eq_zero_iff.mp (by omega)
  · rintro rfl
    exact pongWith_nil

theorem closeFrame_ne_pongWith (payload : Bytes) : closeFrame ≠ pongWith payload := by
  intro same
  have first := congrArg List.head? same
  rw [pongWith_eq, List.head?_cons] at first
  revert first
  decide

/-- Pongs are no close frames. -/
theorem closeFrame_not_pong (actions : List Action) : closeFrame ∉ pongsFor actions := by
  induction actions with
  | nil => exact List.not_mem_nil
  | cons action actions ih =>
    cases action with
    | received m =>
      rw [pongsFor]
      split
      · intro member
        rcases List.mem_cons.mp member with same | later
        · exact closeFrame_ne_pongWith m.payload same
        · exact ih later
      · exact ih
    | stopped => exact ih

/-- A frame is a close, a ping, or is not answered. -/
inductive Control (m : Message) : Prop where
  | close (opcode : m.opcode = FrameType.connectionClose.code) : Control m
  | ping (opcode : m.opcode = FrameType.ping.code) : Control m
  | other (notClose : m.opcode ≠ FrameType.connectionClose.code)
      (notPing : m.opcode ≠ FrameType.ping.code) : Control m

theorem control (m : Message) : Control m := by
  by_cases close : m.opcode = FrameType.connectionClose.code
  · exact .close close
  · by_cases ping : m.opcode = FrameType.ping.code
    · exact .ping ping
    · exact .other close ping

/-- Once a close frame is queued nothing more may be. -/
theorem replies_closed_iff (actions : List Action) :
    (replies true actions = [] ∧ pongsFor actions = []) ↔ Plain true actions := by
  induction actions with
  | nil => exact iff_of_true ⟨rfl, rfl⟩ trivial
  | cons action actions ih =>
    cases action with
    | received m =>
      rw [replies, Bool.true_or, List.append_eq_nil_iff, pongsFor, Plain, Bool.true_or,
        ← ih]
      rcases control m with close | ping | ⟨notClose, notPing⟩
      · have notPing : m.opcode ≠ FrameType.ping.code := by
          rw [close]
          decide
        rw [answers, if_pos close, if_pos rfl, if_neg notPing]
        tauto
      · rw [if_pos ping]
        constructor
        · intro none
          cases none.2
        · intro plain
          cases (plain.1 ping).1
      · rw [answers, if_neg notClose, if_neg notPing, if_neg notPing]
        tauto
    | stopped =>
      constructor
      · intro none
        cases none.1
      · intro plain
        cases plain.1

/-- A close frame comes last. -/
theorem controlled_closing {actions : List Action} {own : List Bytes} :
    Controlled actions (closeFrame :: own) ↔ own = [] ∧ pongsFor actions = [] := by
  have apart := closeFrame_not_pong actions
  rw [Controlled]
  cases pongs : pongsFor actions with
  | nil => simp
  | cons pong rest =>
    rw [pongs] at apart
    have first : closeFrame ≠ pong := fun same => apart (same ▸ List.mem_cons_self)
    simp [first]

theorem controlled_pong {actions : List Action} {m : Message} {own : List Bytes}
    (ping : m.opcode = FrameType.ping.code) :
    Controlled (.received m :: actions) (pongFrame :: own) ↔
      m.payload = [] ∧ Controlled actions own := by
  rw [Controlled, Controlled, pongsFor, if_pos ping, List.cons_append, List.cons.injEq,
    List.cons.injEq, eq_comm (a := pongFrame), pongWith_eq_pongFrame, and_or_left]

theorem controlled_iff (actions : List Action) :
    Controlled actions (replies false actions) ↔ Plain false actions := by
  induction actions with
  | nil => exact iff_of_true (.inl rfl) trivial
  | cons action actions ih =>
    cases action with
    | received m =>
      rw [replies, Plain, Bool.false_or]
      rcases control m with close | ping | ⟨notClose, notPing⟩
      · have notPing : m.opcode ≠ FrameType.ping.code := by
          rw [close]
          decide
        rw [answers, if_pos close, if_neg Bool.false_ne_true, List.singleton_append,
          controlled_closing, pongsFor, if_neg notPing, decide_eq_true close, replies_closed_iff]
        tauto
      · have notClose : m.opcode ≠ FrameType.connectionClose.code := by
          rw [ping]
          decide
        rw [answers, if_neg notClose, if_pos ping, List.singleton_append, controlled_pong ping,
          decide_eq_false notClose, ih]
        tauto
      · have same : Controlled (.received m :: actions) = Controlled actions := by
          funext own
          rw [Controlled, Controlled, pongsFor, if_neg notPing]
        rw [answers, if_neg notClose, if_neg notPing, List.nil_append, same,
          decide_eq_false notClose, ih]
        tauto
    | stopped =>
      rw [replies, controlled_closing, pongsFor, replies_closed_iff, Plain]
      tauto

/-- Behind the response of the handshake a connection queues what it should exactly if
pings have no payload, and none of them and no stop comes behind the first close. -/
theorem control_frames_iff (response : Bytes) (actions : List Action) :
    (∃ c own, Transition.run act (opened response) actions = some c ∧
        c.queued = response :: own ∧ Controlled actions own) ↔ Plain false actions := by
  obtain ⟨c, ran, queued⟩ := Option.map_eq_some_iff.mp (run_queued (opened response) actions)
  have own : c.queued = response :: replies false actions := queued
  rw [← controlled_iff]
  constructor
  · rintro ⟨d, others, again, same, controlled⟩
    rw [ran] at again
    cases again
    cases own.symm.trans same
    exact controlled
  · intro controlled
    exact ⟨c, _, ran, own, controlled⟩

/-- A ping with a payload. -/
def pinged : List Action := [.received ⟨[97], FrameType.ping.code, true⟩]

/-- The pong comes without the payload. -/
theorem pinged_uncontrolled : ¬∃ c own, Transition.run act (opened []) pinged = some c ∧
    c.queued = [] :: own ∧ Controlled pinged own := by
  rintro ⟨c, own, ran, same, controlled⟩
  have sent : (Transition.run act (opened []) pinged).map queued = some [[], pongFrame] := by decide
  rw [ran] at sent
  cases same.symm.trans (Option.some.inj sent)
  rcases controlled with pong | pong
  · revert pong
    decide
  · revert pong
    decide

end Da4qi4.Websocket.Connection
