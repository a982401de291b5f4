import Da4qi4.Foundation.Transition
import Da4qi4.Websocket.Connection

/-! Threads that send on one connection. A call is in two pieces, its locked part and,
when that found the list empty, the start of a write; so is the completion of a write.
Any pieces may come between the two. -/
namespace Da4qi4.Websocket

/-- How many calls and completions have still to start a write, and how many
completions stand in front of their locked part. -/
structure Writing where
  connection : Connection
  starting : Nat := 0
  completing : Nat := 0

namespace Writing

inductive Action where
  | push (data : Bytes)
  | start
  | wrote (n : Nat)
  | pop
  deriving DecidableEq, Repr

/-- `none` is also a failed assertion, or a list that is taken from when it is empty. -/
def step (s : Writing) : Action → Option Writing
  | .push data =>
    let pushed := s.connection.pushWriteData data
    some { s with
      connection := pushed.2
      starting := s.starting + if pushed.1 then 1 else 0 }
  | .start =>
    if s.starting = 0 then none
    else s.connection.startWrite.map fun c =>
      { s with connection := c, starting := s.starting - 1 }
  | .wrote n =>
    if n < s.connection.writes.length then
      some { s with
        connection := { s.connection with writes := s.connection.writes.eraseIdx n }
        completing := s.completing + 1 }
    else none
  | .pop =>
    if s.completing = 0 then none
    else s.connection.popWriteData.map fun popped =>
      { connection := popped.2
        starting := s.starting + if popped.1 then 1 else 0
        completing := s.completing - 1 }

def constructed : Writing := { connection := {} }

/-- What is handed to the socket is what was put on the list, in that order; a write is
outstanding while there is data that nothing else is about to write; and no piece fails. -/
structure Served (s : Writing) : Prop where
  one : s.connection.writes.length ≤ 1
  inOrder : s.connection.handed <+: s.connection.queued
  all : s.connection.dataForWrite = [] → s.connection.handed = s.connection.queued
  woken : s.starting = 0 → s.completing = 0 → s.connection.dataForWrite ≠ [] →
    s.connection.writes ≠ []
  starts : 0 < s.starting → s.connection.startWrite.isSome
  pops : 0 < s.completing → s.connection.popWriteData.isSome

/-- There is at most one piece of work: to start the first write, to wait for it, or to
take it from the list. -/
inductive Phase : Writing → Prop
  | idle {c : Connection} (list : c.dataForWrite = []) (writes : c.writes = [])
      (handed : c.queued = c.handed) : Phase ⟨c, 0, 0⟩
  | starting {c : Connection} {data : Bytes} {rest : List Bytes}
      (list : c.dataForWrite = data :: rest) (writes : c.writes = [])
      (handed : c.queued = c.handed ++ data :: rest) : Phase ⟨c, 1, 0⟩
  | writing {c : Connection} {data : Bytes} {rest : List Bytes}
      (list : c.dataForWrite = data :: rest) (writes : c.writes = [data])
      (handed : c.queued = c.handed ++ rest) : Phase ⟨c, 0, 0⟩
  | completing {c : Connection} {data : Bytes} {rest : List Bytes}
      (list : c.dataForWrite = data :: rest) (writes : c.writes = [])
      (handed : c.queued = c.handed ++ rest) : Phase ⟨c, 0, 1⟩

theorem Phase.push {s : Writing} (phase : Phase s) (data : Bytes)
    (stepped : s.step (.push data) = some t) : Phase t := by
  cases stepped
  cases phase with
  | @idle c list writes handed =>
    simp only [Connection.pushWriteData, list, List.isEmpty_nil]
    exact .starting rfl writes (by rw [handed])
  | @starting c first rest list writes handed =>
    simp only [Connection.pushWriteData, list, List.isEmpty_cons]
    exact .starting List.cons_append writes
      (by rw [handed, List.append_assoc]; rfl)
  | @writing c first rest list writes handed =>
    simp only [Connection.pushWriteData, list, List.isEmpty_cons]
    exact .writing List.cons_append writes
      (by rw [handed, List.append_assoc])
  | @completing c first rest list writes handed =>
    simp only [Connection.pushWriteData, list, List.isEmpty_cons]
    exact .completing List.cons_append writes
      (by rw [handed, List.append_assoc])

theorem Phase.start {s : Writing} (phase : Phase s) (stepped : s.step .start = some t) :
    Phase t := by
  cases phase with
  | idle list writes handed => cases stepped
  | @starting c data rest list writes handed =>
    obtain ⟨d, started, rfl⟩ := Option.map_eq_some_iff.mp
      (show c.startWrite.map _ = some t from stepped)
    rw [Connection.startWrite, list] at started
    cases started
    refine .writing rfl (by rw [writes]; rfl) ?_
    rw [handed, List.append_assoc]
    rfl
  | writing list writes handed => cases stepped
  | completing list writes handed => cases stepped

theorem Phase.wrote {s : Writing} (phase : Phase s) (stepped : s.step (.wrote n) = some t) :
    Phase t := by
  rw [step] at stepped
  split at stepped
  · rename_i outstanding
    cases stepped
    cases phase with
    | idle list writes handed =>
      rw [writes] at outstanding
      cases outstanding
    | starting list writes handed =>
      rw [writes] at outstanding
      cases outstanding
    | writing list writes handed =>
      rw [writes] at outstanding
      have first : n = 0 := Nat.lt_one_iff.mp outstanding
      subst first
      exact .completing list (by rw [writes]; rfl) handed
    | completing list writes handed =>
      rw [writes] at outstanding
      cases outstanding
  · cases stepped

theorem Phase.pop {s : Writing} (phase : Phase s) (stepped : s.step .pop = some t) :
    Phase t := by
  cases phase with
  | idle list writes handed => cases stepped
  | starting list writes handed => cases stepped
  | writing list writes handed => cases stepped
  | @completing c data rest list writes handed =>
    obtain ⟨popped, taken, rfl⟩ := Option.map_eq_some_iff.mp
      (show c.popWriteData.map _ = some t from stepped)
    rw [Connection.popWriteData, list] at taken
    cases taken
    cases rest with
    | nil => exact .idle rfl writes (by rw [handed, List.append_nil])
    | cons next rest => exact .starting rfl writes handed

theorem phase_step {s t : Writing} {action : Action} (phase : Phase s)
    (stepped : s.step action = some t) : Phase t := by
  cases action with
  | push data => exact phase.push data stepped
  | start => exact phase.start stepped
  | wrote n => exact phase.wrote stepped
  | pop => exact phase.pop stepped

theorem Phase.served {s : Writing} (phase : Phase s) : s.Served := by
  cases phase with
  | idle list writes handed =>
    constructor
    · rw [writes]
      exact Nat.zero_le 1
    · exact ⟨[], (List.append_nil _).trans handed.symm⟩
    · exact fun _ => handed.symm
    · exact fun _ _ some_ => absurd list some_
    · exact fun none => absurd none (Nat.lt_irrefl 0)
    · exact fun none => absurd none (Nat.lt_irrefl 0)
  | starting list writes handed =>
    constructor
    · rw [writes]
      exact Nat.zero_le 1
    · exact ⟨_, handed.symm⟩
    · intro none
      cases list.symm.trans none
    · intro none
      cases none
    · intro _
      rw [Connection.startWrite, list]
      rfl
    · exact fun none => absurd none (Nat.lt_irrefl 0)
  | writing list writes handed =>
    constructor
    · rw [writes]
      exact Nat.le_refl 1
    · exact ⟨_, handed.symm⟩
    · intro none
      cases list.symm.trans none
    · intro _ _ _ none
      cases writes.symm.trans none
    · exact fun none => absurd none (Nat.lt_irrefl 0)
    · exact fun none => absurd none (Nat.lt_irrefl 0)
  | completing list writes handed =>
    constructor
    · rw [writes]
      exact Nat.zero_le 1
    · exact ⟨_, handed.symm⟩
    · intro none
      cases list.symm.trans none
    · intro _ none
      cases none
    · exact fun none => absurd none (Nat.lt_irrefl 0)
    · intro _
      rw [Connection.popWriteData, list]
      rfl

/-- A call that nothing comes between is its two pieces, one behind the other. -/
theorem run_appendWriteData {s : Writing} {data : Bytes} {c : Connection}
    (called : s.connection.appendWriteData data = some c) :
    ∃ actions, Transition.run step s (.push data :: actions) = some { s with connection := c } := by
  rw [Connection.appendWriteData] at called
  cases empty : (s.connection.pushWriteData data).1 with
  | true =>
    refine ⟨[.start], ?_⟩
    simp only [empty, if_true] at called
    simp [Transition.run, step, empty, called]
  | false =>
    refine ⟨[], ?_⟩
    simp only [empty, Bool.false_eq_true, if_false, Option.some.injEq] at called
    simp [Transition.run, step, empty, called]

/-- `Write` puts the one frame on the list that it builds. -/
theorem run_write {s : Writing} {data : Bytes} {type : WriteDataType} {finished : Bool}
    {c : Connection} (called : s.connection.write data type finished = some c) :
    ∃ actions, Transition.run step s (.push (((({} : FrameBuilder).setFIN finished).setFrameType
      type.frameType).buildString data) :: actions) = some { s with connection := c } :=
  run_appendWriteData called

/-- What the calls put on the list, in the order of their locked parts. -/
def pushed (actions : List Action) : List Bytes :=
  actions.filterMap fun
    | .push data => some data
    | _ => none

theorem queued_step {s t : Writing} {action : Action} (stepped : s.step action = some t) :
    t.connection.queued = s.connection.queued ++ pushed [action] := by
  cases action with
  | push data =>
    cases stepped
    rfl
  | start =>
    rw [step] at stepped
    split at stepped
    · cases stepped
    · obtain ⟨c, started, rfl⟩ := Option.map_eq_some_iff.mp stepped
      rw [Connection.startWrite] at started
      split at started
      · cases started
      · cases started
        exact (List.append_nil _).symm
  | wrote n =>
    rw [step] at stepped
    split at stepped
    · cases stepped
      exact (List.append_nil _).symm
    · cases stepped
  | pop =>
    rw [step] at stepped
    split at stepped
    · cases stepped
    · obtain ⟨popped, taken, rfl⟩ := Option.map_eq_some_iff.mp stepped
      rw [Connection.popWriteData] at taken
      split at taken
      · cases taken
      · cases taken
        exact (List.append_nil _).symm

theorem queued_run {s t : Writing} {actions : List Action}
    (ran : Transition.run step s actions = some t) :
    t.connection.queued = s.connection.queued ++ pushed actions := by
  induction actions generalizing s with
  | nil =>
    cases ran
    exact (List.append_nil _).symm
  | cons action actions ih =>
    obtain ⟨u, stepped, rest⟩ := Option.bind_eq_some_iff.mp ran
    have split : pushed (action :: actions) = pushed [action] ++ pushed actions :=
      List.filterMap_append (l := [action])
    rw [ih rest, queued_step stepped, split, List.append_assoc]

theorem served_throughout (actions : List Action) :
    Transition.Throughout step Served constructed actions :=
  Transition.throughout_of_invariant phase_step Phase.served (.idle rfl rfl rfl)

/-- In every interleaving of calls and completions every state serves the list, and what is
handed to the socket is what the calls put there, in the order of their locked parts. -/
theorem writes_served (actions : List Action) :
    Transition.Throughout step Served constructed actions ∧
      ∀ s, Transition.run step constructed actions = some s →
        s.connection.handed <+: pushed actions ∧
          (s.connection.dataForWrite = [] → s.connection.handed = pushed actions) := by
  refine ⟨served_throughout actions, fun s ran => ?_⟩
  have served := (served_throughout actions).final ran
  have queued : s.connection.queued = pushed actions := queued_run ran
  rw [← queued]
  exact ⟨served.inOrder, served.all⟩

end Writing
end Da4qi4.Websocket
