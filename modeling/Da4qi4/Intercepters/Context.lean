import Da4qi4.Foundation.Transition
import Mathlib.Data.List.Nodup
import Mathlib.Data.List.Range

/-! The chain of interceptors behind a context. One iterator serves both
directions; a reverse iterator refers to the element before its base. `none` is an
iterator that leaves the list. An invocation answers with `Pass` or `Stop`, at
once or later. -/
namespace Da4qi4
namespace Intercepter

inductive Result where
  | pass | stop
  deriving DecidableEq, Repr

inductive On where
  | request | handle | response
  deriving DecidableEq, Repr

/-- What a context runs: an interceptor, the handler, or its own end. -/
inductive Invocation where
  | intercepter (index : Nat) (on : On)
  | handle
  | finish
  deriving DecidableEq, Repr

end Intercepter
open Intercepter

/-- The iterators; the first position is 0. -/
structure ContextIMP where
  intercepterOn : On
  intercepterIter : Nat
  intercepterEnd : Nat
  deriving DecidableEq, Repr

namespace ContextIMP

def doIntercepterOnReqDir (s : ContextIMP) : ContextIMP × Invocation :=
  if s.intercepterIter = s.intercepterEnd then ({ s with intercepterOn := .handle }, .handle)
  else (s, .intercepter s.intercepterIter .request)

def doIntercepterOnResDir (s : ContextIMP) : ContextIMP × Invocation :=
  match s.intercepterIter with
  | 0 => (s, .finish)
  | index + 1 => (s, .intercepter index .response)

def start (length : Nat) : ContextIMP × Invocation :=
  doIntercepterOnReqDir ⟨.request, 0, length⟩

def nextIntercepterOnReqDir (s : ContextIMP) (result : Result) : Option (ContextIMP × Invocation) :=
  if s.intercepterIter < s.intercepterEnd then
    let s := { s with intercepterIter := s.intercepterIter + 1 }
    match result with
    | .pass => some s.doIntercepterOnReqDir
    | .stop => some { s with intercepterOn := .response }.doIntercepterOnResDir
  else none

def startIntercepterOnResDir (s : ContextIMP) : Result → ContextIMP × Invocation
  | .pass => s.doIntercepterOnResDir
  | .stop => (s, .finish)

def nextIntercepterOnResDir (s : ContextIMP) (result : Result) : Option (ContextIMP × Invocation) :=
  match s.intercepterIter with
  | 0 => none
  | iter + 1 => some ({ s with intercepterIter := iter }.startIntercepterOnResDir result)

def next (s : ContextIMP) (result : Result) : Option (ContextIMP × Invocation) :=
  match s.intercepterOn with
  | .request => s.nextIntercepterOnReqDir result
  | .handle => some ({ s with intercepterOn := .response }.startIntercepterOnResDir result)
  | .response => s.nextIntercepterOnResDir result

/-- The context while an invocation has not answered. -/
inductive Awaits (length : Nat) : ContextIMP → Invocation → Prop where
  | request (bound : index < length) :
      Awaits length ⟨.request, index, length⟩ (.intercepter index .request)
  | handle : Awaits length ⟨.handle, length, length⟩ .handle
  | response (bound : index < length) :
      Awaits length ⟨.response, index + 1, length⟩ (.intercepter index .response)

/-- The context has moved on to an invocation, or to its end. -/
def Moved (length : Nat) (s : ContextIMP × Invocation) : Prop :=
  s.2 = .finish ∨ Awaits length s.1 s.2

/-- How many invocations can still follow. -/
def remaining (length : Nat) : Invocation → Nat
  | .intercepter index .request => 2 * length + 1 - index
  | .handle => length + 1
  | .intercepter index _ => index + 1
  | .finish => 0

theorem doIntercepterOnReqDir_request (bound : index < length) :
    doIntercepterOnReqDir ⟨.request, index, length⟩ =
      (⟨.request, index, length⟩, .intercepter index .request) := by
  rw [doIntercepterOnReqDir, if_neg (Nat.ne_of_lt bound)]

theorem doIntercepterOnReqDir_handle (length : Nat) :
    doIntercepterOnReqDir ⟨.request, length, length⟩ = (⟨.handle, length, length⟩, .handle) := by
  rw [doIntercepterOnReqDir, if_pos rfl]

theorem next_request_pass (bound : index < length) :
    next ⟨.request, index, length⟩ .pass =
      some (doIntercepterOnReqDir ⟨.request, index + 1, length⟩) := by
  simp only [next, nextIntercepterOnReqDir, if_pos bound]

theorem next_request_stop (bound : index < length) :
    next ⟨.request, index, length⟩ .stop =
      some (⟨.response, index + 1, length⟩, .intercepter index .response) := by
  simp only [next, nextIntercepterOnReqDir, if_pos bound, doIntercepterOnResDir]

theorem moved_doIntercepterOnReqDir (bound : index ≤ length) :
    Moved length (doIntercepterOnReqDir ⟨.request, index, length⟩) := by
  rcases Nat.lt_or_eq_of_le bound with inside | rfl
  · rw [doIntercepterOnReqDir_request inside]
    exact .inr (.request inside)
  · rw [doIntercepterOnReqDir_handle]
    exact .inr .handle

theorem moved_doIntercepterOnResDir (bound : index ≤ length) :
    Moved length (doIntercepterOnResDir ⟨.response, index, length⟩) := by
  cases index with
  | zero => exact .inl rfl
  | succ index => exact .inr (.response bound)

theorem moved_startIntercepterOnResDir (bound : index ≤ length) (result : Result) :
    Moved length (startIntercepterOnResDir ⟨.response, index, length⟩ result) := by
  cases result with
  | pass => exact moved_doIntercepterOnResDir bound
  | stop => exact .inl rfl

/-- The answer of the invocation that is awaited keeps the iterator in the list. -/
theorem Awaits.next {s : ContextIMP} {invocation : Invocation} (awaits : Awaits length s invocation)
    (result : Result) : ∃ t, s.next result = some t ∧ Moved length t := by
  cases awaits with
  | request bound =>
    cases result with
    | pass => exact ⟨_, next_request_pass bound, moved_doIntercepterOnReqDir bound⟩
    | stop => exact ⟨_, next_request_stop bound, .inr (.response bound)⟩
  | handle => exact ⟨_, rfl, moved_startIntercepterOnResDir (Nat.le_refl length) result⟩
  | response bound =>
    exact ⟨_, rfl, moved_startIntercepterOnResDir (Nat.le_of_lt bound) result⟩

theorem remaining_doIntercepterOnReqDir (bound : index ≤ length) :
    remaining length (doIntercepterOnReqDir ⟨.request, index, length⟩).2 ≤
      2 * length + 1 - index := by
  rcases Nat.lt_or_eq_of_le bound with inside | rfl
  · rw [doIntercepterOnReqDir_request inside]
    exact Nat.le_refl _
  · rw [doIntercepterOnReqDir_handle, remaining]
    omega

theorem remaining_startIntercepterOnResDir (length index : Nat) (result : Result) :
    remaining length (startIntercepterOnResDir ⟨.response, index, length⟩ result).2 ≤ index := by
  cases result with
  | pass =>
    cases index with
    | zero => exact Nat.le_refl _
    | succ index => exact Nat.le_refl _
  | stop => exact Nat.zero_le _

theorem Awaits.remaining_next {s : ContextIMP} {invocation : Invocation}
    (awaits : Awaits length s invocation) (called : s.next result = some t) :
    remaining length t.2 < remaining length invocation := by
  cases awaits with
  | @request index bound =>
    cases result with
    | pass =>
      rw [next_request_pass bound] at called
      cases called
      apply Nat.lt_of_le_of_lt (remaining_doIntercepterOnReqDir bound)
      rw [remaining]
      omega
    | stop =>
      rw [next_request_stop bound] at called
      cases called
      simp only [remaining]
      omega
  | handle =>
    cases called
    exact Nat.lt_succ_of_le (remaining_startIntercepterOnResDir length length result)
  | @response index bound =>
    cases called
    exact Nat.lt_succ_of_le (remaining_startIntercepterOnResDir length index result)

end ContextIMP

namespace Intercepter

/-- A list up to its first element with a property, that element included. -/
def upTo (p : Nat → Prop) [DecidablePred p] : List Nat → List Nat
  | [] => []
  | first :: rest => if p first then [first] else first :: upTo p rest

section UpTo
variable {p : Nat → Prop} [DecidablePred p]

theorem upTo_append (none : ∀ i ∈ before, ¬p i) (indices : List Nat) :
    upTo p (before ++ indices) = before ++ upTo p indices := by
  induction before with
  | nil => rfl
  | cons first before ih =>
    rw [List.cons_append, upTo, if_neg (none first (List.mem_cons_self ..)),
      ih fun i member => none i (List.mem_cons_of_mem first member), List.cons_append]

theorem upTo_of_none (none : ∀ i ∈ indices, ¬p i) : upTo p indices = indices := by
  have all := upTo_append none []
  rw [List.append_nil, upTo, List.append_nil] at all
  exact all

theorem upTo_sublist (indices : List Nat) : (upTo p indices).Sublist indices := by
  induction indices with
  | nil => exact .slnil
  | cons first rest ih =>
    rw [upTo]
    split
    · exact (List.nil_sublist rest).cons_cons first
    · exact ih.cons_cons first

end UpTo

def onRequest (index : Nat) : Invocation := .intercepter index .request

def onResponse (index : Nat) : Invocation := .intercepter index .response

/-- The interceptors run on the request up to the first that stops, or all and then
the handler; unless the handler stops, those that ran on the request run on the
response in reverse up to the first that stops; last comes the end. -/
def conversation (length : Nat) (choice : Invocation → Result) : List Invocation :=
  let asked := upTo (fun index => choice (onRequest index) = .stop) (List.range length)
  let handled := if ∀ index ∈ asked, choice (onRequest index) = .pass then [.handle] else []
  let answered :=
    if .handle ∈ handled ∧ choice .handle = .stop then []
    else upTo (fun index => choice (onResponse index) = .stop) asked.reverse
  asked.map onRequest ++ handled ++ answered.map onResponse ++ [.finish]

/-- The conversation from the response of the first interceptors on. -/
def responses (choice : Invocation → Result) (length : Nat) : List Invocation :=
  (upTo (fun index => choice (onResponse index) = .stop) (List.range length).reverse).map
    onResponse ++ [.finish]

variable {choice : Invocation → Result}

theorem responses_succ (index : Nat) :
    responses choice (index + 1) =
      onResponse index ::
        if choice (onResponse index) = .stop then [.finish] else responses choice index := by
  rw [responses, List.range_succ, List.reverse_append, List.reverse_singleton,
    List.singleton_append, upTo]
  split
  · rfl
  · rfl

theorem range_split (bound : index < length) :
    ∃ behind, List.range length = List.range index ++ index :: behind := by
  obtain ⟨more, rfl⟩ := Nat.exists_eq_add_of_lt bound
  refine ⟨(List.range more).map (index + 1 + ·), ?_⟩
  rw [Nat.add_right_comm, List.range_add, List.range_succ, List.append_assoc,
    List.singleton_append]

theorem not_stop_of_pass {result : Result} (pass : result = .pass) : ¬result = .stop := by
  rw [pass]
  intro same
  cases same

theorem conversation_stopped (bound : index < length)
    (passed : ∀ earlier < index, choice (onRequest earlier) = .pass)
    (stopped : choice (onRequest index) = .stop) :
    conversation length choice =
      (List.range (index + 1)).map onRequest ++ responses choice (index + 1) := by
  have asked : upTo (fun index => choice (onRequest index) = .stop) (List.range length) =
      List.range (index + 1) := by
    obtain ⟨behind, split⟩ := range_split bound
    rw [split, upTo_append (fun earlier member => ?_), upTo, if_pos stopped, List.range_succ]
    exact not_stop_of_pass (passed earlier (List.mem_range.mp member))
  have unhandled : ¬∀ earlier ∈ List.range (index + 1), choice (onRequest earlier) = .pass := by
    intro all
    have pass := all index (List.mem_range.mpr (Nat.lt_succ_self index))
    rw [stopped] at pass
    cases pass
  simp only [conversation, asked, if_neg unhandled, List.not_mem_nil, false_and, if_false,
    List.append_nil, responses, List.append_assoc]

theorem conversation_asked (bound : index < length)
    (passed : ∀ earlier < index, choice (onRequest earlier) = .pass) :
    ∃ more, more ≠ [] ∧
      conversation length choice = (List.range (index + 1)).map onRequest ++ more := by
  have asked : ∃ others, upTo (fun index => choice (onRequest index) = .stop) (List.range length) =
      List.range (index + 1) ++ others := by
    obtain ⟨behind, split⟩ := range_split bound
    rw [split, upTo_append fun earlier member =>
      not_stop_of_pass (passed earlier (List.mem_range.mp member)), upTo, List.range_succ]
    split
    · exact ⟨[], (List.append_nil _).symm⟩
    · exact ⟨_, List.append_cons ..⟩
  obtain ⟨others, asked⟩ := asked
  simp only [conversation, asked, List.map_append, List.append_assoc]
  refine ⟨_, ?_, rfl⟩
  simp

theorem conversation_handled (passed : ∀ index < length, choice (onRequest index) = .pass) :
    conversation length choice =
      (List.range length).map onRequest ++ .handle ::
        if choice .handle = .stop then [.finish] else responses choice length := by
  have all : ∀ index ∈ List.range length, choice (onRequest index) = .pass :=
    fun index member => passed index (List.mem_range.mp member)
  have asked := upTo_of_none fun index member => not_stop_of_pass (all index member)
  simp only [conversation, asked, if_pos all, List.mem_singleton, true_and, responses,
    List.append_assoc, List.singleton_append]
  split
  · rfl
  · rfl

theorem nodup_parts {requests answers : List Nat} {middle : List Invocation}
    (asked : requests.Nodup) (answered : answers.Nodup)
    (handled : middle = [] ∨ middle = [.handle]) :
    (requests.map onRequest ++ middle ++ answers.map onResponse ++ [Invocation.finish]).Nodup := by
  have requested : (requests.map onRequest).Nodup := asked.map fun _ _ same => by cases same; rfl
  have responded : (answers.map onResponse).Nodup := answered.map fun _ _ same => by cases same; rfl
  have apart (index : Nat) (other : Invocation)
      (later : (∃ answer ∈ answers, onResponse answer = other) ∨ other = .finish) :
      onRequest index ≠ other := by
    rcases later with ⟨answer, -, rfl⟩ | rfl
    · intro same
      cases same
    · intro same
      cases same
  have answering (index : Nat) : onResponse index ≠ .finish := fun same => nomatch same
  have handling (index : Nat) : .handle ≠ onResponse index := fun same => nomatch same
  have asking (index : Nat) : onRequest index ≠ .handle := fun same => nomatch same
  rcases handled with rfl | rfl
  · simp only [List.nodup_append, requested, responded, List.append_nil, List.append_assoc,
      List.nodup_singleton, List.mem_map, List.mem_append, List.mem_singleton, true_and]
    grind
  · simp only [List.nodup_append, requested, responded, List.append_assoc, List.nodup_singleton,
      List.mem_map, List.mem_append, List.mem_singleton, true_and]
    grind

theorem nodup_unless {c : Prop} [Decidable c] {answers : List Nat} (answered : answers.Nodup) :
    (if c then [] else answers).Nodup := by
  split
  · exact List.nodup_nil
  · exact answered

/-- No interceptor runs twice in one direction, and the end comes once. -/
theorem conversation_nodup (length : Nat) (choice : Invocation → Result) :
    (conversation length choice).Nodup := by
  have asked := (upTo_sublist (p := fun index => choice (onRequest index) = .stop) _).nodup
    (List.nodup_range (n := length))
  refine nodup_parts asked ?_ ?_
  · apply nodup_unless
    exact (upTo_sublist _).nodup (List.nodup_reverse.mpr asked)
  · split
    · exact .inr rfl
    · exact .inl rfl

/-- The invocations so far, and those that have not answered. -/
structure Exchange where
  context : ContextIMP
  invoked : List Invocation
  waiting : List Invocation
  deriving DecidableEq

namespace Exchange

/-- Nothing answers to the end. -/
def invoke (s : Exchange) (moved : ContextIMP × Invocation) : Exchange where
  context := moved.1
  invoked := s.invoked ++ [moved.2]
  waiting := s.waiting ++ if moved.2 = .finish then [] else [moved.2]

def start (length : Nat) : Exchange :=
  invoke ⟨⟨.request, 0, length⟩, [], []⟩ (ContextIMP.start length)

/-- One of those that have not answered does. -/
def step (choice : Invocation → Result) (s : Exchange) (index : Nat) : Option Exchange :=
  s.waiting[index]?.bind fun invocation =>
    (s.context.next (choice invocation)).map fun moved =>
      { s with waiting := s.waiting.eraseIdx index }.invoke moved

/-- How far a conversation is. -/
inductive Stage (length : Nat) (choice : Invocation → Result) : Exchange → Prop where
  | request (bound : index < length)
      (passed : ∀ earlier < index, choice (onRequest earlier) = .pass) :
      Stage length choice ⟨⟨.request, index, length⟩, (List.range (index + 1)).map onRequest,
        [onRequest index]⟩
  | handle (passed : ∀ index < length, choice (onRequest index) = .pass) :
      Stage length choice ⟨⟨.handle, length, length⟩,
        (List.range length).map onRequest ++ [.handle], [.handle]⟩
  | response (bound : index < length)
      (whole : conversation length choice = front ++ responses choice (index + 1)) :
      Stage length choice ⟨⟨.response, index + 1, length⟩, front ++ [onResponse index],
        [onResponse index]⟩
  | finished (context : ContextIMP) : Stage length choice ⟨context, conversation length choice, []⟩

theorem stage_request (bound : index ≤ length)
    (passed : ∀ earlier < index, choice (onRequest earlier) = .pass) (context : ContextIMP) :
    Stage length choice (invoke ⟨context, (List.range index).map onRequest, []⟩
      (ContextIMP.doIntercepterOnReqDir ⟨.request, index, length⟩)) := by
  rcases Nat.lt_or_eq_of_le bound with inside | rfl
  · rw [ContextIMP.doIntercepterOnReqDir_request inside]
    have stage := Stage.request inside passed
    rw [List.range_succ, List.map_append] at stage
    exact stage
  · rw [ContextIMP.doIntercepterOnReqDir_handle]
    exact .handle passed

theorem stage_response (bound : index ≤ length)
    (whole : conversation length choice = front ++ responses choice index) (context : ContextIMP) :
    Stage length choice (invoke ⟨context, front, []⟩
      (ContextIMP.doIntercepterOnResDir ⟨.response, index, length⟩)) := by
  cases index with
  | zero =>
    have stage : Stage length choice ⟨⟨.response, 0, length⟩, conversation length choice, []⟩ :=
      .finished _
    rw [whole] at stage
    exact stage
  | succ index => exact .response bound whole

/-- The end behind an answer that stops, the way back behind another. -/
theorem stage_answered (bound : index ≤ length)
    (whole : conversation length choice =
      front ++ if choice invocation = .stop then [.finish] else responses choice index)
    (context : ContextIMP) :
    Stage length choice (invoke ⟨context, front, []⟩
      (ContextIMP.startIntercepterOnResDir ⟨.response, index, length⟩ (choice invocation))) := by
  cases answered : choice invocation with
  | pass =>
    rw [answered, if_neg (not_stop_of_pass rfl)] at whole
    exact stage_response bound whole context
  | stop =>
    rw [answered, if_pos rfl] at whole
    have stage : Stage length choice ⟨⟨.response, index, length⟩, conversation length choice, []⟩ :=
      .finished _
    rw [whole] at stage
    exact stage

theorem stage_start (length : Nat) (choice : Invocation → Result) :
    Stage length choice (start length) :=
  stage_request (Nat.zero_le length) (fun _ none => absurd none (Nat.not_lt_zero _)) _

theorem stage_next {s : Exchange} (stage : Stage length choice s) (waits : s.waiting ≠ []) :
    ∃ t, s.step choice 0 = some t ∧ Stage length choice t := by
  cases stage with
  | @request index bound passed =>
    cases answered : choice (onRequest index) with
    | pass =>
      have stepped : step choice ⟨⟨.request, index, length⟩,
          (List.range (index + 1)).map onRequest, [onRequest index]⟩ 0 =
            some (invoke ⟨⟨.request, index, length⟩, (List.range (index + 1)).map onRequest, []⟩
              (ContextIMP.doIntercepterOnReqDir ⟨.request, index + 1, length⟩)) := by
        simp only [step, List.getElem?_cons_zero, Option.bind_some, answered,
          ContextIMP.next_request_pass bound, Option.map_some, List.eraseIdx_cons_zero]
      refine ⟨_, stepped, stage_request bound (fun earlier before => ?_) _⟩
      rcases Nat.lt_or_eq_of_le (Nat.le_of_lt_succ before) with first | rfl
      · exact passed earlier first
      · exact answered
    | stop =>
      have stepped : step choice ⟨⟨.request, index, length⟩,
          (List.range (index + 1)).map onRequest, [onRequest index]⟩ 0 =
            some ⟨⟨.response, index + 1, length⟩,
              (List.range (index + 1)).map onRequest ++ [onResponse index],
              [onResponse index]⟩ := by
        simp only [step, List.getElem?_cons_zero, Option.bind_some, answered,
          ContextIMP.next_request_stop bound, Option.map_some, List.eraseIdx_cons_zero]
        rfl
      exact ⟨_, stepped, .response bound (conversation_stopped bound passed answered)⟩
  | handle passed =>
    refine ⟨_, rfl, stage_answered (Nat.le_refl length) ?_ _⟩
    rw [conversation_handled passed, List.append_assoc, List.singleton_append]
  | @response index front bound whole =>
    refine ⟨_, rfl, stage_answered (Nat.le_of_lt bound) ?_ _⟩
    rw [whole, responses_succ, List.append_assoc, List.singleton_append]
  | finished context => exact absurd rfl waits

/-- Only one waits at a time. -/
theorem stage_waiting {s : Exchange} (stage : Stage length choice s) : s.waiting.length ≤ 1 := by
  cases stage with
  | request bound passed => exact Nat.le_refl 1
  | handle passed => exact Nat.le_refl 1
  | response bound whole => exact Nat.le_refl 1
  | finished context => exact Nat.zero_le 1

theorem stage_step {s t : Exchange} (stage : Stage length choice s)
    (stepped : s.step choice index = some t) : Stage length choice t := by
  obtain ⟨invocation, waits, -⟩ := Option.bind_eq_some_iff.mp stepped
  obtain ⟨bound, -⟩ := List.getElem?_eq_some_iff.mp waits
  have only := stage_waiting stage
  obtain rfl : index = 0 := by omega
  obtain ⟨u, called, kept⟩ := stage_next stage (List.ne_nil_of_length_pos bound)
  rw [stepped] at called
  cases called
  exact kept

/-- What has happened is a beginning of the conversation, and all of it when
nothing waits. -/
theorem stage_invoked {s : Exchange} (stage : Stage length choice s) :
    ∃ more, conversation length choice = s.invoked ++ more ∧ (s.waiting = [] ↔ more = []) := by
  cases stage with
  | request bound passed =>
    obtain ⟨more, longer, whole⟩ := conversation_asked bound passed
    exact ⟨more, whole, iff_of_false (List.cons_ne_nil _ _) longer⟩
  | handle passed =>
    refine ⟨_, (conversation_handled passed).trans (List.append_cons ..), ?_⟩
    apply iff_of_false (List.cons_ne_nil _ _)
    split
    · exact List.cons_ne_nil _ _
    · exact List.append_ne_nil_of_right_ne_nil _ (List.cons_ne_nil _ _)
  | response bound whole =>
    rw [responses_succ, List.append_cons] at whole
    refine ⟨_, whole, iff_of_false (List.cons_ne_nil _ _) ?_⟩
    split
    · exact List.cons_ne_nil _ _
    · exact List.append_ne_nil_of_right_ne_nil _ (List.cons_ne_nil _ _)
  | finished context => exact ⟨[], (List.append_nil _).symm, iff_of_true rfl rfl⟩

theorem invoked_step {s t : Exchange} (stepped : s.step choice index = some t) :
    t.invoked.length = s.invoked.length + 1 := by
  obtain ⟨invocation, -, called⟩ := Option.bind_eq_some_iff.mp stepped
  obtain ⟨moved, -, rfl⟩ := Option.map_eq_some_iff.mp called
  exact List.length_append

theorem invoked_run {s t : Exchange} (ran : Transition.run (step choice) s events = some t) :
    t.invoked.length = s.invoked.length + events.length := by
  induction events generalizing s with
  | nil =>
    cases ran
    rfl
  | cons index events ih =>
    obtain ⟨u, stepped, rest⟩ := Option.bind_eq_some_iff.mp ran
    rw [ih rest, invoked_step stepped, List.length_cons]
    omega

/-- However the invocations answer and in whatever order, a run is a beginning of
the conversation; it goes on while one of them waits, by one invocation a step, and
what it ends with is the whole conversation. -/
theorem run_follows_conversation (length : Nat) (choice : Invocation → Result)
    (ran : Transition.run (step choice) (start length) events = some s) :
    s.invoked <+: conversation length choice ∧
      s.invoked.length = events.length + 1 ∧
      (s.waiting ≠ [] → ∃ index t, s.step choice index = some t) ∧
      (s.waiting = [] ↔ s.invoked = conversation length choice) ∧
      (conversation length choice).Nodup ∧
      (conversation length choice).getLast? = some .finish := by
  have stage : Stage length choice s :=
    Transition.run_invariant stage_step (stage_start length choice) ran
  obtain ⟨more, whole, done⟩ := stage_invoked stage
  refine ⟨⟨more, whole.symm⟩, ?_, ?_, ?_, conversation_nodup length choice, ?_⟩
  · rw [invoked_run ran, Nat.add_comm]
    rfl
  · intro waits
    obtain ⟨t, stepped, -⟩ := stage_next stage waits
    exact ⟨0, t, stepped⟩
  · rw [done, whole]
    exact List.self_eq_append_right.symm
  · exact List.getLast?_concat

/-- Two interceptors; the second stops, on the response too. -/
theorem run_follows_conversation_twoStops :
    ∃ s, Transition.run (step fun invocation =>
          if invocation = .intercepter 0 .request then .pass else .stop) (start 2) [0, 0, 0] =
        some s ∧
      s.waiting = [] ∧
      s.invoked = [.intercepter 0 .request, .intercepter 1 .request, .intercepter 1 .response,
        .finish] := by
  have ran := show Transition.run (step fun invocation =>
      if invocation = .intercepter 0 .request then .pass else .stop) (start 2) [0, 0, 0] = some _
    from rfl
  have follows := run_follows_conversation 2 _ ran
  exact ⟨_, ran, rfl, follows.2.2.2.1.mp rfl⟩

end Exchange
end Intercepter
end Da4qi4
