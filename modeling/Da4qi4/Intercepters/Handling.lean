import Da4qi4.Intercepters.Context
import Da4qi4.Http.Response

/-! The handler at the end of the chain. The routers are known by what a search
finds, and the templates by what they make of the response. -/
namespace Da4qi4
open Utilities Intercepter

/-- What a handler comes to: it answers, at once or later, or an exception leaves
it before. -/
inductive Handled where
  | answered (result : Result)
  | threw (what : Bytes)
  deriving DecidableEq

/-- With what it makes of the response. -/
abbrev Handler := Response → Response × Handled

structure Found where
  handler : Option Handler
  urlExists : Bool
  unsupportMethod : Bool

structure Routing where
  findHandler : (retryPath : Bytes) → (urlExists unsupportMethod : Bool) → Found
  renderNotImplemented : Response → Response
  renderWithoutData : Response → Response

/-- What a request is matched with. -/
inductive Matched where
  | handler (h : Handler)
  | notImplemented
  | nofound

structure Answer where
  response : Response
  result : Option Result := none
  logged : Option Bytes := none

namespace Routing

def endsWith (m s : Bytes) : Bool := s.isSuffixOf m

def indexSuffix : Bytes := Bytes.ofAscii "/index"

/-- The loop has at most two rounds: the second is without the name of the index. -/
def matchHandler (routing : Routing) (path : Bytes) : Matched :=
  let found := routing.findHandler [] false false
  match found.handler with
  | some h => .handler h
  | none =>
    if found.urlExists ∨ found.unsupportMethod then .notImplemented
    else
      let found :=
        if endsWith path indexSuffix then
          routing.findHandler (path.take (path.length - 5)) found.urlExists found.unsupportMethod
        else found
      match found.handler with
      | some h => .handler h
      | none => if found.urlExists ∨ found.unsupportMethod then .notImplemented else .nofound

/-- An exception of the handler is logged, and that is all. -/
def doHandle (routing : Routing) (path : Bytes) (response : Response) : Answer :=
  match routing.matchHandler path with
  | .notImplemented => { response := routing.renderNotImplemented response, result := some .pass }
  | .nofound => { response := routing.renderWithoutData response, result := some .pass }
  | .handler h =>
    match h response with
    | (response, .answered result) => { response := response, result := some result }
    | (response, .threw what) => { response := response, logged := some what }

end Routing

/-- A request on its way through interceptors that pass. The last fields record
what is written and logged. -/
structure Handling where
  exchange : Intercepter.Exchange
  response : Response := .constructed
  result : Option Result := none
  written : List Response := []
  logged : List Bytes := []

namespace Handling

/-- The handler runs at once; at the end the response is written. -/
def arrive (routing : Routing) (path : Bytes) (s : Handling) (moved : ContextIMP × Invocation) :
    Handling :=
  let exchange := s.exchange.invoke moved
  match moved.2 with
  | .intercepter _ _ => { s with exchange := exchange }
  | .handle =>
    let answer := routing.doHandle path s.response
    { s with
      exchange :=
        if answer.result = none then { exchange with waiting := exchange.waiting.erase .handle }
        else exchange
      response := answer.response
      result := answer.result
      logged := s.logged ++ answer.logged.toList }
  | .finish => { s with exchange := exchange, written := s.written ++ [s.response] }

def start (routing : Routing) (path : Bytes) (length : Nat) : Handling :=
  arrive routing path { exchange := ⟨⟨.request, 0, length⟩, [], []⟩ } (ContextIMP.start length)

/-- An interceptor passes with what it makes of the response, or the handler gives
its answer. -/
def step (routing : Routing) (path : Bytes) (s : Handling) (e : Nat × Response) : Option Handling :=
  s.exchange.waiting[e.1]?.bind fun invocation =>
    (if invocation = .handle then s.result else some .pass).bind fun result =>
      (s.exchange.context.next result).map fun moved =>
        { s with
          exchange := { s.exchange with waiting := s.exchange.waiting.eraseIdx e.1 }
          response := e.2 }.arrive routing path moved

/-- What is promised of an exception: all interceptors have seen the response, the
end has come once, and what it has written is an internal server error. -/
def Answered (length : Nat) (s : Handling) : Prop :=
  (∀ index < length, onResponse index ∈ s.exchange.invoked) ∧
    s.exchange.invoked.count .finish = 1 ∧
    ∃ response, s.written = [response] ∧ response.statusCode = 500

/-- Requests up to an interceptor, or all of them and the handler; nothing waits
behind the handler. -/
inductive Unanswered (length : Nat) : Handling → Prop where
  | request (bound : index < length) (response : Response) (result : Option Result)
      (logged : List Bytes) :
      Unanswered length ⟨⟨⟨.request, index, length⟩, (List.range (index + 1)).map onRequest,
        [onRequest index]⟩, response, result, [], logged⟩
  | handled (context : ContextIMP) (response : Response) (result : Option Result)
      (logged : List Bytes) :
      Unanswered length ⟨⟨context, (List.range length).map onRequest ++ [.handle], []⟩, response,
        result, [], logged⟩

/-- The handler of the request ends in an exception. -/
def Throws (routing : Routing) (path : Bytes) : Prop :=
  ∃ handler, routing.matchHandler path = .handler handler ∧
    ∀ response, ∃ what, (handler response).2 = .threw what

theorem doHandle_throws (throws : Throws routing path) (response : Response) :
    (routing.doHandle path response).result = none := by
  obtain ⟨handler, matched, threw⟩ := throws
  obtain ⟨what, threw⟩ := threw response
  simp only [Routing.doHandle, matched]
  split
  · rename_i answered
    rw [answered] at threw
    cases threw
  · rfl

theorem unanswered_arrive (throws : Throws routing path) (bound : index ≤ length)
    (context : ContextIMP) (response : Response) (result : Option Result) (logged : List Bytes) :
    Unanswered length (arrive routing path
      ⟨⟨context, (List.range index).map onRequest, []⟩, response, result, [], logged⟩
      (ContextIMP.doIntercepterOnReqDir ⟨.request, index, length⟩)) := by
  rcases Nat.lt_or_eq_of_le bound with inside | rfl
  · rw [ContextIMP.doIntercepterOnReqDir_request inside]
    have unanswered := Unanswered.request inside response result logged
    rw [List.range_succ, List.map_append] at unanswered
    exact unanswered
  · rw [ContextIMP.doIntercepterOnReqDir_handle]
    have unanswered : Unanswered index _ := .handled ⟨.handle, index, index⟩
      (routing.doHandle path response).response (routing.doHandle path response).result
      (logged ++ (routing.doHandle path response).logged.toList)
    simp only [arrive, doHandle_throws throws, if_true]
    simp only [doHandle_throws throws] at unanswered
    exact unanswered

theorem unanswered_start (throws : Throws routing path) (length : Nat) :
    Unanswered length (start routing path length) :=
  unanswered_arrive throws (Nat.zero_le length) _ _ _ _

theorem unanswered_step {s t : Handling} (throws : Throws routing path)
    (unanswered : Unanswered length s) (stepped : s.step routing path e = some t) :
    Unanswered length t := by
  obtain ⟨invocation, waits, called⟩ := Option.bind_eq_some_iff.mp stepped
  obtain ⟨answer, answered, called⟩ := Option.bind_eq_some_iff.mp called
  obtain ⟨moved, next, rfl⟩ := Option.map_eq_some_iff.mp called
  cases unanswered with
  | @request index bound response result logged =>
    obtain ⟨position, rfl⟩ := List.getElem?_eq_some_iff.mp waits
    obtain first : e.1 = 0 := Nat.lt_one_iff.mp position
    simp only [first, List.getElem_cons_zero] at answered
    rw [if_neg fun same => nomatch same] at answered
    cases answered
    rw [ContextIMP.next_request_pass bound] at next
    cases next
    rw [first]
    exact unanswered_arrive throws bound _ _ _ _
  | handled context response result logged => cases waits

theorem not_mem_unanswered {s : Handling} (unanswered : Unanswered length s) :
    s.written = [] ∧ .finish ∉ s.exchange.invoked ∧
      ∀ index, onResponse index ∉ s.exchange.invoked := by
  cases unanswered with
  | request bound response result logged =>
    refine ⟨rfl, ?_, fun index => ?_⟩
    · simp [onRequest]
    · simp [onRequest, onResponse]
  | handled context response result logged =>
    refine ⟨rfl, ?_, fun index => ?_⟩
    · simp [onRequest]
    · simp [onRequest, onResponse]

/-- Behind an exception of the handler no interceptor sees the response, the end
does not come and nothing is written. -/
theorem exception_never_answered (throws : Throws routing path) (length : Nat)
    (ran : Transition.run (step routing path) (start routing path length) events = some s) :
    s.written = [] ∧ .finish ∉ s.exchange.invoked ∧
      (∀ index, onResponse index ∉ s.exchange.invoked) ∧ ¬s.Answered length := by
  have unanswered : Unanswered length s :=
    Transition.run_invariant (unanswered_step throws) (unanswered_start throws length) ran
  obtain ⟨unwritten, endless, unseen⟩ := not_mem_unanswered unanswered
  refine ⟨unwritten, endless, unseen, ?_⟩
  rintro ⟨-, -, response, written, -⟩
  rw [unwritten] at written
  cases written

/-- Every search finds a handler that fails to convert a parameter. -/
def stoiRouting : Routing where
  findHandler _ _ _ :=
    ⟨some fun response => (response, .threw (Bytes.ofAscii "stoi")), true, false⟩
  renderNotImplemented response := response.replyStatus 501
  renderWithoutData response := response.replyNofound

theorem throws_stoiRouting (path : Bytes) : Throws stoiRouting path :=
  ⟨_, rfl, fun _ => ⟨_, rfl⟩⟩

theorem exception_never_answered_stoi :
    ∃ s, Transition.run (step stoiRouting (Bytes.ofAscii "/add"))
        (start stoiRouting (Bytes.ofAscii "/add") 1) [(0, .constructed)] = some s ∧
      s.exchange.waiting = [] ∧ s.written = [] ∧ ¬s.Answered 1 := by
  have ran := show Transition.run (step stoiRouting (Bytes.ofAscii "/add"))
      (start stoiRouting (Bytes.ofAscii "/add") 1) [(0, .constructed)] = some _ from rfl
  have never := exception_never_answered (throws_stoiRouting (Bytes.ofAscii "/add")) 1 ran
  exact ⟨_, ran, rfl, never.1, never.2.2.2⟩

/-- No run of the request is answered. -/
theorem stoi_unanswered :
    ¬∃ events s, Transition.run (step stoiRouting (Bytes.ofAscii "/add"))
        (start stoiRouting (Bytes.ofAscii "/add") 1) events = some s ∧ s.Answered 1 := by
  rintro ⟨events, s, ran, -, -, response, written, -⟩
  have throws := throws_stoiRouting (Bytes.ofAscii "/add")
  have unanswered : Unanswered 1 s :=
    Transition.run_invariant (unanswered_step throws) (unanswered_start throws 1) ran
  rw [(not_mem_unanswered unanswered).1] at written
  cases written

end Handling
end Da4qi4
