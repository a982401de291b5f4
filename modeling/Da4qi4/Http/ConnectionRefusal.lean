import Da4qi4.Http.ConnectionIsolation

/-! Requests that the connection answers itself: there is no application for the target,
or the body is too large. The parser is left with an error, and an answer to the request
before has to be enough for the next one. -/
namespace Da4qi4
open Utilities

namespace Reading

/-- The end of a header block whose target is for no application, or whose body is
announced as too large. -/
def refusesHeader (env : Environment) (r : Reading) (p : ParserFields) : Bool :=
  match Connection.routes env (r.headerParsed env p).request with
  | none => true
  | some app =>
    ((r.headerParsed env p).request.url.underApplication env app.urlRoot).isSome &&
      decide (app.upoadMaxSizeLimitKB < (r.headerParsed env p).request.contentLength / 1024)

def refuses (env : Environment) (r : Reading) : ParserCallback → Bool
  | .headersComplete p => r.refusesHeader env p
  | .body data => r.exceeds data
  | _ => false

/-- One of the callbacks is answered, and those before it are not. -/
def refusesAll (env : Environment) (r : Reading) : List ParserCallback → Bool
  | [] => false
  | callback :: rest =>
    r.refuses env callback || (r.quiet env callback).any fun s => s.refusesAll env rest

theorem quiet_of_refuses {r : Reading} (refused : r.refuses env made = true) :
    r.quiet env made = none := by
  cases made with
  | headersComplete p =>
    rw [refuses, refusesHeader] at refused
    rw [quiet, accept]
    cases routed : Connection.routes env (r.headerParsed env p).request with
    | none => rfl
    | some app =>
      rw [routed] at refused
      obtain ⟨placed, large⟩ := Bool.and_eq_true_iff.mp refused
      obtain ⟨url, placed⟩ := Option.isSome_iff_exists.mp placed
      rw [Option.bind_some, placed, Option.bind_some, acceptRouted]
      exact if_pos (.inl (decide_eq_true_iff.mp large))
  | body data =>
    rw [quiet, acceptBody]
    exact if_pos (.inl refused)
  | messageBegin => cases refused
  | url data => cases refused
  | headerField data => cases refused
  | headerValue data => cases refused
  | messageComplete => cases refused

theorem quietAll_of_refusesAll {r : Reading} (refused : r.refusesAll env made = true) :
    r.quietAll env made = none := by
  induction made generalizing r with
  | nil => cases refused
  | cons callback made ih =>
    rcases Bool.or_eq_true_iff.mp refused with here | later
    · rw [quietAll, quiet_of_refuses here]
      rfl
    · obtain ⟨s, goes, rest⟩ := (Option.any_eq_true _ _).mp later
      rw [quietAll, goes]
      exact ih rest

theorem refusesAll_append (env : Environment) (r : Reading) (first second : List ParserCallback) :
    r.refusesAll env (first ++ second) =
      (r.refusesAll env first || (r.quietAll env first).any fun s => s.refusesAll env second) := by
  induction first generalizing r with
  | nil => rfl
  | cons callback first ih =>
    rw [List.cons_append, refusesAll, refusesAll, quietAll]
    cases r.quiet env callback with
    | none => simp
    | some s =>
      rw [Option.any_some, Option.any_some, Option.bind_some, ih, Bool.or_assoc]

/-- Behind what is taken without an answer, the rest decides. -/
theorem refusesAll_behind {r s : Reading} (read : r.quietAll env first = some s)
    (second : List ParserCallback) :
    r.refusesAll env (first ++ second) = s.refusesAll env second := by
  have quiet : r.refusesAll env first = false := by
    apply Bool.eq_false_iff.mpr
    intro refused
    rw [quietAll_of_refusesAll refused] at read
    cases read
  rw [refusesAll_append, quiet, read]
  rfl

/-- The rest does not matter where something has been refused. -/
theorem refusesAll_within {r : Reading} (loud : r.quietAll env first = none)
    (second : List ParserCallback) :
    r.refusesAll env (first ++ second) = r.refusesAll env first := by
  rw [refusesAll_append, loud, Option.any_none, Bool.or_false]

theorem refusesHeader_withLeftover (env : Environment) (r : Reading) (full path : Bytes)
    (fields p : ParserFields) :
    (r.withLeftover full path fields).refusesHeader env p = r.refusesHeader env p := by
  rw [refusesHeader, headerParsed_withLeftover, refusesHeader]
  generalize r.headerParsed env p = s
  rfl

theorem refusesAll_withLeftover (env : Environment) {opening : List ParserCallback}
    (isOpening : ∀ callback ∈ opening, IsOpening callback) (r : Reading) (full path : Bytes)
    (fields p : ParserFields) (rest : List ParserCallback) :
    (r.withLeftover full path fields).refusesAll env (opening ++ .headersComplete p :: rest) =
      r.refusesAll env (opening ++ .headersComplete p :: rest) := by
  induction opening generalizing r with
  | nil =>
    simp only [List.nil_append, refusesAll, refuses, refusesHeader_withLeftover, quiet,
      accept_withLeftover]
  | cons callback opening ih =>
    have others := ih fun next member => isOpening next (List.mem_cons_of_mem _ member)
    cases callback with
    | messageBegin => exact others r.onMessageBegin
    | url data => exact others (r.onUrl data)
    | headerField data =>
      rw [List.cons_append, refusesAll, quiet, onHeaderField_withLeftover]
      exact others (r.onHeaderField data)
    | headerValue data => exact others (r.onHeaderValue data)
    | headersComplete fields => exact (isOpening _ List.mem_cons_self).elim
    | body data => exact (isOpening _ List.mem_cons_self).elim
    | messageComplete => exact (isOpening _ List.mem_cons_self).elim

end Reading

namespace Message

/-- A new connection answers the message itself. -/
def Refused (env : Environment) (m : Message) : Prop :=
  ({} : Reading).refusesAll env m.callbacks = true

instance (env : Environment) (m : Message) : Decidable (m.Refused env) :=
  inferInstanceAs (Decidable ((_ : Bool) = true))

theorem refusesAll_fresh (env : Environment) (m : Message) (full path : Bytes)
    (fields : ParserFields) :
    (Reading.fresh full path fields).refusesAll env m.callbacks = true ↔ m.Refused env := by
  rw [Refused, callbacks_split]
  exact Bool.eq_iff_iff.mp
    (Reading.refusesAll_withLeftover env m.isOpening_before {} full path fields m.fields m.behind)

end Message

namespace Connection

/-- What makes a connection go on behind every answer of a handler that announces it:
of the two conditions for `AgreesOnPersistence`, the one that the next request needs. -/
def PersistsAsAnnounced (request : Request) (response : Response) : Prop :=
  if response.isChunked then response.isExactlyClose = true
  else if Response.isOld request.versionMajor request.versionMinor then
    request.isKeepAlive = true ∨ (response.hasKeepAlive = true → response.hasClose = true)
  else True

theorem keepsAlive_of_announced (c : Connection) (unchunked : c.response.isChunked = false)
    (persists : PersistsAsAnnounced c.request c.response)
    (announced : c.prepareResponseHeadersAboutConnection.response.announcesPersistence = true) :
    c.prepareResponseHeadersAboutConnection.keepsAlive = true := by
  apply ((keepsAlive_iff_announces c unchunked).mpr _).mpr announced
  have open_ : ¬c.response.isChunked = true := Bool.eq_false_iff.mp unchunked
  rw [PersistsAsAnnounced, if_neg open_] at persists
  rw [AgreesOnPersistence, if_neg open_]
  by_cases old : Response.isOld c.request.versionMajor c.request.versionMinor = true
  · rw [if_pos old] at persists ⊢
    exact persists
  · rw [if_neg old]
    intro kept close
    have prepared : c.prepareResponseHeadersAboutConnection.response =
        c.response.setVersion 1 1 := by
      rw [prepareResponseHeadersAboutConnection, if_neg old]
      exact if_pos kept
    have announces : (c.response.setVersion 1 1).announcesPersistence = !c.response.hasClose :=
      Response.announces_new rfl
    rw [prepared, announces, close] at announced
    cases announced

/-- What a header block that is being written promises is kept. -/
def Promised (c : Connection) : WriteOperation → Prop
  | .response header => header.announcesPersistence = true → c.keepsAlive = true
  | .chunkedHeader header => header.announcesPersistence = false
  | .chunkedBody _ => True

theorem startWrite_open {c : Connection} (open_ : c.socket = true) : ∃ response operation,
    c.startWrite = some { c with response := response, writes := c.writes ++ [operation] } ∧
      operation.header.isSome = true ∧
      (PersistsAsAnnounced c.request c.response →
        Promised { c with response := response, writes := c.writes ++ [operation] } operation) := by
  by_cases chunked : c.response.isChunked = true
  · rw [startWrite, if_pos chunked, doWriteHeaderForChunked]
    refine ⟨_, .chunkedHeader _, if_pos open_, rfl, fun persists => ?_⟩
    rw [PersistsAsAnnounced, if_pos chunked] at persists
    apply (chunked_announces c chunked).trans
    rw [persists]
    rfl
  · have kept := keepsAlive_of_announced c (Bool.eq_false_iff.mpr chunked)
    obtain ⟨header, prepared⟩ := c.prepared_response
    rw [prepared] at kept
    rw [startWrite, if_neg chunked, doWrite, prepared]
    exact ⟨header, .response header, if_pos open_, rfl, kept⟩

/-- The answer is handed to the event loop, and the parser gets an error. -/
def RefusedAs (c : Connection) (operation : WriteOperation) (d : Connection) : Prop :=
  ∃ reading response block, d = { c with
    toReading := reading
    response := response
    writes := c.writes ++ [operation]
    block := block }

theorem callback_of_refuses {c : Connection} (open_ : c.socket = true)
    (refused : c.toReading.refuses env made = true) : ∃ d operation,
      c.callback env made = some (d, .refused) ∧ operation.header.isSome = true ∧
        c.RefusedAs operation d := by
  have answers (d : Connection) (response : Response) (open_ : d.socket = true)
      (touched : ∃ reading block,
        d = { c with toReading := reading, response := d.response, block := block }) :
      ∃ e operation,
        ({ d with response := response }.startWrite.map fun c => (c, Returned.refused)) =
          some (e, .refused) ∧ operation.header.isSome = true ∧ c.RefusedAs operation e := by
    obtain ⟨written, operation, started, header, -⟩ :=
      startWrite_open (c := { d with response := response }) open_
    obtain ⟨reading, block, same⟩ := touched
    refine ⟨_, operation, ?_, header, reading, written, block, rfl⟩
    rw [started, Option.map_some, same]
  cases made with
  | headersComplete p =>
    rw [Reading.refuses, Reading.refusesHeader] at refused
    cases routed : routes env (c.headerParsed env p).request with
    | none =>
      obtain ⟨app, unrouted⟩ := onHeadersComplete_unrouted routed
      rw [callback, unrouted]
      exact answers { c.headerParsed env p with app := app } _ open_ ⟨_, _, rfl⟩
    | some app =>
      have known : routes env (c.toReading.headerParsed env p).request = some app := routed
      rw [known] at refused
      obtain ⟨placed, large⟩ := Bool.and_eq_true_iff.mp refused
      obtain ⟨url, placed⟩ := Option.isSome_iff_exists.mp placed
      have underneath : (c.headerParsed env p).request.url.underApplication env app.urlRoot =
          some url := placed
      have much : app.upoadMaxSizeLimitKB <
          ((c.headerParsed env p).placeUnder app url).request.contentLength / 1024 :=
        decide_eq_true_iff.mp large
      rw [callback, onHeadersComplete_routed routed, underneath, Option.bind_some, onRouted,
        if_pos much]
      exact answers ((c.headerParsed env p).placeUnder app url) _ open_ ⟨_, _, rfl⟩
  | body data =>
    have much : c.exceeds data = true := refused
    rw [callback, onBody, if_pos much]
    exact answers c _ open_ ⟨_, _, rfl⟩
  | messageBegin => cases refused
  | url data => cases refused
  | headerField data => cases refused
  | headerValue data => cases refused
  | messageComplete => cases refused

theorem callbacks_of_refusesAll {c : Connection} (errno : ParserErrno) (open_ : c.socket = true)
    (refused : c.toReading.refusesAll env made = true) : ∃ d operation,
      c.callbacks env errno made = some { d with parserErrno := .error } ∧
        operation.header.isSome = true ∧ c.RefusedAs operation d := by
  induction made generalizing c with
  | nil => cases refused
  | cons callback made ih =>
    rcases Bool.or_eq_true_iff.mp refused with here | later
    · obtain ⟨d, operation, answered, header, same⟩ := callback_of_refuses open_ here
      refine ⟨d, operation, ?_, header, same⟩
      rw [callbacks, answered]
      rfl
    · obtain ⟨s, goes, rest⟩ := (Option.any_eq_true _ _).mp later
      obtain ⟨block, quiet⟩ := callback_of_quiet goes
      obtain ⟨d, operation, executed, header, reading, response, block', same⟩ := ih
        (c := { c with
          toReading := s
          response := c.response.takeVersion callback
          block := block }) open_ rest
      refine ⟨d, operation, ?_, header, reading, response, block', same⟩
      rw [callbacks, quiet]
      exact executed

/-- The read that meets the answer is the last one that counts. -/
theorem read_of_refused {c : Connection} (reads : c.reads = 1) (clean : c.parserErrno = .ok)
    (open_ : c.socket = true) (refused : c.toReading.refusesAll env made = true) :
    ∃ d operation, c.step env (.read .ok made) = some { d with parserErrno := .error, reads := 0 } ∧
      operation.header.isSome = true ∧ c.RefusedAs operation d := by
  obtain ⟨d, operation, executed, header, reading, response, block, same⟩ :=
    callbacks_of_refusesAll (c := { c with reads := c.reads - 1 }) .ok open_ refused
  have some_ : ¬c.reads = 0 := by
    rw [reads]
    exact Nat.one_ne_zero
  refine ⟨{ d with reads := c.reads }, operation, ?_, header, reading, response, block, ?_⟩
  · have none : d.reads = 0 := by
      rw [same]
      change c.reads - 1 = 0
      rw [reads]
    rw [step, if_neg some_, onRead, execute, if_pos clean, executed, Option.bind_some, if_pos rfl,
      ← none]
  · rw [same]

theorem doWriteNextChunkedBody_open {c : Connection} (open_ : c.socket = true)
    (startWaitClock now : Int) : ∃ d, c.doWriteNextChunkedBody startWaitClock now = some d := by
  simp only [doWriteNextChunkedBody]
  split
  · exact ⟨_, rfl⟩
  · split
    · split
      · exact ⟨_, rfl⟩
      · exact ⟨_, rfl⟩
    · exact ⟨_, if_pos open_⟩

/-- Behind the header block of an answer the connection reads on, or what the block has
promised is that it does not. -/
theorem wrote_header {c : Connection} (env : Environment) (now : Int) (open_ : c.socket = true)
    (writes : c.writes = [operation]) (sent : operation.header = some header) :
    ∃ d, c.step env (.wrote 0 now) = some d ∧ d.contexts = c.contexts ∧
      d.parserErrno = c.parserErrno ∧ (∀ other ∈ d.writes, other.header = none) ∧
      ((c.keepsAlive = true ∧ d = { { c with writes := [] }.reset with reads := c.reads + 1 }) ∨
        (d.reads = c.reads ∧
          (Promised c operation → header.announcesPersistence = false))) := by
  have completes (d : Connection)
      (completed : { c with writes := [] }.onWrote now operation = some d) :
      c.step env (.wrote 0 now) = some d := by
    rw [step, writes]
    exact completed
  cases operation with
  | response written =>
    cases sent
    cases keep : c.keepsAlive with
    | true =>
      refine ⟨{ { c with writes := [] }.reset with reads := c.reads + 1 }, completes _ ?_, rfl, rfl,
        ?_, .inl ⟨rfl, rfl⟩⟩
      · rw [onWrote]
        apply (if_pos keep).trans
        exact if_pos open_
      · intro other member
        cases member
    | false =>
      refine ⟨_, completes _ (if_neg (Bool.eq_false_iff.mp keep)), rfl, rfl, ?_, .inr ⟨rfl, ?_⟩⟩
      · intro other member
        cases member
      · intro promised
        apply Bool.eq_false_iff.mpr
        intro announced
        rw [promised announced] at keep
        cases keep
  | chunkedHeader written =>
    cases sent
    obtain ⟨d, completed⟩ := doWriteNextChunkedBody_open (c := { c with writes := [] }) open_ 0 now
    refine ⟨d, completes d completed, ?_⟩
    obtain ⟨_, _, ⟨-, rfl⟩ | ⟨-, ⟨_, rfl⟩ | rfl⟩⟩ := doWriteNextChunkedBody_cases completed
    · refine ⟨rfl, rfl, ?_, .inr ⟨rfl, id⟩⟩
      intro other member
      cases member
    · refine ⟨rfl, rfl, ?_, .inr ⟨rfl, id⟩⟩
      intro other member
      cases member
    · refine ⟨rfl, rfl, ?_, .inr ⟨rfl, id⟩⟩
      intro other member
      rw [List.mem_singleton.mp member]
      rfl
  | chunkedBody data => cases sent

end Connection
end Da4qi4
