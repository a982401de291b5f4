import Da4qi4.Client.ConnectionReading
import Da4qi4.Foundation.Transition
import Mathlib.Data.List.Chain

/-! What a client's connection holds behind its calls. Only the body is cleared where a
message begins: the text of the status grows from response to response, header fields
stay, and what waits of a trailer comes before the next header. -/
namespace Da4qi4.Client
open Utilities

/-- A response with the reads that bring it. Its first octet begins the message. -/
structure Received where
  response : Response
  reads : List (List ParserCallback)
  whole : reads.flatten = response.callbacks
  begins : ∀ rest, reads ≠ [] :: rest

namespace Response

/-- The last field of the trailer waits for the next response. -/
def leftover (r : Response) : List (Bytes × Bytes) := r.trailerPairs.getLast?.toList

theorem trailerPairs_eq (r : Response) : r.trailerPairs = r.trailerPairs.dropLast ++ r.leftover := by
  rw [leftover]
  cases last : r.trailerPairs.getLast? with
  | none => simp [List.getLast?_eq_none_iff.mp last]
  | some pair => exact (List.dropLast_append_getLast? pair last).symm

/-- The fields of the trailer, up to the last one, have names that are in the header. -/
def NamesTrailer (r : Response) : Prop :=
  ∀ pair ∈ r.trailerPairs.dropLast, (r.pairs.find? (OrderedMap.isAt foldCase pair.1)).isSome

/-- The response before has no text with its status, and each field of its header, and
the last one of its trailer, begins the fields of its name in this one too. -/
structure Follows (p r : Response) : Prop where
  status : p.statusText = []
  headers : ∀ name pair, (p.pairs ++ p.leftover).find? (OrderedMap.isAt foldCase name) = some pair →
    r.pairs.find? (OrderedMap.isAt foldCase name) = some pair

end Response

namespace Connection

theorem messageComplete_not_mem_inner (r : Response) : .messageComplete ∉ r.inner := by
  simp [Response.inner, headerCallbacks]

/-- What a call finds, connected or not. -/
def ready (c : Connection) : Connection :=
  if c.isConnected then c else { isConnected := true, serverEndpoint := true }

/-- The connection may be used. -/
structure Usable (c : Connection) : Prop where
  settled : c.Settled
  error : c.error = .onNone

theorem Usable.ready {c : Connection} (usable : c.Usable) : c.ready.Usable := by
  rw [Connection.ready]
  split
  · exact usable
  · exact ⟨rfl, rfl⟩

/-- The network brings a response. -/
def bring (received : Received) : Network :=
  { reads := received.reads.map fun callbacks => .parsed callbacks true }

theorem connectSync_bring {c : Connection} (usable : c.Usable) (closed : c.isConnected = false)
    (received : Received) : c.connectSync (bring received) = (c.ready, true) := by
  simp only [connectSync, doResolver, bring, doConnect, reset, ready, closed, hasError]
  cases known : c.serverEndpoint with
  | false => simp [usable.error]
  | true => simp [known, closed]

theorem doRead_bring {c : Connection} (received : Received) :
    c.doRead (bring received).reads = some (c.execute received.response.callbacks) := by
  obtain ⟨r, reads, whole, begins⟩ := received
  cases reads with
  | nil => cases whole
  | cons first reads =>
    cases first with
    | nil => exact absurd rfl (begins reads)
    | cons callback first =>
      obtain ⟨rfl, rest⟩ := List.cons_eq_cons.mp whole
      have whole : (first :: reads).flatten = r.inner ++ [.messageComplete] := rest
      exact doRead_eq c.onMessageBegin nofun whole (messageComplete_not_mem_inner r)

/-- The call succeeds. -/
theorem requestSync_bring {c : Connection} (usable : c.Usable) (received : Received) :
    ∃ d, c.requestSync (bring received) .keepConnection = some (d, true) ∧
      Behind c.ready received.response d := by
  have behind := behind_execute usable.ready.settled received.response
  refine ⟨_, ?_, behind⟩
  have connected : (if c.isConnected then (c, true) else c.connectSync (bring received)) =
      (c.ready, true) := by
    split
    · rename_i open_
      rw [ready, if_pos open_]
    · rename_i closed
      exact connectSync_bring usable (Bool.eq_false_iff.mpr closed) received
  have fine : c.ready.hasError = false := by simp [hasError, usable.ready.error]
  have still : (c.ready.execute received.response.callbacks).hasError = false := by
    simp [hasError, behind.error, usable.ready.error]
  have wrote : c.ready.doWrite (bring received) = c.ready := rfl
  unfold requestSync
  simp only [connected, wrote, fine, doRead_bring, still, if_true, Bool.false_eq_true, if_false,
    Option.map_some, Bool.not_false, reduceCtorEq]

/-- What the connection holds is the response. -/
structure Holds (c : Connection) (r : Response) : Prop where
  status : c.statusBuffer = r.statusText
  headers : c.responseHeaders = r.headerFields
  body : c.responseBody = r.bodyText

theorem holds_iff {c d : Connection} {front : List (Bytes × Bytes)} (behind : Behind c r d)
    (held : c.held = OrderedMap.empty.insertAll front) :
    d.Holds r ↔ c.statusBuffer = [] ∧
      (∀ name pair, front.find? (OrderedMap.isAt foldCase name) = some pair →
        r.pairs.find? (OrderedMap.isAt foldCase name) = some pair) ∧ r.NamesTrailer := by
  have headers : d.responseHeaders =
      OrderedMap.empty.insertAll (front ++ r.pairs ++ r.trailerPairs.dropLast) := by
    rw [behind.responseHeaders, held, ← OrderedMap.insertAll_append, List.append_assoc]
  rw [Response.NamesTrailer, ← OrderedMap.insertAll_middle_iff, ← headers]
  constructor
  · intro holds
    exact ⟨List.append_left_eq_self.mp (behind.statusBuffer.symm.trans holds.status), holds.headers⟩
  · rintro ⟨none, same⟩
    exact ⟨by rw [behind.statusBuffer, none, List.nil_append], same, behind.responseBody⟩

end Connection

/-- A connection, and the response that it read last. -/
structure Session where
  connection : Connection := {}
  last : Option Response := none

namespace Session

/-- A call that succeeds and keeps the connection. -/
def requestSync (s : Session) (received : Received) : Option Session :=
  match s.connection.requestSync (Connection.bring received) .keepConnection with
  | some (d, true) => some ⟨d, some received.response⟩
  | _ => none

def Exact (s : Session) : Prop := ∀ r, s.last = some r → s.connection.Holds r

/-- The connection is open behind its first response. -/
structure Open (s : Session) : Prop where
  usable : s.connection.Usable
  isConnected : s.connection.isConnected = s.last.isSome

/-- It holds the last response, and what is left of its trailer waits. -/
structure Clean (s : Session) : Prop extends s.Open where
  exact_ : s.Exact
  held : ∀ p, s.last = some p →
    s.connection.held = OrderedMap.empty.insertAll (p.pairs ++ p.leftover)

theorem requestSync_eq {s t : Session} {received : Received} (opened : s.Open)
    (stepped : s.requestSync received = some t) :
    t.Open ∧ t.last = some received.response ∧
      Connection.Behind s.connection.ready received.response t.connection := by
  obtain ⟨d, called, behind⟩ := Connection.requestSync_bring opened.usable received
  rw [requestSync, called] at stepped
  cases stepped
  refine ⟨⟨⟨behind.settled, behind.error.trans opened.usable.ready.error⟩, ?_⟩, rfl, behind⟩
  apply behind.isConnected.trans
  rw [Connection.ready]
  split
  · rename_i connected
    exact connected
  · rfl

theorem requestSync_succeeds {s : Session} (opened : s.Open) (received : Received) :
    ∃ t, s.requestSync received = some t := by
  obtain ⟨d, called, -⟩ := Connection.requestSync_bring opened.usable received
  exact ⟨⟨d, some received.response⟩, by rw [requestSync, called]⟩

/-- The response goes with the one before it. -/
def Fits (s : Session) (received : Received) (_ : Session) : Prop :=
  received.response.NamesTrailer ∧ ∀ p, s.last = some p → p.Follows received.response

theorem fits_iff {s t : Session} {received : Received} (clean : s.Clean)
    (stepped : s.requestSync received = some t) : s.Fits received t ↔ t.Exact := by
  obtain ⟨-, last, behind⟩ := requestSync_eq clean.toOpen stepped
  have exact_ : t.Exact ↔ t.connection.Holds received.response := by
    constructor
    · exact fun holds => holds _ last
    · intro holds r other
      rw [last] at other
      cases other
      exact holds
  rw [exact_, Fits]
  cases before : s.last with
  | none =>
    have fresh : s.connection.ready = { isConnected := true, serverEndpoint := true } := by
      rw [Connection.ready, clean.isConnected, before]
      rfl
    rw [fresh] at behind
    have empty : ({ isConnected := true, serverEndpoint := true } : Connection).held =
        OrderedMap.empty.insertAll [] := rfl
    rw [Connection.holds_iff behind empty]
    constructor
    · exact fun fits => ⟨rfl, nofun, fits.1⟩
    · exact fun parts => ⟨parts.2.2, nofun⟩
  | some p =>
    have still : s.connection.ready = s.connection := by
      rw [Connection.ready, clean.isConnected, before]
      rfl
    rw [still] at behind
    rw [Connection.holds_iff behind (clean.held p before), (clean.exact_ p before).status]
    constructor
    · intro fits
      obtain ⟨status, headers⟩ := fits.2 p rfl
      exact ⟨status, headers, fits.1⟩
    · rintro ⟨status, headers, names⟩
      refine ⟨names, fun q same => ?_⟩
      cases same
      exact ⟨status, headers⟩

theorem clean_requestSync {s t : Session} {received : Received} (clean : s.Clean)
    (stepped : s.requestSync received = some t) (holds : t.Exact) : t.Clean := by
  obtain ⟨opened, last, behind⟩ := requestSync_eq clean.toOpen stepped
  refine ⟨opened, holds, fun p same => ?_⟩
  rw [last] at same
  cases same
  rw [behind.held, Response.trailerPairs_eq, ← List.append_assoc, OrderedMap.insertAll_append,
    ← behind.responseHeaders, (holds _ last).headers, Response.headerFields,
    ← OrderedMap.insertAll_append]

/-- The calls go through, so that what is asked of them is asked of their responses. -/
theorem steps_iff {s : Session} (opened : s.Open) (received : List Received) :
    Transition.Steps requestSync Fits s received ↔
      (∀ r ∈ received, r.response.NamesTrailer) ∧
        (s.last.toList ++ received.map Received.response).IsChain Response.Follows := by
  induction received generalizing s with
  | nil =>
    refine iff_of_true trivial ⟨nofun, ?_⟩
    cases s.last with
    | none => exact .nil
    | some p => exact .singleton p
  | cons first received ih =>
    obtain ⟨t, stepped⟩ := requestSync_succeeds opened first
    obtain ⟨after, last, -⟩ := requestSync_eq opened stepped
    have rest := ih after
    rw [last] at rest
    have here : Transition.Steps requestSync Fits s (first :: received) ↔
        s.Fits first t ∧ Transition.Steps requestSync Fits t received := by
      constructor
      · exact fun steps => steps t stepped
      · exact fun steps => .cons stepped steps.1 steps.2
    rw [here, rest, Fits, List.forall_mem_cons]
    cases before : s.last with
    | none =>
      constructor
      · rintro ⟨⟨names, -⟩, others, chain⟩
        exact ⟨⟨names, others⟩, chain⟩
      · rintro ⟨⟨names, others⟩, chain⟩
        exact ⟨⟨names, nofun⟩, others, chain⟩
    | some p =>
      constructor
      · rintro ⟨⟨names, follows⟩, others, chain⟩
        exact ⟨⟨names, others⟩, List.isChain_cons_cons.mpr ⟨follows p rfl, chain⟩⟩
      · rintro ⟨⟨names, others⟩, chain⟩
        obtain ⟨follows, rest⟩ := List.isChain_cons_cons.mp chain
        refine ⟨⟨names, fun q same => ?_⟩, others, rest⟩
        cases same
        exact follows

/-- What the connection holds is the last response, behind every call, exactly if no
response but the last has a text with its status, each field of a header, and the last
field of a trailer, is repeated by the next response, and the other fields of a trailer
have names of the header. -/
theorem exact_throughout_iff (received : List Received) :
    Transition.Throughout requestSync Exact {} received ↔
      (∀ r ∈ received, r.response.NamesTrailer) ∧
        (received.map Received.response).IsChain Response.Follows := by
  have opened : Open {} := ⟨⟨rfl, rfl⟩, rfl⟩
  have clean : Clean {} := ⟨opened, nofun, nofun⟩
  refine Iff.trans ?_ (steps_iff opened received)
  refine Transition.throughout_iff_steps (I := Clean) ?_ ?_ ?_ clean
  · exact fun clean stepped fits => clean_requestSync clean stepped ((fits_iff clean stepped).mp fits)
  · exact fun clean stepped holds => (fits_iff clean stepped).mpr holds
  · exact fun clean => clean.exact_

/-- A response without header fields and body, in one read. -/
def statusOnly (text : Bytes) : Received where
  response := { status := [text], headers := [], body := [] }
  reads := [[.messageBegin, .status text, .headersComplete, .messageComplete]]
  whole := rfl
  begins := nofun

/-- "Not Modified" and "No Content", which end with their headers. -/
def bodiless : List Received :=
  [statusOnly (Bytes.ofAscii "Not Modified"), statusOnly (Bytes.ofAscii "No Content")]

/-- The second response seems to have the text "Not ModifiedNo Content". -/
theorem bodiless_mixes : ¬Transition.Throughout requestSync Exact {} bodiless := by
  intro holds
  obtain ⟨t, ran, last, text⟩ : ∃ t, Transition.run requestSync {} bodiless = some t ∧
      t.last = some (statusOnly (Bytes.ofAscii "No Content")).response ∧
      t.connection.statusBuffer = Bytes.ofAscii "Not ModifiedNo Content" :=
    ⟨_, rfl, rfl, by decide⟩
  have same := (holds.final ran _ last).status
  rw [text] at same
  exact absurd same (by decide)

end Session
end Da4qi4.Client
