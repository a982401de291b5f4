import Da4qi4.Foundation.ChunkedCoding
import Da4qi4.Foundation.Transition
import Da4qi4.Http.Connection

/-! A chunked response on its way. A producer gives the bodies and then stops, while
the connection pops what it finds, one write at a time, and polls when it finds
nothing. No write fails, and the wait for the next body does not run out. -/
namespace Da4qi4
open Utilities

theorem decIntToHexStr_small (digit : n < 16) :
    decIntToHexStr n = [toUpper n.digitChar.toNat.toUInt8] := by
  rw [decIntToHexStr, Nat.toDigits_of_lt_base digit]
  rfl

theorem decIntToHexStr_large (more : 16 ≤ n) :
    decIntToHexStr n = decIntToHexStr (n / 16) ++ decIntToHexStr (n % 16) := by
  rw [decIntToHexStr_small (Nat.mod_lt n (by omega)), decIntToHexStr, decIntToHexStr,
    Nat.toDigits_of_base_le (by omega) more, List.map_append]
  rfl

theorem hexValue_digit (digit : n < 16) :
    ChunkedCoding.hexValue (toUpper n.digitChar.toNat.toUInt8) = some n := by
  revert n
  decide

theorem isHex_decIntToHexStr (n : Nat) : ∀ c ∈ decIntToHexStr n, ChunkedCoding.isHex c = true := by
  induction n using Nat.strongRecOn with
  | ind n ih =>
    have small {k : Nat} (digit : k < 16) :
        ∀ c ∈ decIntToHexStr k, ChunkedCoding.isHex c = true := by
      intro c member
      rw [decIntToHexStr_small digit, List.mem_singleton] at member
      rw [member, ChunkedCoding.isHex, hexValue_digit digit]
      rfl
    rcases Nat.lt_or_ge n 16 with digit | more
    · exact small digit
    · intro c member
      rw [decIntToHexStr_large more, List.mem_append] at member
      rcases member with front | back
      · exact ih (n / 16) (by omega) c front
      · exact small (Nat.mod_lt n (by omega)) c back

/-- The size of a chunk is read as it was written. -/
theorem hexNumber_decIntToHexStr (n : Nat) : ChunkedCoding.hexNumber (decIntToHexStr n) = n := by
  induction n using Nat.strongRecOn with
  | ind n ih =>
    rcases Nat.lt_or_ge n 16 with digit | more
    · rw [decIntToHexStr_small digit, ChunkedCoding.hexNumber, List.foldl_cons, List.foldl_nil,
        hexValue_digit digit]
      exact (Nat.zero_add _).trans rfl
    · have last := Nat.mod_lt n (show 0 < 16 by omega)
      rw [decIntToHexStr_large more, decIntToHexStr_small last, ChunkedCoding.hexNumber_append,
        ih (n / 16) (by omega), hexValue_digit last, Option.getD_some]
      omega

theorem decIntToHexStr_ne_nil (n : Nat) : decIntToHexStr n ≠ [] := by
  rcases Nat.lt_or_ge n 16 with digit | more
  · rw [decIntToHexStr_small digit]
    exact List.cons_ne_nil _ _
  · rw [decIntToHexStr_large more, decIntToHexStr_small (Nat.mod_lt n (by omega))]
    exact List.append_ne_nil_of_right_ne_nil _ (List.cons_ne_nil _ _)

theorem chunk_ne_nil (body : Bytes) : chunk body ≠ [] := by
  rw [chunk]
  exact List.append_ne_nil_of_right_ne_nil _ (List.cons_ne_nil _ _)

/-- The chunk of an empty body is the end of the message. -/
theorem chunk_nil : chunk [] = chunkEnd := rfl

/-- What the producer gives, as it is written. -/
def chunkedMessage (bodies : List Bytes) : Bytes := bodies.flatMap chunk ++ chunkEnd

theorem decodeFrom_chunks {bodies : List Bytes} (some_ : ∀ body ∈ bodies, body ≠ []) (fuel : Nat)
    (rest : Bytes) :
    ChunkedCoding.decodeFrom (bodies.length + (fuel + 1))
        (bodies.flatMap chunk ++ chunkEnd ++ rest) =
      some (bodies.flatten, rest) := by
  induction bodies with
  | nil =>
    rw [List.length_nil, Nat.zero_add]
    exact ChunkedCoding.decodeFrom_last fuel rest
  | cons body bodies ih =>
    have first := some_ body (List.mem_cons_self ..)
    have others := fun other member => some_ other (List.mem_cons_of_mem body member)
    have decoded := ChunkedCoding.decodeFrom_chunk (bodies.length + (fuel + 1))
      (isHex_decIntToHexStr body.length) (hexNumber_decIntToHexStr body.length)
      (decIntToHexStr_ne_nil body.length) first (bodies.flatMap chunk ++ chunkEnd ++ rest)
    rw [ih others] at decoded
    rw [List.length_cons, Nat.add_right_comm, List.flatMap_cons, List.append_assoc (chunk body),
      List.append_assoc (chunk body)]
    exact decoded

theorem length_le_chunks (bodies : List Bytes) : bodies.length ≤ (bodies.flatMap chunk).length := by
  induction bodies with
  | nil => exact Nat.zero_le _
  | cons body bodies ih =>
    have positive := List.length_pos_of_ne_nil (chunk_ne_nil body)
    rw [List.flatMap_cons, List.length_append, List.length_cons]
    omega

theorem decode_chunks {front : List Bytes} (some_ : ∀ body ∈ front, body ≠ []) (rest : Bytes) :
    ChunkedCoding.decode (front.flatMap chunk ++ chunkEnd ++ rest) =
      some (front.flatten, rest) := by
  have enough := length_le_chunks front
  obtain ⟨more, fuel⟩ := Nat.exists_eq_add_of_le
    (show front.length + 1 ≤ (front.flatMap chunk ++ chunkEnd ++ rest).length + 1 by
      rw [List.length_append, List.length_append]
      omega)
  rw [ChunkedCoding.decode, fuel, Nat.add_assoc, Nat.add_comm 1]
  exact decodeFrom_chunks some_ more rest

/-- A list of bodies is decoded from its chunks exactly if none of them is empty. -/
theorem decode_chunkedMessage_iff (bodies : List Bytes) :
    ChunkedCoding.decode (chunkedMessage bodies) = some (bodies.flatten, []) ↔
      ∀ body ∈ bodies, body ≠ [] := by
  constructor
  · rintro decoded _ member rfl
    obtain ⟨front, back, rfl, absent⟩ := List.eq_append_cons_of_mem member
    have early := decode_chunks (fun body member same => absent (same ▸ member))
      (back.flatMap chunk ++ chunkEnd)
    have message : chunkedMessage (front ++ [] :: back) =
        front.flatMap chunk ++ chunkEnd ++ (back.flatMap chunk ++ chunkEnd) := by
      rw [chunkedMessage, List.flatMap_append, List.flatMap_cons, chunk_nil, List.append_assoc,
        List.append_assoc, List.append_assoc]
    rw [message, early] at decoded
    have left := congrArg Prod.snd (Option.some.inj decoded)
    exact List.append_ne_nil_of_right_ne_nil _ (List.cons_ne_nil _ _) left
  · intro some_
    have decoded := decode_chunks some_ []
    rw [List.append_nil] at decoded
    exact decoded

/-- The bodies are still to be given, in this order; what has been written of the
bodies is recorded. -/
structure Streaming where
  connection : Connection
  bodies : List Bytes
  stopped : Bool := false
  sent : Bytes := []

namespace Streaming

/-- The producer gives the next body, stops, or ends the context; or an operation of
the connection completes. -/
inductive Event where
  | nextChunkedResponse
  | stopChunkedResponse
  | startWrite
  | wrote (index : Nat) (now : Int)
  | posted (index : Nat) (now : Int)

def octets : WriteOperation → Bytes
  | .chunkedBody data => data
  | _ => []

/-- The wait of five seconds for the next body is not over. -/
def InTime (startWaitClock now : Int) : Prop :=
  ¬(0 < startWaitClock ∧ 5 < (now - startWaitClock).tdiv Connection.clocksPerSec)

instance (startWaitClock now : Int) : Decidable (InTime startWaitClock now) :=
  inferInstanceAs (Decidable (¬_))

def step (env : Environment) (s : Streaming) : Event → Option Streaming
  | .nextChunkedResponse =>
    match s.bodies with
    | [] => none
    | body :: bodies =>
      (s.connection.step env (.pushChunkedBody body false)).map fun c =>
        { s with connection := c, bodies := bodies }
  | .stopChunkedResponse =>
    if s.bodies.isEmpty ∧ ¬s.stopped then
      (s.connection.step env (.pushChunkedBody [] true)).map fun c =>
        { s with connection := c, stopped := true }
    else none
  | .startWrite =>
    (s.connection.step env (.respond s.connection.response)).map fun c => { s with connection := c }
  | .wrote index now =>
    s.connection.writes[index]?.bind fun operation =>
      (s.connection.step env (.wrote index now)).map fun c =>
        { s with connection := c, sent := s.sent ++ octets operation }
  | .posted index now =>
    s.connection.posts[index]?.bind fun startWaitClock =>
      if InTime startWaitClock now then
        (s.connection.step env (.posted index now)).map fun c => { s with connection := c }
      else none

/-- A context runs; its response is chunked and nothing has been given. -/
structure Opened (c : Connection) : Prop where
  chunked : c.response.isChunked = true
  bodies : c.response.chunkedBodies = []
  context : c.contexts = 1
  writes : c.writes = []
  posts : c.posts = []
  socket : c.socket = true

def start (c : Connection) (bodies : List Bytes) : Streaming :=
  { connection := c, bodies := bodies }

/-- Nothing is outstanding, the context included. -/
def Ended (s : Streaming) : Prop :=
  s.connection.contexts = 0 ∧ s.connection.writes = [] ∧ s.connection.posts = []

/-- What the connection is doing: it waits for the end of the context, writes, is
about to look at the bodies, polls, or has ended. -/
inductive Doing where
  | waiting
  | writing (operation : WriteOperation)
  | looking
  | polling (startWaitClock : Int)
  | ended

namespace Doing

def contexts : Doing → Nat
  | .waiting => 1
  | _ => 0

def writes : Doing → List WriteOperation
  | .writing operation => [operation]
  | _ => []

def posts : Doing → List Int
  | .polling startWaitClock => [startWaitClock]
  | _ => []

/-- How far it is from the end. -/
def weight : Doing → Nat
  | .waiting => 4
  | .writing _ => 3
  | .looking => 2
  | .polling _ => 2
  | .ended => 0

end Doing

/-- The mark behind the last chunk has not been popped. -/
def marked (stopped : Bool) (doing : Doing) : List (Bytes × Bool) :=
  match stopped, doing with
  | true, .ended => []
  | true, _ => [([], true)]
  | false, _ => []

structure Streams (all : List Bytes) (doing : Doing) (chunks : List Bytes) (s : Streaming) :
    Prop where
  socket : s.connection.socket = true
  contexts : s.connection.contexts = doing.contexts
  writes : s.connection.writes = doing.writes
  posts : s.connection.posts = doing.posts
  chunked : doing = .waiting → s.connection.response.isChunked = true
  streamed : ∀ response, doing ≠ .writing (.response response)
  queue : s.connection.response.chunkedBodies =
    chunks.map (fun data => (data, false)) ++ marked s.stopped doing
  some_ : ∀ data ∈ chunks, data ≠ []
  last : s.stopped = true → s.bodies = []
  ended : doing = .ended → s.stopped = true ∧ chunks = []
  sent : ∃ given, all = given ++ s.bodies ∧
    s.sent ++ doing.writes.flatMap octets ++ chunks.flatten =
      given.flatMap chunk ++ if s.stopped then chunkEnd else []

variable {all chunks : List Bytes} {doing : Doing} {s t : Streaming}

/-- The header block of a chunked response is written; the bodies stay. -/
theorem startWrite_chunked {c : Connection} (chunked : c.response.isChunked = true)
    (socket : c.socket = true) :
    ∃ response, c.startWrite =
        some { c with response := response, writes := c.writes ++ [.chunkedHeader response] } ∧
      response.chunkedBodies = c.response.chunkedBodies := by
  have prepared : ∃ response,
      c.prepareResponseHeadersForChunkedWrite = { c with response := response } ∧
      response.chunkedBodies = c.response.chunkedBodies := by
    refine ⟨_, rfl, ?_⟩
    rw [if_pos chunked]
    split
    · split
      · rfl
      · rfl
    · split
      · rfl
      · rfl
  obtain ⟨response, same, bodies⟩ := prepared
  refine ⟨response, ?_, bodies⟩
  rw [Connection.startWrite, if_pos chunked, Connection.doWriteHeaderForChunked, same]
  simp only [Connection.asyncWrite, socket, if_true]

theorem doWriteNextChunkedBody_data {c : Connection} (startWaitClock now : Int)
    (queue : c.response.chunkedBodies = (data, false) :: rest) (content : data ≠ [])
    (socket : c.socket = true) :
    c.doWriteNextChunkedBody startWaitClock now =
      some { c with
        currentChunkedBodyBuffer := data
        response := { c.response with chunkedBodies := rest }
        writes := c.writes ++ [.chunkedBody data] } := by
  simp only [Connection.doWriteNextChunkedBody, Response.popChunkedBody, queue, Bool.false_eq_true,
    if_false, if_neg content, Connection.asyncWrite, socket, if_true]

theorem doWriteNextChunkedBody_mark {c : Connection} (startWaitClock now : Int)
    (queue : c.response.chunkedBodies = ([], true) :: rest) :
    c.doWriteNextChunkedBody startWaitClock now =
      some { c with
        currentChunkedBodyBuffer := []
        response := { c.response with chunkedBodies := rest } } := by
  simp only [Connection.doWriteNextChunkedBody, Response.popChunkedBody, queue, if_true]

theorem doWriteNextChunkedBody_none {c : Connection} (inTime : InTime startWaitClock now)
    (queue : c.response.chunkedBodies = []) :
    c.doWriteNextChunkedBody startWaitClock now =
      some { c with
        currentChunkedBodyBuffer := []
        posts := c.posts ++ [if startWaitClock = 0 then now else startWaitClock] } := by
  simp only [Connection.doWriteNextChunkedBody, Response.popChunkedBody, queue, Bool.false_eq_true,
    if_false, if_true]
  exact if_neg inTime

/-- The connection looks at the bodies: it writes the next chunk, ends at the mark,
or polls. -/
theorem streams_looked (streams : Streams all .looking chunks s)
    (inTime : InTime startWaitClock now) :
    ∃ c doing others, s.connection.doWriteNextChunkedBody startWaitClock now = some c ∧
      Streams all doing others { s with connection := c } ∧ doing ≠ .looking ∧
      (s.stopped = true →
        2 * others.length + doing.weight < 2 * chunks.length + Doing.looking.weight) := by
  obtain ⟨socket, contexts, writes, posts, chunked, streamed, queue, some_, last, ended, sent⟩ :=
    streams
  cases chunks with
  | cons data chunks =>
    have content := some_ data (List.mem_cons_self ..)
    refine ⟨_, .writing (.chunkedBody data), chunks,
      doWriteNextChunkedBody_data startWaitClock now queue content socket,
      ⟨socket, contexts, ?_, posts, ?_, ?_, ?_, ?_, last, ?_, ?_⟩, ?_, fun _ => ?_⟩
    · exact congrArg (· ++ [WriteOperation.chunkedBody data]) writes
    · intro waiting
      cases waiting
    · intro _ same
      cases same
    · cases stopped : s.stopped with
      | true => rfl
      | false => rfl
    · intro other member
      exact some_ other (List.mem_cons_of_mem data member)
    · intro waiting
      cases waiting
    · obtain ⟨given, whole, same⟩ := sent
      refine ⟨given, whole, ?_⟩
      simp only [Doing.writes, List.flatMap_nil, List.append_nil, List.flatten_cons,
        List.append_assoc] at same ⊢
      simp only [List.flatMap_cons, List.flatMap_nil, octets, List.append_nil]
      exact same
    · intro waiting
      cases waiting
    · simp only [List.length_cons, Doing.weight]
      omega
  | nil =>
    obtain ⟨given, whole, same⟩ := sent
    cases stopped : s.stopped with
    | true =>
      rw [stopped] at queue last same
      refine ⟨_, .ended, [], doWriteNextChunkedBody_mark startWaitClock now queue,
        ⟨socket, contexts, writes, posts, ?_, ?_, ?_, some_, ?_, ?_, given, whole, ?_⟩, ?_,
        fun _ => ?_⟩
      · intro waiting
        cases waiting
      · intro _ same
        cases same
      · rfl
      · intro _
        exact last rfl
      · intro _
        exact ⟨rfl, rfl⟩
      · exact same
      · intro waiting
        cases waiting
      · exact Nat.zero_lt_two
    | false =>
      rw [stopped] at queue last same
      refine ⟨_, .polling (if startWaitClock = 0 then now else startWaitClock), [],
        doWriteNextChunkedBody_none inTime queue,
        ⟨socket, contexts, writes, ?_, ?_, ?_, ?_, some_, last, ?_, given, whole, same⟩, ?_, ?_⟩
      · exact congrArg (· ++ [if startWaitClock = 0 then now else startWaitClock]) posts
      · intro waiting
        cases waiting
      · intro _ same
        cases same
      · exact queue
      · intro waiting
        cases waiting
      · intro waiting
        cases waiting
      · intro going
        cases going

theorem streams_push (streams : Streams all doing chunks s) (rest : s.bodies = body :: others) :
    Streams all doing (chunks ++ [chunk body])
      { s with
        connection := { s.connection with
          response := s.connection.response.pushChunkedBody body false }
        bodies := others } := by
  obtain ⟨socket, contexts, writes, posts, chunked, streamed, queue, some_, last, ended, sent⟩ :=
    streams
  have going : s.stopped = false := by
    cases stopped : s.stopped with
    | true =>
      have none := last stopped
      rw [rest] at none
      cases none
    | false => rfl
  refine ⟨socket, contexts, writes, posts, chunked, streamed, ?_, ?_, ?_, ?_, ?_⟩
  · rw [going] at queue
    simp only [going, marked, Response.pushChunkedBody, queue]
    simp
  · intro data member
    rcases List.mem_append.mp member with before | new
    · exact some_ data before
    · rw [List.mem_singleton.mp new]
      exact chunk_ne_nil body
  · intro stopped
    rw [going] at stopped
    cases stopped
  · intro ending
    have stopped := (ended ending).1
    rw [going] at stopped
    cases stopped
  · obtain ⟨given, whole, same⟩ := sent
    refine ⟨given ++ [body], ?_, ?_⟩
    · rw [whole, rest]
      exact List.append_cons ..
    · rw [going] at same
      simp only [going, Bool.false_eq_true, if_false, List.append_nil, List.flatten_append,
        List.flatMap_append, ← List.append_assoc] at same ⊢
      rw [same]
      simp

theorem streams_stop (streams : Streams all doing chunks s) (none : s.bodies = [])
    (going : s.stopped = false) :
    Streams all doing (chunks ++ [chunkEnd])
      { s with
        connection := { s.connection with response := s.connection.response.pushChunkedBody [] true }
        stopped := true } := by
  obtain ⟨socket, contexts, writes, posts, chunked, streamed, queue, some_, last, ended, sent⟩ :=
    streams
  have started : doing ≠ .ended := by
    intro ending
    have stopped := (ended ending).1
    rw [going] at stopped
    cases stopped
  refine ⟨socket, contexts, writes, posts, chunked, streamed, ?_, ?_, fun _ => none,
    fun ending => absurd ending started, ?_⟩
  · cases doing with
    | ended => exact absurd rfl started
    | waiting => simp [queue, going, marked, Response.pushChunkedBody]
    | writing operation => simp [queue, going, marked, Response.pushChunkedBody]
    | looking => simp [queue, going, marked, Response.pushChunkedBody]
    | polling startWaitClock => simp [queue, going, marked, Response.pushChunkedBody]
  · intro data member
    rcases List.mem_append.mp member with before | new
    · exact some_ data before
    · rw [List.mem_singleton.mp new]
      exact List.cons_ne_nil _ _
  · obtain ⟨given, whole, same⟩ := sent
    refine ⟨given, whole, ?_⟩
    rw [going] at same
    simp only [Bool.false_eq_true, if_false, List.append_nil, if_true, List.flatten_append,
      ← List.append_assoc] at same ⊢
    rw [same]
    simp

/-- A step of the connection looks at the bodies behind a write or a poll. -/
theorem streams_wrote (streams : Streams all (.writing operation) chunks s) :
    Streams all .looking chunks
      { s with
        connection := { s.connection with writes := [] }
        sent := s.sent ++ octets operation } := by
  obtain ⟨socket, contexts, writes, posts, chunked, streamed, queue, some_, last, ended, sent⟩ :=
    streams
  refine ⟨socket, contexts, rfl, posts, (fun waiting => nomatch waiting),
    (fun _ same => nomatch same), ?_, some_, last, (fun ending => nomatch ending), ?_⟩
  · cases stopped : s.stopped with
    | true =>
      rw [stopped] at queue
      exact queue
    | false =>
      rw [stopped] at queue
      exact queue
  · obtain ⟨given, whole, same⟩ := sent
    refine ⟨given, whole, ?_⟩
    simp only [Doing.writes, List.flatMap_cons, List.flatMap_nil, List.append_nil] at same ⊢
    exact same

theorem streams_posted (streams : Streams all (.polling startWaitClock) chunks s) :
    Streams all .looking chunks { s with connection := { s.connection with posts := [] } } := by
  obtain ⟨socket, contexts, writes, posts, chunked, streamed, queue, some_, last, ended, sent⟩ :=
    streams
  refine ⟨socket, contexts, writes, rfl, (fun waiting => nomatch waiting),
    (fun _ same => nomatch same), ?_, some_, last, (fun ending => nomatch ending), sent⟩
  cases stopped : s.stopped with
  | true =>
    rw [stopped] at queue
    exact queue
  | false =>
    rw [stopped] at queue
    exact queue

theorem streams_started (env : Environment) (streams : Streams all .waiting chunks s) :
    ∃ c response, s.connection.step env (.respond s.connection.response) = some c ∧
      Streams all (.writing (.chunkedHeader response)) chunks { s with connection := c } := by
  obtain ⟨socket, contexts, writes, posts, chunked, streamed, queue, some_, last, ended, sent⟩ :=
    streams
  obtain ⟨response, written, bodies⟩ := startWrite_chunked
    (c := { s.connection with contexts := s.connection.contexts - 1 }) (chunked rfl) socket
  have running : ¬s.connection.contexts = 0 := by
    rw [contexts]
    exact Nat.one_ne_zero
  have stepped : s.connection.step env (.respond s.connection.response) = some _ :=
    (if_neg running).trans written
  refine ⟨_, response, stepped, ?_⟩
  refine ⟨socket, ?_, ?_, posts, (fun waiting => nomatch waiting), (fun _ same => nomatch same), ?_,
    some_, last, (fun ending => nomatch ending), sent⟩
  · simp only [contexts]
    rfl
  · simp only [writes]
    rfl
  · simp only [bodies, queue]
    cases stopped : s.stopped with
    | true => rfl
    | false => rfl

theorem streams_start {c : Connection} (opened : Opened c) (bodies : List Bytes) :
    Streams bodies .waiting [] (start c bodies) := by
  refine ⟨opened.socket, opened.context, opened.writes, opened.posts, fun _ => opened.chunked,
    ?_, opened.bodies, ?_, ?_, ?_, [], rfl, rfl⟩
  · intro _ same
    cases same
  · intro _ member
    cases member
  · intro stopped
    cases stopped
  · intro ending
    cases ending

theorem inTime_zero (now : Int) : InTime 0 now := fun both => absurd both.1 (Int.lt_irrefl 0)

theorem connection_wrote {env : Environment} (streams : Streams all (.writing operation) chunks s)
    (now : Int) :
    s.connection.step env (.wrote 0 now) =
      { s.connection with writes := [] }.doWriteNextChunkedBody 0 now := by
  have writes : s.connection.writes = [operation] := streams.writes
  simp only [Connection.step, writes, List.getElem?_cons_zero, Option.bind_some,
    List.eraseIdx_cons_zero]
  cases operation with
  | response response => exact absurd rfl (streams.streamed response)
  | chunkedHeader response => rfl
  | chunkedBody data => rfl

theorem connection_posted {env : Environment}
    (streams : Streams all (.polling startWaitClock) chunks s) (now : Int) :
    s.connection.step env (.posted 0 now) =
      { s.connection with posts := [] }.doWriteNextChunkedBody startWaitClock now := by
  have posts : s.connection.posts = [startWaitClock] := streams.posts
  simp only [Connection.step, posts, List.getElem?_cons_zero, Option.bind_some,
    List.eraseIdx_cons_zero]

theorem waiting_of_running (streams : Streams all doing chunks s)
    (running : s.connection.contexts ≠ 0) : doing = .waiting := by
  rw [streams.contexts] at running
  cases doing with
  | waiting => rfl
  | writing operation => exact absurd rfl running
  | looking => exact absurd rfl running
  | polling startWaitClock => exact absurd rfl running
  | ended => exact absurd rfl running

theorem writing_of_outstanding (streams : Streams all doing chunks s)
    (outstanding : s.connection.writes[index]? = some operation) :
    index = 0 ∧ doing = .writing operation := by
  rw [streams.writes] at outstanding
  cases doing with
  | writing current =>
    cases index with
    | succ index => cases outstanding
    | zero => exact ⟨rfl, congrArg Doing.writing (Option.some.inj outstanding)⟩
  | waiting => cases outstanding
  | looking => cases outstanding
  | polling startWaitClock => cases outstanding
  | ended => cases outstanding

theorem polling_of_outstanding (streams : Streams all doing chunks s)
    (outstanding : s.connection.posts[index]? = some startWaitClock) :
    index = 0 ∧ doing = .polling startWaitClock := by
  rw [streams.posts] at outstanding
  cases doing with
  | polling current =>
    cases index with
    | succ index => cases outstanding
    | zero => exact ⟨rfl, congrArg Doing.polling (Option.some.inj outstanding)⟩
  | waiting => cases outstanding
  | writing operation => cases outstanding
  | looking => cases outstanding
  | ended => cases outstanding

/-- What holds of every state that a run reaches. -/
def Reached (all : List Bytes) (s : Streaming) : Prop :=
  ∃ doing chunks, doing ≠ .looking ∧ Streams all doing chunks s

theorem reached_step {env : Environment} (reached : Reached all s)
    (stepped : s.step env e = some t) : Reached all t := by
  obtain ⟨doing, chunks, resting, streams⟩ := reached
  cases e with
  | nextChunkedResponse =>
    rw [step] at stepped
    split at stepped
    · cases stepped
    · rename_i body others rest
      cases stepped
      exact ⟨doing, _, resting, streams_push streams rest⟩
  | stopChunkedResponse =>
    rw [step] at stepped
    split at stepped
    · rename_i both
      cases stepped
      have none := List.isEmpty_iff.mp both.1
      exact ⟨doing, _, resting, streams_stop streams none (Bool.eq_false_iff.mpr both.2)⟩
    · cases stepped
  | startWrite =>
    obtain ⟨c, written, rfl⟩ := Option.map_eq_some_iff.mp stepped
    have running : s.connection.contexts ≠ 0 := by
      intro none
      simp only [Connection.step, none, if_true] at written
      cases written
    obtain rfl := waiting_of_running streams running
    obtain ⟨d, response, started, further⟩ := streams_started env streams
    rw [written] at started
    cases started
    exact ⟨.writing (.chunkedHeader response), chunks, (fun same => nomatch same), further⟩
  | wrote index now =>
    obtain ⟨operation, outstanding, written⟩ := Option.bind_eq_some_iff.mp stepped
    obtain ⟨c, completed, rfl⟩ := Option.map_eq_some_iff.mp written
    obtain ⟨rfl, rfl⟩ := writing_of_outstanding streams outstanding
    obtain ⟨d, doing, others, looked, further, resting, -⟩ :=
      streams_looked (streams_wrote streams) (inTime_zero now)
    rw [connection_wrote streams now, looked] at completed
    cases completed
    exact ⟨doing, others, resting, further⟩
  | posted index now =>
    obtain ⟨startWaitClock, outstanding, looked⟩ := Option.bind_eq_some_iff.mp stepped
    obtain ⟨rfl, rfl⟩ := polling_of_outstanding streams outstanding
    split at looked
    · rename_i inTime
      obtain ⟨c, completed, rfl⟩ := Option.map_eq_some_iff.mp looked
      obtain ⟨d, doing, others, looked, further, resting, -⟩ :=
        streams_looked (streams_posted streams) inTime
      rw [connection_posted streams now, looked] at completed
      cases completed
      exact ⟨doing, others, resting, further⟩
    · cases looked

/-- How many steps are left when the producer goes first. -/
def left (s : Streaming) (doing : Doing) (chunks : List Bytes) : Nat :=
  3 * s.bodies.length + (if s.stopped then 0 else 6) + 2 * chunks.length + doing.weight

theorem ended_iff (streams : Streams all doing chunks s) (resting : doing ≠ .looking) :
    s.Ended ↔ doing = .ended := by
  rw [Ended, streams.contexts, streams.writes, streams.posts]
  cases doing with
  | waiting => exact iff_of_false (fun all => nomatch all.1) fun same => nomatch same
  | writing operation => exact iff_of_false (fun all => nomatch all.2.1) fun same => nomatch same
  | looking => exact absurd rfl resting
  | polling startWaitClock =>
    exact iff_of_false (fun all => nomatch all.2.2) fun same => nomatch same
  | ended => exact iff_of_true ⟨rfl, rfl, rfl⟩ rfl

/-- The producer goes on, and then the connection does. -/
theorem streams_advance (env : Environment) (streams : Streams all doing chunks s)
    (resting : doing ≠ .looking) (going : doing ≠ .ended) :
    ∃ e t further others, s.step env e = some t ∧ Streams all further others t ∧
      further ≠ .looking ∧ t.left further others < s.left doing chunks := by
  cases rest : s.bodies with
  | cons body bodies =>
    refine ⟨.nextChunkedResponse, _, doing, _, ?_, streams_push streams rest, resting, ?_⟩
    · rw [step, rest]
      rfl
    · simp only [left, rest, List.length_append, List.length_cons, List.length_nil]
      omega
  | nil =>
    cases stopped : s.stopped with
    | false =>
      refine ⟨.stopChunkedResponse, _, doing, _, ?_, streams_stop streams rest stopped, resting, ?_⟩
      · rw [step, rest, stopped]
        rfl
      · simp only [left, rest, stopped, List.length_append, List.length_cons, List.length_nil,
          if_true, Bool.false_eq_true, if_false]
        omega
    | true =>
      cases doing with
      | ended => exact absurd rfl going
      | looking => exact absurd rfl resting
      | waiting =>
        obtain ⟨c, response, started, further⟩ := streams_started env streams
        refine ⟨.startWrite, { s with connection := c }, _, chunks, ?_, further,
          (fun same => nomatch same), ?_⟩
        · rw [step, started]
          rfl
        · exact Nat.lt_succ_self _
      | writing operation =>
        obtain ⟨c, doing, others, looked, further, resting, closer⟩ :=
          streams_looked (streams_wrote streams) (inTime_zero 0)
        have writes : s.connection.writes = [operation] := streams.writes
        refine ⟨.wrote 0 0, _, doing, others, ?_, further, resting, ?_⟩
        · rw [step, writes, List.getElem?_cons_zero, Option.bind_some, connection_wrote streams 0,
            looked]
          rfl
        · have nearer := closer stopped
          simp only [left, Doing.weight] at nearer ⊢
          omega
      | polling startWaitClock =>
        have inTime : InTime startWaitClock startWaitClock := by
          rintro ⟨-, late⟩
          rw [Int.sub_self, Int.zero_tdiv] at late
          omega
        obtain ⟨c, doing, others, looked, further, resting, closer⟩ :=
          streams_looked (streams_posted streams) inTime
        have posts : s.connection.posts = [startWaitClock] := streams.posts
        refine ⟨.posted 0 startWaitClock, _, doing, others, ?_, further, resting, ?_⟩
        · rw [step, posts, List.getElem?_cons_zero, Option.bind_some, if_pos inTime,
            connection_posted streams startWaitClock, looked]
          rfl
        · have nearer := closer stopped
          simp only [left, Doing.weight] at nearer ⊢
          omega

/-- Every state that a run reaches can go on to the end. -/
theorem ends {env : Environment} (n : Nat) (streams : Streams all doing chunks s)
    (resting : doing ≠ .looking) (bound : s.left doing chunks ≤ n) :
    ∃ events t, Transition.run (step env) s events = some t ∧ t.Ended := by
  induction n generalizing s doing chunks with
  | zero =>
    by_cases going : doing = .ended
    · exact ⟨[], s, rfl, (ended_iff streams resting).mpr going⟩
    · obtain ⟨e, t, further, others, -, -, -, closer⟩ :=
        streams_advance env streams resting going
      omega
  | succ n ih =>
    by_cases going : doing = .ended
    · exact ⟨[], s, rfl, (ended_iff streams resting).mpr going⟩
    · obtain ⟨e, t, further, others, stepped, streams, resting, closer⟩ :=
        streams_advance env streams resting going
      obtain ⟨events, u, ran, ending⟩ := ih streams resting (by omega)
      refine ⟨e :: events, u, ?_, ending⟩
      rw [Transition.run, stepped, Option.bind_some]
      exact ran

theorem sent_of_ended (streams : Streams all .ended chunks s) : s.sent = chunkedMessage all := by
  obtain ⟨given, whole, same⟩ := streams.sent
  obtain ⟨stopped, none⟩ := streams.ended rfl
  rw [streams.last stopped, List.append_nil] at whole
  rw [stopped, none] at same
  simp only [Doing.writes, List.flatMap_nil, List.flatten_nil, List.append_nil, if_true] at same
  rw [same, whole, chunkedMessage]

/-- However the producer and the connection take turns, the end is within reach, and
what has been written there is a chunked message with the bodies as its content, and
nothing behind it, exactly if no body is empty. -/
theorem streamed_iff (env : Environment) {c : Connection} (opened : Opened c) (bodies : List Bytes)
    (ran : Transition.run (step env) (start c bodies) events = some s) :
    (∃ more t, Transition.run (step env) s more = some t ∧ t.Ended) ∧
      (s.Ended → (ChunkedCoding.decode s.sent = some (bodies.flatten, []) ↔
        ∀ body ∈ bodies, body ≠ [])) := by
  have initial : Reached bodies (start c bodies) :=
    ⟨.waiting, [], (fun same => nomatch same), streams_start opened bodies⟩
  obtain ⟨doing, chunks, resting, streams⟩ := Transition.run_invariant reached_step initial ran
  refine ⟨ends _ streams resting (Nat.le_refl _), fun ending => ?_⟩
  obtain rfl := (ended_iff streams resting).mp ending
  rw [sent_of_ended streams]
  exact decode_chunkedMessage_iff bodies

def chunkedConnection : Connection :=
  { response := Response.constructed.markChunked, contexts := 1 }

theorem opened_chunkedConnection : Opened chunkedConnection :=
  ⟨by decide, rfl, rfl, rfl, rfl, rfl⟩

theorem streamed_iff_oneBody :
    ∃ s, Transition.run (step (.single .root)) (start chunkedConnection [[97]])
        [.startWrite, .wrote 0 0, .nextChunkedResponse, .posted 0 0, .stopChunkedResponse,
          .wrote 0 0, .wrote 0 0] = some s ∧
      ChunkedCoding.decode s.sent = some ([97], []) := by
  have ran : Transition.run (step (.single .root)) (start chunkedConnection [[97]])
      [.startWrite, .wrote 0 0, .nextChunkedResponse, .posted 0 0, .stopChunkedResponse,
        .wrote 0 0, .wrote 0 0] = some _ := rfl
  obtain ⟨-, decoded⟩ := streamed_iff (.single .root) opened_chunkedConnection [[97]] ran
  exact ⟨_, ran, (decoded ⟨rfl, rfl, rfl⟩).mpr (by decide)⟩

/-- An empty body ends the message early. -/
theorem emptyBody_ends_early :
    ∃ s, Transition.run (step (.single .root)) (start chunkedConnection [[], [97]])
        [.nextChunkedResponse, .nextChunkedResponse, .stopChunkedResponse, .startWrite,
          .wrote 0 0, .wrote 0 0, .wrote 0 0, .wrote 0 0] = some s ∧
      s.Ended ∧ ChunkedCoding.decode s.sent ≠ some ([97], []) :=
  ⟨_, rfl, ⟨rfl, rfl, rfl⟩, by decide⟩

end Streaming
end Da4qi4
