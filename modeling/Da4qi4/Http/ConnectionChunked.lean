import Da4qi4.Http.ConnectionPersistence
import Da4qi4.Http.ResponseText
import Mathlib.Data.List.TakeWhile

/-! A chunked response as a client reads it: the header block that the connection writes
first says that the content comes in chunks, and the chunks follow. -/
namespace Da4qi4
open Utilities
open ResponseFraming (Method isBodiless sameName decimal)
open ChunkedCoding (crlf)

namespace Response

/-- A status code of three digits, a version of two, and headers that stay on their lines. -/
structure Writable (r : Response) (cookies : List Bytes) : Prop where
  least : 100 ≤ r.statusCode
  most : r.statusCode ≤ 999
  headers : ∀ h ∈ r.headers.entries,
    h.1 ≠ [] ∧ h.1.all ResponseFraming.isTokenChar = true ∧ IsLine h.2
  cookies : ∀ cookie ∈ cookies, IsLine cookie
  major : r.versionMajor < 10
  minor : r.versionMinor < 10

/-- Marked as chunked, whatever else the headers say. -/
structure Chunkable (r : Response) (cookies : List Bytes) : Prop extends r.Writable cookies where
  chunked : r.isChunked = true

variable {r : Response} {cookies : List Bytes}

theorem Writable.appendHeader (writable : r.Writable cookies) (some_ : field ≠ [])
    (token : field.all ResponseFraming.isTokenChar = true) (line : IsLine value) :
    (r.appendHeader field value).Writable cookies := by
  refine { writable with headers := fun h member => ?_ }
  rcases OrderedMap.mem_assign member with old | ⟨same, key | ⟨f, old, key⟩⟩
  · exact writable.headers h old
  · exact ⟨key ▸ some_, key ▸ token, same ▸ line⟩
  · obtain ⟨named, tokens, -⟩ := writable.headers f old
    exact ⟨key ▸ named, key ▸ tokens, same ▸ line⟩

theorem Writable.setVersion (writable : r.Writable cookies) : (r.setVersion 1 1).Writable cookies :=
  { writable with major := Nat.one_lt_ofNat, minor := Nat.one_lt_ofNat }

theorem Writable.markChunked (writable : r.Writable cookies) : r.markChunked.Chunkable cookies := by
  have marked : (r.appendHeader transferEncodingField chunkedValue).isChunked = true := by
    rw [isChunked, tryGetHeader_appendHeader]
    decide
  have appended : (r.appendHeader transferEncodingField chunkedValue).Writable cookies :=
    writable.appendHeader (by decide) (by decide) (by decide)
  rw [Response.markChunked]
  split
  · exact { appended.setVersion with chunked := marked }
  · exact { appended with chunked := marked }

theorem Chunkable.setVersion (chunkable : r.Chunkable cookies) :
    (r.setVersion 1 1).Chunkable cookies :=
  { chunkable.toWritable.setVersion with chunked := chunkable.chunked }

theorem Chunkable.markKeepAlive (chunkable : r.Chunkable cookies) :
    r.markKeepAlive.Chunkable cookies := by
  have other : foldCase connectionField ≠ foldCase transferEncodingField := by decide
  have chunked := chunkable.chunked
  have appended : r.markKeepAlive.Writable cookies :=
    chunkable.toWritable.appendHeader (by decide) (by decide) (by decide)
  refine { appended with chunked := ?_ }
  simp only [isChunked, Response.markKeepAlive, Response.appendHeader, tryGetHeader,
    Utilities.tryGetHeader, OrderedMap.lookup, OrderedMap.find_assign_other _ _ other] at chunked ⊢
  exact chunked

def chunkedHeaders (r : Response) (cookies : List Bytes) : List (Bytes × Bytes) :=
  r.headers.entries ++ cookies.map fun cookie => (setCookieField, cookie)

theorem text_eq_chunkedBlock (chunked : r.isChunked = true) (cookies : List Bytes) :
    r.text cookies =
      ResponseFraming.block r.statusText ((r.chunkedHeaders cookies).map headerText) := by
  have coded : ¬¬r.isChunked = true := not_not.mpr chunked
  rw [text, if_neg coded, ResponseFraming.block, chunkedHeaders]
  simp only [List.map_append, List.map_map, List.flatMap_append, List.flatMap_map,
    List.append_assoc, Function.comp_def]

theorem Chunkable.statusLine (chunkable : r.Chunkable cookies) :
    ResponseFraming.statusLine r.statusText = some r.statusCode := by
  have plain : ({ r with headers := .empty } : Response).Sendable [] :=
    ⟨⟨chunkable.least, chunkable.most, rfl, List.forall_mem_nil _, List.forall_mem_nil _⟩,
      chunkable.major, chunkable.minor⟩
  have read := statusLine_statusText plain
  exact read

theorem Chunkable.isField (chunkable : r.Chunkable cookies) :
    List.Forall₂ ResponseFraming.IsField ((r.chunkedHeaders cookies).map headerText)
      ((r.chunkedHeaders cookies).map parsedHeader) := by
  rw [List.forall₂_map_left_iff, List.forall₂_map_right_iff]
  apply List.forall₂_same.mpr
  intro h member
  rcases List.mem_append.mp member with header | cookie
  · obtain ⟨some_, token, line⟩ := chunkable.headers h header
    exact isField_headerText some_ token line.1
  · obtain ⟨value, given, rfl⟩ := List.mem_map.mp cookie
    exact isField_headerText (by decide) (by decide) (chunkable.cookies value given).1

/-- The coding that is marked is the last one that a client finds. -/
theorem finalCoding_chunked (exactly : iEquals value chunkedValue = true) :
    sameName (ResponseFraming.finalCoding [ResponseFraming.trimBlanks value]) chunkedValue = true := by
  rw [iEquals_iff] at exactly
  have absent (c : UInt8) (other : charValue (toUpper c) ∉ foldCase chunkedValue) : c ∉ value := by
    intro member
    apply other
    rw [← exactly]
    exact List.mem_map_of_mem member
  have unblank : ∀ c ∈ value, ResponseFraming.isBlank c = false := by
    intro c member
    rw [ResponseFraming.isBlank, Bool.or_eq_false_iff, decide_eq_false_iff_not,
      decide_eq_false_iff_not]
    constructor
    · rintro rfl
      exact absent 32 (by decide) member
    · rintro rfl
      exact absent 9 (by decide) member
  have noComma : (44 : UInt8) ∉ value := absent 44 (by decide)
  have whole : value.reverse.takeWhile (· ≠ 44) = value.reverse := by
    refine List.takeWhile_eq_self_iff.mpr fun c member => decide_eq_true ?_
    rintro rfl
    exact noComma (List.mem_reverse.mp member)
  have last : ResponseFraming.finalCoding [ResponseFraming.trimBlanks value] = value := by
    rw [ResponseFraming.trimBlanks_unblank unblank, ResponseFraming.finalCoding,
      List.getLast?_singleton, Option.getD_some, whole, List.reverse_reverse,
      ResponseFraming.trimBlanks_unblank unblank]
  rw [last]
  exact (sameName_iff value chunkedValue).mpr exactly

theorem Chunkable.bodyLength (chunkable : r.Chunkable cookies)
    (bodied : isBodiless method r.statusCode = false) (kept : method ≠ .connect) :
    ResponseFraming.bodyLength method r.statusCode
      ((r.chunkedHeaders cookies).map parsedHeader) = some .chunked := by
  have here : (fun f : Bytes × Bytes => sameName f.1 ResponseFraming.transferEncoding) =
      OrderedMap.isAt foldCase transferEncodingField := by
    funext f
    rw [Bool.eq_iff_iff, sameName_iff, OrderedMap.isAt_iff]
    rfl
  have others : ResponseFraming.values ResponseFraming.transferEncoding
      ((cookies.map fun cookie => (setCookieField, cookie)).map parsedHeader) = [] := by
    apply ResponseFraming.values_nil
    intro f member
    obtain ⟨h, entry, rfl⟩ := List.mem_map.mp member
    obtain ⟨cookie, -, rfl⟩ := List.mem_map.mp entry
    exact (by decide : sameName setCookieField ResponseFraming.transferEncoding = false)
  have chunked := chunkable.chunked
  cases found : r.headers.find transferEncodingField with
  | none =>
    rw [isChunked, tryGetHeader, Utilities.tryGetHeader, OrderedMap.lookup, found] at chunked
    cases chunked
  | some e =>
    rw [isChunked, tryGetHeader, Utilities.tryGetHeader, OrderedMap.lookup, found, Option.map_some,
      Option.any_some] at chunked
    have coded : ResponseFraming.values ResponseFraming.transferEncoding
        ((r.chunkedHeaders cookies).map parsedHeader) = [ResponseFraming.trimBlanks e.2] := by
      rw [chunkedHeaders, List.map_append, ResponseFraming.values_append, others,
        List.append_nil, ResponseFraming.values, List.filter_map]
      change List.map Prod.snd (List.map parsedHeader (r.headers.entries.filter fun f =>
        sameName f.1 ResponseFraming.transferEncoding)) = _
      rw [here, OrderedMap.filter_isAt, found]
      rfl
    have final : sameName (ResponseFraming.finalCoding [ResponseFraming.trimBlanks e.2])
        (Bytes.ofAscii "chunked") = true := finalCoding_chunked chunked
    rw [ResponseFraming.bodyLength, if_neg (Bool.eq_false_iff.mp bodied),
      if_neg fun both => kept both.1, coded, if_pos (List.cons_ne_nil _ _), if_pos final]

/-- The header block and the chunks are one message, with the bodies as its content. -/
theorem readMessage_chunked (chunkable : r.Chunkable cookies)
    (bodied : isBodiless method r.statusCode = false) (kept : method ≠ .connect)
    {bodies : List Bytes} (some_ : ∀ body ∈ bodies, body ≠ []) (rest : Bytes) :
    ResponseFraming.readMessage method (r.text cookies ++ (chunkedMessage bodies ++ rest)) =
      some (⟨r.statusCode, bodies.flatten, r.text cookies ++ chunkedMessage bodies⟩, rest) := by
  have ends : ResponseFraming.readBody .chunked (chunkedMessage bodies ++ rest) =
      some (bodies.flatten, rest) := decode_chunks some_ rest
  rw [text_eq_chunkedBlock chunkable.chunked]
  exact ResponseFraming.readMessage_block (return_not_mem_statusText r) chunkable.statusLine
    chunkable.isField (chunkable.bodyLength bodied kept) ends

/-- All bodies, and the mark behind them. -/
def given (r : Response) (bodies : List Bytes) : Response :=
  (bodies.foldl (fun r body => r.pushChunkedBody body false) r).pushChunkedBody [] true

theorem given_eq (r : Response) (bodies : List Bytes) :
    r.given bodies = { r with chunkedBodies := (r.given bodies).chunkedBodies } := by
  have pushed : bodies.foldl (fun r body => r.pushChunkedBody body false) r =
      { r with chunkedBodies :=
        (bodies.foldl (fun r body => r.pushChunkedBody body false) r).chunkedBodies } := by
    induction bodies generalizing r with
    | nil => rfl
    | cons body bodies ih =>
      rw [List.foldl_cons, ih]
      rfl
  rw [given, pushed]
  rfl

theorem Chunkable.prepared {c : Connection} (chunkable : c.response.Chunkable cookies) :
    c.prepareResponseHeadersForChunkedWrite.response.Chunkable cookies ∧
      c.prepareResponseHeadersForChunkedWrite.response.statusCode = c.response.statusCode := by
  simp only [Connection.prepareResponseHeadersForChunkedWrite, chunkable.chunked, if_true]
  split
  · split
    · exact ⟨chunkable.setVersion, rfl⟩
    · exact ⟨chunkable.setVersion.markKeepAlive, rfl⟩
  · split
    · exact ⟨chunkable, rfl⟩
    · exact ⟨chunkable.markKeepAlive, rfl⟩

end Response

namespace Connection

/-- The header block of a chunked response. -/
def chunkedHead (c : Connection) (cookies : List Bytes) : Bytes :=
  c.prepareResponseHeadersForChunkedWrite.response.text cookies

/-- The header block says nothing about the bodies. -/
theorem chunkedHead_bodies {c : Connection} (chunked : c.response.isChunked = true)
    (bodies : List (Bytes × Bool)) (cookies : List Bytes) :
    { c with response := { c.response with chunkedBodies := bodies } }.chunkedHead cookies =
      c.chunkedHead cookies := by
  have still : { c.response with chunkedBodies := bodies }.isChunked = true := chunked
  have marked (r : Response) (bodies : List (Bytes × Bool)) :
      (if { r with chunkedBodies := bodies }.isClose then { r with chunkedBodies := bodies }
        else { r with chunkedBodies := bodies }.markKeepAlive).text cookies =
      (if r.isClose then r else r.markKeepAlive).text cookies := by
    change (if r.isClose then _ else _ : Response).text cookies = _
    cases r.isClose with
    | true => rfl
    | false => rfl
  have versioned (r : Response) (bodies : List (Bytes × Bool)) :
      (if Response.isOld r.versionMajor r.versionMinor then
        { r with chunkedBodies := bodies }.setVersion 1 1
        else { r with chunkedBodies := bodies }) =
      { (if Response.isOld r.versionMajor r.versionMinor then r.setVersion 1 1 else r) with
        chunkedBodies := bodies } := by
    cases Response.isOld r.versionMajor r.versionMinor with
    | true => rfl
    | false => rfl
  simp only [chunkedHead, prepareResponseHeadersForChunkedWrite, chunked, still, if_true]
  rw [versioned c.response]
  exact marked _ _

/-- What the connection writes next are chunks. -/
theorem doWriteNextChunkedBody_chunks {c d : Connection}
    (looked : c.doWriteNextChunkedBody startWaitClock now = some d) :
    d.contexts = c.contexts ∧ ∃ chunks : List Bytes,
      d.writes = c.writes ++ chunks.map .chunkedBody := by
  have popped : ∃ response, c.response.popChunkedBody.2 = response := ⟨_, rfl⟩
  obtain ⟨response, rest⟩ := popped
  simp only [doWriteNextChunkedBody, rest] at looked
  split at looked
  · cases looked
    exact ⟨rfl, [], (List.append_nil _).symm⟩
  · split at looked
    · split at looked
      · cases looked
        exact ⟨rfl, [], (List.append_nil _).symm⟩
      · cases looked
        exact ⟨rfl, [], (List.append_nil _).symm⟩
    · rw [asyncWrite] at looked
      split at looked
      · cases looked
        exact ⟨rfl, [_], rfl⟩
      · cases looked

theorem startWrite_head (cookies : List Bytes) {c : Connection} (chunked : c.response.isChunked = true)
    (socket : c.socket = true) :
    ∃ written : Response, c.startWrite =
        some { c with response := written, writes := c.writes ++ [.chunkedHeader written] } ∧
      written.text cookies = c.chunkedHead cookies := by
  refine ⟨c.prepareResponseHeadersForChunkedWrite.response, ?_, rfl⟩
  rw [startWrite, if_pos chunked, doWriteHeaderForChunked]
  exact if_pos socket

end Connection

namespace Streaming

/-- A chunked response on its way, with all that has been written of it. -/
structure OnWire where
  streaming : Streaming
  wire : Bytes := []

/-- The octets of an operation, the header block among them. -/
def wireOctets (cookies : List Bytes) : WriteOperation → Bytes
  | .response written => written.text cookies
  | .chunkedHeader written => written.text cookies
  | .chunkedBody data => data

/-- The operation that an event completes. -/
def completes (s : Streaming) : Event → List WriteOperation
  | .wrote index _ => (s.connection.writes[index]?).toList
  | _ => []

def OnWire.step (env : Environment) (cookies : List Bytes) (s : OnWire) (e : Event) :
    Option OnWire :=
  (s.streaming.step env e).map fun t =>
    ⟨t, s.wire ++ (completes s.streaming e).flatMap (wireOctets cookies)⟩

/-- As long as the context runs nothing is written; then the header block comes first. -/
structure HeadFirst (head : Bytes) (cookies : List Bytes) (s : OnWire) : Prop where
  running : s.streaming.connection.contexts ≠ 0 →
    s.wire = [] ∧ s.streaming.sent = [] ∧ s.streaming.connection.chunkedHead cookies = head
  ended : s.streaming.connection.contexts = 0 →
    s.wire ++ s.streaming.connection.writes.flatMap (wireOctets cookies) =
      head ++ (s.streaming.sent ++ s.streaming.connection.writes.flatMap octets)

variable {env : Environment} {all cookies : List Bytes} {head : Bytes} {s t : OnWire}

theorem wireOctets_chunks (cookies chunks : List Bytes) :
    (chunks.map WriteOperation.chunkedBody).flatMap (wireOctets cookies) =
      (chunks.map WriteOperation.chunkedBody).flatMap octets := by
  rw [List.flatMap_map, List.flatMap_map]
  rfl

/-- A push changes neither what is outstanding nor the header block. -/
theorem HeadFirst.pushed (first : HeadFirst head cookies s) (reached : Reached all s.streaming)
    (body : Bytes) (isLast : Bool) (bodies : List Bytes) (stopped : Bool) :
    HeadFirst head cookies ⟨{ s.streaming with
      connection := { s.streaming.connection with
        response := s.streaming.connection.response.pushChunkedBody body isLast }
      bodies := bodies, stopped := stopped }, s.wire⟩ := by
  obtain ⟨doing, chunks, -, streams⟩ := reached
  refine ⟨fun running => ?_, first.ended⟩
  obtain ⟨wire, sent, same⟩ := first.running running
  have chunked := streams.chunked (waiting_of_running streams running)
  exact ⟨wire, sent, (Connection.chunkedHead_bodies chunked _ cookies).trans same⟩

/-- The connection has looked at the bodies behind what it has written. -/
theorem HeadFirst.looked {c d : Connection} {startWaitClock now : Int}
    (looked : c.doWriteNextChunkedBody startWaitClock now = some d) (idle : c.writes = [])
    (finished : c.contexts = 0) {streaming : Streaming} {wire : Bytes}
    (same : wire = head ++ streaming.sent) :
    HeadFirst head cookies ⟨{ streaming with connection := d }, wire⟩ := by
  obtain ⟨contexts, chunks, writes⟩ := Connection.doWriteNextChunkedBody_chunks looked
  rw [finished] at contexts
  rw [idle, List.nil_append] at writes
  refine ⟨fun running => absurd contexts running, fun _ => ?_⟩
  change wire ++ d.writes.flatMap (wireOctets cookies) =
    head ++ (streaming.sent ++ d.writes.flatMap octets)
  rw [writes, wireOctets_chunks, same, List.append_assoc]

theorem headFirst_step (first : HeadFirst head cookies s) (reached : Reached all s.streaming)
    (stepped : s.step env cookies e = some t) : HeadFirst head cookies t := by
  obtain ⟨streaming, moved, rfl⟩ := Option.map_eq_some_iff.mp stepped
  have silent (none : completes s.streaming e = []) :
      s.wire ++ (completes s.streaming e).flatMap (wireOctets cookies) = s.wire := by
    rw [none, List.flatMap_nil, List.append_nil]
  cases e with
  | nextChunkedResponse =>
    rw [silent rfl]
    rw [step] at moved
    split at moved
    · cases moved
    · rename_i body others rest
      cases moved
      exact first.pushed reached body false others _
  | stopChunkedResponse =>
    rw [silent rfl]
    rw [step] at moved
    split at moved
    · cases moved
      exact first.pushed reached [] true _ true
    · cases moved
  | startWrite =>
    rw [silent rfl]
    obtain ⟨c, started, rfl⟩ := Option.map_eq_some_iff.mp moved
    obtain ⟨doing, chunks, -, streams⟩ := reached
    have running : s.streaming.connection.contexts ≠ 0 := by
      intro none
      simp only [Connection.step, none, if_true] at started
      cases started
    obtain ⟨wire, sent, same⟩ := first.running running
    obtain rfl := waiting_of_running streams running
    obtain ⟨written, writing, text⟩ := Connection.startWrite_head cookies
      (c := { s.streaming.connection with contexts := s.streaming.connection.contexts - 1 })
      (streams.chunked rfl) streams.socket
    rw [Connection.step, if_neg running] at started
    cases writing.symm.trans started
    refine ⟨fun more => absurd ?_ more, fun _ => ?_⟩
    · change s.streaming.connection.contexts - 1 = 0
      rw [streams.contexts]
      rfl
    · have idle : s.streaming.connection.writes = [] := streams.writes
      change s.wire ++ (s.streaming.connection.writes ++ [_]).flatMap (wireOctets cookies) =
        head ++ (s.streaming.sent ++ (s.streaming.connection.writes ++ [_]).flatMap octets)
      rw [idle, wire, sent]
      simp only [List.nil_append, List.flatMap_cons, List.flatMap_nil, List.append_nil, wireOctets,
        octets]
      exact text.trans same
  | wrote index now =>
    obtain ⟨operation, outstanding, written⟩ := Option.bind_eq_some_iff.mp moved
    obtain ⟨c, completed, rfl⟩ := Option.map_eq_some_iff.mp written
    obtain ⟨doing, chunks, -, streams⟩ := reached
    obtain ⟨rfl, rfl⟩ := writing_of_outstanding streams outstanding
    have done : completes s.streaming (.wrote 0 now) = [operation] := by
      rw [completes, outstanding]
      rfl
    have writes : s.streaming.connection.writes = [operation] := streams.writes
    have finished : s.streaming.connection.contexts = 0 := streams.contexts
    have same := first.ended finished
    rw [writes] at same
    rw [connection_wrote streams now] at completed
    rw [done]
    refine @HeadFirst.looked cookies head _ c 0 now completed rfl finished
      { s.streaming with sent := s.streaming.sent ++ octets operation } _ ?_
    simpa using same
  | posted index now =>
    rw [silent rfl]
    obtain ⟨startWaitClock, outstanding, looked⟩ := Option.bind_eq_some_iff.mp moved
    obtain ⟨doing, chunks, -, streams⟩ := reached
    obtain ⟨rfl, rfl⟩ := polling_of_outstanding streams outstanding
    split at looked
    · obtain ⟨c, completed, rfl⟩ := Option.map_eq_some_iff.mp looked
      have idle : s.streaming.connection.writes = [] := streams.writes
      have finished : s.streaming.connection.contexts = 0 := streams.contexts
      have same := first.ended finished
      rw [idle, List.flatMap_nil, List.append_nil, List.flatMap_nil, List.append_nil] at same
      rw [connection_posted streams now] at completed
      exact HeadFirst.looked completed idle finished same
    · cases looked

/-- How much is left when all bodies have been given. -/
def work (s : OnWire) : Nat :=
  2 * s.streaming.connection.response.chunkedBodies.length + 2 * s.streaming.connection.contexts +
    s.streaming.connection.writes.length

theorem work_eq {doing : Doing} {chunks : List Bytes} (streams : Streams all doing chunks s.streaming)
    (stopped : s.streaming.stopped = true) (resting : doing ≠ .looking) :
    work s = 2 * chunks.length + doing.weight := by
  rw [work, streams.queue, streams.contexts, streams.writes, stopped]
  cases doing with
  | looking => exact absurd rfl resting
  | waiting => simp [marked, Doing.contexts, Doing.writes, Doing.weight]; omega
  | writing operation => simp [marked, Doing.contexts, Doing.writes, Doing.weight]; omega
  | polling startWaitClock => simp [marked, Doing.contexts, Doing.writes, Doing.weight]; omega
  | ended => simp [marked, Doing.contexts, Doing.writes, Doing.weight]

/-- Each step of a stopped producer's connection leaves less to do. -/
theorem stopped_step {s t : Streaming} {doing : Doing} {chunks : List Bytes}
    (streams : Streams all doing chunks s) (stopped : s.stopped = true)
    (stepped : s.step env e = some t) :
    t.stopped = true ∧ ∃ further others, further ≠ .looking ∧ Streams all further others t ∧
      2 * others.length + further.weight < 2 * chunks.length + doing.weight := by
  cases e with
  | nextChunkedResponse =>
    rw [step, streams.last stopped] at stepped
    cases stepped
  | stopChunkedResponse =>
    rw [step, if_neg fun both => both.2 stopped] at stepped
    cases stepped
  | startWrite =>
    obtain ⟨c, written, rfl⟩ := Option.map_eq_some_iff.mp stepped
    have running : s.connection.contexts ≠ 0 := by
      intro none
      simp only [Connection.step, none, if_true] at written
      cases written
    obtain rfl := waiting_of_running streams running
    obtain ⟨d, response, started, further⟩ := streams_started env streams
    cases written.symm.trans started
    refine ⟨stopped, .writing (.chunkedHeader response), chunks, ?_, further, Nat.lt_succ_self _⟩
    intro same
    cases same
  | wrote index now =>
    obtain ⟨operation, outstanding, written⟩ := Option.bind_eq_some_iff.mp stepped
    obtain ⟨c, completed, rfl⟩ := Option.map_eq_some_iff.mp written
    obtain ⟨rfl, rfl⟩ := writing_of_outstanding streams outstanding
    obtain ⟨d, doing, others, looked, further, resting, closer⟩ :=
      streams_looked (streams_wrote streams) (inTime_zero now)
    rw [connection_wrote streams now, looked] at completed
    cases completed
    have less := closer stopped
    simp only [Doing.weight] at less ⊢
    exact ⟨stopped, doing, others, resting, further, by omega⟩
  | posted index now =>
    obtain ⟨startWaitClock, outstanding, looked⟩ := Option.bind_eq_some_iff.mp stepped
    obtain ⟨rfl, rfl⟩ := polling_of_outstanding streams outstanding
    split at looked
    · rename_i inTime
      obtain ⟨c, completed, rfl⟩ := Option.map_eq_some_iff.mp looked
      obtain ⟨d, doing, others, looked, further, resting, closer⟩ :=
        streams_looked (streams_posted streams) inTime
      rw [connection_posted streams now, looked] at completed
      cases completed
      exact ⟨stopped, doing, others, resting, further, closer stopped⟩
    · cases looked

/-- All bodies have been given, and the response is on its way. -/
structure Flowing (all : List Bytes) (head : Bytes) (cookies : List Bytes) (s : OnWire) : Prop where
  reached : Reached all s.streaming
  stopped : s.streaming.stopped = true
  first : HeadFirst head cookies s

/-- Nothing is left, and what has been written is the header block and the chunks. -/
def Arrived (all : List Bytes) (head : Bytes) (s : OnWire) : Prop :=
  s.streaming.Ended ∧ s.wire = head ++ chunkedMessage all

theorem Flowing.possible (flowing : Flowing all head cookies s) (going : ¬Arrived all head s) :
    ∃ e t, s.step env cookies e = some t := by
  obtain ⟨⟨doing, chunks, resting, streams⟩, stopped, first⟩ := flowing
  by_cases finished : doing = .ended
  · subst finished
    refine absurd ⟨(ended_iff streams resting).mpr rfl, ?_⟩ going
    have same := first.ended streams.contexts
    have idle : s.streaming.connection.writes = [] := streams.writes
    rw [idle, List.flatMap_nil, List.append_nil, List.flatMap_nil, List.append_nil,
      sent_of_ended streams] at same
    exact same
  · obtain ⟨e, t, -, -, stepped, -⟩ := streams_advance env streams resting finished
    exact ⟨e, _, congrArg (Option.map _) stepped⟩

theorem Flowing.step (flowing : Flowing all head cookies s)
    (stepped : s.step env cookies e = some t) :
    Flowing all head cookies t ∧ work t < work s := by
  have kept := headFirst_step flowing.first flowing.reached stepped
  obtain ⟨⟨doing, chunks, resting, streams⟩, stopped, -⟩ := flowing
  obtain ⟨streaming, moved, rfl⟩ := Option.map_eq_some_iff.mp stepped
  obtain ⟨still, further, others, rests, streamed, less⟩ := stopped_step streams stopped moved
  refine ⟨⟨⟨further, others, rests, streamed⟩, still, kept⟩, ?_⟩
  rw [work_eq streams stopped resting, work_eq streamed still rests]
  exact less

/-- Once all bodies have been given, the end comes. -/
theorem Flowing.arrives (flowing : Flowing all head cookies s) :
    Transition.Inevitable (OnWire.step env cookies) (fun _ _ _ => True) (Arrived all head) s := by
  have possible {s : OnWire} (flowing : Flowing all head cookies s) (going : ¬Arrived all head s) :
      ∃ e t, s.step env cookies e = some t ∧ True := by
    obtain ⟨e, t, stepped⟩ := flowing.possible going
    exact ⟨e, t, stepped, trivial⟩
  have works {s : OnWire} {e : Event} {t : OnWire} (flowing : Flowing all head cookies s)
      (_ : ¬Arrived all head s) (stepped : s.step env cookies e = some t) (_ : True) :
      Arrived all head t ∨ (Flowing all head cookies t ∧ work t < work s) :=
    .inr (flowing.step stepped)
  exact Transition.inevitable_of_work possible works flowing

/-- The producer has given everything before the context ends. -/
def given (c : Connection) (bodies : List Bytes) : OnWire :=
  { streaming := {
      connection := { c with response := c.response.given bodies }
      bodies := [], stopped := true } }

theorem streams_pushes {s : Streaming} {chunks : List Bytes} (streams : Streams all .waiting chunks s) :
    ∃ others, Streams all .waiting others { s with
      connection := { s.connection with
        response := s.bodies.foldl (fun r body => r.pushChunkedBody body false)
          s.connection.response }
      bodies := [] } := by
  generalize left : s.bodies = bodies
  induction bodies generalizing s chunks with
  | nil =>
    refine ⟨chunks, ?_⟩
    have same : s = { s with
        connection := { s.connection with response := s.connection.response }, bodies := [] } := by
      rw [← left]
    rw [List.foldl_nil, ← same]
    exact streams
  | cons body bodies ih => exact ih (streams_push streams left) rfl

theorem flowing_given {c : Connection} (opened : Opened c) (bodies cookies : List Bytes) :
    Flowing bodies (c.chunkedHead cookies) cookies (given c bodies) := by
  obtain ⟨chunks, pushed⟩ := streams_pushes (streams_start opened bodies)
  have streams := streams_stop pushed rfl rfl
  refine ⟨⟨.waiting, _, nofun, streams⟩, rfl, fun _ => ⟨rfl, rfl, ?_⟩, fun ended => ?_⟩
  · have same : (given c bodies).streaming.connection =
        { c with response := { c.response with
          chunkedBodies := (c.response.given bodies).chunkedBodies } } := by
      rw [← Response.given_eq]
      rfl
    rw [same]
    exact Connection.chunkedHead_bodies opened.chunked _ cookies
  · have running : c.contexts = 0 := ended
    rw [opened.context] at running
    cases running

/-- What arrives is one message, with the bodies as its content. -/
theorem arrives_given (env : Environment) {c : Connection} (opened : Opened c)
    (chunkable : c.response.Chunkable cookies)
    (bodied : isBodiless method c.response.statusCode = false) (kept : method ≠ .connect)
    {bodies : List Bytes} (some_ : ∀ body ∈ bodies, body ≠ []) :
    Transition.Inevitable (OnWire.step env cookies) (fun _ _ _ => True)
      (fun t => t.streaming.Ended ∧ ResponseFraming.readMessage method t.wire =
        some (⟨c.response.statusCode, bodies.flatten, t.wire⟩, [])) (given c bodies) := by
  obtain ⟨prepared, status⟩ := chunkable.prepared
  have read := Response.readMessage_chunked prepared (status ▸ bodied) kept some_ []
  rw [List.append_nil, status] at read
  refine (flowing_given opened bodies cookies).arrives.mono fun t arrived => ?_
  obtain ⟨ended, wire⟩ := arrived
  rw [wire]
  exact ⟨ended, read⟩

end Streaming
end Da4qi4
