import Da4qi4.Client.Connection

/-! Whole responses, cut into pieces and read in any way. A header field waits in the
buffers until the next one begins or the header ends; the last field of a trailer waits
behind its message. -/
namespace Da4qi4.Client

def headerCallbacks (h : HeaderPieces) : List ParserCallback :=
  h.field.map .headerField ++ h.value.map .headerValue

/-- A response as it is cut into pieces. -/
structure Response where
  status : List Bytes
  headers : List HeaderPieces
  body : List Bytes
  trailers : List HeaderPieces := []

namespace Response

/-- All callbacks but the last one, behind the first. -/
def inner (r : Response) : List ParserCallback :=
  r.status.map .status ++ (r.headers.flatMap headerCallbacks ++
    (.headersComplete :: (r.body.map .body ++ r.trailers.flatMap headerCallbacks)))

def callbacks (r : Response) : List ParserCallback :=
  .messageBegin :: (r.inner ++ [.messageComplete])

def statusText (r : Response) : Bytes := r.status.flatten

def bodyText (r : Response) : Bytes := r.body.flatten

def pairs (r : Response) : List (Bytes × Bytes) := r.headers.map HeaderPieces.pair

def trailerPairs (r : Response) : List (Bytes × Bytes) := r.trailers.map HeaderPieces.pair

/-- The header fields of the response, of equal names the first. -/
def headerFields (r : Response) : ICHeaders := OrderedMap.empty.insertAll r.pairs

end Response

namespace Connection

/-- Nothing waits in the buffers, or a whole header field. -/
def Settled (c : Connection) : Prop := c.tryCommitReadingResponseHeader.readingHeaderField = []

/-- The header fields, with the one that waits. -/
def held (c : Connection) : ICHeaders := c.tryCommitReadingResponseHeader.responseHeaders

theorem settled_iff (c : Connection) :
    c.Settled ↔ c.readingHeaderPart = .headerValuePart ∨ c.readingHeaderField = [] := by
  rw [Settled, tryCommitReadingResponseHeader]
  split
  · rename_i pending
    exact iff_of_true rfl (.inl pending.1)
  · rename_i idle
    constructor
    · exact .inr
    · rintro (part | empty)
      · by_contra some
        exact idle ⟨part, some⟩
      · exact empty

theorem held_eq (c : Connection) :
    c.held =
      if c.readingHeaderPart = .headerValuePart ∧ c.readingHeaderField ≠ [] then
        c.responseHeaders.insert c.readingHeaderField c.readingHeaderValue
      else c.responseHeaders := by
  rw [held, tryCommitReadingResponseHeader]
  split
  · rfl
  · rfl

theorem tryCommit_tryCommit (c : Connection) :
    c.tryCommitReadingResponseHeader.tryCommitReadingResponseHeader =
      c.tryCommitReadingResponseHeader := by
  by_cases pending : c.readingHeaderPart = .headerValuePart ∧ c.readingHeaderField ≠ []
  · simp [tryCommitReadingResponseHeader, pending]
  · have kept : c.tryCommitReadingResponseHeader = c := if_neg pending
    rw [kept, kept]

theorem execute_append (c : Connection) (first second : List ParserCallback) :
    c.execute (first ++ second) = (c.execute first).execute second :=
  List.foldl_append

theorem foldl_onHeaderField {c : Connection} (settled : c.tryCommitReadingResponseHeader = c)
    (pieces : List Bytes) :
    pieces.foldl onHeaderField c =
      if pieces.flatten = [] then c
      else { c with
        readingHeaderPart := .headerFieldPart
        readingHeaderField := c.readingHeaderField ++ pieces.flatten } := by
  induction pieces generalizing c with
  | nil => rfl
  | cons data pieces ih =>
    rw [List.foldl_cons, List.flatten_cons, onHeaderField, settled]
    by_cases empty : data = []
    · rw [if_neg (not_not_intro empty), ih settled, empty, List.nil_append]
    · rw [if_pos empty, ih (by simp [tryCommitReadingResponseHeader])]
      by_cases none : pieces.flatten = []
      · simp [empty, none]
      · simp [empty, none]

theorem takeField (c : Connection) (h : HeaderPieces) :
    h.field.foldl onHeaderField c =
      { c.tryCommitReadingResponseHeader with
        readingHeaderPart := .headerFieldPart
        readingHeaderField :=
          c.tryCommitReadingResponseHeader.readingHeaderField ++ h.name } := by
  have settled : h.field.foldl onHeaderField c =
      h.field.foldl onHeaderField c.tryCommitReadingResponseHeader := by
    cases pieces : h.field with
    | nil => exact absurd (by rw [pieces]; rfl) h.named
    | cons data pieces =>
      rw [List.foldl_cons, List.foldl_cons, onHeaderField, onHeaderField, tryCommit_tryCommit]
  rw [settled, foldl_onHeaderField (tryCommit_tryCommit c), if_neg h.named]
  rfl

theorem foldl_onHeaderValue {c : Connection} (reading : c.readingHeaderPart = .headerValuePart)
    (pieces : List Bytes) :
    pieces.foldl onHeaderValue c =
      { c with readingHeaderValue := c.readingHeaderValue ++ pieces.flatten } := by
  induction pieces generalizing c with
  | nil => simp
  | cons data pieces ih =>
    rw [List.foldl_cons, ih rfl]
    simp [onHeaderValue, reading]

theorem takeValue {c : Connection} (reading : c.readingHeaderPart = .headerFieldPart)
    (h : HeaderPieces) :
    h.value.foldl onHeaderValue c =
      { c with readingHeaderPart := .headerValuePart, readingHeaderValue := h.text } := by
  rw [HeaderPieces.text]
  cases pieces : h.value with
  | nil => exact absurd pieces h.valued
  | cons data pieces =>
    rw [List.foldl_cons, foldl_onHeaderValue rfl]
    simp [onHeaderValue, reading]

/-- However a field is cut, it waits whole in the buffers, and the one before it is
committed. -/
theorem takeHeader (c : Connection) (h : HeaderPieces) :
    c.execute (headerCallbacks h) =
      { c.tryCommitReadingResponseHeader with
        readingHeaderPart := .headerValuePart
        readingHeaderField := c.tryCommitReadingResponseHeader.readingHeaderField ++ h.name
        readingHeaderValue := h.text } := by
  rw [execute, headerCallbacks, List.foldl_append, List.foldl_map, List.foldl_map]
  change h.value.foldl onHeaderValue (h.field.foldl onHeaderField c) = _
  rw [takeField, takeValue rfl]

/-- The fields that calls and callbacks of header fields leave alone. -/
structure SameMessage (c d : Connection) : Prop where
  isConnected : d.isConnected = c.isConnected
  error : d.error = c.error
  statusBuffer : d.statusBuffer = c.statusBuffer
  responseBody : d.responseBody = c.responseBody

theorem SameMessage.trans {c d e : Connection} (first : SameMessage c d)
    (second : SameMessage d e) : SameMessage c e :=
  ⟨second.isConnected.trans first.isConnected, second.error.trans first.error,
    second.statusBuffer.trans first.statusBuffer, second.responseBody.trans first.responseBody⟩

theorem sameMessage_tryCommit (c : Connection) :
    SameMessage c c.tryCommitReadingResponseHeader := by
  rw [tryCommitReadingResponseHeader]
  split
  · exact ⟨rfl, rfl, rfl, rfl⟩
  · exact ⟨rfl, rfl, rfl, rfl⟩

theorem settled_takeHeader (c : Connection) (h : HeaderPieces) :
    (c.execute (headerCallbacks h)).Settled := by
  have named : c.tryCommitReadingResponseHeader.readingHeaderField ++ h.name ≠ [] := by
    intro none
    exact h.named (List.append_eq_nil_iff.mp none).2
  rw [takeHeader, Settled, tryCommitReadingResponseHeader, if_pos ⟨rfl, named⟩]

theorem held_takeHeader {c : Connection} (settled : c.Settled) (h : HeaderPieces) :
    (c.execute (headerCallbacks h)).held = c.held.insert h.name h.text := by
  have named : c.tryCommitReadingResponseHeader.readingHeaderField ++ h.name ≠ [] := by
    intro none
    exact h.named (List.append_eq_nil_iff.mp none).2
  have name : c.tryCommitReadingResponseHeader.readingHeaderField ++ h.name = h.name := by
    rw [settled, List.nil_append]
  rw [takeHeader, held, tryCommitReadingResponseHeader, if_pos ⟨rfl, named⟩]
  rw [held, ← name]
  simp only [name]

/-- Of several fields the last one waits. -/
structure Taken (c : Connection) (headers : List HeaderPieces) (d : Connection) : Prop where
  same : SameMessage c d
  settled : d.Settled
  held : d.held = c.held.insertAll (headers.map HeaderPieces.pair)
  committed : headers ≠ [] →
    d.responseHeaders = c.held.insertAll (headers.dropLast.map HeaderPieces.pair)

theorem takeHeaders {c : Connection} (settled : c.Settled) (headers : List HeaderPieces) :
    Taken c headers (c.execute (headers.flatMap headerCallbacks)) := by
  induction headers generalizing c with
  | nil => exact ⟨⟨rfl, rfl, rfl, rfl⟩, settled, rfl, fun some => absurd rfl some⟩
  | cons h headers ih =>
    rw [List.flatMap_cons, execute_append]
    obtain ⟨same, after, holds, committed⟩ := ih (settled_takeHeader c h)
    have here : SameMessage c (c.execute (headerCallbacks h)) := by
      rw [takeHeader]
      exact (sameMessage_tryCommit c).trans ⟨rfl, rfl, rfl, rfl⟩
    rw [held_takeHeader settled] at holds committed
    refine ⟨here.trans same, after, holds, fun _ => ?_⟩
    cases headers with
    | nil =>
      change (c.execute (headerCallbacks h)).responseHeaders = c.held
      rw [takeHeader, Connection.held]
    | cons next headers => exact committed (List.cons_ne_nil _ _)

theorem foldl_onStatus (c : Connection) (pieces : List Bytes) :
    c.execute (pieces.map .status) = { c with statusBuffer := c.statusBuffer ++ pieces.flatten } := by
  induction pieces generalizing c with
  | nil => simp [execute]
  | cons data pieces ih =>
    apply (ih (c.onStatus data)).trans
    simp [onStatus]

theorem foldl_onBody (c : Connection) (pieces : List Bytes) :
    c.execute (pieces.map .body) = { c with responseBody := c.responseBody ++ pieces.flatten } := by
  induction pieces generalizing c with
  | nil => simp [execute]
  | cons data pieces ih =>
    apply (ih (c.onBody data)).trans
    simp [onBody]

/-- What a response leaves, given what was there: the text of its status is appended,
its header fields are inserted, and so are its trailer's, of which the last one waits. -/
structure Behind (c : Connection) (r : Response) (d : Connection) : Prop where
  isConnected : d.isConnected = c.isConnected
  error : d.error = c.error
  statusBuffer : d.statusBuffer = c.statusBuffer ++ r.statusText
  responseBody : d.responseBody = r.bodyText
  settled : d.Settled
  responseHeaders : d.responseHeaders = c.held.insertAll (r.pairs ++ r.trailerPairs.dropLast)
  held : d.held = c.held.insertAll (r.pairs ++ r.trailerPairs)

theorem behind_execute {c : Connection} (settled : c.Settled) (r : Response) :
    Behind c r (c.execute r.callbacks) := by
  let begun : Connection := { c.onMessageBegin with statusBuffer := c.statusBuffer ++ r.statusText }
  have heads : Taken begun r.headers (begun.execute (r.headers.flatMap headerCallbacks)) :=
    takeHeaders ((settled_iff begun).mpr ((settled_iff c).mp settled)) r.headers
  generalize opened : begun.execute (r.headers.flatMap headerCallbacks) = read at heads
  let complete : Connection := { read.onHeadersComplete with
    responseBody := read.onHeadersComplete.responseBody ++ r.bodyText }
  have empty : complete.readingHeaderField = [] := heads.settled
  have tail : Taken complete r.trailers (complete.execute (r.trailers.flatMap headerCallbacks)) :=
    takeHeaders ((settled_iff complete).mpr (.inr empty)) r.trailers
  generalize closed : complete.execute (r.trailers.flatMap headerCallbacks) = d at tail
  have whole : c.execute r.callbacks = d.onMessageComplete := by
    have body : read.onHeadersComplete.execute (r.body.map .body) = complete :=
      foldl_onBody read.onHeadersComplete r.body
    have status : c.onMessageBegin.execute (r.status.map .status) = begun :=
      foldl_onStatus c.onMessageBegin r.status
    have parts : c.execute r.callbacks = ((((c.onMessageBegin.execute (r.status.map .status)).execute
        (r.headers.flatMap headerCallbacks)).onHeadersComplete.execute (r.body.map .body)).execute
          (r.trailers.flatMap headerCallbacks)).onMessageComplete := by
      simp only [Response.callbacks, Response.inner, execute, List.foldl_cons, List.foldl_append,
        List.foldl_nil, on]
    rw [parts, status, opened, body, closed]
  have begins : begun.held = c.held := (held_eq begun).trans (held_eq c).symm
  have commits : complete.held = read.held := by
    rw [held_eq, if_neg fun pending => pending.2 empty]
    rfl
  have ends : d.onMessageComplete.held = d.held := (held_eq d.onMessageComplete).trans (held_eq d).symm
  have kept := (heads.same.trans (sameMessage_tryCommit read))
  rw [whole]
  refine ⟨tail.same.isConnected.trans kept.isConnected, tail.same.error.trans kept.error,
    tail.same.statusBuffer.trans kept.statusBuffer, ?_, ?_, ?_, ?_⟩
  · apply tail.same.responseBody.trans
    change read.tryCommitReadingResponseHeader.responseBody ++ r.bodyText = r.bodyText
    rw [kept.responseBody]
    rfl
  · exact (settled_iff d.onMessageComplete).mpr ((settled_iff d).mp tail.settled)
  · have trailer : d.responseHeaders =
        complete.held.insertAll (r.trailers.dropLast.map HeaderPieces.pair) := by
      cases trailers : r.trailers with
      | nil =>
        rw [trailers] at closed
        rw [← closed, held_eq, if_neg fun pending => pending.2 empty]
        rfl
      | cons h rest =>
        rw [← trailers]
        exact tail.committed (by simp [trailers])
    change d.responseHeaders = _
    rw [trailer, commits, heads.held, begins, OrderedMap.insertAll_append, Response.trailerPairs,
      List.map_dropLast, Response.pairs]
  · rw [ends, tail.held, commits, heads.held, begins, OrderedMap.insertAll_append,
      Response.trailerPairs, Response.pairs]

theorem readComplete_execute {c : Connection} {callbacks : List ParserCallback}
    (unfinished : c.readComplete ≠ .readMessageComplete)
    (inside : .messageComplete ∉ callbacks) :
    (c.execute callbacks).readComplete ≠ .readMessageComplete := by
  induction callbacks generalizing c with
  | nil => exact unfinished
  | cons callback callbacks ih =>
    obtain ⟨other, others⟩ := List.ne_and_not_mem_of_not_mem_cons inside
    apply ih ?_ others
    have commits (d : Connection) : d.tryCommitReadingResponseHeader.readComplete = d.readComplete := by
      rw [tryCommitReadingResponseHeader]
      split
      · rfl
      · rfl
    cases callback with
    | messageBegin => exact nofun
    | status data => exact unfinished
    | headerField data =>
      change (c.onHeaderField data).readComplete ≠ _
      rw [onHeaderField]
      split
      · exact (commits c).trans_ne unfinished
      · exact (commits c).trans_ne unfinished
    | headerValue data => exact unfinished
    | headersComplete => exact nofun
    | body data => exact unfinished
    | messageComplete => exact absurd rfl other

/-- However a message is read, the loop ends behind it. -/
theorem doRead_eq {reads : List (List ParserCallback)} {inside : List ParserCallback}
    (c : Connection) (unfinished : c.readComplete ≠ .readMessageComplete)
    (whole : reads.flatten = inside ++ [.messageComplete])
    (none : .messageComplete ∉ inside) :
    c.doRead (reads.map fun callbacks => .parsed callbacks true) =
      some (c.execute (inside ++ [.messageComplete])) := by
  induction reads generalizing c inside with
  | nil => simp at whole
  | cons first reads ih =>
    rw [List.map_cons, doRead]
    rw [List.flatten_cons] at whole
    rcases List.append_eq_append_iff.mp whole with ⟨rest, rfl, later⟩ | ⟨rest, rfl, last⟩
    · have here : .messageComplete ∉ first := fun member => none (List.mem_append_left _ member)
      have there : .messageComplete ∉ rest := fun member => none (List.mem_append_right _ member)
      have open_ := readComplete_execute unfinished here
      rw [if_neg open_, ih _ open_ later there, ← execute_append, List.append_assoc]
    · rcases List.cons_eq_append_iff.mp last with ⟨rfl, later⟩ | ⟨end_, rfl, nothing⟩
      · rw [List.append_nil]
        have open_ := readComplete_execute unfinished none
        rw [if_neg open_, execute_append]
        exact ih _ open_ later List.not_mem_nil
      · obtain ⟨rfl, -⟩ := List.append_eq_nil_iff.mp nothing.symm
        rw [if_pos (by rw [execute_append]; rfl)]

end Connection
end Da4qi4.Client
