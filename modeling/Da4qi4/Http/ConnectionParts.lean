import Da4qi4.Http.ConnectionLimit

/-! The parts of a body, handed over in pieces. The buffers of header fields and the flag
that says which one is being read are also those of the request's own headers: the start
of a part clears them, and the field before the next one, or before the data, is moved
out of them. -/
namespace Da4qi4
open Utilities

/-- A part as the parser of bodies hands it over. -/
structure PartPieces where
  headers : List HeaderPieces
  data : List Bytes
  distinct : headers.Pairwise fun first second => iEquals first.name second.name = false

namespace PartPieces

def headerCallbacks (h : HeaderPieces) : List MultipartCallback :=
  h.field.map .headerField ++ h.value.map .headerValue

def callbacks (part : PartPieces) : List MultipartCallback :=
  .dataBegin :: (part.headers.flatMap headerCallbacks ++
    .headersComplete :: (part.data.map .data ++ [.dataEnd]))

/-- A part with those headers, under their names as they were sent, and that data. -/
structure Holds (part : PartPieces) (held : MultiPart) : Prop where
  headers : held.headers.entries.Perm (part.headers.map HeaderPieces.pair)
  data : held.data = part.data.flatten

end PartPieces

namespace Reading

/-- What the callbacks of a part leave alone. -/
structure SamePart (r s : Reading) : Prop where
  request : s.request = r.request
  buffer : s.readingPartBuffer = r.readingPartBuffer
  data : s.readingPart.data = r.readingPart.data

theorem SamePart.trans {r s t : Reading} (first : r.SamePart s) (second : s.SamePart t) :
    r.SamePart t :=
  ⟨second.request.trans first.request, second.buffer.trans first.buffer,
    second.data.trans first.data⟩

/-- Between two header fields: nothing was read, or the last field is in the buffers. -/
inductive Between (r : Reading) : List (Bytes × Bytes) → Prop
  | first (part : r.readingHeaderPart = .headerNonePart) (field : r.readingHeaderField = [])
      (value : r.readingHeaderValue = []) (headers : r.readingPart.headers = .empty) : Between r []
  | pending {stored : List (Bytes × Bytes)} (part : r.readingHeaderPart = .headerValuePart)
      (named : r.readingHeaderField ≠ [])
      (headers : r.readingPart.headers = OrderedMap.empty.insertAll stored) :
      Between r (stored ++ [(r.readingHeaderField, r.readingHeaderValue)])

/-- Names that are no two the same up to case. -/
def Distinct (pairs : List (Bytes × Bytes)) : Prop :=
  pairs.Pairwise fun first second => foldCase first.1 ≠ foldCase second.1

theorem find_insertAll {pairs : List (Bytes × Bytes)} {name : Bytes}
    (distinct : Distinct pairs) (new : ∀ pair ∈ pairs, foldCase pair.1 ≠ foldCase name) :
    (OrderedMap.empty.insertAll pairs : ICHeaders).find name = none := by
  have members := OrderedMap.insertAll_perm (.empty : ICHeaders) distinct fun _ _ _ none => nomatch none
  rw [OrderedMap.find, List.find?_eq_none]
  intro pair member same
  have inside := members.mem_iff.mp member
  rw [OrderedMap.empty, List.append_nil] at inside
  exact new pair inside (OrderedMap.isAt_iff.mp same)

theorem insertAll_append (m : ICHeaders) (front : List (Bytes × Bytes)) (name value : Bytes) :
    m.insertAll (front ++ [(name, value)]) = (m.insertAll front).insert name value :=
  List.foldl_append

/-- The field that was in the buffers is moved to the part. -/
theorem Between.commit {r : Reading} {pairs : List (Bytes × Bytes)} (between : r.Between pairs)
    (distinct : Distinct pairs) (next : ReadingHeaderPart) :
    let s := r.tryCommitReadingPartHeader next
    r.SamePart s ∧ s.readingHeaderField = [] ∧ s.readingHeaderValue = [] ∧
      s.readingPart.headers = OrderedMap.empty.insertAll pairs ∧
      (s.readingHeaderPart = .headerNonePart ∨ s.readingHeaderPart = next) := by
  intro s
  cases between with
  | first part field value headers =>
    have same : s = r := if_neg fun pending => by rw [part] at pending; cases pending.1
    rw [same]
    exact ⟨⟨rfl, rfl, rfl⟩, field, value, headers, .inl part⟩
  | @pending stored part named headers =>
    obtain ⟨before, -, apart⟩ := List.pairwise_append.mp distinct
    have absent : r.readingPart.headers.find r.readingHeaderField = none := by
      rw [headers]
      exact find_insertAll before fun pair member => apart pair member _ (List.mem_singleton_self _)
    have committed : s = { r with
        readingPart := { r.readingPart with
          headers := r.readingPart.headers.insert r.readingHeaderField r.readingHeaderValue }
        readingHeaderField := []
        readingHeaderValue := []
        readingHeaderPart := next } := by
      have moved : appendHeader r.readingPart.headers r.readingHeaderField r.readingHeaderValue =
          (r.readingPart.headers.insert r.readingHeaderField r.readingHeaderValue, [], []) := by
        rw [appendHeader, absent]
        rfl
      simp only [s, tryCommitReadingPartHeader, if_pos (And.intro part named), moved]
    rw [committed, insertAll_append, ← headers]
    exact ⟨⟨rfl, rfl, rfl⟩, rfl, rfl, rfl, .inr rfl⟩

theorem foldl_headerField {r : Reading} (settled : r.readingHeaderPart ≠ .headerValuePart)
    (pieces : List Bytes) :
    (pieces.map .headerField).foldl onMultipart r =
      { r with readingHeaderField := r.readingHeaderField ++ pieces.flatten } := by
  induction pieces generalizing r with
  | nil => simp
  | cons data pieces ih =>
    have kept : r.tryCommitReadingPartHeader .headerFieldPart = r :=
      if_neg fun pending => settled pending.1
    have later := ih (r := { r with readingHeaderField := r.readingHeaderField ++ data }) settled
    rw [List.map_cons, List.foldl_cons, onMultipart, kept, later, List.flatten_cons, List.append_assoc]

theorem foldl_headerValue (r : Reading) (pieces : List Bytes) :
    (pieces.map .headerValue).foldl onMultipart r = pieces.foldl onHeaderValue r := by
  induction pieces generalizing r with
  | nil => rfl
  | cons data pieces ih => exact ih (r.onHeaderValue data)

/-- However a field is cut, it is in the buffers, and the fields before it are stored. -/
theorem Between.header {r : Reading} {pairs : List (Bytes × Bytes)} (between : r.Between pairs)
    (distinct : Distinct pairs) (h : HeaderPieces) :
    let s := (PartPieces.headerCallbacks h).foldl onMultipart r
    r.SamePart s ∧ s.Between (pairs ++ [h.pair]) := by
  intro s
  obtain ⟨same, field, value, headers, part⟩ := between.commit distinct .headerFieldPart
  let t := r.tryCommitReadingPartHeader .headerFieldPart
  have settled : t.readingHeaderPart ≠ .headerValuePart := by
    intro reading
    rcases part with part | part
    · cases part.symm.trans reading
    · cases part.symm.trans reading
  have again : t.tryCommitReadingPartHeader .headerFieldPart = t :=
    if_neg fun pending => settled pending.1
  have named : (h.field.map .headerField).foldl onMultipart r =
      { t with readingHeaderField := h.name } := by
    have pieces : (h.field.map .headerField).foldl onMultipart r =
        (h.field.map .headerField).foldl onMultipart t := by
      obtain ⟨data, pieces, cut⟩ := List.exists_cons_of_ne_nil (l := h.field) fun none =>
        h.named (by rw [none]; rfl)
      rw [cut, List.map_cons, List.foldl_cons, List.foldl_cons, onMultipart, onMultipart, again]
    rw [pieces, foldl_headerField settled, field, List.nil_append]
    rfl
  have ended : s = { t with
      readingHeaderField := h.name
      readingHeaderPart := .headerValuePart
      readingHeaderValue := h.text } := by
    obtain ⟨data, pieces, cut⟩ := List.exists_cons_of_ne_nil h.valued
    have empty : t.readingHeaderValue = [] := value
    simp only [s, PartPieces.headerCallbacks, List.foldl_append, named, foldl_headerValue,
      HeaderPieces.text, cut]
    rw [List.foldl_cons, foldl_onHeaderValue rfl]
    simp only [onHeaderValue, empty, ite_self, List.nil_append, List.flatten_cons]
  rw [ended]
  exact ⟨same.trans ⟨rfl, rfl, rfl⟩, .pending rfl h.named headers⟩

theorem Between.headers {r : Reading} {pairs : List (Bytes × Bytes)} (between : r.Between pairs)
    (headers : List HeaderPieces) (distinct : Distinct (pairs ++ headers.map HeaderPieces.pair)) :
    let s := (headers.flatMap PartPieces.headerCallbacks).foldl onMultipart r
    r.SamePart s ∧ s.Between (pairs ++ headers.map HeaderPieces.pair) := by
  induction headers generalizing r pairs with
  | nil =>
    rw [List.map_nil, List.append_nil]
    exact ⟨⟨rfl, rfl, rfl⟩, between⟩
  | cons h headers ih =>
    obtain ⟨same, next⟩ := between.header (List.pairwise_append.mp distinct).1 h
    rw [List.map_cons, List.append_cons] at distinct
    obtain ⟨others, last⟩ := ih next distinct
    simp only [List.flatMap_cons, List.foldl_append, List.map_cons]
    rw [List.append_cons]
    exact ⟨same.trans others, last⟩

theorem foldl_data (r : Reading) (pieces : List Bytes) :
    (pieces.map .data).foldl onMultipart r =
      { r with readingPartBuffer := r.readingPartBuffer ++ pieces.flatten } := by
  induction pieces generalizing r with
  | nil => simp
  | cons data pieces ih =>
    rw [List.map_cons, List.foldl_cons, onMultipart, ih, List.flatten_cons, List.append_assoc]

theorem distinct_pairs (part : PartPieces) : Distinct (part.headers.map HeaderPieces.pair) := by
  rw [Distinct, List.pairwise_map]
  refine part.distinct.imp fun {first second} apart same => ?_
  have same : foldCase first.name = foldCase second.name := same
  rw [(iEquals_iff _ _).mpr same] at apart
  cases apart

/-- A part goes to the request, and leaves nothing for the next one. -/
theorem foldl_part {r : Reading} (blank : r.readingPart = {}) (part : PartPieces) :
    let s := part.callbacks.foldl onMultipart r
    s.readingPart = {} ∧ ∃ held, part.Holds held ∧
      s.request.multiparts = r.request.multiparts ++ [held] := by
  intro s
  let begun := r.onMultipart .dataBegin
  have between : begun.Between [] := .first rfl rfl rfl (congrArg MultiPart.headers blank)
  obtain ⟨same, pending⟩ := between.headers part.headers (distinct_pairs part)
  obtain ⟨kept, -, -, headers, -⟩ := pending.commit (distinct_pairs part) .headerNonePart
  let read := (part.headers.flatMap PartPieces.headerCallbacks).foldl onMultipart begun
  let parsed := read.tryCommitReadingPartHeader .headerNonePart
  have same : begun.SamePart parsed := same.trans kept
  let held : MultiPart := { parsed.readingPart with data := part.data.flatten }
  have ended : s = { parsed with
      request := { parsed.request with multiparts := parsed.request.multiparts ++ [held] }
      readingPart := {}
      readingPartBuffer := [] } := by
    have buffer : parsed.readingPartBuffer = [] := same.buffer
    have taken : s = ((part.data.map .data).foldl onMultipart parsed).onMultipart .dataEnd := by
      simp only [s, PartPieces.callbacks, List.foldl_cons, List.foldl_append, List.foldl_nil]
      rfl
    rw [taken, foldl_data, buffer]
    rfl
  have entries : held.headers.entries.Perm (part.headers.map HeaderPieces.pair) := by
    have stored := OrderedMap.insertAll_perm (.empty : ICHeaders) (distinct_pairs part)
      fun _ _ _ none => nomatch none
    rw [OrderedMap.empty, List.append_nil] at stored
    have headers : held.headers = OrderedMap.empty.insertAll (part.headers.map HeaderPieces.pair) :=
      headers
    rw [headers]
    exact stored
  have request : parsed.request = r.request := same.request
  rw [ended, request]
  exact ⟨rfl, held, ⟨entries, rfl⟩, rfl⟩

theorem foldl_parts {r : Reading} (blank : r.readingPart = {}) (parts : List PartPieces) :
    let s := (parts.flatMap PartPieces.callbacks).foldl onMultipart r
    s.readingPart = {} ∧ ∃ held, List.Forall₂ PartPieces.Holds parts held ∧
      s.request.multiparts = r.request.multiparts ++ held := by
  induction parts generalizing r with
  | nil => exact ⟨blank, [], .nil, (List.append_nil _).symm⟩
  | cons part parts ih =>
    obtain ⟨cleared, first, holds, appended⟩ := foldl_part blank part
    obtain ⟨blank, held, others, all⟩ := ih cleared
    simp only [List.flatMap_cons, List.foldl_append]
    refine ⟨blank, first :: held, .cons holds others, ?_⟩
    rw [all, appended, List.append_assoc, List.singleton_append]

/-- What is there of parts. -/
def parts (r : Reading) : MultiPart × List MultiPart := (r.readingPart, r.request.multiparts)

theorem parts_onHeaderField (r : Reading) (data : Bytes) : (r.onHeaderField data).parts = r.parts := by
  obtain ⟨_, _, _, _, same⟩ := r.onHeaderField_frame data
  rw [same]
  rfl

theorem parts_headerParsed (env : Environment) (r : Reading) (p : ParserFields) :
    (r.headerParsed env p).parts = r.parts := by
  have parsed := headerParsed_spec env r p
  exact congrArg₂ Prod.mk parsed.readingPart parsed.multiparts

theorem parts_tryInit (r : Reading) : r.tryInitMultipartParser.parts = r.parts := by
  rw [tryInitMultipartParser, initMultipartParser]
  split
  · split <;> rfl
  · rfl

end Reading

/-- A callback that brings nothing of a body. -/
def ParserCallback.IsBodiless : ParserCallback → Prop
  | .body _ => False
  | _ => True

theorem parts_callback {c : Connection} {answer : Connection × Returned}
    (bodiless : made.IsBodiless) (answered : c.callback env made = some answer) :
    answer.1.parts = c.parts := by
  cases made with
  | messageBegin =>
    cases answered
    rfl
  | url data =>
    cases answered
    rfl
  | headerField data =>
    cases answered
    exact c.toReading.parts_onHeaderField data
  | headerValue data =>
    cases answered
    rfl
  | headersComplete p =>
    have parsed : (c.headerParsed env p).parts = c.parts := c.toReading.parts_headerParsed env p
    rw [← parsed]
    rcases Connection.onHeadersComplete_cases answered with ⟨app, url, routed⟩ | ⟨-, app, replied⟩
    · rcases Connection.onRouted_reading routed with ⟨-, same⟩ | ⟨-, -, same | ⟨-, same⟩⟩
      · rw [same]
        rfl
      · rw [same]
        rfl
      · rw [same, Reading.parts_tryInit]
        rfl
    · obtain ⟨-, _, _, same⟩ := Connection.startWrite_cases replied
      rw [same]
      rfl
  | body data => exact bodiless.elim
  | messageComplete =>
    cases answered
    rfl

theorem parts_callbacks {c d : Connection} {made : List ParserCallback}
    (bodiless : ∀ callback ∈ made, callback.IsBodiless)
    (read : c.callbacks env errno made = some d) : d.parts = c.parts := by
  induction made generalizing c with
  | nil =>
    cases read
    rfl
  | cons callback made ih =>
    obtain ⟨here, there⟩ := List.forall_mem_cons.mp bodiless
    obtain ⟨answer, answered, rest⟩ := Option.bind_eq_some_iff.mp read
    have same := parts_callback here answered
    rw [← same]
    split at rest
    · exact ih there rest
    · cases rest
      rfl

/-- Behind its header block, the parts of a request are what the parser of bodies hands
over, however that is cut. -/
theorem parts_received (env : Environment) (c : Connection) (full path : Bytes) (fields : ParserFields)
    {made : List ParserCallback} (bodiless : ∀ callback ∈ made, callback.IsBodiless) {d : Connection}
    (read : (Exchange.before c full path fields).connection.callbacks env .ok made = some d)
    (parts : List PartPieces) :
    ∃ held, List.Forall₂ PartPieces.Holds parts held ∧
      ((parts.flatMap PartPieces.callbacks).foldl Reading.onMultipart d.toReading).request.multiparts =
        held := by
  have blank : d.parts = ({}, []) := parts_callbacks bodiless read
  obtain ⟨-, held, holds, all⟩ := Reading.foldl_parts (congrArg Prod.fst blank) parts
  have none : d.request.multiparts = [] := congrArg Prod.snd blank
  rw [none, List.nil_append] at all
  exact ⟨held, holds, all⟩

def openedRoot : List ParserCallback := [.messageBegin, .url [47], .headersComplete {}]

/-- A part with a name in two pieces and an empty value, and one without headers. -/
def twoParts : List PartPieces :=
  [⟨[⟨[[65], [66]], [[]], by decide, by decide⟩], [[1], [], [2]], List.pairwise_singleton _ _⟩,
    ⟨[], [[3]], .nil⟩]

theorem parts_received_twoParts :
    ∃ d, (Exchange.before .started [] [] {}).connection.callbacks (.single .root) .ok openedRoot =
        some d ∧
      ∃ held, List.Forall₂ PartPieces.Holds twoParts held ∧
        ((twoParts.flatMap PartPieces.callbacks).foldl Reading.onMultipart
          d.toReading).request.multiparts = held := by
  have bodiless : ∀ callback ∈ openedRoot, callback.IsBodiless :=
    List.forall_mem_cons.mpr ⟨trivial, List.forall_mem_cons.mpr ⟨trivial,
      List.forall_mem_singleton.mpr trivial⟩⟩
  exact ⟨_, rfl, parts_received (.single .root) .started [] [] {} bodiless rfl twoParts⟩

namespace Reading

/-- What the callbacks of parts read and write. -/
def view (r : Reading) :
    ReadingHeaderPart × Bytes × Bytes × MultiPart × Bytes × List MultiPart :=
  (r.readingHeaderPart, r.readingHeaderField, r.readingHeaderValue, r.readingPart,
    r.readingPartBuffer, r.request.multiparts)

theorem view_onMultipart {r s : Reading} (same : r.view = s.view) (callback : MultipartCallback) :
    (r.onMultipart callback).view = (s.onMultipart callback).view := by
  simp only [view, Prod.mk.injEq] at same
  obtain ⟨part, field, value, reading, buffer, multiparts⟩ := same
  have committed (next : ReadingHeaderPart) :
      (r.tryCommitReadingPartHeader next).view = (s.tryCommitReadingPartHeader next).view := by
    rw [tryCommitReadingPartHeader, tryCommitReadingPartHeader, part, field, value, reading]
    split
    · simp only [view, buffer, multiparts]
    · simp only [view, part, field, value, reading, buffer, multiparts]
  cases callback with
  | headerField data =>
    have before := committed .headerFieldPart
    simp only [view, Prod.mk.injEq] at before
    simp only [onMultipart, view, before]
  | headerValue data =>
    simp only [onMultipart, onHeaderValue, view, part, field, value, reading, buffer, multiparts]
  | headersComplete => exact committed .headerNonePart
  | dataBegin => simp only [onMultipart, view, reading, multiparts]
  | data data => simp only [onMultipart, view, part, field, value, reading, buffer, multiparts]
  | dataEnd => simp only [onMultipart, view, part, field, value, reading, buffer, multiparts]
  | bodyEnd => simp only [onMultipart, view, part, field, value, reading, buffer, multiparts]

theorem view_foldl {r s : Reading} (same : r.view = s.view) (made : List MultipartCallback) :
    (made.foldl onMultipart r).view = (made.foldl onMultipart s).view := by
  induction made generalizing r s with
  | nil => exact same
  | cons callback made ih => exact ih (view_onMultipart same callback)

/-- The callbacks of the parser of bodies when it is given the buffer. -/
def executed (env : Environment) (r : Reading) : List MultipartCallback :=
  match r.mpParser with
  | none => []
  | some parser => (env.multipartExecute parser.boundary parser.fed r.bodyBuffer).1

def pieceCallbacks (env : Environment) (r : Reading) (data : Bytes) : List MultipartCallback :=
  let r := { r with bodyBuffer := r.bodyBuffer ++ data }
  if r.request.isMultiPart then
    (if r.mpParser = none then r.tryFixMultipartBadRequestWithoutBoundary else r).executed env
  else []

theorem view_feed (env : Environment) {r s : Reading} (same : s.view = r.view) :
    (s.feedMultipartParser env).1.view = ((s.executed env).foldl onMultipart r).view := by
  rw [feedMultipartParser, executed]
  cases s.mpParser with
  | none => exact same
  | some parser =>
    have fed : ({ s with mpParser := some { parser with fed := parser.fed ++ [s.bodyBuffer] } } :
        Reading).view = r.view := same
    have folded := view_foldl fed (env.multipartExecute parser.boundary parser.fed s.bodyBuffer).1
    simp only
    split
    · exact folded
    · exact folded

/-- A piece of the body does with the parts what the parser's callbacks do. -/
theorem view_takeBody (env : Environment) (r : Reading) (data : Bytes) :
    (r.takeBody env data).1.view = ((r.pieceCallbacks env data).foldl onMultipart r).view := by
  let s : Reading := { r with bodyBuffer := r.bodyBuffer ++ data }
  have fixed : (if s.mpParser = none then s.tryFixMultipartBadRequestWithoutBoundary else s).view =
      r.view := by
    split
    · rename_i none
      obtain ⟨_, _, same, -⟩ := tryFix_cases none
      rw [same]
      rfl
    · rfl
  rw [takeBody, pieceCallbacks]
  simp only
  split
  · exact view_feed env fixed
  · rfl

/-- The callbacks for a body in pieces. -/
def bodyCallbacks (env : Environment) (r : Reading) : List Bytes → List MultipartCallback
  | [] => []
  | data :: rest => r.pieceCallbacks env data ++ bodyCallbacks env (r.takeBody env data).1 rest

theorem view_body (env : Environment) (r : Reading) (pieces : List Bytes) :
    (pieces.foldl (fun r data => (r.takeBody env data).1) r).view =
      ((r.bodyCallbacks env pieces).foldl onMultipart r).view := by
  induction pieces generalizing r with
  | nil => rfl
  | cons data rest ih =>
    rw [List.foldl_cons, ih, bodyCallbacks, List.foldl_append]
    exact view_foldl (view_takeBody env r data) _

/-- The parts of a body in pieces, if the parser of bodies makes their callbacks. -/
theorem parts_of_body (env : Environment) {r : Reading} (blank : r.parts = ({}, []))
    {pieces : List Bytes} {parts : List PartPieces}
    (made : r.bodyCallbacks env pieces = parts.flatMap PartPieces.callbacks) :
    List.Forall₂ PartPieces.Holds parts
      (pieces.foldl (fun r data => (r.takeBody env data).1) r).request.multiparts := by
  obtain ⟨-, held, holds, all⟩ := foldl_parts (congrArg Prod.fst blank) parts
  have none : r.request.multiparts = [] := congrArg Prod.snd blank
  have same := view_body env r pieces
  have last := congrArg (fun view => view.2.2.2.2.2) same
  simp only [view] at last
  rw [last, made, all, none]
  exact holds

end Reading
end Da4qi4
