import Da4qi4.Http.ConnectionHeaders
import Da4qi4.Http.ConnectionInterim

/-! Whole requests, cut into pieces in any way. While a request is routed, small
enough and does not wait to be asked for its body, the connection only fills its
buffers, and what it makes of the request depends on nothing but the request. -/
namespace Da4qi4
open Utilities

namespace Reading

def acceptRouted (r : Reading) (app : Application) : Option Reading :=
  if app.upoadMaxSizeLimitKB < r.request.contentLength / 1024 ∨ is100Continue r.request then none
  else some (if r.request.isMultiPart then r.tryInitMultipartParser else r)

/-- The end of a header block that the connection has no answer to. -/
def accept (env : Environment) (r : Reading) (p : ParserFields) : Option Reading :=
  (Connection.routes env (r.headerParsed env p).request).bind fun app =>
    ((r.headerParsed env p).request.url.underApplication env app.urlRoot).bind fun url =>
      ((r.headerParsed env p).placeUnder app url).acceptRouted app

def acceptBody (env : Environment) (r : Reading) (data : Bytes) : Option Reading :=
  if r.exceeds data ∨ (r.takeBody env data).2 = .refused then none else some (r.takeBody env data).1

def quiet (env : Environment) (r : Reading) : ParserCallback → Option Reading
  | .messageBegin => some r.onMessageBegin
  | .url data => some (r.onUrl data)
  | .headerField data => some (r.onHeaderField data)
  | .headerValue data => some (r.onHeaderValue data)
  | .headersComplete p => r.accept env p
  | .body data => r.acceptBody env data
  | .messageComplete => some r.onMessageComplete

def quietAll (env : Environment) (r : Reading) : List ParserCallback → Option Reading
  | [] => some r
  | callback :: rest => (r.quiet env callback).bind fun s => s.quietAll env rest

theorem quietAll_append (env : Environment) (r : Reading) (first second : List ParserCallback) :
    r.quietAll env (first ++ second) =
      (r.quietAll env first).bind fun s => s.quietAll env second := by
  induction first generalizing r with
  | nil => rfl
  | cons callback first ih =>
    rw [List.cons_append, quietAll, quietAll, Option.bind_assoc]
    congr
    funext s
    exact ih s

end Reading

def Url.withUnder (url : Url) (full path : Bytes) : Url :=
  { url with fullUnderApp := full, pathUnderApp := path }

def Request.withUnder (r : Request) (full path : Bytes) : Request :=
  { r with url := r.url.withUnder full path }

theorem Url.parse_withUnder (env : Environment) (url : Url) (full path target : Bytes) :
    (url.withUnder full path).parse env target = (url.parse env target).withUnder full path := by
  simp only [Url.parse, Url.withUnder]
  split <;> rfl

theorem Request.transferHeadersToCookies_withUnder (r : Request) (full path : Bytes) :
    (r.withUnder full path).transferHeadersToCookies =
      r.transferHeadersToCookies.withUnder full path := by
  have same : (r.withUnder full path).headers = r.headers := rfl
  simp only [transferHeadersToCookies, same]
  by_cases none : getHeader r.headers (Bytes.ofAscii "Cookie") = []
  · rw [if_pos none, if_pos none]
  · rw [if_neg none, if_neg none]
    rfl

theorem Request.parseContentType_withUnder (r : Request) (full path : Bytes) :
    (r.withUnder full path).parseContentType = r.parseContentType.withUnder full path := by
  have same : (r.withUnder full path).headers = r.headers := rfl
  simp only [parseContentType, same]
  cases tryGetHeader r.headers (Bytes.ofAscii "Content-Type") with
  | none => rfl
  | some contentType =>
    simp only
    cases find contentType (Bytes.ofAscii "multipart/") with
    | some beg =>
      simp only
      cases find contentType (Bytes.ofAscii "boundary=") (beg + 10) <;> rfl
    | none =>
      simp only
      split
      · rfl
      · split <;> rfl

namespace Reading

/-- The target below the application, and the fields of the parser, are not reset. -/
def withLeftover (r : Reading) (full path : Bytes) (fields : ParserFields) : Reading :=
  { r with request := r.request.withUnder full path, parserFields := fields }

section Leftover
variable (r : Reading) (full path : Bytes) (fields : ParserFields)

theorem tryCommit_withLeftover :
    (r.withLeftover full path fields).tryCommitReadingRequestHeader =
      r.tryCommitReadingRequestHeader.withLeftover full path fields := by
  by_cases pending : r.readingHeaderPart = .headerValuePart ∧ r.readingHeaderField ≠ []
  · have also : (r.withLeftover full path fields).readingHeaderPart = .headerValuePart ∧
        (r.withLeftover full path fields).readingHeaderField ≠ [] := pending
    rw [tryCommitReadingRequestHeader, if_pos also, tryCommitReadingRequestHeader, if_pos pending]
    rfl
  · have also : ¬ ((r.withLeftover full path fields).readingHeaderPart = .headerValuePart ∧
        (r.withLeftover full path fields).readingHeaderField ≠ []) := pending
    rw [tryCommitReadingRequestHeader, if_neg also, tryCommitReadingRequestHeader, if_neg pending]

theorem onHeaderField_withLeftover (data : Bytes) :
    (r.withLeftover full path fields).onHeaderField data =
      (r.onHeaderField data).withLeftover full path fields := by
  rw [onHeaderField, onHeaderField, tryCommit_withLeftover]
  split <;> rfl

theorem parseUrlBuffer_withLeftover (env : Environment) :
    (r.withLeftover full path fields).parseUrlBuffer env =
      (r.parseUrlBuffer env).withLeftover full path fields := by
  have same : (r.withLeftover full path fields).urlBuffer = r.urlBuffer := rfl
  have parsed : (r.withLeftover full path fields).request.parseUrl env r.urlBuffer =
      (r.request.parseUrl env r.urlBuffer).withUnder full path := by
    refine congrArg (fun url => { r.request with url := url }) ?_
    exact Url.parse_withUnder env r.request.url full path r.urlBuffer
  rw [parseUrlBuffer, parseUrlBuffer, same, parsed]
  split <;> rfl

theorem headerParsed_withLeftover (env : Environment) (p : ParserFields) :
    (r.withLeftover full path fields).headerParsed env p =
      (r.headerParsed env p).withLeftover full path p := by
  have before : ({ r.withLeftover full path fields with parserFields := p } : Reading) =
      { r with parserFields := p }.withLeftover full path p := rfl
  have filled (s : Reading) : (s.withLeftover full path p).takeFields p =
      (s.takeFields p).withLeftover full path p := rfl
  rw [headerParsed, before, headerParsed]
  simp only [updateRequestAfterHeaderParsed, parseUrlBuffer_withLeftover, filled,
    tryCommit_withLeftover]
  have block (s : Reading) : (s.withLeftover full path p).request.transferHeadersToCookies.parseContentType =
      s.request.transferHeadersToCookies.parseContentType.withUnder full path := by
    change (s.request.withUnder full path).transferHeadersToCookies.parseContentType = _
    rw [Request.transferHeadersToCookies_withUnder, Request.parseContentType_withUnder]
  rw [block]
  rfl

/-- At the end of the header block nothing of it is left. -/
theorem accept_withLeftover (env : Environment) (p : ParserFields) :
    (r.withLeftover full path fields).accept env p = r.accept env p := by
  have known := (headerParsed_spec env r p).parserFields
  rw [accept, headerParsed_withLeftover, accept]
  generalize r.headerParsed env p = s at known
  subst known
  rfl

end Leftover

/-- A reading that has just been reset. -/
def fresh (full path : Bytes) (fields : ParserFields) : Reading :=
  ({} : Reading).withLeftover full path fields

/-- The callbacks before the end of a header block. -/
def IsOpening : ParserCallback → Prop
  | .messageBegin | .url _ | .headerField _ | .headerValue _ => True
  | .headersComplete _ | .body _ | .messageComplete => False

theorem quietAll_withLeftover (env : Environment) {opening : List ParserCallback}
    (isOpening : ∀ callback ∈ opening, IsOpening callback) (r : Reading) (full path : Bytes)
    (fields p : ParserFields) (rest : List ParserCallback) :
    (r.withLeftover full path fields).quietAll env (opening ++ .headersComplete p :: rest) =
      r.quietAll env (opening ++ .headersComplete p :: rest) := by
  induction opening generalizing r with
  | nil =>
    simp only [List.nil_append, quietAll, quiet, accept_withLeftover]
  | cons callback opening ih =>
    have others := ih fun next member => isOpening next (List.mem_cons_of_mem _ member)
    cases callback with
    | messageBegin => exact others r.onMessageBegin
    | url data => exact others (r.onUrl data)
    | headerField data =>
      rw [List.cons_append, quietAll, quiet, onHeaderField_withLeftover]
      exact others (r.onHeaderField data)
    | headerValue data => exact others (r.onHeaderValue data)
    | headersComplete fields => exact (isOpening _ List.mem_cons_self).elim
    | body data => exact (isOpening _ List.mem_cons_self).elim
    | messageComplete => exact (isOpening _ List.mem_cons_self).elim

end Reading

/-- A complete request, in the pieces that the parser hands over. -/
structure Message where
  target : List Bytes
  headers : List HeaderPieces
  fields : ParserFields
  body : List Bytes
  trailers : List HeaderPieces := []

namespace Message

def pairs (m : Message) : List (Bytes × Bytes) := m.headers.map HeaderPieces.pair

/-- All callbacks but the last one. -/
def opening (m : Message) : List ParserCallback :=
  headerBlock m.target m.headers m.fields ++
    (m.body.map .body ++ m.trailers.flatMap HeaderPieces.callbacks)

def callbacks (m : Message) : List ParserCallback := m.opening ++ [.messageComplete]

/-- What a new connection makes of a message, without an answer. -/
def alone (env : Environment) (m : Message) : Option Reading :=
  ({} : Reading).quietAll env m.callbacks

/-- What comes before the end of the header block. -/
def before (m : Message) : List ParserCallback :=
  .messageBegin :: (m.target.map .url ++ m.headers.flatMap HeaderPieces.callbacks)

/-- What comes behind it. -/
def behind (m : Message) : List ParserCallback :=
  m.body.map .body ++ (m.trailers.flatMap HeaderPieces.callbacks ++ [.messageComplete])

theorem callbacks_split (m : Message) :
    m.callbacks = m.before ++ .headersComplete m.fields :: m.behind := by
  simp only [callbacks, opening, headerBlock, before, behind, List.append_assoc, List.cons_append,
    List.nil_append]

theorem isOpening_before (m : Message) : ∀ callback ∈ m.before, Reading.IsOpening callback := by
  intro callback member
  rcases List.mem_cons.mp member with rfl | others
  · trivial
  · rcases List.mem_append.mp others with url | headers
    · obtain ⟨data, -, rfl⟩ := List.mem_map.mp url
      trivial
    · obtain ⟨h, -, inside⟩ := List.mem_flatMap.mp headers
      rcases List.mem_append.mp inside with field | value
      · obtain ⟨data, -, rfl⟩ := List.mem_map.mp field
        trivial
      · obtain ⟨data, -, rfl⟩ := List.mem_map.mp value
        trivial

/-- A message is the same to a connection that has just been reset. -/
theorem quietAll_fresh (env : Environment) (m : Message) (full path : Bytes)
    (fields : ParserFields) :
    (Reading.fresh full path fields).quietAll env m.callbacks = m.alone env := by
  rw [alone, callbacks_split]
  exact Reading.quietAll_withLeftover env m.isOpening_before {} full path fields m.fields m.behind

end Message

namespace Reading

/-- What header fields do not touch. -/
def untouched (r : Reading) : Bytes × Bytes × Url := (r.urlBuffer, r.bodyBuffer, r.request.url)

theorem untouched_tryCommit (r : Reading) :
    r.tryCommitReadingRequestHeader.untouched = r.untouched := by
  rw [tryCommitReadingRequestHeader]
  split <;> rfl

theorem untouched_takeHeaders (r : Reading) (headers : List HeaderPieces) :
    (r.takeHeaders headers).untouched = r.untouched := by
  induction headers generalizing r with
  | nil => rfl
  | cons h headers ih =>
    apply (ih (r.takeHeader h)).trans
    rw [takeHeader_eq]
    exact untouched_tryCommit r

/-- Header fields go to the map, by way of the buffers. -/
theorem takeHeaders_frame (r : Reading) (headers : List HeaderPieces) :
    ∃ part field value map, r.takeHeaders headers = { r with
      readingHeaderPart := part
      readingHeaderField := field
      readingHeaderValue := value
      request := { r.request with headers := map } } := by
  induction headers generalizing r with
  | nil => exact ⟨_, _, _, _, rfl⟩
  | cons h headers ih =>
    obtain ⟨part, field, value, map, same⟩ := ih (r.takeHeader h)
    refine ⟨part, field, value, map, same.trans ?_⟩
    rw [takeHeader_eq, tryCommitReadingRequestHeader]
    split <;> rfl

theorem acceptRouted_taken {r s : Reading} {app : Application}
    (accepted : r.acceptRouted app = some s) :
    s.taken = r.taken ∧ s.bodyBuffer = r.bodyBuffer := by
  rw [acceptRouted] at accepted
  split at accepted
  · cases accepted
  · cases accepted
    split
    · rw [tryInitMultipartParser, initMultipartParser]
      split
      · split <;> exact ⟨rfl, rfl⟩
      · exact ⟨rfl, rfl⟩
    · exact ⟨rfl, rfl⟩

theorem quietAll_url (env : Environment) (r : Reading) (target : List Bytes)
    (rest : List ParserCallback) :
    r.quietAll env (target.map .url ++ rest) = (target.foldl onUrl r).quietAll env rest := by
  induction target generalizing r with
  | nil => rfl
  | cons data target ih => exact ih (r.onUrl data)

theorem quietAll_headers (env : Environment) (r : Reading) (headers : List HeaderPieces)
    (rest : List ParserCallback) :
    r.quietAll env (headers.flatMap HeaderPieces.callbacks ++ rest) =
      (r.takeHeaders headers).quietAll env rest := by
  have field (pieces : List Bytes) (s : Reading) (rest : List ParserCallback) :
      s.quietAll env (pieces.map .headerField ++ rest) =
        (pieces.foldl onHeaderField s).quietAll env rest := by
    induction pieces generalizing s with
    | nil => rfl
    | cons data pieces ih => exact ih (s.onHeaderField data)
  have value (pieces : List Bytes) (s : Reading) (rest : List ParserCallback) :
      s.quietAll env (pieces.map .headerValue ++ rest) =
        (pieces.foldl onHeaderValue s).quietAll env rest := by
    induction pieces generalizing s with
    | nil => rfl
    | cons data pieces ih => exact ih (s.onHeaderValue data)
  induction headers generalizing r with
  | nil => rfl
  | cons h headers ih =>
    rw [List.flatMap_cons, HeaderPieces.callbacks, List.append_assoc, List.append_assoc, field,
      value]
    exact ih (r.takeHeader h)

theorem quietAll_body {r s : Reading} {body : List Bytes}
    (read : r.quietAll env (body.map .body) = some s) :
    s.taken = r.taken ∧
      (r.request.isMultiPart = false → s.bodyBuffer = r.bodyBuffer ++ body.flatten) := by
  induction body generalizing r with
  | nil =>
    cases read
    exact ⟨rfl, fun _ => (List.append_nil _).symm⟩
  | cons data body ih =>
    obtain ⟨t, first, others⟩ := Option.bind_eq_some_iff.mp read
    rw [quiet, acceptBody] at first
    split at first
    · cases first
    · cases first
      obtain ⟨same, whole⟩ := ih others
      refine ⟨same.trans (taken_takeBody env r data), fun plain => ?_⟩
      have step : (r.takeBody env data).1 = { r with bodyBuffer := r.bodyBuffer ++ data } := by
        simp only [takeBody]
        rw [if_neg (by rw [plain]; exact Bool.false_ne_true)]
      rw [step] at whole
      rw [whole plain, List.flatten_cons, List.append_assoc]

end Reading

namespace Message

/-- The parts of a message that was read without an answer. -/
structure Becomes (m : Message) (r : Reading) : Prop where
  complete : r.readComplete = .readMessageComplete
  routed : r.app.isSome
  fields : r.parserFields = m.fields
  target : r.request.url.full = m.target.flatten
  headers : m.trailers = [] → r.request.headers = headerMap (carried [] [] m.pairs)
  body : r.request.isMultiPart = false → r.request.body = m.body.flatten

theorem alone_becomes {m : Message} {r : Reading} (read : m.alone env = some r) : m.Becomes r := by
  let start := (m.target.foldl Reading.onUrl ({} : Reading).onMessageBegin).takeHeaders m.headers
  have untouched : start.untouched = (m.target.flatten, [], {}) := by
    apply (Reading.untouched_takeHeaders _ m.headers).trans
    rw [Reading.foldl_onUrl]
    rfl
  have split : m.callbacks = .messageBegin :: (m.target.map .url ++
      (m.headers.flatMap HeaderPieces.callbacks ++
        (.headersComplete m.fields :: (m.body.map .body ++
          (m.trailers.flatMap HeaderPieces.callbacks ++ [.messageComplete]))))) := by
    simp only [callbacks, opening, headerBlock, List.append_assoc, List.cons_append,
      List.nil_append]
  rw [alone, split, Reading.quietAll, Reading.quiet, Option.bind_some, Reading.quietAll_url,
    Reading.quietAll_headers] at read
  obtain ⟨s, accepted, rest⟩ := Option.bind_eq_some_iff.mp read
  rw [Reading.quietAll_append] at rest
  obtain ⟨t, bodies, last⟩ := Option.bind_eq_some_iff.mp rest
  rw [Reading.quietAll_headers] at last
  obtain ⟨app, -, rest⟩ := Option.bind_eq_some_iff.mp accepted
  obtain ⟨url, placed, routed⟩ := Option.bind_eq_some_iff.mp rest
  obtain ⟨taken, buffer⟩ := Reading.acceptRouted_taken routed
  obtain ⟨same, whole⟩ := Reading.quietAll_body bodies
  have kept := same.trans taken
  obtain ⟨part, field, value, headers, trailed⟩ := Reading.takeHeaders_frame t m.trailers
  have ended : r = (t.takeHeaders m.trailers).onMessageComplete := (Option.some.inj last).symm
  have becomes : r.app = t.app ∧ r.parserFields = t.parserFields ∧ r.request.url = t.request.url ∧
      r.request.isMultiPart = t.request.isMultiPart ∧ r.request.body = t.bodyBuffer := by
    rw [ended, trailed]
    exact ⟨rfl, rfl, rfl, rfl, rfl⟩
  obtain ⟨sameApp, sameFields, sameUrl, samePart, body⟩ := becomes
  have parsed := Reading.headerParsed_spec env start m.fields
  constructor
  · rw [ended]
    rfl
  · have found : t.app = some app := congrArg Taken.app kept
    rw [sameApp, found]
    rfl
  · rw [sameFields]
    apply (congrArg Taken.parserFields kept).trans
    exact parsed.parserFields
  · have under : t.request.url = url := congrArg Taken.url kept
    have buffer : start.urlBuffer = m.target.flatten := congrArg Prod.fst untouched
    have cleared : start.request.url = {} := congrArg (fun kept => kept.2.2) untouched
    rw [sameUrl, under, Url.underApplication_full placed, parsed.url, buffer, cleared]
    split
    · exact Url.parse_full env {} m.target.flatten
    · rename_i empty
      exact (not_not.mp empty).symm
  · intro trailerless
    rw [ended, trailerless]
    apply (congrArg Taken.headers kept).trans
    apply parsed.headers.trans
    refine Reading.reset_takeHeaders_headers ?_ ?_ ?_ m.headers
    · rw [Reading.foldl_onUrl]
      rfl
    · rw [Reading.foldl_onUrl]
      rfl
    · rw [Reading.foldl_onUrl]
      rfl
  · intro plain
    have flags : t.request.additionFlags = s.request.additionFlags :=
      congrArg Taken.additionFlags same
    have plainly : s.request.isMultiPart = false := by
      rw [Request.isMultiPart, ← flags]
      exact samePart.symm.trans plain
    have cleared : start.bodyBuffer = [] := congrArg (fun kept => kept.2.1) untouched
    rw [body, whole plainly, buffer]
    change (start.headerParsed env m.fields).bodyBuffer ++ _ = _
    rw [parsed.bodyBuffer, cleared, List.nil_append]

end Message

/-- A response has the version of its request. -/
def Response.takeVersion (r : Response) : ParserCallback → Response
  | .headersComplete p => r.setVersion p.httpMajor p.httpMinor
  | _ => r

namespace Connection

theorem onRouted_of_accept {c : Connection} {r : Reading}
    (accepted : c.toReading.acceptRouted app = some r) :
    c.onRouted app = some ({ c with toReading := r }, .ok) := by
  rw [Reading.acceptRouted] at accepted
  split at accepted
  · cases accepted
  · rename_i quiet
    obtain ⟨small, unasked⟩ := not_or.mp quiet
    cases accepted
    rw [onRouted, if_neg small, if_neg unasked]
    split <;> rfl

theorem onBody_of_accept {c : Connection} {r : Reading}
    (accepted : c.toReading.acceptBody env data = some r) :
    c.onBody env data = some ({ c with toReading := r }, .ok) := by
  rw [Reading.acceptBody] at accepted
  split at accepted
  · cases accepted
  · rename_i quiet
    obtain ⟨small, taken⟩ := not_or.mp quiet
    cases accepted
    have ok : (c.toReading.takeBody env data).2 = .ok := by
      cases returned : (c.toReading.takeBody env data).2 with
      | ok => rfl
      | refused => exact absurd returned taken
    rw [onBody, if_neg small]
    simp only [ok]

/-- A connection that has no answer only fills its buffers. -/
theorem callback_of_quiet {c : Connection} {r : Reading}
    (read : c.toReading.quiet env made = some r) : ∃ block, c.callback env made =
      some ({ c with
        toReading := r
        response := c.response.takeVersion made
        block := block }, .ok) := by
  cases made with
  | headersComplete p =>
    obtain ⟨app, routed, rest⟩ := Option.bind_eq_some_iff.mp read
    obtain ⟨url, placed, accepted⟩ := Option.bind_eq_some_iff.mp rest
    refine ⟨((c.headerParsed env p).placeUnder app url).block, ?_⟩
    have underneath : (c.headerParsed env p).request.url.underApplication env app.urlRoot = some url :=
      placed
    rw [callback, onHeadersComplete_routed routed, underneath, Option.bind_some]
    exact onRouted_of_accept accepted
  | body data =>
    exact ⟨c.block, onBody_of_accept read⟩
  | _ =>
    cases read
    exact ⟨c.block, rfl⟩

theorem callbacks_of_quiet (errno : ParserErrno) {c : Connection} {r : Reading}
    (read : c.toReading.quietAll env made = some r) (rest : List ParserCallback) : ∃ block,
      c.callbacks env errno (made ++ rest) =
        { c with
          toReading := r
          response := made.foldl Response.takeVersion c.response
          block := block }.callbacks env errno rest := by
  induction made generalizing c with
  | nil =>
    cases read
    exact ⟨c.block, rfl⟩
  | cons callback made ih =>
    obtain ⟨s, first, others⟩ := Option.bind_eq_some_iff.mp read
    obtain ⟨block, answered⟩ := callback_of_quiet first
    obtain ⟨block', rest⟩ := ih
      (c := { c with
        toReading := s
        response := c.response.takeVersion callback
        block := block }) others
    refine ⟨block', ?_⟩
    rw [List.cons_append, callbacks, answered]
    exact rest

end Connection
end Da4qi4
