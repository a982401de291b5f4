import Da4qi4.Http.Connection

/-! The header fields of a message, handed over in pieces. A field whose name is
in the map already is not moved from, so its name stays in the buffer and the next
name is appended to it. -/
namespace Da4qi4
open Utilities

/-- A header field as the parser hands it over. An empty value is one empty piece. -/
structure HeaderPieces where
  field : List Bytes
  value : List Bytes
  named : field.flatten ≠ []
  valued : value ≠ []

namespace HeaderPieces

def name (h : HeaderPieces) : Bytes := h.field.flatten

def text (h : HeaderPieces) : Bytes := h.value.flatten

def pair (h : HeaderPieces) : Bytes × Bytes := (h.name, h.text)

def callbacks (h : HeaderPieces) : List ParserCallback :=
  h.field.map .headerField ++ h.value.map .headerValue

def uncut (name value : Bytes) (named : name ≠ []) : HeaderPieces :=
  ⟨[name], [value], by simpa using named, List.cons_ne_nil _ _⟩

end HeaderPieces

/-- The callbacks of a message up to the end of its header block. -/
def headerBlock (target : List Bytes) (headers : List HeaderPieces) (p : ParserFields) :
    List ParserCallback :=
  .messageBegin :: target.map .url ++ headers.flatMap HeaderPieces.callbacks ++ [.headersComplete p]

/-- Whether a name is among others, up to case. -/
def occursIn (seen : List Bytes) (name : Bytes) : Bool := seen.any fun other => iEquals other name

/-- The names under which fields are stored: each one with what the field before it
has left in the buffer, which is its stored name if that had occurred already. -/
def carried (seen : List Bytes) (left : Bytes) : List (Bytes × Bytes) → List (Bytes × Bytes)
  | [] => []
  | (name, value) :: rest =>
    (left ++ name, value) ::
      carried (seen ++ [left ++ name]) (if occursIn seen (left ++ name) then left ++ name else [])
        rest

/-- What the header fields of a message mean. -/
def headerMap (pairs : List (Bytes × Bytes)) : ICHeaders := OrderedMap.empty.assignAll pairs

/-- Under every name, the first spelling and the last value are the same with the
stored names as with the names that were sent. -/
def HeadersKept (pairs : List (Bytes × Bytes)) : Prop :=
  ∀ name, OrderedMap.entryOf foldCase (carried [] [] pairs) name =
    OrderedMap.entryOf foldCase pairs name

/-- Two fields have different names, up to case. -/
def NamedApart (first second : Bytes × Bytes) : Prop := iEquals first.1 second.1 = false

/-- No field but the last has the name of one before it. -/
def Unrepeated (pairs : List (Bytes × Bytes)) : Prop := pairs.dropLast.Pairwise NamedApart

/-- The first repeated name and the name behind it are, put together, the name of a field
too, and with the names that are stored the map comes out the same. -/
structure Coincide (pairs : List (Bytes × Bytes)) : Prop where
  glued : ∃ front repeated next rest, pairs = front ++ repeated :: next :: rest ∧
    front.Pairwise NamedApart ∧ occursIn (front.map Prod.fst) repeated.1 = true ∧
    occursIn (pairs.map Prod.fst) (repeated.1 ++ next.1) = true
  kept : HeadersKept pairs

theorem occursIn_append (front back : List Bytes) (name : Bytes) :
    occursIn (front ++ back) name = (occursIn front name || occursIn back name) :=
  List.any_append

theorem occursIn_names {pairs : List (Bytes × Bytes)} {name : Bytes} :
    occursIn (pairs.map Prod.fst) name = true ↔
      ∃ pair ∈ pairs, foldCase pair.1 = foldCase name := by
  simp only [occursIn, List.any_map, List.any_eq_true, Function.comp_apply, iEquals_iff]

/-- Fields are followed up to the first repeated name. -/
theorem first_repeated (pairs : List (Bytes × Bytes)) : pairs.Pairwise NamedApart ∨
    ∃ front repeated later, pairs = front ++ repeated :: later ∧ front.Pairwise NamedApart ∧
      occursIn (front.map Prod.fst) repeated.1 = true := by
  induction pairs using List.reverseRecOn with
  | nil => exact .inl .nil
  | append_singleton pairs last ih =>
    rcases ih with apart | ⟨front, repeated, later, rfl, before⟩
    · cases occurs : occursIn (pairs.map Prod.fst) last.1 with
      | true => exact .inr ⟨pairs, last, [], rfl, apart, occurs⟩
      | false =>
        refine .inl (List.pairwise_append.mpr ⟨apart, List.pairwise_singleton _ _, ?_⟩)
        intro pair member other same
        rw [List.mem_singleton.mp same, NamedApart, Bool.eq_false_iff, ne_eq, iEquals_iff]
        intro equal
        exact Bool.false_ne_true (occurs.symm.trans (occursIn_names.mpr ⟨pair, member, equal⟩))
    · exact .inr ⟨front, repeated, later ++ [last], List.append_assoc .., before⟩

/-- As long as no name is repeated, names are stored as they were sent. -/
theorem carried_append {seen : List Bytes} {front : List (Bytes × Bytes)}
    (unseen : ∀ pair ∈ front, occursIn seen pair.1 = false) (apart : front.Pairwise NamedApart)
    (later : List (Bytes × Bytes)) :
    carried seen [] (front ++ later) = front ++ carried (seen ++ front.map Prod.fst) [] later := by
  induction front generalizing seen with
  | nil => rw [List.nil_append, List.nil_append, List.map_nil, List.append_nil]
  | cons pair front ih =>
    obtain ⟨name, value⟩ := pair
    obtain ⟨here, others⟩ := List.forall_mem_cons.mp unseen
    obtain ⟨different, apart⟩ := List.pairwise_cons.mp apart
    have still : ∀ pair ∈ front, occursIn (seen ++ [name]) pair.1 = false := by
      intro pair member
      have first : iEquals name pair.1 = false := different pair member
      rw [occursIn_append, others pair member, Bool.false_or, occursIn, List.any_cons, first,
        List.any_nil, Bool.or_false]
    rw [List.cons_append, carried, List.nil_append, here, if_neg Bool.false_ne_true,
      ih still apart, List.cons_append, List.map_cons, List.append_assoc, List.singleton_append]

theorem HeadersKept.of_unrepeated {pairs : List (Bytes × Bytes)} (unrepeated : Unrepeated pairs) :
    HeadersKept pairs := by
  have same : carried [] [] pairs = pairs := by
    rcases List.eq_nil_or_concat pairs with rfl | ⟨front, last, rfl⟩
    · rfl
    · rw [List.concat_eq_append] at unrepeated ⊢
      rw [Unrepeated, List.dropLast_concat] at unrepeated
      rw [carried_append (fun _ _ => rfl) unrepeated]
      rfl
  intro name
  rw [same]

/-- The map is right if no name but the last is repeated, and otherwise only if what is stored
in the place of a name happens to be sent too. -/
theorem headersKept_iff {pairs : List (Bytes × Bytes)} :
    HeadersKept pairs ↔ Unrepeated pairs ∨ Coincide pairs := by
  constructor
  · intro kept
    rcases first_repeated pairs.dropLast with apart | ⟨front, repeated, later, split, apart, occurs⟩
    · exact .inl apart
    · have nonempty : pairs ≠ [] := by
        rintro rfl
        exact List.cons_ne_nil _ _ (List.append_eq_nil_iff.mp split.symm).2
      obtain ⟨next, rest, behind⟩ := List.exists_cons_of_ne_nil
        (List.append_ne_nil_of_right_ne_nil later (List.cons_ne_nil (pairs.getLast nonempty) []))
      have whole : pairs = front ++ repeated :: next :: rest := by
        rw [← behind, ← List.cons_append, ← List.append_assoc, ← split,
          List.dropLast_append_getLast]
      have stored : (repeated.1 ++ next.1, next.2) ∈ carried [] [] pairs := by
        rw [whole, carried_append (fun _ _ => rfl) apart, List.nil_append, carried,
          List.nil_append, occurs, if_pos rfl, carried]
        exact List.mem_append_right _ (List.mem_cons_of_mem _ List.mem_cons_self)
      have sent : ¬∀ pair ∈ pairs, foldCase pair.1 ≠ foldCase (repeated.1 ++ next.1) := by
        rw [← OrderedMap.entryOf_eq_none_iff, ← kept, OrderedMap.entryOf_eq_none_iff]
        exact fun none => none _ stored rfl
      simp only [ne_eq, not_forall, not_not, exists_prop] at sent
      exact .inr ⟨⟨front, repeated, next, rest, whole, apart, occurs, occursIn_names.mpr sent⟩, kept⟩
  · rintro (unrepeated | coincide)
    · exact .of_unrepeated unrepeated
    · exact coincide.kept

namespace Reading

theorem tryCommit_tryCommit (r : Reading) :
    r.tryCommitReadingRequestHeader.tryCommitReadingRequestHeader =
      r.tryCommitReadingRequestHeader := by
  by_cases pending : r.readingHeaderPart = .headerValuePart ∧ r.readingHeaderField ≠ []
  · simp [tryCommitReadingRequestHeader, pending]
  · have kept : r.tryCommitReadingRequestHeader = r := if_neg pending
    rw [kept, kept]

theorem foldl_onHeaderField {r : Reading} (settled : r.tryCommitReadingRequestHeader = r)
    (pieces : List Bytes) :
    pieces.foldl onHeaderField r =
      if pieces.flatten = [] then r
      else { r with
        readingHeaderPart := .headerFieldPart
        readingHeaderField := r.readingHeaderField ++ pieces.flatten } := by
  induction pieces generalizing r with
  | nil => rfl
  | cons data pieces ih =>
    rw [List.foldl_cons, List.flatten_cons, onHeaderField, settled]
    by_cases empty : data = []
    · rw [if_neg (not_not_intro empty), ih settled, empty, List.nil_append]
    · rw [if_pos empty, ih (by simp [tryCommitReadingRequestHeader])]
      by_cases none : pieces.flatten = []
      · simp [empty, none]
      · simp [empty, none]

theorem takeField (r : Reading) (h : HeaderPieces) :
    h.field.foldl onHeaderField r =
      { r.tryCommitReadingRequestHeader with
        readingHeaderPart := .headerFieldPart
        readingHeaderField := r.tryCommitReadingRequestHeader.readingHeaderField ++ h.name } := by
  have settled : h.field.foldl onHeaderField r =
      h.field.foldl onHeaderField r.tryCommitReadingRequestHeader := by
    cases pieces : h.field with
    | nil => exact absurd (by rw [pieces]; rfl) h.named
    | cons data pieces =>
      rw [List.foldl_cons, List.foldl_cons, onHeaderField, onHeaderField, tryCommit_tryCommit]
  rw [settled, foldl_onHeaderField (tryCommit_tryCommit r), if_neg h.named]
  rfl

theorem foldl_onHeaderValue {r : Reading} (reading : r.readingHeaderPart = .headerValuePart)
    (pieces : List Bytes) :
    pieces.foldl onHeaderValue r =
      { r with readingHeaderValue := r.readingHeaderValue ++ pieces.flatten } := by
  induction pieces generalizing r with
  | nil => simp
  | cons data pieces ih =>
    rw [List.foldl_cons, ih rfl]
    simp [onHeaderValue, reading]

theorem takeValue {r : Reading} (reading : r.readingHeaderPart = .headerFieldPart)
    (h : HeaderPieces) :
    h.value.foldl onHeaderValue r =
      { r with readingHeaderPart := .headerValuePart, readingHeaderValue := h.text } := by
  rw [HeaderPieces.text]
  cases pieces : h.value with
  | nil => exact absurd pieces h.valued
  | cons data pieces =>
    rw [List.foldl_cons, foldl_onHeaderValue rfl]
    simp [onHeaderValue, reading]

def takeHeader (r : Reading) (h : HeaderPieces) : Reading :=
  h.value.foldl onHeaderValue (h.field.foldl onHeaderField r)

/-- However a field is cut, it waits whole in the buffers, and the one before it is
committed. -/
theorem takeHeader_eq (r : Reading) (h : HeaderPieces) :
    r.takeHeader h =
      { r.tryCommitReadingRequestHeader with
        readingHeaderPart := .headerValuePart
        readingHeaderField := r.tryCommitReadingRequestHeader.readingHeaderField ++ h.name
        readingHeaderValue := h.text } := by
  rw [takeHeader, takeField, takeValue rfl]

theorem tryCommit_takeHeader (r : Reading) (h : HeaderPieces) :
    let name := r.tryCommitReadingRequestHeader.readingHeaderField ++ h.name
    let headers := r.tryCommitReadingRequestHeader.request.headers
    (r.takeHeader h).tryCommitReadingRequestHeader.request.headers = headers.assign name h.text ∧
      (r.takeHeader h).tryCommitReadingRequestHeader.readingHeaderField =
        if (headers.find name).isSome then name else [] := by
  intro name headers
  have nonempty : name ≠ [] := by
    intro none
    exact h.named (List.append_eq_nil_iff.mp none).2
  rw [takeHeader_eq, tryCommitReadingRequestHeader, if_pos ⟨rfl, nonempty⟩]
  exact ⟨appendHeader_headers _ _ _, appendHeader_field _ _ _⟩

def takeHeaders (r : Reading) (headers : List HeaderPieces) : Reading :=
  headers.foldl takeHeader r

/-- The names seen are the keys of a map. -/
def Seen (seen : List Bytes) (headers : ICHeaders) : Prop :=
  ∀ name, (headers.find name).isSome = occursIn seen name

theorem Seen.assign {seen : List Bytes} {headers : ICHeaders} (known : Seen seen headers)
    (name value : Bytes) : Seen (seen ++ [name]) (headers.assign name value) := by
  intro other
  simp only [occursIn, List.any_append, List.any_cons, List.any_nil, Bool.or_false]
  by_cases same : foldCase name = foldCase other
  · rw [← OrderedMap.find_congr _ same, OrderedMap.find_assign_self,
      (iEquals_iff name other).mpr same]
    simp
  · have different : iEquals name other = false := by
      rw [Bool.eq_false_iff, ne_eq, iEquals_iff]
      exact same
    rw [OrderedMap.find_assign_other _ _ same, known other, different, Bool.or_false, occursIn]

theorem takeHeaders_headers {seen : List Bytes} {r : Reading}
    (known : Seen seen r.tryCommitReadingRequestHeader.request.headers)
    (headers : List HeaderPieces) :
    (r.takeHeaders headers).tryCommitReadingRequestHeader.request.headers =
      r.tryCommitReadingRequestHeader.request.headers.assignAll
        (carried seen r.tryCommitReadingRequestHeader.readingHeaderField
          (headers.map HeaderPieces.pair)) := by
  induction headers generalizing seen r with
  | nil => rfl
  | cons h headers ih =>
    obtain ⟨stored, left⟩ := tryCommit_takeHeader r h
    rw [takeHeaders, List.foldl_cons, ← takeHeaders, ih (stored ▸ known.assign _ _), stored, left,
      known _]
    rfl

/-- The map that a new message's fields end up in. -/
theorem reset_takeHeaders_headers {r : Reading} (none : r.readingHeaderPart = .headerNonePart)
    (unnamed : r.readingHeaderField = []) (empty : r.request.headers = .empty)
    (headers : List HeaderPieces) :
    (r.takeHeaders headers).tryCommitReadingRequestHeader.request.headers =
      headerMap (carried [] [] (headers.map HeaderPieces.pair)) := by
  have settled : r.tryCommitReadingRequestHeader = r := by
    simp [tryCommitReadingRequestHeader, none]
  have known : Seen [] r.tryCommitReadingRequestHeader.request.headers := by
    rw [settled, empty]
    intro name
    rfl
  rw [takeHeaders_headers known, settled, unnamed, empty, headerMap]

theorem tryCommit_frame (r : Reading) : ∃ part field value map,
    r.tryCommitReadingRequestHeader = { r with
      readingHeaderPart := part
      readingHeaderField := field
      readingHeaderValue := value
      request := { r.request with headers := map } } := by
  rw [tryCommitReadingRequestHeader]
  split
  · exact ⟨_, _, _, _, rfl⟩
  · exact ⟨_, _, _, _, rfl⟩

/-- The headers depend on those of before and on the field that is being read. -/
theorem tryCommit_headers {r s : Reading} (part : s.readingHeaderPart = r.readingHeaderPart)
    (field : s.readingHeaderField = r.readingHeaderField)
    (value : s.readingHeaderValue = r.readingHeaderValue)
    (headers : s.request.headers = r.request.headers) :
    s.tryCommitReadingRequestHeader.request.headers =
      r.tryCommitReadingRequestHeader.request.headers := by
  rw [tryCommitReadingRequestHeader, tryCommitReadingRequestHeader, part, field]
  split
  · rw [value, headers]
  · exact headers

theorem parseUrlBuffer_frame (env : Environment) (r : Reading) : ∃ url,
    r.parseUrlBuffer env = { r with urlBuffer := [], request := { r.request with url := url } } ∧
      url = if r.urlBuffer ≠ [] then r.request.url.parse env r.urlBuffer else r.request.url := by
  rw [parseUrlBuffer]
  split
  · exact ⟨_, rfl, rfl⟩
  · rename_i empty
    refine ⟨r.request.url, ?_, rfl⟩
    rw [← not_not.mp empty]

/-- What the end of the header block makes of a reading: it sets what the block says
about the request, and nothing of a body. -/
structure HeaderParsed (env : Environment) (r : Reading) (p : ParserFields) (s : Reading) :
    Prop where
  parserFields : s.parserFields = p
  method : s.request.method = p.method
  url : s.request.url =
    if r.urlBuffer ≠ [] then r.request.url.parse env r.urlBuffer else r.request.url
  headers : s.request.headers = r.tryCommitReadingRequestHeader.request.headers
  bodyBuffer : s.bodyBuffer = r.bodyBuffer
  body : s.request.body = r.request.body
  multiparts : s.request.multiparts = r.request.multiparts
  readingPart : s.readingPart = r.readingPart
  readingPartBuffer : s.readingPartBuffer = r.readingPartBuffer
  mpParser : s.mpParser = r.mpParser

theorem headerParsed_spec (env : Environment) (r : Reading) (p : ParserFields) :
    HeaderParsed env r p (r.headerParsed env p) := by
  obtain ⟨url, located, place⟩ := parseUrlBuffer_frame env { r with parserFields := p }
  obtain ⟨part, field, value, map, committed⟩ :=
    tryCommit_frame (({ r with parserFields := p }.parseUrlBuffer env).takeFields p)
  have headers : map = r.tryCommitReadingRequestHeader.request.headers := by
    have same := tryCommit_headers (r := r)
      (s := ({ r with parserFields := p }.parseUrlBuffer env).takeFields p)
    rw [committed, located] at same
    exact same rfl rfl rfl rfl
  obtain ⟨cookies, transferred⟩ := Request.transferHeadersToCookies_frame
    { (({ r with parserFields := p }.parseUrlBuffer env).takeFields p).request with headers := map }
  obtain ⟨flags, boundary, typed⟩ := Request.parseContentType_frame
    { (({ r with parserFields := p }.parseUrlBuffer env).takeFields p).request with
      headers := map
      cookies := cookies }
  rw [headerParsed, updateRequestAfterHeaderParsed, committed, transferred, typed, located]
  exact ⟨rfl, rfl, place, headers, rfl, rfl, rfl, rfl, rfl, rfl⟩

theorem foldl_onUrl (r : Reading) (target : List Bytes) :
    target.foldl onUrl r = { r with urlBuffer := r.urlBuffer ++ target.flatten } := by
  induction target generalizing r with
  | nil => simp
  | cons data target ih =>
    rw [List.foldl_cons, ih]
    simp [onUrl]

end Reading

namespace Connection

theorem callbacks_url (env : Environment) (errno : ParserErrno) (c : Connection)
    (target : List Bytes) (rest : List ParserCallback) :
    c.callbacks env errno (target.map .url ++ rest) =
      { c with toReading := target.foldl Reading.onUrl c.toReading }.callbacks env errno rest := by
  induction target generalizing c with
  | nil => rfl
  | cons data target ih => exact ih { c with toReading := c.toReading.onUrl data }

theorem callbacks_headerField (env : Environment) (errno : ParserErrno) (c : Connection)
    (pieces : List Bytes) (rest : List ParserCallback) :
    c.callbacks env errno (pieces.map .headerField ++ rest) =
      { c with toReading := pieces.foldl Reading.onHeaderField c.toReading }.callbacks env errno
        rest := by
  induction pieces generalizing c with
  | nil => rfl
  | cons data pieces ih => exact ih { c with toReading := c.toReading.onHeaderField data }

theorem callbacks_headerValue (env : Environment) (errno : ParserErrno) (c : Connection)
    (pieces : List Bytes) (rest : List ParserCallback) :
    c.callbacks env errno (pieces.map .headerValue ++ rest) =
      { c with toReading := pieces.foldl Reading.onHeaderValue c.toReading }.callbacks env errno
        rest := by
  induction pieces generalizing c with
  | nil => rfl
  | cons data pieces ih => exact ih { c with toReading := c.toReading.onHeaderValue data }

theorem callbacks_headers (env : Environment) (errno : ParserErrno) (c : Connection)
    (headers : List HeaderPieces) (rest : List ParserCallback) :
    c.callbacks env errno (headers.flatMap HeaderPieces.callbacks ++ rest) =
      { c with toReading := c.toReading.takeHeaders headers }.callbacks env errno rest := by
  induction headers generalizing c with
  | nil => rfl
  | cons h headers ih =>
    rw [List.flatMap_cons, HeaderPieces.callbacks, List.append_assoc, List.append_assoc,
      callbacks_headerField, callbacks_headerValue]
    exact ih { c with toReading := c.toReading.takeHeader h }

theorem headers_reply {c d : Connection} {response : Response}
    (started : { c with response := response }.startWrite = some d) :
    d.request.headers = c.request.headers := by
  obtain ⟨-, response, operation, rfl⟩ := startWrite_cases started
  rfl

theorem onRouted_headers {c : Connection} {answer : Connection × Returned}
    (answered : c.onRouted routed = some answer) :
    answer.1.request.headers = c.request.headers := by
  rw [onRouted] at answered
  split at answered
  · obtain ⟨d, written, rfl⟩ := Option.map_eq_some_iff.mp answered
    exact headers_reply written
  · split at answered
    · obtain ⟨d, written, rfl⟩ := Option.map_eq_some_iff.mp answered
      exact headers_reply written
    · split at answered
      · cases answered
        change (c.toReading.tryInitMultipartParser).request.headers = _
        rw [Reading.tryInitMultipartParser, Reading.initMultipartParser]
        split
        · split <;> rfl
        · rfl
      · cases answered
        rfl

theorem onHeadersComplete_headers {c : Connection} {answer : Connection × Returned}
    (answered : c.onHeadersComplete env p = some answer) :
    answer.1.request.headers = c.tryCommitReadingRequestHeader.request.headers := by
  have parsed : (c.headerParsed env p).request.headers = _ :=
    (Reading.headerParsed_spec env c.toReading p).headers
  have outcome := onHeadersComplete_cases answered
  generalize c.headerParsed env p = d at parsed outcome
  rcases outcome with ⟨app, url, routed⟩ | ⟨-, app, written⟩
  · exact (onRouted_headers routed).trans parsed
  · exact (headers_reply written).trans parsed

theorem headerBlock_headers {c d : Connection}
    (received : c.reset.callbacks env errno (headerBlock target headers p) = some d) :
    d.request.headers = headerMap (carried [] [] (headers.map HeaderPieces.pair)) := by
  rw [headerBlock, List.cons_append, List.cons_append, callbacks] at received
  simp only [callback, Option.bind_some, List.append_assoc, callbacks_url, callbacks_headers,
    callbacks] at received
  obtain ⟨answer, answered, rest⟩ := Option.bind_eq_some_iff.mp received
  have same : d.request = answer.1.request := by
    split at rest <;> cases rest <;> rfl
  rw [same, onHeadersComplete_headers answered, Reading.foldl_onUrl]
  exact Reading.reset_takeHeaders_headers rfl rfl rfl headers

/-- However the fields are cut, the map is the one that they mean exactly if none but the
last repeats a name, coincidences apart. -/
theorem headers_received_iff {c d : Connection}
    (received : c.reset.callbacks env errno (headerBlock target headers p) = some d) :
    d.request.headers = headerMap (headers.map HeaderPieces.pair) ↔
      Unrepeated (headers.map HeaderPieces.pair) ∨ Coincide (headers.map HeaderPieces.pair) := by
  rw [headerBlock_headers received, ← headersKept_iff]
  exact OrderedMap.assignAll_eq_iff _ _

/-- `A: 1`, `a: 2` and `B: 3`. -/
def repeatedField : List HeaderPieces :=
  [.uncut [65] [49] (by decide), .uncut [97] [50] (by decide), .uncut [66] [51] (by decide)]

def repeatedBlock : List ParserCallback :=
  headerBlock [[47]] repeatedField { method := httpGet, httpMajor := 1, httpMinor := 1 }

theorem headers_received_iff_repeatedField :
    ∃ d, started.reset.callbacks (.single .root) .ok repeatedBlock = some d ∧
      (d.request.headers = headerMap (repeatedField.map HeaderPieces.pair) ↔
        Unrepeated (repeatedField.map HeaderPieces.pair) ∨
          Coincide (repeatedField.map HeaderPieces.pair)) := by
  have received :
      (started.reset.callbacks (.single .root) .ok repeatedBlock).isSome = true := by decide
  exact ⟨_, (Option.some_get received).symm, headers_received_iff (Option.some_get received).symm⟩

/-- The third field is stored as `aB`. -/
theorem repeatedField_renames :
    (started.reset.callbacks (.single .root) .ok repeatedBlock).map
        (fun d => d.request.headers.entries) = some [([65], [50]), ([97, 66], [51])] ∧
      (headerMap (repeatedField.map HeaderPieces.pair)).entries = [([65], [50]), ([66], [51])] := by
  constructor <;> decide

end Connection
end Da4qi4
