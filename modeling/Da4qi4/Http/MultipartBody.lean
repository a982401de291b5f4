import Da4qi4.Http.MultipartCuts
import Da4qi4.Http.ConnectionParts
import Mathlib.Data.List.TakeWhile

/-! A body of parts as it is written, read back. Data may hold line ends and the front of
a boundary, at its end too: what was taken for a boundary is handed over when it is none. -/
namespace Da4qi4
open Joining Utilities

/-- A header line of a part. -/
structure PartHeader where
  name : Bytes
  value : Bytes
  named : name ≠ []
  letters : ∀ c ∈ name, Multipart.Parser.isHeaderFieldChar c = true
  line : 13 ∉ value
  trimmed : value.head? ≠ some 32

/-- A part whose data does not hold the boundary behind a line end. -/
structure PartText (boundary : Bytes) where
  headers : List PartHeader
  data : Bytes
  distinct : headers.Pairwise fun first second => iEquals first.name second.name = false
  free : ¬(13 :: 10 :: boundary) <:+: data

namespace PartHeader

def encode (h : PartHeader) : Bytes := h.name ++ [58, 32] ++ h.value ++ [13, 10]

def callbacks (h : PartHeader) : List MultipartCallback :=
  [.headerField h.name, .headerValue h.value]

def pair (h : PartHeader) : Bytes × Bytes := (h.name, h.value)

end PartHeader

namespace PartText
variable {boundary : Bytes}

def encode (part : PartText boundary) : Bytes :=
  [13, 10] ++ part.headers.flatMap PartHeader.encode ++ [13, 10] ++ part.data ++
    13 :: 10 :: boundary

/-- Parts between boundaries, and what stands behind the last one. -/
def encodeAll (parts : List (PartText boundary)) (epilogue : Bytes) : Bytes :=
  boundary ++ parts.flatMap encode ++ [45, 45] ++ epilogue

/-- What there is of a part when its name, its values and its data are in one piece each. -/
def callbacks (part : PartText boundary) : List MultipartCallback :=
  .dataBegin :: part.headers.flatMap PartHeader.callbacks ++
    [.headersComplete, .data part.data, .dataEnd]

end PartText

namespace Multipart.Parser

/-- A text that is read to its end, with what the parser has made of it. -/
structure Reads (p : Parser) (text : Bytes) (q : Parser) (made : List MultipartCallback) : Prop where
  read : ∃ alone, p.octets text = some (q, alone) ∧ Same glue alone made
  named : p.Named text

namespace Reads
variable {p q r : Parser} {made more : List MultipartCallback}

theorem nil (p : Parser) : p.Reads [] p [] := ⟨⟨[], rfl, .refl _⟩, trivial⟩

theorem one {c : UInt8} (taken : p.octet c = some (q, made))
    (named : p.state ≠ .headerField ∨ c ≠ 13) : p.Reads [c] q made := by
  refine ⟨⟨made, ?_, .refl made⟩, ?_, fun _ _ _ => trivial⟩
  · rw [octets, taken]
    simp [octets]
  · rintro ⟨state, cr⟩
    exact named.elim (fun other => other state) fun other => other cr

theorem append {front rest : Bytes} (first : p.Reads front q made) (second : q.Reads rest r more) :
    p.Reads (front ++ rest) r (made ++ more) := by
  obtain ⟨alone, read, same⟩ := first.read
  obtain ⟨others, again, sameLater⟩ := second.read
  refine ⟨⟨alone ++ others, ?_, same.append sameLater⟩, ?_⟩
  · rw [octets_append, read, Option.bind_some, again]
    rfl
  · exact named_append first.named fun s _ other => by
      rw [read] at other
      cases other
      exact second.named

theorem congr {text : Bytes} (reads : p.Reads text q made) (same : Same glue made more) :
    p.Reads text q more := by
  obtain ⟨alone, read, made_⟩ := reads.read
  exact ⟨⟨alone, read, made_.trans same⟩, reads.named⟩

end Reads
theorem octet_startBoundary (boundary lookbehind : Bytes) {index : Nat}
    (inside : index < boundary.length) :
    octet ⟨boundary, index, .startBoundary, lookbehind⟩ (boundary.getD index 0) =
      some (⟨boundary, index + 1, .startBoundary, lookbehind⟩, []) := by
  have before : index ≠ boundary.length := inside.ne
  have before' : index ≠ boundary.length + 1 := by omega
  simp [octet, take, takeStartBoundary, before, before']

theorem reads_startBoundary (boundary lookbehind : Bytes) (index : Nat) (rest : Bytes)
    (left : boundary.drop index = rest) (bound : index ≤ boundary.length) :
    Reads ⟨boundary, index, .startBoundary, lookbehind⟩ rest
      ⟨boundary, boundary.length, .startBoundary, lookbehind⟩ [] := by
  induction rest generalizing index with
  | nil =>
    have all : index = boundary.length :=
      Nat.le_antisymm bound (List.drop_eq_nil_iff.mp left)
    rw [all]
    exact .nil _
  | cons c rest ih =>
    have inside : index < boundary.length := by
      by_contra beyond
      rw [List.drop_eq_nil_of_le (Nat.le_of_not_lt beyond)] at left
      cases left
    have here : boundary.getD index 0 = c := by
      rw [List.getD_eq_getElem?_getD, ← List.head?_drop, left]
      rfl
    have later : boundary.drop (index + 1) = rest := by
      rw [← List.drop_drop, left, List.drop_one, List.tail_cons]
    have taken := octet_startBoundary boundary lookbehind inside
    rw [here] at taken
    exact (Reads.one taken (.inl (by simp))).append (ih _ later inside)

/-- The first boundary. -/
theorem reads_first (boundary : Bytes) (some_ : boundary ≠ []) :
    Reads { multipartBoundary := boundary } boundary
      ⟨boundary, boundary.length, .startBoundary, []⟩ [] := by
  obtain ⟨c, rest, whole⟩ := List.exists_cons_of_ne_nil some_
  have inside : 0 < boundary.length := List.length_pos_iff.mpr some_
  have first : octet { multipartBoundary := boundary } c =
      some (⟨boundary, 1, .startBoundary, []⟩, []) := by
    have taken := octet_startBoundary boundary [] inside
    rw [whole] at taken ⊢
    exact taken
  have others := reads_startBoundary boundary [] 1 rest
    (by rw [whole]; rfl) inside
  have all := (Reads.one first (.inl (by simp))).append others
  rw [List.singleton_append, ← whole] at all
  exact all

/-- Behind a boundary, the first one or another. -/
inductive Opens (boundary : Bytes) : Parser → Prop
  | first (lookbehind : Bytes) :
    Opens boundary ⟨boundary, boundary.length, .startBoundary, lookbehind⟩
  | next (index : Nat) (lookbehind : Bytes) :
    Opens boundary ⟨boundary, index, .partDataAlmostEnd, lookbehind⟩

/-- The line end behind it begins a part. -/
theorem Opens.begins {boundary : Bytes} {p : Parser} (opens : Opens boundary p) :
    ∃ index, Reads p [13, 10] ⟨boundary, index, .headerFieldStart, p.lookbehind⟩ [.dataBegin] := by
  cases opens with
  | first lookbehind =>
    have cr : octet ⟨boundary, boundary.length, .startBoundary, lookbehind⟩ 13 =
        some (⟨boundary, boundary.length + 1, .startBoundary, lookbehind⟩, []) := by
      simp [octet, take, takeStartBoundary]
    have lf : octet ⟨boundary, boundary.length + 1, .startBoundary, lookbehind⟩ 10 =
        some (⟨boundary, 0, .headerFieldStart, lookbehind⟩, [.dataBegin]) := by
      simp [octet, take, takeStartBoundary]
    exact ⟨0, (Reads.one cr (.inl (by simp))).append (.one lf (.inl (by simp)))⟩
  | next index lookbehind =>
    have cr : octet ⟨boundary, index, .partDataAlmostEnd, lookbehind⟩ 13 =
        some (⟨boundary, index, .partDataEnd, lookbehind⟩, []) := by
      simp [octet, take]
    have lf : octet ⟨boundary, index, .partDataEnd, lookbehind⟩ 10 =
        some (⟨boundary, index, .headerFieldStart, lookbehind⟩, [.dataBegin]) := by
      simp [octet, take]
    exact ⟨index, (Reads.one cr (.inl (by simp))).append (.one lf (.inl (by simp)))⟩

theorem letter_ne {c : UInt8} (letter : isHeaderFieldChar c = true) : c ≠ 13 ∧ c ≠ 58 := by
  constructor
  · rintro rfl
    exact absurd letter (by decide)
  · rintro rfl
    exact absurd letter (by decide)

theorem reads_name (boundary lookbehind : Bytes) (index : Nat) {name : Bytes}
    (letters : ∀ c ∈ name, isHeaderFieldChar c = true) :
    Reads ⟨boundary, index, .headerField, lookbehind⟩ (name ++ [58])
      ⟨boundary, index, .headerValueStart, lookbehind⟩ [.headerField name] := by
  induction name with
  | nil =>
    refine .one ?_ (.inr (by decide))
    simp [octet, take, takeHeaderField, slice]
  | cons c name ih =>
    obtain ⟨here, later⟩ := List.forall_mem_cons.mp letters
    obtain ⟨cr, colon⟩ := letter_ne here
    have taken : octet ⟨boundary, index, .headerField, lookbehind⟩ c =
        some (⟨boundary, index, .headerField, lookbehind⟩, [.headerField [c]]) := by
      simp [octet, take, takeHeaderField, slice, cr, colon, here]
    exact ((Reads.one taken (.inr cr)).append (ih later)).congr (.pair rfl)

theorem reads_value (boundary lookbehind : Bytes) (index : Nat) {value : Bytes}
    (line : 13 ∉ value) :
    Reads ⟨boundary, index, .headerValue, lookbehind⟩ (value ++ [13])
      ⟨boundary, index, .headerValueAlmostDone, lookbehind⟩ [.headerValue value] := by
  induction value with
  | nil =>
    refine .one ?_ (.inl (by simp))
    simp [octet, take, takeHeaderValue, slice]
  | cons c value ih =>
    obtain ⟨cr, later⟩ := not_or.mp (List.mem_cons.not.mp line)
    have taken : octet ⟨boundary, index, .headerValue, lookbehind⟩ c =
        some (⟨boundary, index, .headerValue, lookbehind⟩, [.headerValue [c]]) := by
      simp [octet, take, takeHeaderValue, slice, Ne.symm cr]
    exact ((Reads.one taken (.inl (by simp))).append (ih later)).congr (.pair rfl)

/-- What begins a name, a value or data reads its first character like what goes on with
it, behind callbacks of its own. -/
theorem Reads.start {p q r : Parser} {c : UInt8} {text : Bytes} (lead : List MultipartCallback)
    {made : List MultipartCallback}
    (same : p.octet c = (q.octet c).map fun first => (first.1, lead ++ first.2))
    (state : p.state ≠ .headerField) (reads : q.Reads (c :: text) r made) :
    p.Reads (c :: text) r (lead ++ made) := by
  obtain ⟨alone, read, made_⟩ := reads.read
  obtain ⟨first, one, others⟩ := Option.bind_eq_some_iff.mp read
  obtain ⟨second, later, rfl, rfl⟩ : ∃ second, first.1.octets text = some second ∧
      second.1 = r ∧ first.2 ++ second.2 = alone := by
    obtain ⟨second, later, same⟩ := Option.map_eq_some_iff.mp others
    exact ⟨second, later, congrArg Prod.fst same, congrArg Prod.snd same⟩
  rw [one, Option.map_some] at same
  refine ⟨⟨lead ++ (first.2 ++ second.2), ?_, (Same.refl lead).append made_⟩,
    fun wrong => state wrong.1, fun s more taken => ?_⟩
  · rw [octets, same, Option.bind_some, later, Option.map_some, List.append_assoc]
  · rw [same] at taken
    cases taken
    exact reads.named.2 first.1 first.2 one

theorem reads_header (boundary lookbehind : Bytes) (index : Nat) (h : PartHeader) :
    Reads ⟨boundary, index, .headerFieldStart, lookbehind⟩ h.encode
      ⟨boundary, index, .headerFieldStart, lookbehind⟩
      h.callbacks := by
  have name : Reads ⟨boundary, index, .headerFieldStart, lookbehind⟩ (h.name ++ [58])
      ⟨boundary, index, .headerValueStart, lookbehind⟩ [.headerField h.name] := by
    have going := reads_name boundary lookbehind index h.letters
    obtain ⟨c, rest, whole⟩ := List.exists_cons_of_ne_nil h.named
    rw [whole] at going ⊢
    exact going.start [] (by simp [octet, take, takeHeaderField, slice]) (by simp)
  have blank : Reads ⟨boundary, index, .headerValueStart, lookbehind⟩ [32]
      ⟨boundary, index, .headerValueStart, lookbehind⟩ [] := by
    refine .one ?_ (.inl (by simp))
    simp [octet, take]
  have value : Reads ⟨boundary, index, .headerValueStart, lookbehind⟩ (h.value ++ [13])
      ⟨boundary, index, .headerValueAlmostDone, lookbehind⟩ [.headerValue h.value] := by
    have going := reads_value boundary lookbehind index h.line
    have trimmed := h.trimmed
    cases whole : h.value with
    | nil =>
      rw [whole] at going
      exact going.start [] (by simp [octet, take, takeHeaderValue, slice]) (by simp)
    | cons c rest =>
      rw [whole] at going trimmed
      have first : c ≠ 32 := fun same => trimmed (congrArg some same)
      exact going.start [] (by simp [octet, take, takeHeaderValue, slice, first]) (by simp)
  have lf : Reads ⟨boundary, index, .headerValueAlmostDone, lookbehind⟩ [10]
      ⟨boundary, index, .headerFieldStart, lookbehind⟩ [] := by
    refine .one ?_ (.inl (by simp))
    simp [octet, take]
  have all := ((name.append blank).append value).append lf
  simpa [PartHeader.encode, PartHeader.callbacks] using all

theorem reads_headers (boundary lookbehind : Bytes) (index : Nat) (headers : List PartHeader) :
    Reads ⟨boundary, index, .headerFieldStart, lookbehind⟩ (headers.flatMap PartHeader.encode)
      ⟨boundary, index, .headerFieldStart, lookbehind⟩
      (headers.flatMap PartHeader.callbacks) := by
  induction headers with
  | nil => exact .nil _
  | cons h headers ih =>
    rw [List.flatMap_cons, List.flatMap_cons]
    exact (reads_header boundary lookbehind index h).append ih

/-- Inside the data of a part, with what is held back as the front of a boundary. -/
inductive InPart (boundary : Bytes) : Parser → Bytes → Prop
  | data (index : Nat) (lookbehind : Bytes) :
    InPart boundary ⟨boundary, index, .partData, lookbehind⟩ []
  | almost {lookbehind : Bytes} (index : Nat) (kept : lookbehind.take 1 = [13]) :
    InPart boundary ⟨boundary, index, .partDataAlmostBoundary, lookbehind⟩ [13]
  | inside {index : Nat} {lookbehind : Bytes} (bound : index < boundary.length)
    (kept : lookbehind.take (2 + index) = 13 :: 10 :: boundary.take index) :
    InPart boundary ⟨boundary, index, .partDataBoundary, lookbehind⟩
      (13 :: 10 :: boundary.take index)

theorem InPart.state {boundary held : Bytes} {p : Parser} (inPart : InPart boundary p held) :
    p.state ≠ .headerField := by
  cases inPart <;> simp

/-- Behind data that is handed over there is data, or a line end that is held back. -/
theorem inPart_partData (boundary : Bytes) (index : Nat) (lookbehind : Bytes) (state : State)
    (c : UInt8) (before : List MultipartCallback) :
    ∃ q held data, takePartData ⟨boundary, index, state, lookbehind⟩ [c] 0 0 c true before =
        .go q 0 (before ++ [.data data]) ∧ InPart boundary q held ∧ data ++ held = [c] ∧
      (c = 13 → held = [13]) := by
  rw [takePartData]
  split
  · rename_i cr
    exact ⟨_, [13], [], rfl, .almost index rfl, cr ▸ rfl, fun _ => rfl⟩
  · rename_i other
    exact ⟨_, [], [c], rfl, .data index lookbehind, rfl, fun cr => absurd cr other⟩

/-- A character completes a boundary, or the data that is handed over and what is held back
are as before with the character behind them. -/
theorem InPart.octet {boundary held : Bytes} {p : Parser} (inPart : InPart boundary p held)
    (some_ : boundary ≠ []) (c : UInt8) :
    (∃ lookbehind, p.octet c =
        some (⟨boundary, boundary.length, .partDataAlmostEnd, lookbehind⟩, [.dataEnd]) ∧
      held ++ [c] = 13 :: 10 :: boundary) ∨
    ∃ q held' data, p.octet c = some (q, data.map .data) ∧ InPart boundary q held' ∧
      data.flatten ++ held' = held ++ [c] ∧
      (c = 13 → 13 ∉ boundary → held' = [13] ∧ data ≠ []) := by
  cases inPart with
  | data index lookbehind =>
    obtain ⟨q, held', data, taken, inside, same, cr⟩ :=
      inPart_partData boundary index lookbehind .partData c []
    refine .inr ⟨q, held', [data], ?_, inside, ?_, fun is _ => ⟨cr is, by simp⟩⟩
    · simp only [Parser.octet, take, taken]
      rfl
    · simpa using same
  | @almost lookbehind index kept =>
    by_cases lf : c = 10
    · refine .inr ⟨⟨boundary, 0, .partDataBoundary, lookbehind.take 1 ++ [10]⟩, [13, 10], [], ?_,
        .inside (List.length_pos_iff.mpr some_) ?_, by rw [lf]; rfl, fun cr => ?_⟩
      · simp [Parser.octet, take, lf, store]
      · rw [kept]
        rfl
      · rw [lf] at cr
        cases cr
    · obtain ⟨q, held', data, taken, inside, same, cr⟩ :=
        inPart_partData boundary index lookbehind .partDataAlmostBoundary c
          [.data [13]]
      refine .inr ⟨q, held', [[13], data], ?_, inside, ?_, fun is _ => ⟨cr is, by simp⟩⟩
      · simp only [Parser.octet, take, if_neg lf, kept, taken]
        rfl
      · simp [same]
  | @inside index lookbehind bound kept =>
    have here : boundary.getD index 0 = boundary[index] := by
      rw [List.getD_eq_getElem?_getD, List.getElem?_eq_getElem bound]
      rfl
    by_cases match_ : boundary[index] = c
    · have next : boundary.take (index + 1) = boundary.take index ++ [c] := by
        rw [List.take_succ_eq_append_getElem bound, match_]
      have longer : (lookbehind.take (2 + index) ++ [c]).take (2 + (index + 1)) =
          13 :: 10 :: boundary.take (index + 1) := by
        rw [kept, next]
        refine List.take_of_length_le ?_
        simp
        omega
      by_cases last : index + 1 = boundary.length
      · refine .inl ⟨lookbehind.take (2 + index) ++ [c], ?_, ?_⟩
        · simp [Parser.octet, take, match_, last, store, bound]
        · rw [List.cons_append, List.cons_append, ← next, last, List.take_length]
      · refine .inr ⟨⟨boundary, index + 1, .partDataBoundary, lookbehind.take (2 + index) ++ [c]⟩,
          13 :: 10 :: boundary.take (index + 1), [], ?_, .inside (by omega) longer, ?_, ?_⟩
        · simp [Parser.octet, take, match_, last, store, bound]
        · rw [next]
          rfl
        · intro cr free
          rw [cr] at match_
          exact absurd (match_ ▸ List.getElem_mem bound) free
    · obtain ⟨q, held', data, taken, inPart, same, cr⟩ :=
        inPart_partData boundary index lookbehind .partDataBoundary c
          [.data (13 :: 10 :: boundary.take index)]
      refine .inr ⟨q, held', [13 :: 10 :: boundary.take index, data], ?_, inPart, ?_,
        fun is _ => ⟨cr is, by simp⟩⟩
      · simp only [Parser.octet, take, here, ne_eq, match_, not_false_eq_true, if_true, kept, taken]
        rfl
      · simp [same]

/-- Data without a boundary in it is handed over, but for what is held back at its end. -/
theorem reads_data {boundary held data : Bytes} {p : Parser} (inPart : InPart boundary p held)
    (some_ : boundary ≠ []) (free : ¬(13 :: 10 :: boundary) <:+: held ++ data) :
    ∃ (q : Parser) (held' : Bytes) (pieces : List Bytes),
      p.Reads data q (pieces.map .data) ∧ InPart boundary q held' ∧
        pieces.flatten ++ held' = held ++ data := by
  induction data generalizing p held with
  | nil => exact ⟨p, held, [], .nil p, inPart, (List.append_nil _).symm⟩
  | cons c data ih =>
    rcases inPart.octet some_ c with ⟨_, _, complete⟩ | ⟨q, held', pieces, taken, inside, same, -⟩
    · refine absurd ⟨[], data, ?_⟩ free
      rw [List.nil_append, ← complete, List.append_assoc, List.singleton_append]
    · have whole : held ++ c :: data = pieces.flatten ++ (held' ++ data) := by
        rw [← List.append_assoc, same, List.append_assoc, List.singleton_append]
      rw [whole] at free
      obtain ⟨r, last, more, reads, behind, rest⟩ := ih inside fun infix_ =>
        free (infix_.trans (List.suffix_append _ _).isInfix)
      refine ⟨r, last, pieces ++ more, ?_, behind, ?_⟩
      · rw [List.map_append]
        exact (Reads.one taken (.inl inPart.state)).append reads
      · rw [List.flatten_append, List.append_assoc, rest, whole]

theorem reads_partDataBoundary {boundary rest : Bytes} (lookbehind : Bytes) {index : Nat}
    (bound : index < boundary.length)
    (kept : lookbehind.take (2 + index) = 13 :: 10 :: boundary.take index)
    (left : boundary.drop index = rest) :
    ∃ lookbehind', Reads ⟨boundary, index, .partDataBoundary, lookbehind⟩ rest
      ⟨boundary, boundary.length, .partDataAlmostEnd, lookbehind'⟩ [.dataEnd] := by
  have some_ : boundary ≠ [] := by
    rintro rfl
    cases bound
  induction rest generalizing index lookbehind with
  | nil =>
    have beyond := List.drop_eq_nil_iff.mp left
    omega
  | cons c rest ih =>
    have here : c = boundary[index] := by
      rw [List.drop_eq_getElem_cons bound] at left
      exact (List.cons.inj left).1.symm
    have later : boundary.drop (index + 1) = rest := by
      rw [List.drop_eq_getElem_cons bound] at left
      exact (List.cons.inj left).2
    have next : boundary.take (index + 1) = boundary.take index ++ [c] := by
      rw [List.take_succ_eq_append_getElem bound, here]
    by_cases last : index + 1 = boundary.length
    · have none : rest = [] := by
        rw [← later, last, List.drop_length]
      rw [none]
      refine ⟨lookbehind.take (2 + index) ++ [c], .one ?_ (.inl (by simp))⟩
      simp [Parser.octet, take, here, last, store, bound]
    · have longer : (lookbehind.take (2 + index) ++ [c]).take (2 + (index + 1)) =
          13 :: 10 :: boundary.take (index + 1) := by
        rw [kept, next]
        refine List.take_of_length_le ?_
        simp
        omega
      have taken : Parser.octet ⟨boundary, index, .partDataBoundary, lookbehind⟩ c =
          some (⟨boundary, index + 1, .partDataBoundary, lookbehind.take (2 + index) ++ [c]⟩, []) := by
        simp [Parser.octet, take, here, last, store, bound]
      obtain ⟨lookbehind', reads⟩ := ih _ (by omega) longer later
      exact ⟨lookbehind', (Reads.one taken (.inl (by simp))).append reads⟩

/-- The boundary behind data hands over what was held back. -/
theorem reads_close {boundary held : Bytes} {p : Parser} (inPart : InPart boundary p held)
    (some_ : boundary ≠ []) (line : 13 ∉ boundary) :
    ∃ (pieces : List Bytes) (lookbehind : Bytes), p.Reads (13 :: 10 :: boundary)
        ⟨boundary, boundary.length, .partDataAlmostEnd, lookbehind⟩
        (pieces.map .data ++ [.dataEnd]) ∧ pieces.flatten = held ∧ pieces ≠ [] := by
  rcases inPart.octet some_ 13 with ⟨_, _, complete⟩ | ⟨q, held', pieces, taken, inside, same, cr⟩
  · obtain ⟨c, rest, whole⟩ := List.exists_cons_of_ne_nil some_
    have last := congrArg List.getLast? complete
    rw [whole, List.getLast?_concat, List.getLast?_cons_cons, List.getLast?_cons_cons, ← whole] at last
    exact absurd (List.mem_of_getLast? last.symm) line
  · obtain ⟨rfl, many⟩ := cr rfl line
    have first := Reads.one taken (.inl inPart.state)
    cases inside with
    | @almost lookbehind index kept =>
      have lf : Parser.octet ⟨boundary, index, .partDataAlmostBoundary, lookbehind⟩ 10 =
          some (⟨boundary, 0, .partDataBoundary, lookbehind.take 1 ++ [10]⟩, []) := by
        simp [Parser.octet, take, store]
      obtain ⟨lookbehind', reads⟩ := reads_partDataBoundary (lookbehind.take 1 ++ [10])
        (List.length_pos_iff.mpr some_) (by rw [kept]; rfl) rfl
      refine ⟨pieces, lookbehind', (first.append ((Reads.one lf (.inl (by simp))).append reads)), ?_,
        many⟩
      exact List.append_cancel_right same

/-- Pieces of data are one. -/
theorem same_data (pieces : List Bytes) (some_ : pieces ≠ []) :
    Same glue (pieces.map .data) [.data pieces.flatten] := by
  induction pieces with
  | nil => exact absurd rfl some_
  | cons piece pieces ih =>
    by_cases none : pieces = []
    · rw [none, List.flatten_cons, List.flatten_nil, List.append_nil]
      exact .refl _
    · have joined := (Same.refl (G := glue) [.data piece]).append (ih none)
      rw [List.flatten_cons]
      exact joined.trans (.pair rfl)

theorem reads_partData {boundary : Bytes} (part : PartText boundary) (some_ : boundary ≠ [])
    (line : 13 ∉ boundary) (index : Nat) (lookbehind : Bytes) :
    ∃ lookbehind', Reads ⟨boundary, index, .partDataStart, lookbehind⟩
      (part.data ++ 13 :: 10 :: boundary)
      ⟨boundary, boundary.length, .partDataAlmostEnd, lookbehind'⟩
      [.headersComplete, .data part.data, .dataEnd] := by
  obtain ⟨q, held, front, reads, inside, whole⟩ := reads_data (.data index lookbehind) some_ part.free
  obtain ⟨pieces, lookbehind', closes, rest, many⟩ := reads_close inside some_ line
  have data : (front ++ pieces).flatten = part.data := by
    rw [List.flatten_append, rest, whole, List.nil_append]
  have all := reads.append closes
  rw [← List.append_assoc, ← List.map_append] at all
  have together : Reads ⟨boundary, index, .partData, lookbehind⟩ (part.data ++ 13 :: 10 :: boundary)
      ⟨boundary, boundary.length, .partDataAlmostEnd, lookbehind'⟩ [.data part.data, .dataEnd] := by
    refine all.congr ?_
    have joined := same_data (front ++ pieces) (by simp [many])
    rw [data] at joined
    exact joined.append (.refl [MultipartCallback.dataEnd])
  obtain ⟨c, text, first⟩ : ∃ c text, part.data ++ 13 :: 10 :: boundary = c :: text :=
    List.exists_cons_of_ne_nil (by simp)
  rw [first] at together ⊢
  refine ⟨lookbehind', together.start [.headersComplete] ?_ (by simp)⟩
  by_cases cr : c = 13
  · simp [Parser.octet, take, takePartData, store, cr]
  · simp [Parser.octet, take, takePartData, cr]

/-- A part behind a boundary, up to the next one. -/
theorem Opens.part {boundary : Bytes} {p : Parser} (opens : Opens boundary p)
    (some_ : boundary ≠ []) (line : 13 ∉ boundary) (part : PartText boundary) :
    ∃ lookbehind, p.Reads part.encode
      ⟨boundary, boundary.length, .partDataAlmostEnd, lookbehind⟩ part.callbacks := by
  obtain ⟨index, begins⟩ := opens.begins
  have headers := reads_headers boundary p.lookbehind index part.headers
  have cr : Parser.octet ⟨boundary, index, .headerFieldStart, p.lookbehind⟩ 13 =
      some (⟨boundary, index, .headersAlmostDone, p.lookbehind⟩, []) := by
    simp [Parser.octet, take, takeHeaderField]
  have lf : Parser.octet ⟨boundary, index, .headersAlmostDone, p.lookbehind⟩ 10 =
      some (⟨boundary, index, .partDataStart, p.lookbehind⟩, []) := by
    simp [Parser.octet, take]
  obtain ⟨lookbehind, data⟩ := reads_partData part some_ line index p.lookbehind
  have all := ((begins.append headers).append
    ((Reads.one cr (.inl (by simp))).append (Reads.one lf (.inl (by simp))))).append data
  refine ⟨lookbehind, ?_⟩
  simpa [PartText.encode, PartText.callbacks] using all

theorem Opens.parts {boundary : Bytes} {p : Parser} (opens : Opens boundary p)
    (some_ : boundary ≠ []) (line : 13 ∉ boundary) (part : PartText boundary)
    (parts : List (PartText boundary)) :
    ∃ lookbehind, p.Reads ((part :: parts).flatMap PartText.encode)
      ⟨boundary, boundary.length, .partDataAlmostEnd, lookbehind⟩
      ((part :: parts).flatMap PartText.callbacks) := by
  obtain ⟨lookbehind, first⟩ := opens.part some_ line part
  induction parts generalizing p part lookbehind with
  | nil =>
    rw [List.flatMap_singleton, List.flatMap_singleton]
    exact ⟨lookbehind, first⟩
  | cons next parts ih =>
    have behind : Opens boundary ⟨boundary, boundary.length, .partDataAlmostEnd, lookbehind⟩ :=
      .next boundary.length lookbehind
    obtain ⟨lookbehind', second⟩ := behind.part some_ line next
    obtain ⟨last, others⟩ := ih behind next lookbehind' second
    rw [List.flatMap_cons, List.flatMap_cons]
    exact ⟨last, first.append others⟩

/-- Behind the last boundary there may be anything. -/
theorem reads_epilogue (boundary lookbehind epilogue : Bytes) (index : Nat) :
    Reads ⟨boundary, index, .finished, lookbehind⟩ epilogue
      ⟨boundary, index, .finished, lookbehind⟩ [] := by
  induction epilogue with
  | nil => exact .nil _
  | cons c epilogue ih =>
    have taken : Parser.octet ⟨boundary, index, .finished, lookbehind⟩ c =
        some (⟨boundary, index, .finished, lookbehind⟩, []) := by
      simp [Parser.octet, take]
    exact (Reads.one taken (.inl (by simp))).append ih

/-- A body of one part or more is read to its end. -/
theorem reads_body {boundary : Bytes} (some_ : boundary ≠ []) (line : 13 ∉ boundary)
    {parts : List (PartText boundary)} (many : parts ≠ []) (epilogue : Bytes) :
    ∃ q, Reads { multipartBoundary := boundary } (PartText.encodeAll parts epilogue) q
      (parts.flatMap PartText.callbacks ++ [.bodyEnd]) := by
  obtain ⟨part, others, rfl⟩ := List.exists_cons_of_ne_nil many
  have first := reads_first boundary some_
  have opens : Opens boundary ⟨boundary, boundary.length, .startBoundary, []⟩ := .first []
  obtain ⟨lookbehind, all⟩ := opens.parts some_ line part others
  have hyphen : Parser.octet ⟨boundary, boundary.length, .partDataAlmostEnd, lookbehind⟩ 45 =
      some (⟨boundary, boundary.length, .partDataFinalHyphen, lookbehind⟩, []) := by
    simp [Parser.octet, take]
  have last : Parser.octet ⟨boundary, boundary.length, .partDataFinalHyphen, lookbehind⟩ 45 =
      some (⟨boundary, boundary.length, .finished, lookbehind⟩, [.bodyEnd]) := by
    simp [Parser.octet, take]
  have ended := (Reads.one hyphen (.inl (by simp))).append (Reads.one last (.inl (by simp)))
  have whole := ((first.append all).append ended).append
    (reads_epilogue boundary lookbehind epilogue boundary.length)
  refine ⟨⟨boundary, boundary.length, .finished, lookbehind⟩, ?_⟩
  simpa [PartText.encodeAll] using whole

end Multipart.Parser

namespace Multipart
variable {boundary : Bytes}

/-- No two neighbours are of one kind. -/
def Apart (made : List MultipartCallback) : Prop :=
  made.IsChain fun x y => joinCallbacks x y = none

theorem Apart.cons {x : MultipartCallback} {rest : List MultipartCallback} (apart : Apart rest)
    (first : ∀ y ∈ rest.head?, joinCallbacks x y = none) : Apart (x :: rest) :=
  List.isChain_cons.mpr ⟨first, apart⟩

theorem apart_headers (headers : List PartHeader) {rest : List MultipartCallback}
    (behind : Apart (.headersComplete :: rest)) :
    Apart (headers.flatMap PartHeader.callbacks ++ .headersComplete :: rest) := by
  induction headers with
  | nil => exact behind
  | cons h headers ih =>
    have value : Apart (.headerValue h.value ::
        (headers.flatMap PartHeader.callbacks ++ .headersComplete :: rest)) := by
      refine ih.cons fun y first => ?_
      cases headers with
      | nil =>
        cases first
        rfl
      | cons next headers =>
        cases first
        rfl
    refine value.cons fun y first => ?_
    cases first
    rfl

theorem apart_parts (parts : List (PartText boundary)) :
    Apart (parts.flatMap PartText.callbacks ++ [.bodyEnd]) := by
  induction parts with
  | nil => exact .singleton _
  | cons part parts ih =>
    have ended : Apart (.dataEnd :: (parts.flatMap PartText.callbacks ++ [.bodyEnd])) :=
      ih.cons fun y _ => by cases y <;> rfl
    have data : Apart (.data part.data :: .dataEnd ::
        (parts.flatMap PartText.callbacks ++ [.bodyEnd])) :=
      ended.cons fun y first => by cases first; rfl
    have complete := data.cons (x := .headersComplete) fun y _ => by cases y <;> rfl
    have whole := (apart_headers part.headers complete).cons (x := .dataBegin) fun y _ => by
      cases y <;> rfl
    simpa [PartText.callbacks] using whole

/-- The pieces that one name, one value or the data of one part was cut into. -/
theorem pieces_of_joins (kind : Bytes → MultipartCallback)
    (kinds : ∀ x y text, joinCallbacks x y = some (kind text) →
      ∃ first second, x = kind first ∧ y = kind second ∧ first ++ second = text)
    {front : List MultipartCallback} {text : Bytes} (joins : Joins glue front (kind text)) :
    ∃ pieces, pieces ≠ [] ∧ front = pieces.map kind ∧ pieces.flatten = text := by
  generalize same : kind text = whole at joins
  induction joins generalizing text with
  | one x => exact ⟨[text], by simp, by rw [← same]; rfl, by simp⟩
  | more joined others ih =>
    rw [← same] at joined
    obtain ⟨first, second, rfl, rfl, rfl⟩ := kinds _ _ _ joined
    obtain ⟨pieces, -, rfl, rfl⟩ := ih rfl
    exact ⟨first :: pieces, by simp, rfl, rfl⟩

/-- A callback without text comes once. -/
theorem lone_of_joins {x : MultipartCallback} {front : List MultipartCallback}
    (alone : ∀ y z, joinCallbacks y z ≠ some x) (joins : Joins glue front x) : front = [x] := by
  cases joins with
  | one x => rfl
  | more joined others => exact absurd joined (alone _ _)

theorem join_cases {x y z : MultipartCallback} (joined : joinCallbacks x y = some z) :
    (∃ a b, x = .headerField a ∧ y = .headerField b ∧ z = .headerField (a ++ b)) ∨
      (∃ a b, x = .headerValue a ∧ y = .headerValue b ∧ z = .headerValue (a ++ b)) ∨
      ∃ a b, x = .data a ∧ y = .data b ∧ z = .data (a ++ b) := by
  cases x <;> cases y <;> cases joined <;> simp

/-- No two callbacks are joined to one without text. -/
theorem textless {x : MultipartCallback}
    (none : (∀ a, x ≠ .headerField a) ∧ (∀ a, x ≠ .headerValue a) ∧ ∀ a, x ≠ .data a)
    (y z : MultipartCallback) : joinCallbacks y z ≠ some x := by
  intro joined
  rcases join_cases joined with ⟨_, _, -, -, rfl⟩ | ⟨_, _, -, -, rfl⟩ | ⟨_, _, -, -, rfl⟩
  · exact none.1 _ rfl
  · exact none.2.1 _ rfl
  · exact none.2.2 _ rfl

theorem pieces_of_headers (headers : List PartHeader) {made rest : List MultipartCallback}
    (whole : merged glue made = headers.flatMap PartHeader.callbacks ++ rest) :
    ∃ cut : List HeaderPieces, ∃ behind,
      made = cut.flatMap PartPieces.headerCallbacks ++ behind ∧ merged glue behind = rest ∧
        cut.map HeaderPieces.pair = headers.map PartHeader.pair := by
  induction headers generalizing made with
  | nil => exact ⟨[], made, rfl, whole, rfl⟩
  | cons h headers ih =>
    obtain ⟨name, behindName, rfl, joinsName, afterName⟩ := pieces_of_merged glue whole
    obtain ⟨value, behind, rfl, joinsValue, others⟩ := pieces_of_merged glue afterName
    obtain ⟨field, -, rfl, named⟩ := pieces_of_joins .headerField (fun x y text joined => by
      rcases join_cases joined with
        ⟨a, b, rfl, rfl, same⟩ | ⟨a, b, rfl, rfl, same⟩ | ⟨a, b, rfl, rfl, same⟩
      · cases same
        exact ⟨a, b, rfl, rfl, rfl⟩
      · cases same
      · cases same) joinsName
    obtain ⟨text, some_, rfl, valued⟩ := pieces_of_joins .headerValue (fun x y text joined => by
      rcases join_cases joined with
        ⟨a, b, rfl, rfl, same⟩ | ⟨a, b, rfl, rfl, same⟩ | ⟨a, b, rfl, rfl, same⟩
      · cases same
      · cases same
        exact ⟨a, b, rfl, rfl, rfl⟩
      · cases same) joinsValue
    obtain ⟨cut, rest, rfl, same, pairs⟩ := ih others
    refine ⟨⟨field, text, named ▸ h.named, some_⟩ :: cut, rest, ?_, same, ?_⟩
    · simp [PartPieces.headerCallbacks]
    · rw [List.map_cons, List.map_cons, pairs]
      exact congrArg₂ List.cons (Prod.ext named valued) rfl

/-- The headers and the data of a part, in pieces. -/
structure CutAs (part : PartText boundary) (pieces : PartPieces) : Prop where
  headers : pieces.headers.map HeaderPieces.pair = part.headers.map PartHeader.pair
  data : pieces.data.flatten = part.data

theorem distinct_of_pairs {headers : List PartHeader} {cut : List HeaderPieces}
    (same : cut.map HeaderPieces.pair = headers.map PartHeader.pair)
    (distinct : headers.Pairwise fun first second => iEquals first.name second.name = false) :
    cut.Pairwise fun first second => iEquals first.name second.name = false := by
  have pairs : (headers.map PartHeader.pair).Pairwise
      fun first second => iEquals first.1 second.1 = false :=
    List.pairwise_map.mpr distinct
  rw [← same] at pairs
  exact List.pairwise_map.mp pairs

theorem pieces_of_parts (parts : List (PartText boundary)) {made : List MultipartCallback}
    (whole : merged glue made = parts.flatMap PartText.callbacks ++ [.bodyEnd]) :
    ∃ cut : List PartPieces, made = cut.flatMap PartPieces.callbacks ++ [.bodyEnd] ∧
      List.Forall₂ CutAs parts cut := by
  induction parts generalizing made with
  | nil =>
    obtain ⟨front, behind, rfl, joins, none⟩ := pieces_of_merged glue whole
    rw [lone_of_joins (textless (by simp)) joins, nil_of_merged glue none]
    exact ⟨[], rfl, .nil⟩
  | cons part parts ih =>
    have split : (part :: parts).flatMap PartText.callbacks ++ [.bodyEnd] =
        .dataBegin :: (part.headers.flatMap PartHeader.callbacks ++ .headersComplete ::
          .data part.data :: .dataEnd :: (parts.flatMap PartText.callbacks ++ [.bodyEnd])) := by
      simp [PartText.callbacks]
    rw [split] at whole
    obtain ⟨begin_, behindBegin, rfl, joinsBegin, afterBegin⟩ := pieces_of_merged glue whole
    obtain ⟨cut, behindHeaders, rfl, afterHeaders, pairs⟩ :=
      pieces_of_headers part.headers afterBegin
    obtain ⟨complete, behindComplete, rfl, joinsComplete, afterComplete⟩ :=
      pieces_of_merged glue afterHeaders
    obtain ⟨data, behindData, rfl, joinsData, afterData⟩ := pieces_of_merged glue afterComplete
    obtain ⟨end_, behind, rfl, joinsEnd, others⟩ := pieces_of_merged glue afterData
    have begins : begin_ = [.dataBegin] := lone_of_joins (textless (by simp)) joinsBegin
    have completes : complete = [.headersComplete] := lone_of_joins (textless (by simp)) joinsComplete
    have ends : end_ = [.dataEnd] := lone_of_joins (textless (by simp)) joinsEnd
    subst begins completes ends
    obtain ⟨pieces, -, rfl, flat⟩ := pieces_of_joins .data (fun x y text joined => by
      rcases join_cases joined with
        ⟨a, b, rfl, rfl, same⟩ | ⟨a, b, rfl, rfl, same⟩ | ⟨a, b, rfl, rfl, same⟩
      · cases same
      · cases same
      · cases same
        exact ⟨a, b, rfl, rfl, rfl⟩) joinsData
    obtain ⟨rest, rfl, cuts⟩ := ih others
    refine ⟨⟨cut, pieces, distinct_of_pairs pairs part.distinct⟩ :: rest, ?_,
      .cons ⟨pairs, flat⟩ cuts⟩
    simp [PartPieces.callbacks]

end Multipart

/-- What the request has of a part: its headers under their names, and its data. -/
structure PartText.Received (part : PartText boundary) (held : MultiPart) : Prop where
  headers : held.headers.entries.Perm (part.headers.map PartHeader.pair)
  data : held.data = part.data

theorem received_of_cuts {boundary : Bytes} {parts : List (PartText boundary)} {cuts : List PartPieces}
    {held : List MultiPart} (cutAs : List.Forall₂ Multipart.CutAs parts cuts)
    (holds : List.Forall₂ PartPieces.Holds cuts held) :
    List.Forall₂ PartText.Received parts held := by
  induction cutAs generalizing held with
  | nil =>
    cases holds
    exact .nil
  | cons cut others ih =>
    cases holds with
    | cons first rest =>
      refine .cons ⟨?_, first.data.trans cut.data⟩ (ih rest)
      rw [← cut.headers]
      exact first.headers

namespace Reading
variable {boundary : Bytes}

/-- In front of a piece of a body, with the parser of bodies behind the pieces before it. -/
structure Awaits (r : Reading) (boundary : Bytes) (p : Multipart.Parser) : Prop where
  multipart : r.request.isMultiPart = true
  buffer : r.bodyBuffer = []
  parser : ∃ fed, r.mpParser = some ⟨boundary, fed⟩ ∧ Multipart.behind boundary fed = p

theorem Awaits.takeBody {r : Reading} {p q : Multipart.Parser} {made : List MultipartCallback}
    {data : Bytes} (awaits : r.Awaits boundary p) (env : Environment)
    (accepted : p.accept data = some (q, made)) :
    let taken := r.takeBody env.withMultipartParser data
    taken.2 = .ok ∧ taken.1.Awaits boundary q ∧
      taken.1.view = (made.foldl onMultipart r).view := by
  intro taken
  obtain ⟨fed, known, rfl⟩ := awaits.parser
  let full : Reading := { r with bodyBuffer := data }
  have appended : { r with bodyBuffer := r.bodyBuffer ++ data } = full := by
    rw [awaits.buffer, List.nil_append]
  have goes := feed_some env (r := full) known
  simp only at goes
  have step := Multipart.behind_append boundary fed data
  rw [Multipart.Parser.accept] at accepted
  generalize (Multipart.behind boundary fed).execute data = executed at accepted goes step
  simp only [Option.ite_none_right_eq_some, Option.some.injEq, Prod.mk.injEq] at accepted
  obtain ⟨all, rfl, rfl⟩ := accepted
  let given : Reading := { full with mpParser := some ⟨boundary, fed ++ [data]⟩ }
  obtain ⟨_, _, _, _, _, _, parted⟩ := (parted_foldl given executed.2.1).1
  have same : (executed.2.1.foldl onMultipart given).view = (executed.2.1.foldl onMultipart r).view :=
    view_foldl (r := given) (s := r) rfl _
  have held : (executed.2.1.foldl onMultipart given).bodyBuffer = data := by
    rw [parted]
  have parsed : full.feedMultipartParser env.withMultipartParser =
      ({ executed.2.1.foldl onMultipart given with bodyBuffer := [] }, .mpParsing) := by
    rw [goes]
    change (if executed.2.2 ≠ (executed.2.1.foldl onMultipart given).bodyBuffer.length then _ else _) = _
    rw [held, if_neg (not_not_intro all)]
  have whole : taken = ({ executed.2.1.foldl onMultipart given with bodyBuffer := [] }, .ok) := by
    have known : ¬full.mpParser = none := by
      rw [show full.mpParser = some ⟨boundary, fed⟩ from known]
      exact Option.some_ne_none _
    have parses : full.doMultipartParse env.withMultipartParser =
        ({ executed.2.1.foldl onMultipart given with bodyBuffer := [] }, .mpParsing) := by
      rw [doMultipartParse, if_neg known, parsed]
    have opened : taken = (if full.request.isMultiPart then
        ((full.doMultipartParse env.withMultipartParser).1,
          if (full.doMultipartParse env.withMultipartParser).2 = .mpParseFail then .refused else .ok)
        else (full, .ok)) := by
      rw [← appended]
      rfl
    rw [opened, if_pos awaits.multipart, parses]
    rfl
  rw [whole]
  refine ⟨rfl, ⟨?_, rfl, fed ++ [data], ?_, step⟩, same⟩
  · rw [parted]
    exact awaits.multipart
  · rw [parted]

/-- Pieces of a body, one after another. -/
def takeAll (env : Environment) (r : Reading) : List Bytes → Option Reading
  | [] => some r
  | data :: rest =>
    let taken := r.takeBody env data
    if taken.2 = .ok then taken.1.takeAll env rest else none

theorem Awaits.takeAll {r : Reading} {p q : Multipart.Parser} {made : List MultipartCallback}
    {pieces : List Bytes} (awaits : r.Awaits boundary p) (env : Environment)
    (fed : p.fed pieces = some (q, made)) :
    ∃ s, r.takeAll env.withMultipartParser pieces = some s ∧ s.Awaits boundary q ∧
      s.view = (made.foldl onMultipart r).view := by
  induction pieces generalizing r p made with
  | nil =>
    cases fed
    exact ⟨r, rfl, awaits, rfl⟩
  | cons data rest ih =>
    obtain ⟨⟨next, first⟩, accepted, later⟩ := Option.bind_eq_some_iff.mp fed
    obtain ⟨⟨last, others⟩, more, both⟩ := Option.map_eq_some_iff.mp later
    cases both
    obtain ⟨ok, waits, same⟩ := awaits.takeBody env accepted
    obtain ⟨s, taken, ended, view⟩ := ih waits more
    refine ⟨s, ?_, ended, ?_⟩
    · rw [Reading.takeAll]
      simp only [ok, if_true]
      exact taken
    · rw [view, List.foldl_append]
      exact view_foldl same others

/-- However a body of parts is cut, every piece of it is taken, and the request has its
parts: the headers under their names as they were sent, and the data. -/
theorem takeAll_parts (env : Environment) {r : Reading} (multipart : r.request.isMultiPart = true)
    (buffer : r.bodyBuffer = []) (parser : r.mpParser = some ⟨boundary, []⟩)
    (blank : r.parts = ({}, [])) (some_ : boundary ≠ []) (line : 13 ∉ boundary) (text : 0 ∉ boundary)
    {parts : List (PartText boundary)} (many : parts ≠ []) (epilogue : Bytes) {pieces : List Bytes}
    (cut : pieces.flatten = PartText.encodeAll parts epilogue) :
    ∃ s, r.takeAll env.withMultipartParser pieces = some s ∧
      List.Forall₂ PartText.Received parts s.request.multiparts := by
  obtain ⟨q, whole⟩ := Multipart.Parser.reads_body some_ line many epilogue
  obtain ⟨alone, read, same⟩ := whole.read
  have named : Multipart.Parser.Named { multipartBoundary := boundary } pieces.flatten := by
    rw [cut]
    exact whole.named
  have fed := Multipart.Parser.fed_octets named
  rw [cut, read] at fed
  obtain ⟨made, fed, sameMade⟩ := fed
  have together : Same Multipart.glue made (parts.flatMap PartText.callbacks ++ [.bodyEnd]) :=
    sameMade.trans same
  rw [Same, merged_of_apart Multipart.glue (Multipart.apart_parts parts)] at together
  obtain ⟨cuts, rfl, cutAs⟩ := Multipart.pieces_of_parts parts together
  have begun : Multipart.behind boundary [] = { multipartBoundary := boundary } := by
    rw [Multipart.behind, List.foldl_nil, Multipart.init]
    congr 1
    refine List.takeWhile_eq_self_iff.mpr fun c member => ?_
    exact decide_eq_true fun zero : c = 0 => text (zero ▸ member)
  have awaits : r.Awaits boundary { multipartBoundary := boundary } :=
    ⟨multipart, buffer, [], parser, begun⟩
  obtain ⟨s, taken, -, view⟩ := awaits.takeAll env fed
  obtain ⟨-, held, holds, all⟩ := foldl_parts (congrArg Prod.fst blank) cuts
  have none : r.request.multiparts = [] := congrArg Prod.snd blank
  have last : s.request.multiparts = held := by
    have same := congrArg (fun view => view.2.2.2.2.2) view
    rw [List.foldl_append, List.foldl_cons, List.foldl_nil] at same
    rw [none, List.nil_append] at all
    exact same.trans all
  refine ⟨s, taken, ?_⟩
  rw [last]
  exact received_of_cuts cutAs holds

/-- Data that ends like a boundary begins, behind a header. -/
def almostParts : List (PartText [45, 45, 66]) :=
  [⟨[⟨[65], [66], by simp, List.forall_mem_singleton.mpr rfl, by simp, by simp⟩],
    [13, 10, 45, 45, 13], List.pairwise_singleton _ _, fun inside =>
      absurd (inside.subset (show (66 : UInt8) ∈ _ by simp)) (by simp)⟩]

def opened : Reading :=
  { request := { additionFlags := { multipart := true } }, mpParser := some ⟨[45, 45, 66], []⟩ }

theorem takeAll_almostParts :
    ∃ s, opened.takeAll (Environment.single .root).withMultipartParser
        ((PartText.encodeAll almostParts [13, 10]).map fun c => [c]) = some s ∧
      List.Forall₂ PartText.Received almostParts s.request.multiparts :=
  takeAll_parts (.single .root) rfl rfl rfl rfl (by decide) (by decide) (by decide)
    (List.cons_ne_nil _ _) [13, 10] rfl

end Reading
end Da4qi4
