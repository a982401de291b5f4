import Da4qi4.Http.Request

/-! The parser of multipart bodies, as it is in the repository. A line break, and what may
be a boundary behind it, is kept until the parser knows what it is; what it has handed
over as data is never more than what it was given. -/
namespace Da4qi4
namespace Multipart

inductive State where
  | start | startBoundary | headerFieldStart | headerField | headersAlmostDone
  | headerValueStart | headerValue | headerValueAlmostDone | partDataStart | partData
  | partDataAlmostBoundary | partDataBoundary | partDataAlmostEnd | partDataEnd
  | partDataFinalHyphen | finished
  deriving DecidableEq, Repr

structure Parser where
  multipartBoundary : Bytes
  index : Nat := 0
  state : State := .start
  lookbehind : Bytes := []
  deriving DecidableEq, Repr

/-- `multipart_parser_init`; the boundary ends where a C string does. -/
def init (boundary : Bytes) : Parser := { multipartBoundary := boundary.takeWhile (· ≠ 0) }

/-- What one character does: the parser returns, or goes on with a mark and the callbacks
that it has made. -/
inductive Taken where
  | stop (p : Parser)
  | go (p : Parser) (mark : Nat) (made : List MultipartCallback)

/-- What the buffer has between a mark and a place. -/
def slice (buf : Bytes) (mark i : Nat) : Bytes := (buf.drop mark).take (i - mark)

namespace Parser

/-- What was kept further on is stored again before it is read. -/
def store (p : Parser) (place : Nat) (c : UInt8) : Parser :=
  { p with lookbehind := p.lookbehind.take place ++ [c] }

def takeStartBoundary (p : Parser) (mark : Nat) (c : UInt8) : Taken :=
  if p.index = p.multipartBoundary.length then
    if c ≠ 13 then .stop p else .go { p with index := p.index + 1 } mark []
  else if p.index = p.multipartBoundary.length + 1 then
    if c ≠ 10 then .stop p
    else .go { p with index := 0, state := .headerFieldStart } mark [.dataBegin]
  else if c ≠ p.multipartBoundary.getD p.index 0 then .stop p
  else .go { p with index := p.index + 1 } mark []

/-- A hyphen, or a letter. -/
def isHeaderFieldChar (c : UInt8) : Bool :=
  c = 45 || (97 ≤ c && c ≤ 122) || (65 ≤ c && c ≤ 90)

def takeHeaderField (p : Parser) (buf : Bytes) (i mark : Nat) (c : UInt8) (isLast : Bool) :
    Taken :=
  if c = 13 then .go { p with state := .headersAlmostDone } mark []
  else if c = 58 then
    .go { p with state := .headerValueStart } mark [.headerField (slice buf mark i)]
  else if ¬isHeaderFieldChar c then .stop p
  else .go p mark (if isLast then [.headerField (slice buf mark (i + 1))] else [])

def takeHeaderValue (p : Parser) (buf : Bytes) (i mark : Nat) (c : UInt8) (isLast : Bool) :
    Taken :=
  if c = 13 then
    .go { p with state := .headerValueAlmostDone } mark [.headerValue (slice buf mark i)]
  else .go p mark (if isLast then [.headerValue (slice buf mark (i + 1))] else [])

/-- Behind what is handed over `before`. -/
def takePartData (p : Parser) (buf : Bytes) (i mark : Nat) (c : UInt8) (isLast : Bool)
    (before : List MultipartCallback) : Taken :=
  if c = 13 then
    .go { p.store 0 13 with state := .partDataAlmostBoundary } i
      (before ++ [.data (slice buf mark i)])
  else
    .go { p with state := .partData } mark
      (before ++ if isLast then [.data (slice buf mark (i + 1))] else [])

/-- A character that is no part of a boundary is looked at again, as data. -/
def take (p : Parser) (buf : Bytes) (i mark : Nat) (c : UInt8) (isLast : Bool) : Taken :=
  match p.state with
  | .start => { p with index := 0, state := .startBoundary }.takeStartBoundary mark c
  | .startBoundary => p.takeStartBoundary mark c
  | .headerFieldStart => { p with state := .headerField }.takeHeaderField buf i i c isLast
  | .headerField => p.takeHeaderField buf i mark c isLast
  | .headersAlmostDone =>
    if c ≠ 10 then .stop p else .go { p with state := .partDataStart } mark []
  | .headerValueStart =>
    if c = 32 then .go p mark []
    else { p with state := .headerValue }.takeHeaderValue buf i i c isLast
  | .headerValue => p.takeHeaderValue buf i mark c isLast
  | .headerValueAlmostDone =>
    if c ≠ 10 then .stop p else .go { p with state := .headerFieldStart } mark []
  | .partDataStart => p.takePartData buf i i c isLast [.headersComplete]
  | .partData => p.takePartData buf i mark c isLast []
  | .partDataAlmostBoundary =>
    if c = 10 then .go { p.store 1 10 with state := .partDataBoundary, index := 0 } mark []
    else p.takePartData buf i i c isLast [.data (p.lookbehind.take 1)]
  | .partDataBoundary =>
    if p.multipartBoundary.getD p.index 0 ≠ c then
      p.takePartData buf i i c isLast [.data (p.lookbehind.take (2 + p.index))]
    else if p.index + 1 = p.multipartBoundary.length then
      .go { p.store (2 + p.index) c with index := p.index + 1, state := .partDataAlmostEnd } mark
        [.dataEnd]
    else .go { p.store (2 + p.index) c with index := p.index + 1 } mark []
  | .partDataAlmostEnd =>
    if c = 45 then .go { p with state := .partDataFinalHyphen } mark []
    else if c = 13 then .go { p with state := .partDataEnd } mark []
    else .stop p
  | .partDataFinalHyphen =>
    if c = 45 then .go { p with state := .finished } mark [.bodyEnd] else .stop p
  | .partDataEnd =>
    if c = 10 then .go { p with state := .headerFieldStart } mark [.dataBegin] else .stop p
  | .finished => .go p mark []

/-- The loop over what is left of the buffer from place `i` on: the parser behind it, the
callbacks, and the place where it has returned. -/
def loop (p : Parser) (buf : Bytes) (i mark : Nat) :
    List UInt8 → Parser × List MultipartCallback × Nat
  | [] => (p, [], i)
  | c :: rest =>
    match p.take buf i mark c rest.isEmpty with
    | .stop p => (p, [], i)
    | .go p mark made =>
      let others := p.loop buf (i + 1) mark rest
      (others.1, made ++ others.2.1, others.2.2)

/-- `multipart_parser_execute`. -/
def execute (p : Parser) (buf : Bytes) : Parser × List MultipartCallback × Nat :=
  p.loop buf 0 0 buf

end Parser

/-- The parser behind all that it was given. -/
def behind (boundary : Bytes) (fed : List Bytes) : Parser :=
  fed.foldl (fun p body => (p.execute body).1) (init boundary)

end Multipart

/-- An environment whose parser of bodies is that of the repository. -/
def Environment.withMultipartParser (env : Environment) : Environment :=
  { env with
    multipartExecute := fun boundary fed body => ((Multipart.behind boundary fed).execute body).2 }

namespace Multipart

/-- How much data the callbacks hand over. -/
def octets (made : List MultipartCallback) : Nat :=
  (made.map fun
    | .data data => data.length
    | _ => 0).sum

theorem octets_append (first second : List MultipartCallback) :
    octets (first ++ second) = octets first + octets second := by
  rw [octets, List.map_append, List.sum_append]
  rfl

theorem length_slice_le (buf : Bytes) (mark i : Nat) : (slice buf mark i).length ≤ i - mark :=
  List.length_take_le _ _

namespace Parser

/-- Data that was read and not handed over, `pending` of it from the buffer at hand. -/
def kept (p : Parser) (pending : Nat) : Nat :=
  match p.state with
  | .partData => pending
  | .partDataAlmostBoundary => 1
  | .partDataBoundary => 2 + p.index
  | _ => 0

/-- What a character adds to the data that is handed over or kept; at the end of the
buffer all of it is handed over. -/
def Adds (taken : Taken) (i : Nat) (isLast : Bool) (before : Nat) : Prop :=
  match taken with
  | .stop p => p.kept 0 = 0
  | .go p mark made =>
    mark ≤ i ∧ octets made + p.kept (if isLast then 0 else i + 1 - mark) ≤ before + 1

theorem adds_partData (p : Parser) (buf : Bytes) (c : UInt8) (isLast : Bool)
    (before : List MultipartCallback) (bound : mark ≤ i) :
    Adds (p.takePartData buf i mark c isLast before) i isLast (octets before + (i - mark)) := by
  rw [takePartData]
  split
  · refine ⟨Nat.le_refl i, ?_⟩
    have emitted := length_slice_le buf mark i
    rw [octets_append]
    change octets before + (slice buf mark i).length + 1 ≤ _
    omega
  · refine ⟨bound, ?_⟩
    have emitted := length_slice_le buf mark (i + 1)
    rw [octets_append]
    cases isLast with
    | true =>
      change octets before + (slice buf mark (i + 1)).length + 0 ≤ _
      omega
    | false =>
      change octets before + 0 + (i + 1 - mark) ≤ _
      omega

/-- The states in which data is read. -/
def InData (state : State) : Prop :=
  state = .partData ∨ state = .partDataAlmostBoundary ∨ state = .partDataBoundary

theorem kept_outside {p : Parser} (outside : ¬InData p.state) (pending : Nat) :
    p.kept pending = 0 := by
  rw [kept]
  split
  · rename_i data
    exact absurd (.inl data) outside
  · rename_i data
    exact absurd (.inr (.inl data)) outside
  · rename_i data
    exact absurd (.inr (.inr data)) outside
  · rfl

theorem adds_outside {p : Parser} {made : List MultipartCallback} (outside : ¬InData p.state)
    (silent : octets made = 0) (bound : mark ≤ i) (isLast : Bool) (before : Nat) :
    Adds (.go p mark made) i isLast before := by
  refine ⟨bound, ?_⟩
  rw [silent, kept_outside outside]
  exact Nat.zero_le _

theorem adds_startBoundary {p : Parser} (state : p.state = .startBoundary) (bound : mark ≤ i)
    (c : UInt8) (isLast : Bool) (before : Nat) :
    Adds (p.takeStartBoundary mark c) i isLast before := by
  have outside : ¬InData p.state := by
    simp [state, InData]
  have further : Adds (.go { p with index := p.index + 1 } mark []) i isLast before := by
    apply adds_outside _ _ bound
    · exact outside
    · rfl
  rw [takeStartBoundary]
  split
  · split
    · exact kept_outside outside 0
    · exact further
  · split
    · split
      · exact kept_outside outside 0
      · exact adds_outside (by simp [InData]) rfl bound isLast before
    · split
      · exact kept_outside outside 0
      · exact further

theorem adds_headerField {p : Parser} (state : p.state = .headerField) (buf : Bytes)
    (bound : mark ≤ i) (c : UInt8) (isLast : Bool) (before : Nat) :
    Adds (p.takeHeaderField buf i mark c isLast) i isLast before := by
  have outside : ¬InData p.state := by
    simp [state, InData]
  rw [takeHeaderField]
  split
  · exact adds_outside (by simp [InData]) rfl bound isLast before
  · split
    · exact adds_outside (by simp [InData]) rfl bound isLast before
    · split
      · exact kept_outside outside 0
      · apply adds_outside outside _ bound
        cases isLast with
        | true => rfl
        | false => rfl

theorem adds_headerValue {p : Parser} (state : p.state = .headerValue) (buf : Bytes)
    (bound : mark ≤ i) (c : UInt8) (isLast : Bool) (before : Nat) :
    Adds (p.takeHeaderValue buf i mark c isLast) i isLast before := by
  have outside : ¬InData p.state := by
    simp [state, InData]
  rw [takeHeaderValue]
  split
  · exact adds_outside (by simp [InData]) rfl bound isLast before
  · apply adds_outside outside _ bound
    cases isLast with
    | true => rfl
    | false => rfl

/-- What is looked at again was kept. -/
theorem adds_again (p : Parser) (buf : Bytes) (c : UInt8) (isLast : Bool)
    (kept : (p.lookbehind.take place).length ≤ before) :
    Adds (p.takePartData buf i i c isLast [.data (p.lookbehind.take place)]) i isLast before := by
  have added := adds_partData p buf c isLast [.data (p.lookbehind.take place)] (Nat.le_refl i)
  have handed : octets [.data (p.lookbehind.take place)] = (p.lookbehind.take place).length := by
    rw [octets]
    simp
  rw [takePartData] at added ⊢
  split
  · rename_i cr
    rw [if_pos cr] at added
    obtain ⟨bound, total⟩ := added
    exact ⟨bound, by omega⟩
  · rename_i other
    rw [if_neg other] at added
    obtain ⟨bound, total⟩ := added
    exact ⟨bound, by omega⟩

theorem adds_take (p : Parser) (buf : Bytes) (c : UInt8) (isLast : Bool) (bound : mark ≤ i) :
    Adds (p.take buf i mark c isLast) i isLast (p.kept (i - mark)) := by
  have same := Nat.le_refl i
  rw [take]
  split
  · exact adds_startBoundary rfl bound c isLast _
  · rename_i state
    exact adds_startBoundary state bound c isLast _
  · exact adds_headerField rfl buf same c isLast _
  · rename_i state
    exact adds_headerField state buf bound c isLast _
  · rename_i state
    split
    · exact kept_outside (by simp [state, InData]) 0
    · exact adds_outside (by simp [InData]) rfl bound isLast _
  · rename_i state
    split
    · exact adds_outside (by simp [state, InData]) rfl bound isLast _
    · exact adds_headerValue rfl buf same c isLast _
  · rename_i state
    exact adds_headerValue state buf bound c isLast _
  · rename_i state
    split
    · exact kept_outside (by simp [state, InData]) 0
    · exact adds_outside (by simp [InData]) rfl bound isLast _
  · rename_i state
    have nothing : p.kept (i - mark) = octets [.headersComplete] + (i - i) := by
      rw [kept_outside (by simp [state, InData]), Nat.sub_self]
      rfl
    rw [nothing]
    exact adds_partData p buf c isLast [.headersComplete] same
  · rename_i state
    have pending : p.kept (i - mark) = octets [] + (i - mark) := by
      rw [kept, state]
      exact (Nat.zero_add _).symm
    rw [pending]
    exact adds_partData p buf c isLast [] bound
  · rename_i state
    have one : p.kept (i - mark) = 1 := by
      rw [kept, state]
    rw [one]
    split
    · exact ⟨bound, Nat.le_refl 2⟩
    · exact adds_again p buf c isLast (List.length_take_le _ _)
  · rename_i state
    have some_ : p.kept (i - mark) = 2 + p.index := by
      rw [kept, state]
    rw [some_]
    split
    · exact adds_again p buf c isLast (List.length_take_le _ _)
    · split
      · exact adds_outside (by simp [InData]) rfl bound isLast _
      · refine ⟨bound, ?_⟩
        have more : ({ p.store (2 + p.index) c with index := p.index + 1 } : Parser).kept
            (if isLast then 0 else i + 1 - mark) = 2 + (p.index + 1) := by
          rw [kept]
          change (match p.state with
            | .partData => _
            | .partDataAlmostBoundary => _
            | .partDataBoundary => _
            | _ => _) = _
          rw [state]
        rw [more]
        exact Nat.le_of_eq (Nat.zero_add _)
  · split
    · exact adds_outside (by simp [InData]) rfl bound isLast _
    · split
      · exact adds_outside (by simp [InData]) rfl bound isLast _
      · rename_i state _ _
        exact kept_outside (by simp [state, InData]) 0
  · rename_i state
    split
    · exact adds_outside (by simp [InData]) rfl bound isLast _
    · exact kept_outside (by simp [state, InData]) 0
  · rename_i state
    split
    · exact adds_outside (by simp [InData]) rfl bound isLast _
    · exact kept_outside (by simp [state, InData]) 0
  · rename_i state
    exact adds_outside (by simp [state, InData]) rfl bound isLast _

/-- What is kept from the buffer at hand is not more than what is kept of it. -/
theorem kept_mono (p : Parser) (pending : Nat) : p.kept 0 ≤ p.kept pending := by
  rw [kept, kept]
  split
  · exact Nat.zero_le _
  · exact Nat.le_refl _
  · exact Nat.le_refl _
  · exact Nat.le_refl _

theorem octets_loop (p : Parser) (buf rest : Bytes) (bound : mark ≤ i) :
    octets (p.loop buf i mark rest).2.1 + (p.loop buf i mark rest).1.kept 0 ≤
      p.kept (i - mark) + rest.length := by
  induction rest generalizing p i mark with
  | nil =>
    have less := p.kept_mono (i - mark)
    exact (Nat.zero_add _).trans_le less
  | cons c rest ih =>
    have added := adds_take p buf c rest.isEmpty bound
    rw [loop]
    cases taken : p.take buf i mark c rest.isEmpty with
    | stop q =>
      rw [taken] at added
      have nothing : q.kept 0 = 0 := added
      rw [nothing]
      exact Nat.zero_le _
    | go q next made =>
      rw [taken] at added
      obtain ⟨within, total⟩ := added
      simp only
      rw [octets_append, List.length_cons]
      cases rest with
      | nil =>
        have total : octets made + q.kept 0 ≤ p.kept (i - mark) + 1 := total
        exact total
      | cons d rest =>
        have total : octets made + q.kept (i + 1 - next) ≤ p.kept (i - mark) + 1 := total
        have beyond : next ≤ i + 1 := Nat.le_add_right_of_le within
        have others := ih q beyond
        omega

/-- What one call hands over, and what is kept behind it, was kept before or is new. -/
theorem octets_execute (p : Parser) (buf : Bytes) :
    octets (p.execute buf).2.1 + (p.execute buf).1.kept 0 ≤ p.kept 0 + buf.length :=
  octets_loop p buf buf (Nat.le_refl 0)

end Parser

theorem behind_append (boundary : Bytes) (fed : List Bytes) (body : Bytes) :
    behind boundary (fed ++ [body]) = ((behind boundary fed).execute body).1 := by
  rw [behind, List.foldl_append]
  rfl

end Multipart
end Da4qi4
