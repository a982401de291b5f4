import Da4qi4.Foundation.Joining
import Da4qi4.Http.MultipartParser

/-! A body in pieces. Wherever it is cut, the parser of bodies makes the same callbacks,
except that a name, a value or the data of a part comes in other pieces. What it has not
handed over at the end of a piece it hands over there; only the characters of a header
line without a colon are lost when no cut is behind them. -/
namespace Da4qi4.Multipart
open Joining

/-- Pieces of one name, one value or the data of one part. -/
def joinCallbacks : MultipartCallback → MultipartCallback → Option MultipartCallback
  | .headerField first, .headerField second => some (.headerField (first ++ second))
  | .headerValue first, .headerValue second => some (.headerValue (first ++ second))
  | .data first, .data second => some (.data (first ++ second))
  | _, _ => none

def glue : Glue MultipartCallback where
  join := joinCallbacks
  assoc := by
    intro x y xy z joined
    cases x <;> cases y <;> cases joined <;> cases z <;> simp [joinCallbacks]
  meets := by
    intro x y xy z yz one two
    cases x <;> cases y <;> cases one <;> cases z <;> cases two <;> rfl

namespace Parser

/-- One character given on its own. -/
def octet (p : Parser) (c : UInt8) : Option (Parser × List MultipartCallback) :=
  match p.take [c] 0 0 c true with
  | .stop _ => none
  | .go q _ made => some (q, made)

def octets (p : Parser) : Bytes → Option (Parser × List MultipartCallback)
  | [] => some (p, [])
  | c :: rest =>
    (p.octet c).bind fun first =>
      (first.1.octets rest).map fun others => (others.1, first.2 ++ others.2)

/-- A piece that the parser reads to its end. -/
def accept (p : Parser) (piece : Bytes) : Option (Parser × List MultipartCallback) :=
  let executed := p.execute piece
  if executed.2.2 = piece.length then some (executed.1, executed.2.1) else none

def fed (p : Parser) : List Bytes → Option (Parser × List MultipartCallback)
  | [] => some (p, [])
  | piece :: rest =>
    (p.accept piece).bind fun first =>
      (first.1.fed rest).map fun others => (others.1, first.2 ++ others.2)

/-- No line end comes inside the name of a header. -/
def Named (p : Parser) : Bytes → Prop
  | [] => True
  | c :: rest =>
    ¬(p.state = .headerField ∧ c = 13) ∧ ∀ q made, p.octet c = some (q, made) → q.Named rest

/-- What was read of the buffer and is still to be handed over. -/
def pend (p : Parser) (text : Bytes) : List MultipartCallback :=
  if text = [] then []
  else
    match p.state with
    | .headerField => [.headerField text]
    | .headerValue => [.headerValue text]
    | .partData => [.data text]
    | _ => []

theorem slice_self (buf : Bytes) (i : Nat) : slice buf i i = [] := by
  rw [slice, Nat.sub_self, List.take_zero]

theorem slice_succ {buf rest : Bytes} {c : UInt8} (here : buf.drop i = c :: rest)
    (bound : mark ≤ i) : slice buf mark (i + 1) = slice buf mark i ++ [c] := by
  have place : i - mark + mark = i := Nat.sub_add_cancel bound
  have one : ((buf.drop mark).drop (i - mark)).take 1 = [c] := by
    rw [List.drop_drop, Nat.add_comm, place, here]
    rfl
  rw [slice, slice, Nat.sub_add_comm bound, List.take_add, one]

theorem slice_succ_ne_nil {buf rest : Bytes} {c : UInt8} (here : buf.drop i = c :: rest)
    (bound : mark ≤ i) : slice buf mark (i + 1) ≠ [] := by
  rw [slice_succ here bound]
  exact List.append_ne_nil_of_right_ne_nil _ (List.cons_ne_nil _ _)

/-- It is handed over with the last character, or left. -/
theorem handed_once (isLast : Bool) (callback : MultipartCallback) :
    ((if isLast then [callback] else []) ++ if isLast then [] else [callback]) = [callback] := by
  cases isLast <;> rfl

/-- A character inside a buffer does the same as on its own: what is handed over with it
and what is left to hand over is what was left before and its own callbacks. -/
def Agrees (buf : Bytes) (i : Nat) (isLast : Bool) (before : List MultipartCallback) :
    Taken → Taken → Prop
  | .stop _, .stop _ => True
  | .go p next made, .go q _ alone =>
    p = q ∧ next ≤ i ∧
      Same glue (made ++ if isLast then [] else p.pend (slice buf next (i + 1))) (before ++ alone)
  | _, _ => False

theorem agrees_silent {p : Parser} (buf : Bytes) (isLast : Bool) (made : List MultipartCallback)
    (bound : mark ≤ i) (quiet : ∀ text, p.pend text = []) :
    Agrees buf i isLast [] (.go p mark made) (.go p place made) := by
  refine ⟨rfl, bound, ?_⟩
  rw [quiet, ite_self, List.append_nil, List.nil_append]
  exact .refl made

theorem agrees_startBoundary {p : Parser} (state : p.state = .startBoundary) (buf : Bytes)
    (bound : mark ≤ i) (c : UInt8) (isLast : Bool) :
    Agrees buf i isLast [] (p.takeStartBoundary mark c) (p.takeStartBoundary 0 c) := by
  have quiet (text : Bytes) : ({ p with index := p.index + 1 } : Parser).pend text = [] := by
    simp [pend, state]
  rw [takeStartBoundary, takeStartBoundary]
  split
  · split
    · trivial
    · exact agrees_silent buf isLast [] bound quiet
  · split
    · split
      · trivial
      · exact agrees_silent buf isLast _ bound fun text => by simp [pend]
    · split
      · trivial
      · exact agrees_silent buf isLast [] bound quiet

/-- Text that is gathered, of the kind that the state says. -/
theorem same_pend {p : Parser} (kind : Bytes → MultipartCallback)
    (kinds : ∀ first second, joinCallbacks (kind first) (kind second) = some (kind (first ++ second)))
    (state : ∀ text, p.pend text = if text = [] then [] else [kind text]) (text more : Bytes) :
    Same glue (p.pend text ++ [kind more]) [kind (text ++ more)] := by
  rw [state]
  split
  · rename_i empty
    rw [empty]
    exact .refl _
  · exact .pair (kinds text more)

section Gathering
variable {p : Parser} {buf rest : Bytes} {c : UInt8}

theorem agrees_headerField (state : p.state = .headerField) (here : buf.drop i = c :: rest)
    (bound : mark ≤ i) (named : slice buf mark i = [] ∨ c ≠ 13) :
    Agrees buf i rest.isEmpty (p.pend (slice buf mark i))
      (p.takeHeaderField buf i mark c rest.isEmpty) (p.takeHeaderField [c] 0 0 c true) := by
  have pending (text : Bytes) :
      p.pend text = if text = [] then [] else [.headerField text] := by
    simp [pend, state]
  have joins (more : Bytes) := same_pend .headerField (fun _ _ => rfl) pending
    (slice buf mark i) more
  rw [takeHeaderField, takeHeaderField]
  split
  · rename_i cr
    have nothing : slice buf mark i = [] := named.resolve_right (not_not.mpr cr)
    rw [nothing, pending, if_pos rfl]
    exact agrees_silent buf _ [] bound fun text => by simp [pend]
  · split
    · refine ⟨rfl, bound, ?_⟩
      have done := joins []
      rw [List.append_nil] at done
      simp only [pend, ite_self, List.append_nil]
      exact done.symm
    · split
      · trivial
      · refine ⟨rfl, bound, ?_⟩
        have one := joins [c]
        rw [← slice_succ here bound] at one
        rw [pending, if_neg (slice_succ_ne_nil here bound), handed_once]
        exact one.symm

theorem agrees_headerValue (state : p.state = .headerValue) (here : buf.drop i = c :: rest)
    (bound : mark ≤ i) :
    Agrees buf i rest.isEmpty (p.pend (slice buf mark i))
      (p.takeHeaderValue buf i mark c rest.isEmpty) (p.takeHeaderValue [c] 0 0 c true) := by
  have pending (text : Bytes) :
      p.pend text = if text = [] then [] else [.headerValue text] := by
    simp [pend, state]
  have joins (more : Bytes) := same_pend .headerValue (fun _ _ => rfl) pending
    (slice buf mark i) more
  rw [takeHeaderValue, takeHeaderValue]
  split
  · refine ⟨rfl, bound, ?_⟩
    have done := joins []
    rw [List.append_nil] at done
    simp only [pend, ite_self, List.append_nil]
    exact done.symm
  · refine ⟨rfl, bound, ?_⟩
    have one := joins [c]
    rw [← slice_succ here bound] at one
    rw [pending, if_neg (slice_succ_ne_nil here bound), handed_once]
    exact one.symm

/-- With what is handed over `before` it. -/
theorem agrees_partData (here : buf.drop i = c :: rest) (bound : mark ≤ i)
    {pending before : List MultipartCallback}
    (joins : ∀ more, Same glue (pending ++ (before ++ [.data more]))
      (before ++ [.data (slice buf mark i ++ more)])) :
    Agrees buf i rest.isEmpty pending (p.takePartData buf i mark c rest.isEmpty before)
      (p.takePartData [c] 0 0 c true before) := by
  rw [takePartData, takePartData]
  split
  · refine ⟨rfl, Nat.le_refl i, ?_⟩
    have done := joins []
    rw [List.append_nil] at done
    simp only [pend, ite_self, List.append_nil]
    exact done.symm
  · refine ⟨rfl, bound, ?_⟩
    have one := joins [c]
    rw [← slice_succ here bound] at one
    rw [pend, if_neg (slice_succ_ne_nil here bound), List.append_assoc, handed_once]
    exact one.symm

/-- What is looked at again begins at the place. -/
theorem agrees_again (here : buf.drop i = c :: rest) (before : List MultipartCallback) :
    Agrees buf i rest.isEmpty [] (p.takePartData buf i i c rest.isEmpty before)
      (p.takePartData [c] 0 0 c true before) :=
  agrees_partData here (Nat.le_refl i) fun more => by
    rw [slice_self, List.nil_append, List.nil_append]
    exact .refl _

theorem agrees_take (here : buf.drop i = c :: rest) (bound : mark ≤ i)
    (named : ¬(p.state = .headerField ∧ c = 13)) :
    Agrees buf i rest.isEmpty (p.pend (slice buf mark i)) (p.take buf i mark c rest.isEmpty)
      (p.take [c] 0 0 c true) := by
  have outside (quiet : ∀ text, p.pend text = []) : p.pend (slice buf mark i) = [] := quiet _
  rw [take, take]
  split
  · rename_i state
    rw [outside fun text => by simp [pend, state]]
    exact agrees_startBoundary rfl buf bound c _
  · rename_i state
    rw [outside fun text => by simp [pend, state]]
    exact agrees_startBoundary state buf bound c _
  · rename_i state
    have again := agrees_headerField (p := { p with state := .headerField }) rfl here (Nat.le_refl i)
      (.inl (slice_self buf i))
    have quiet (text : Bytes) : p.pend text = [] := by
      simp [pend, state]
    rw [quiet]
    rw [slice_self, pend, if_pos rfl] at again
    exact again
  · rename_i state
    exact agrees_headerField state here bound (.inr fun cr => named ⟨state, cr⟩)
  · rename_i state
    rw [outside fun text => by simp [pend, state]]
    split
    · trivial
    · exact agrees_silent buf _ [] bound fun text => by simp [pend]
  · rename_i state
    have quiet (text : Bytes) : p.pend text = [] := by
      simp [pend, state]
    rw [quiet]
    split
    · exact agrees_silent buf _ [] bound quiet
    · have again := agrees_headerValue (p := { p with state := .headerValue }) rfl here
        (Nat.le_refl i)
      rw [slice_self, pend, if_pos rfl] at again
      exact again
  · rename_i state
    exact agrees_headerValue state here bound
  · rename_i state
    rw [outside fun text => by simp [pend, state]]
    split
    · trivial
    · exact agrees_silent buf _ [] bound fun text => by simp [pend]
  · rename_i state
    rw [outside fun text => by simp [pend, state]]
    exact agrees_again here [.headersComplete]
  · rename_i state
    refine agrees_partData here bound fun more => ?_
    exact same_pend .data (fun _ _ => rfl) (fun text => by simp [pend, state]) _ more
  · rename_i state
    rw [outside fun text => by simp [pend, state]]
    split
    · exact agrees_silent buf _ [] bound fun text => by simp [pend]
    · exact agrees_again here _
  · rename_i state
    rw [outside fun text => by simp [pend, state]]
    split
    · exact agrees_again here _
    · split
      · exact agrees_silent buf _ _ bound fun text => by simp [pend]
      · exact agrees_silent buf _ [] bound fun text => by simp [pend, store, state]
  · rename_i state
    rw [outside fun text => by simp [pend, state]]
    split
    · exact agrees_silent buf _ [] bound fun text => by simp [pend]
    · split
      · exact agrees_silent buf _ [] bound fun text => by simp [pend]
      · trivial
  · rename_i state
    rw [outside fun text => by simp [pend, state]]
    split
    · exact agrees_silent buf _ _ bound fun text => by simp [pend]
    · trivial
  · rename_i state
    rw [outside fun text => by simp [pend, state]]
    split
    · exact agrees_silent buf _ _ bound fun text => by simp [pend]
    · trivial
  · rename_i state
    have quiet (text : Bytes) : p.pend text = [] := by
      simp [pend, state]
    rw [quiet]
    exact agrees_silent buf _ [] bound quiet

end Gathering

theorem octets_append (p : Parser) (front rest : Bytes) :
    p.octets (front ++ rest) =
      (p.octets front).bind fun first =>
        (first.1.octets rest).map fun others => (others.1, first.2 ++ others.2) := by
  induction front generalizing p with
  | nil => cases read : p.octets rest <;> simp [octets, read]
  | cons c front ih =>
    rw [List.cons_append, octets, octets]
    cases one : p.octet c with
    | none => rfl
    | some first =>
      rw [Option.bind_some, Option.bind_some, ih]
      cases first.1.octets front with
      | none => rfl
      | some second =>
        simp only [Option.bind_some, Option.map_some, Option.map_map, Function.comp_def,
          List.append_assoc]

theorem Named.append {p : Parser} {front rest : Bytes} (named : p.Named (front ++ rest)) :
    p.Named front ∧ ∀ q made, p.octets front = some (q, made) → q.Named rest := by
  induction front generalizing p with
  | nil =>
    refine ⟨trivial, fun q made read => ?_⟩
    cases read
    exact named
  | cons c front ih =>
    obtain ⟨here, later⟩ := named
    refine ⟨⟨here, fun q made one => (ih (later q made one)).1⟩, fun q made read => ?_⟩
    obtain ⟨first, one, others⟩ := Option.bind_eq_some_iff.mp read
    obtain ⟨second, two, same⟩ := Option.map_eq_some_iff.mp others
    cases same
    exact (ih (later first.1 first.2 one)).2 second.1 second.2 two

theorem named_append {p : Parser} {front rest : Bytes} (before : p.Named front)
    (behind : ∀ q made, p.octets front = some (q, made) → q.Named rest) :
    p.Named (front ++ rest) := by
  induction front generalizing p with
  | nil => exact behind p [] rfl
  | cons c front ih =>
    obtain ⟨here, later⟩ := before
    refine ⟨here, fun q made one => ih (later q made one) fun r more read => ?_⟩
    refine behind r (made ++ more) ?_
    rw [octets, one, Option.bind_some, read]
    rfl

theorem loop_octets (p : Parser) {buf rest : Bytes} (here : buf.drop i = rest) (bound : mark ≤ i)
    (named : p.Named rest) :
    match p.octets rest with
    | none => (p.loop buf i mark rest).2.2 < i + rest.length
    | some (q, alone) =>
      (p.loop buf i mark rest).1 = q ∧ (p.loop buf i mark rest).2.2 = i + rest.length ∧
        Same glue (p.loop buf i mark rest).2.1
          ((if rest.isEmpty then [] else p.pend (slice buf mark i)) ++ alone) := by
  induction rest generalizing p i mark with
  | nil => exact ⟨rfl, rfl, .refl _⟩
  | cons c rest ih =>
    have agrees := agrees_take here bound named.1
    rw [octets, octet, loop]
    cases inside : p.take buf i mark c rest.isEmpty with
    | stop q =>
      rw [inside] at agrees
      cases alone : p.take [c] 0 0 c true with
      | stop q =>
        rw [List.length_cons]
        exact Nat.lt_add_of_pos_right (Nat.succ_pos _)
      | go q place made =>
        rw [alone] at agrees
        exact agrees.elim
    | go q next made =>
      rw [inside] at agrees
      cases alone : p.take [c] 0 0 c true with
      | stop q =>
        rw [alone] at agrees
        exact agrees.elim
      | go q' place madeAlone =>
        rw [alone] at agrees
        obtain ⟨rfl, within, same⟩ := agrees
        have one : p.octet c = some (q, madeAlone) := by
          rw [octet, alone]
        have later : buf.drop (i + 1) = rest := by
          rw [← List.drop_drop, here, List.drop_one, List.tail_cons]
        have others := ih q later (Nat.le_succ_of_le within) (named.2 q madeAlone one)
        have length : i + 1 + rest.length = i + (c :: rest).length := by
          rw [List.length_cons]
          omega
        cases read : q.octets rest with
        | none =>
          rw [read] at others
          simpa [read, length] using others
        | some second =>
          obtain ⟨r, madeLater⟩ := second
          rw [read] at others
          obtain ⟨parser, place, made_⟩ := others
          simp only [Option.bind_some, read, Option.map_some]
          refine ⟨parser, place.trans length, ?_⟩
          have joined := (Same.refl (G := glue) made).append made_
          rw [← List.append_assoc] at joined
          rw [List.isEmpty_cons, if_neg Bool.false_ne_true, ← List.append_assoc]
          exact joined.trans (same.append (.refl madeLater))

/-- A piece does the same as its characters, given one after another. -/
theorem accept_octets {p : Parser} {piece : Bytes} (named : p.Named piece) :
    match p.octets piece with
    | none => p.accept piece = none
    | some (q, alone) => ∃ made, p.accept piece = some (q, made) ∧ Same glue made alone := by
  have whole := loop_octets p (List.drop_zero (l := piece)) (Nat.le_refl 0) named
  cases read : p.octets piece with
  | none =>
    rw [read] at whole
    have short : (p.execute piece).2.2 < piece.length := by
      simpa [execute] using whole
    exact if_neg short.ne
  | some second =>
    rw [read] at whole
    obtain ⟨parser, place, made⟩ := whole
    refine ⟨(p.execute piece).2.1, ?_, ?_⟩
    · rw [accept]
      have all : (p.execute piece).2.2 = piece.length := place.trans (Nat.zero_add _)
      have last : (p.execute piece).1 = second.1 := parser
      rw [if_pos all, last]
    · rw [slice_self, pend, if_pos rfl, ite_self, List.nil_append] at made
      exact made

theorem fed_octets {p : Parser} {pieces : List Bytes} (named : p.Named pieces.flatten) :
    match p.octets pieces.flatten with
    | none => p.fed pieces = none
    | some (q, alone) => ∃ made, p.fed pieces = some (q, made) ∧ Same glue made alone := by
  induction pieces generalizing p with
  | nil => exact ⟨[], rfl, .refl _⟩
  | cons piece pieces ih =>
    obtain ⟨here, later⟩ := Named.append named
    have one := accept_octets here
    rw [List.flatten_cons, octets_append, fed]
    cases read : p.octets piece with
    | none =>
      rw [read] at one
      rw [one]
      rfl
    | some first =>
      rw [read] at one
      obtain ⟨made, accepted, same⟩ := one
      have others := ih (later first.1 first.2 read)
      rw [accepted, Option.bind_some, Option.bind_some]
      cases more : first.1.octets pieces.flatten with
      | none =>
        rw [more] at others
        rw [others]
        rfl
      | some second =>
        rw [more] at others
        obtain ⟨madeLater, fed_, sameLater⟩ := others
        exact ⟨made ++ madeLater, by rw [fed_]; rfl, same.append sameLater⟩

/-- A body is refused however it is cut, or read with the same callbacks up to the cuts. -/
theorem cuts_agree {p : Parser} {first second : List Bytes} (same : first.flatten = second.flatten)
    (named : p.Named first.flatten) :
    (p.fed first).map (fun read => (read.1, merged glue read.2)) =
      (p.fed second).map fun read => (read.1, merged glue read.2) := by
  have one := fed_octets named
  rw [same] at one named
  have two := fed_octets named
  cases read : p.octets second.flatten with
  | none =>
    rw [read] at one two
    rw [one, two]
  | some alone =>
    rw [read] at one two
    obtain ⟨made, fed_, sameMade⟩ := one
    obtain ⟨others, again, sameOthers⟩ := two
    rw [fed_, again, Option.map_some, Option.map_some]
    exact congrArg some (congrArg _ (sameMade.trans sameOthers.symm))

/-- A line end that is data, cut off and whole. -/
theorem cuts_agree_line :
    ((Parser.mk [45] 0 .partData []).fed [[13], [10, 65]]).map
        (fun read => (read.1, merged glue read.2)) =
      ((Parser.mk [45] 0 .partData []).fed [[13, 10], [65]]).map
        fun read => (read.1, merged glue read.2) := by
  refine cuts_agree (p := ⟨[45], 0, .partData, []⟩) rfl ⟨by decide, fun q made taken => ?_⟩
  cases taken
  refine ⟨by decide, fun q made taken => ?_⟩
  cases taken
  refine ⟨by decide, fun q made taken => ?_⟩
  cases taken
  trivial

end Parser
end Da4qi4.Multipart
