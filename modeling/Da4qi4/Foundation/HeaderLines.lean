import Da4qi4.Foundation.ChunkedCoding

/-! Header blocks as lines: what a reader finds in front of the first empty line. A
lenient reader takes a line feed alone for the end of a line. -/
namespace HeaderLines
open ChunkedCoding (crlf)

/-- A line, and what comes behind its end. -/
def readLine (lenient : Bool) : Bytes → Option (Bytes × Bytes)
  | [] => none
  | c :: rest =>
    if c = 13 ∧ rest.head? = some 10 then some ([], rest.tail)
    else if lenient ∧ c = 10 then some ([], rest)
    else (readLine lenient rest).map fun read => (c :: read.1, read.2)

/-- A text that would end its line. -/
def HasLineEnd (lenient : Bool) (text : Bytes) : Prop := (readLine lenient text).isSome

instance (lenient : Bool) (text : Bytes) : Decidable (HasLineEnd lenient text) :=
  inferInstanceAs (Decidable ((_ : Bool) = true))

/-- Octets that no reader takes for a part of a line's end. -/
def IsPlain (text : Bytes) : Prop := ∀ c ∈ text, c ≠ 13 ∧ c ≠ 10

instance (text : Bytes) : Decidable (IsPlain text) := List.decidableBAll _ text

variable {lenient : Bool}

theorem hasLineEnd_nil : ¬HasLineEnd lenient [] := nofun

theorem hasLineEnd_cons (c : UInt8) (text : Bytes) : HasLineEnd lenient (c :: text) ↔
    (c = 13 ∧ text.head? = some 10) ∨ (lenient ∧ c = 10) ∨ HasLineEnd lenient text := by
  rw [HasLineEnd, readLine]
  split
  · rename_i pair
    exact iff_of_true rfl (.inl pair)
  · rename_i notPair
    split
    · rename_i feed
      exact iff_of_true rfl (.inr (.inl feed))
    · rename_i notFeed
      rw [or_iff_right notPair, or_iff_right notFeed, Option.isSome_map]
      rfl

theorem hasLineEnd_cons_plain (notReturn : c ≠ 13) (notFeed : c ≠ 10) (text : Bytes) :
    HasLineEnd lenient (c :: text) ↔ HasLineEnd lenient text := by
  rw [hasLineEnd_cons, or_iff_right fun pair => notReturn pair.1,
    or_iff_right fun feed => notFeed feed.2]

/-- A text in front of an octet that is in no line's end ends a line if it does so alone. -/
theorem hasLineEnd_append_cons (notReturn : c ≠ 13) (notFeed : c ≠ 10) (front back : Bytes) :
    HasLineEnd lenient (front ++ c :: back) ↔
      HasLineEnd lenient front ∨ HasLineEnd lenient back := by
  induction front with
  | nil =>
    rw [List.nil_append, hasLineEnd_cons_plain notReturn notFeed, or_iff_right hasLineEnd_nil]
  | cons d front ih =>
    have next : (front ++ c :: back).head? = some 10 ↔ front.head? = some 10 := by
      cases front with
      | nil =>
        constructor
        · intro same
          exact absurd (Option.some.inj same) notFeed
        · intro same
          cases same
      | cons e front => exact Iff.rfl
    rw [List.cons_append, hasLineEnd_cons, hasLineEnd_cons, next, ih, or_assoc, or_assoc]

/-- A text that is empty or begins with an octet that is in no line's end. -/
def Apart (text : Bytes) : Prop := ∀ c ∈ text.head?, c ≠ 13 ∧ c ≠ 10

instance (text : Bytes) : Decidable (Apart text) := Option.decidableForallMem text.head?

theorem IsPlain.apart (plain : IsPlain text) : Apart text := by
  intro c front
  exact plain c (List.mem_of_mem_head? front)

theorem apart_nil : Apart [] := by
  intro c front
  cases front

theorem apart_append (apart : Apart front) (some_ : front ≠ []) (back : Bytes) :
    Apart (front ++ back) := by
  cases front with
  | nil => exact absurd rfl some_
  | cons c front => exact apart

/-- A label and a value, or nothing. -/
theorem apart_labelled {set : Prop} [Decidable set] (plain : IsPlain label) (some_ : label ≠ [])
    (value : Bytes) : Apart (if set then label ++ value else []) := by
  split
  · exact apart_append plain.apart some_ value
  · exact apart_nil

theorem hasLineEnd_append (apart : Apart back) (front : Bytes) :
    HasLineEnd lenient (front ++ back) ↔ HasLineEnd lenient front ∨ HasLineEnd lenient back := by
  cases back with
  | nil => rw [List.append_nil, or_iff_left hasLineEnd_nil]
  | cons c back =>
    obtain ⟨notReturn, notFeed⟩ := apart c rfl
    rw [hasLineEnd_append_cons notReturn notFeed, hasLineEnd_cons_plain notReturn notFeed]

theorem hasLineEnd_plain_append (plain : IsPlain front) (back : Bytes) :
    HasLineEnd lenient (front ++ back) ↔ HasLineEnd lenient back := by
  induction front with
  | nil => exact Iff.rfl
  | cons c front ih =>
    obtain ⟨notReturn, notFeed⟩ := plain c List.mem_cons_self
    rw [List.cons_append, hasLineEnd_cons_plain notReturn notFeed]
    apply ih
    intro d member
    exact plain d (List.mem_cons_of_mem c member)

theorem not_hasLineEnd_of_plain (plain : IsPlain text) : ¬HasLineEnd lenient text := by
  have alone : HasLineEnd lenient (text ++ []) ↔ HasLineEnd lenient [] :=
    hasLineEnd_plain_append plain []
  rw [List.append_nil] at alone
  exact fun ends => hasLineEnd_nil (alone.mp ends)

theorem readLine_append (open_ : ¬HasLineEnd lenient line) (rest : Bytes) :
    readLine lenient (line ++ crlf ++ rest) = some (line, rest) := by
  induction line with
  | nil => rfl
  | cons c line ih =>
    have none := Option.not_isSome_iff_eq_none.mp open_
    rw [readLine] at none
    split at none
    · cases none
    · rename_i notPair
      split at none
      · cases none
      · rename_i notFeed
        have further := ih (Option.not_isSome_iff_eq_none.mpr (Option.map_eq_none_iff.mp none))
        have follows : ¬(c = 13 ∧ (line ++ crlf ++ rest).head? = some 10) := by
          cases line with
          | nil =>
            rintro ⟨-, same⟩
            cases same
          | cons d line => exact notPair
        rw [List.cons_append, List.cons_append, readLine, if_neg follows, if_neg notFeed, further]
        rfl

theorem readLine_early {line : Bytes} (read : readLine lenient line = some (front, back))
    (rest : Bytes) :
    readLine lenient (line ++ rest) = some (front, back ++ rest) ∧ front.length < line.length := by
  induction line generalizing front with
  | nil => cases read
  | cons c line ih =>
    rw [readLine] at read
    split at read
    · rename_i pair
      cases read
      cases line with
      | nil => cases pair.2
      | cons d line => exact ⟨if_pos pair, Nat.zero_lt_succ _⟩
    · rename_i notPair
      split at read
      · rename_i feed
        cases read
        have follows : ¬(c = 13 ∧ (back ++ rest).head? = some 10) := by
          rintro ⟨return_, -⟩
          rw [feed.2] at return_
          cases return_
        refine ⟨?_, Nat.zero_lt_succ _⟩
        rw [List.cons_append, readLine, if_neg follows, if_pos feed]
      · rename_i notFeed
        obtain ⟨⟨inner, behind⟩, further, same⟩ := Option.map_eq_some_iff.mp read
        cases same
        obtain ⟨longer, less⟩ := ih further
        have follows : ¬(c = 13 ∧ (line ++ rest).head? = some 10) := by
          cases line with
          | nil => cases further
          | cons d line => exact notPair
        refine ⟨?_, Nat.succ_lt_succ less⟩
        rw [List.cons_append, readLine, if_neg follows, if_neg notFeed, longer]
        rfl

/-- The lines in front of the first empty one, and what comes behind that. -/
def readLines (lenient : Bool) : Nat → Bytes → Option (List Bytes × Bytes)
  | 0, _ => none
  | fuel + 1, input =>
    (readLine lenient input).bind fun read =>
      if read.1 = [] then some ([], read.2)
      else (readLines lenient fuel read.2).map fun others => (read.1 :: others.1, others.2)

/-- What is in front of the first colon, and what is behind it. -/
def splitField : Bytes → Option (Bytes × Bytes)
  | [] => none
  | c :: rest =>
    if c = 58 then some ([], rest)
    else (splitField rest).map fun field => (c :: field.1, field.2)

theorem splitField_append (noColon : (58 : UInt8) ∉ name) (value : Bytes) :
    splitField (name ++ [58] ++ value) = some (name, value) := by
  induction name with
  | nil => rfl
  | cons c name ih =>
    rw [List.mem_cons, not_or] at noColon
    rw [List.cons_append, List.cons_append, splitField, if_neg (Ne.symm noColon.1), ih noColon.2]
    rfl

/-- A start line and fields, as they are written. -/
structure Block where
  start : Bytes
  fields : List (Bytes × Bytes)
  deriving DecidableEq, Repr

/-- The block at the front of a text, and what comes behind it. -/
def readBlock (lenient : Bool) (input : Bytes) : Option (Block × Bytes) :=
  (readLines lenient (input.length + 1) input).bind fun read =>
    match read.1 with
    | [] => none
    | start :: lines => (lines.mapM splitField).map fun fields => (⟨start, fields⟩, read.2)

def fieldText (field : Bytes × Bytes) : Bytes := field.1 ++ [58] ++ field.2

def lines (block : Block) : List Bytes := block.start :: block.fields.map fieldText

/-- A block as it is written. -/
def blockText (block : Block) : Bytes := (lines block).flatMap (· ++ crlf) ++ crlf

theorem readLines_of_open {lines : List Bytes} (some_ : ∀ line ∈ lines, line ≠ [])
    (open_ : ∀ line ∈ lines, ¬HasLineEnd lenient line) (enough : lines.length < fuel)
    (rest : Bytes) :
    readLines lenient fuel (lines.flatMap (· ++ crlf) ++ crlf ++ rest) = some (lines, rest) := by
  induction lines generalizing fuel with
  | nil =>
    cases fuel with
    | zero => exact absurd enough (Nat.not_lt_zero _)
    | succ fuel => rfl
  | cons line lines ih =>
    cases fuel with
    | zero => exact absurd enough (Nat.not_lt_zero _)
    | succ fuel =>
      have read := readLine_append (open_ line List.mem_cons_self)
        (lines.flatMap (· ++ crlf) ++ crlf ++ rest)
      have further := ih (fun other member => some_ other (List.mem_cons_of_mem line member))
        (fun other member => open_ other (List.mem_cons_of_mem line member))
        (Nat.lt_of_succ_lt_succ enough)
      rw [List.flatMap_cons, List.append_assoc (line ++ crlf), List.append_assoc (line ++ crlf),
        readLines, read, Option.bind_some, if_neg (some_ line List.mem_cons_self), further]
      rfl

/-- Lines that are read as they were written end nowhere before their end. -/
theorem open_of_readLines {lines : List Bytes}
    (read : readLines lenient fuel (lines.flatMap (· ++ crlf) ++ crlf ++ rest) =
      some (lines, behind)) :
    ∀ line ∈ lines, ¬HasLineEnd lenient line := by
  induction lines generalizing fuel with
  | nil =>
    intro _ member
    cases member
  | cons line lines ih =>
    cases fuel with
    | zero => cases read
    | succ fuel =>
      rw [List.flatMap_cons, List.append_assoc (line ++ crlf), List.append_assoc (line ++ crlf),
        readLines] at read
      obtain ⟨⟨front, back⟩, first, others⟩ := Option.bind_eq_some_iff.mp read
      split at others
      · cases others
      · obtain ⟨⟨found, left⟩, remaining, same⟩ := Option.map_eq_some_iff.mp others
        cases same
        have open_ : ¬HasLineEnd lenient front := by
          intro ended
          obtain ⟨⟨inner, after⟩, early⟩ := Option.isSome_iff_exists.mp ended
          obtain ⟨whole, less⟩ := readLine_early early
            (crlf ++ (found.flatMap (· ++ crlf) ++ crlf ++ rest))
          rw [← List.append_assoc, first] at whole
          cases whole
          exact Nat.lt_irrefl _ less
        rw [readLine_append open_] at first
        cases first
        intro other member
        rcases List.mem_cons.mp member with rfl | later
        · exact open_
        · exact ih remaining other later

theorem fieldText_of_splitField {line : Bytes} (parsed : splitField line = some field) :
    line = fieldText field := by
  induction line generalizing field with
  | nil => cases parsed
  | cons c line ih =>
    rw [splitField] at parsed
    split at parsed
    · rename_i colon
      cases parsed
      rw [colon]
      rfl
    · obtain ⟨inner, further, rfl⟩ := Option.map_eq_some_iff.mp parsed
      rw [ih further]
      rfl

theorem splitField_noColon {line : Bytes} (parsed : splitField line = some field) :
    (58 : UInt8) ∉ field.1 := by
  induction line generalizing field with
  | nil => cases parsed
  | cons c line ih =>
    rw [splitField] at parsed
    split at parsed
    · cases parsed
      exact List.not_mem_nil
    · rename_i other
      obtain ⟨inner, further, rfl⟩ := Option.map_eq_some_iff.mp parsed
      rw [List.mem_cons, not_or]
      exact ⟨Ne.symm other, ih further⟩

theorem fieldTexts_of_mapM {texts : List Bytes} (parsed : texts.mapM splitField = some fields) :
    texts = fields.map fieldText := by
  induction texts generalizing fields with
  | nil =>
    cases parsed
    rfl
  | cons text texts ih =>
    rw [List.mapM_cons] at parsed
    obtain ⟨field, first, others⟩ := Option.bind_eq_some_iff.mp parsed
    obtain ⟨left, further, same⟩ := Option.bind_eq_some_iff.mp others
    cases same
    rw [List.map_cons, ← fieldText_of_splitField first, ← ih further]

theorem noColon_of_mapM {texts : List Bytes} (parsed : texts.mapM splitField = some fields) :
    ∀ field ∈ fields, (58 : UInt8) ∉ field.1 := by
  induction texts generalizing fields with
  | nil =>
    cases parsed
    exact List.forall_mem_nil _
  | cons text texts ih =>
    rw [List.mapM_cons] at parsed
    obtain ⟨field, first, others⟩ := Option.bind_eq_some_iff.mp parsed
    obtain ⟨left, further, same⟩ := Option.bind_eq_some_iff.mp others
    cases same
    exact List.forall_mem_cons.mpr ⟨splitField_noColon first, ih further⟩

theorem mapM_splitField {fields : List (Bytes × Bytes)}
    (noColon : ∀ field ∈ fields, (58 : UInt8) ∉ field.1) :
    (fields.map fieldText).mapM splitField = some fields := by
  induction fields with
  | nil => rfl
  | cons field fields ih =>
    have others := ih fun other member => noColon other (List.mem_cons_of_mem field member)
    rw [List.map_cons, List.mapM_cons, fieldText,
      splitField_append (noColon field List.mem_cons_self), others]
    rfl

theorem length_lt_blockText (block : Block) (rest : Bytes) :
    (lines block).length < (blockText block ++ rest).length + 1 := by
  have few (all : List Bytes) : all.length ≤ (all.flatMap (· ++ crlf)).length := by
    induction all with
    | nil => exact Nat.zero_le _
    | cons line all ih =>
      have ends : crlf.length = 2 := rfl
      rw [List.flatMap_cons, List.length_append, List.length_append, List.length_cons, ends]
      omega
  have whole := few (lines block)
  simp only [blockText, List.length_append]
  omega

/-- A field's line is never empty, and is split where it was joined. -/
theorem fieldText_ne_nil (field : Bytes × Bytes) : fieldText field ≠ [] := by
  rw [fieldText, List.append_assoc]
  exact List.append_ne_nil_of_right_ne_nil _ (List.cons_ne_nil _ _)

/-- A block is read as it was written exactly if no line ends before its end. -/
theorem readBlock_iff {block : Block} (started : block.start ≠ [])
    (noColon : ∀ field ∈ block.fields, (58 : UInt8) ∉ field.1) (rest : Bytes) :
    (readBlock lenient (blockText block ++ rest)).map Prod.fst = some block ↔
      ∀ line ∈ lines block, ¬HasLineEnd lenient line := by
  have layout : blockText block ++ rest =
      (lines block).flatMap (· ++ crlf) ++ crlf ++ rest := rfl
  constructor
  · intro read
    obtain ⟨⟨found, behind⟩, whole, same⟩ := Option.map_eq_some_iff.mp read
    cases same
    obtain ⟨⟨texts, left⟩, all, fields⟩ := Option.bind_eq_some_iff.mp whole
    cases texts with
    | nil => cases fields
    | cons start texts =>
      obtain ⟨parsed, split_, same⟩ := Option.map_eq_some_iff.mp fields
      cases same
      have written : start :: texts = lines ⟨start, parsed⟩ :=
        congrArg (start :: ·) (fieldTexts_of_mapM split_)
      rw [written, layout] at all
      exact open_of_readLines all
  · intro open_
    have some_ : ∀ line ∈ lines block, line ≠ [] := by
      intro line member
      rcases List.mem_cons.mp member with rfl | later
      · exact started
      · obtain ⟨field, -, rfl⟩ := List.mem_map.mp later
        exact fieldText_ne_nil field
    have read := readLines_of_open some_ open_ (length_lt_blockText block rest) rest
    rw [← layout] at read
    rw [readBlock, read]
    change (((block.fields.map fieldText).mapM splitField).map _).map _ = _
    rw [mapM_splitField noColon]
    rfl

/-- No name that is read has a colon in it. -/
theorem readBlock_noColon {block : Block} (read : readBlock lenient input = some (block, rest)) :
    ∀ field ∈ block.fields, (58 : UInt8) ∉ field.1 := by
  obtain ⟨⟨texts, left⟩, -, fields⟩ := Option.bind_eq_some_iff.mp read
  cases texts with
  | nil => cases fields
  | cons start texts =>
    obtain ⟨parsed, split_, same⟩ := Option.map_eq_some_iff.mp fields
    cases same
    exact noColon_of_mapM split_

end HeaderLines
