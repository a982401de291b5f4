import Da4qi4.Foundation.Bytes
import Da4qi4.Foundation.Occurrence
import Da4qi4.Foundation.PrefixMap

/-! Strings as the utilities treat them: characters are signed octets, and the
locale is the classic one. -/
namespace Da4qi4.Utilities

/-- `std::toupper`. -/
def toUpper (c : UInt8) : UInt8 := if 97 ≤ c ∧ c ≤ 122 then c - 32 else c

def charValue (c : UInt8) : Int := c.toInt8.toInt

def iEquals : Bytes → Bytes → Bool
  | [], [] => true
  | a :: l, b :: r => decide (toUpper a = toUpper b) && iEquals l r
  | _, _ => false

def iLess : Bytes → Bytes → Bool
  | _, [] => false
  | [], _ :: _ => true
  | a :: l, b :: r =>
    if charValue (toUpper a) < charValue (toUpper b) then true
    else if charValue (toUpper b) < charValue (toUpper a) then false
    else iLess l r

def iStartsWith : Bytes → Bytes → Bool
  | _, [] => true
  | [], _ :: _ => false
  | a :: m, b :: s => decide (toUpper a = toUpper b) && iStartsWith m s

/-- `std::isspace`. -/
def isSpace (c : UInt8) : Bool := decide (c = 32) || (decide (9 ≤ c) && decide (c ≤ 13))

def trim (m : Bytes) : Bytes := ((m.dropWhile isSpace).reverse.dropWhile isSpace).reverse

inductive TrimOptions where
  | keepSpace | trimAll
  deriving DecidableEq, Repr

def split (m : Bytes) (c : UInt8) (opt : TrimOptions := .keepSpace) : List Bytes :=
  match opt with
  | .keepSpace => m.splitOn c
  | .trimAll => (m.splitOn c).map trim

/-- `std::string::find`, with `none` for `npos`. -/
def find (m s : Bytes) (pos : Nat := 0) : Option Nat :=
  (List.range' pos (m.length + 1 - pos)).find? fun i => s.isPrefixOf (m.drop i)

/-- `boost::algorithm::replace_all_copy`, from the left; so many octets are still
those of an occurrence. -/
def replaceFrom (bef aft : Bytes) : Nat → Bytes → Bytes
  | _, [] => []
  | within + 1, _ :: m => replaceFrom bef aft within m
  | 0, c :: m =>
    if bef ≠ [] ∧ bef.isPrefixOf (c :: m) then aft ++ replaceFrom bef aft (bef.length - 1) m
    else c :: replaceFrom bef aft 0 m

def replaceAll (m bef aft : Bytes) : Bytes := replaceFrom bef aft 0 m

/-- The first place, from the given one on, where the text goes on like `s`. -/
theorem find_eq_some_iff {m s : Bytes} {pos i : Nat} :
    find m s pos = some i ↔
      s <+: m.drop i ∧ (pos ≤ i ∧ i ≤ m.length) ∧ ∀ j, pos ≤ j → j < i → ¬s <+: m.drop j := by
  rw [find, List.find?_range'_eq_some, List.mem_range'_1, List.isPrefixOf_iff_prefix]
  refine and_congr_right fun _ => and_congr ?_ ?_
  · omega
  · simp [← Bool.not_eq_true]

theorem find_iff_firstAt {m s : Bytes} {pos i : Nat} (some_ : s ≠ []) :
    find m s pos = some i ↔
      ∃ front back, Occurrence.FirstAt s (m.drop pos) front back ∧ i = pos + front.length := by
  have positive := List.length_pos_iff.mpr some_
  rw [find_eq_some_iff]
  constructor
  · rintro ⟨⟨back, here⟩, ⟨from_, inside⟩, first⟩
    refine ⟨(m.drop pos).take (i - pos), back, ⟨?_, ?_⟩, ?_⟩
    · have later : m.drop i = (m.drop pos).drop (i - pos) := by
        rw [List.drop_drop, Nat.add_sub_cancel' from_]
      rw [here, later, List.take_append_drop]
    · intro f b same
      by_contra earlier
      rw [List.length_take, List.length_drop] at earlier
      apply first (pos + f.length) (by omega) (by omega)
      rw [← List.drop_drop, same, List.drop_left]
      exact List.prefix_append _ _
    · rw [List.length_take, List.length_drop]
      omega
  · rintro ⟨front, back, ⟨split, first⟩, rfl⟩
    have lengths := congrArg List.length split
    simp only [List.length_drop, List.length_append] at lengths
    refine ⟨?_, ⟨Nat.le_add_right _ _, by omega⟩, ?_⟩
    · rw [← List.drop_drop, split, List.drop_left]
      exact List.prefix_append _ _
    · rintro j from_ before ⟨b, here⟩
      have cut : m.drop pos = (m.drop pos).take (j - pos) ++ (s ++ b) := by
        have later : m.drop j = (m.drop pos).drop (j - pos) := by
          rw [List.drop_drop, Nat.add_sub_cancel' from_]
        rw [here, later, List.take_append_drop]
      have earliest := first _ b cut
      rw [List.length_take, List.length_drop] at earliest
      omega

theorem find_isSome_iff {m s : Bytes} {pos : Nat} (some_ : s ≠ []) :
    (find m s pos).isSome = true ↔ s <:+: m.drop pos := by
  constructor
  · intro found
    obtain ⟨i, found⟩ := Option.isSome_iff_exists.mp found
    obtain ⟨front, back, here, -⟩ := (find_iff_firstAt some_).mp found
    exact ⟨front, back, by rw [here.split, List.append_assoc]⟩
  · intro occurs
    obtain ⟨front, back, here⟩ := Occurrence.exists_firstAt occurs
    rw [(find_iff_firstAt some_).mpr ⟨front, back, here, rfl⟩]
    rfl

theorem dropWhile_spaces (spaces : ∀ c ∈ l, isSpace c = true) (m : Bytes) :
    (l ++ m).dropWhile isSpace = m.dropWhile isSpace :=
  List.dropWhile_append_of_pos spaces

theorem trim_spaces (spaces : ∀ c ∈ l, isSpace c = true) (m : Bytes) : trim (l ++ m) = trim m := by
  rw [trim, dropWhile_spaces spaces, trim]

/-- A text that neither begins nor ends with a space. -/
theorem trim_of_ends {m : Bytes} (first : ∀ c ∈ m.head?, isSpace c = false)
    (last : ∀ c ∈ m.getLast?, isSpace c = false) : trim m = m := by
  have kept {l : Bytes} (first : ∀ c ∈ l.head?, isSpace c = false) : l.dropWhile isSpace = l := by
    cases l with
    | nil => rfl
    | cons c rest => exact List.dropWhile_cons_of_neg (by simp [first c rfl])
  have reversed : ∀ c ∈ m.reverse.head?, isSpace c = false := by
    rw [List.head?_reverse]
    exact last
  rw [trim, kept first, kept reversed, List.reverse_reverse]

theorem trim_black {m : Bytes} (black : ∀ c ∈ m, isSpace c = false) : trim m = m :=
  trim_of_ends (fun c first => black c (List.mem_of_head? first))
    (fun c last => black c (List.mem_of_getLast? last))

/-- What comparing without case looks at. -/
def foldCase (m : Bytes) : List Int := m.map fun c => charValue (toUpper c)

@[simp] theorem charValue_inj {c d : UInt8} : charValue c = charValue d ↔ c = d := by
  rw [charValue, charValue, Int8.toInt_inj]
  constructor
  · intro same
    simpa using congrArg Int8.toUInt8 same
  · intro same
    rw [same]

@[simp] theorem foldCase_nil : foldCase [] = [] := rfl

@[simp] theorem foldCase_append (l r : Bytes) : foldCase (l ++ r) = foldCase l ++ foldCase r :=
  List.map_append

@[simp] theorem foldCase_length (m : Bytes) : (foldCase m).length = m.length := List.length_map _

theorem iEquals_iff (l r : Bytes) : iEquals l r = true ↔ foldCase l = foldCase r := by
  induction l generalizing r with
  | nil => cases r <;> simp [iEquals, foldCase]
  | cons a l ih =>
    cases r with
    | nil => simp [iEquals, foldCase]
    | cons b r =>
      simp only [foldCase] at ih
      simp [iEquals, foldCase, ih]

theorem iEquals_eq_decide (l r : Bytes) : iEquals l r = decide (foldCase l = foldCase r) := by
  rw [Bool.eq_iff_iff, iEquals_iff, decide_eq_true_eq]

/-- The comparison of the headers is the order of the folded strings. -/
theorem iLess_iff (l r : Bytes) : iLess l r = true ↔ foldCase l < foldCase r := by
  induction l generalizing r with
  | nil => cases r <;> simp [iLess, foldCase]
  | cons a l ih =>
    cases r with
    | nil => simp [iLess, foldCase]
    | cons b r =>
      simp only [iLess]
      change _ ↔ charValue (toUpper a) :: foldCase l < charValue (toUpper b) :: foldCase r
      rw [List.cons_lt_cons_iff]
      split
      · rename_i less
        simp [less]
      · rename_i notLess
        split
        · rename_i greater
          simp [notLess, ne_of_gt greater]
        · rename_i notGreater
          have same : charValue (toUpper a) = charValue (toUpper b) := by omega
          simp [same, ih]

theorem iStartsWith_iff (m s : Bytes) : iStartsWith m s = true ↔ foldCase s <+: foldCase m := by
  induction s generalizing m with
  | nil => cases m <;> simp [iStartsWith]
  | cons b s ih =>
    cases m with
    | nil => simp [iStartsWith, foldCase]
    | cons a m =>
      rw [iStartsWith, Bool.and_eq_true, decide_eq_true_eq, ih]
      change _ ↔ charValue (toUpper b) :: foldCase s <+: charValue (toUpper a) :: foldCase m
      rw [List.cons_prefix_cons, charValue_inj, @eq_comm _ (toUpper b)]

end Da4qi4.Utilities

namespace Da4qi4

/-- `std::map` with `IgnoreCaseCompare`. -/
abbrev ICHeaders := OrderedMap Utilities.foldCase Bytes

abbrev ICCookies := ICHeaders

/-- `std::map` with `IgnoreCaseCompareDESC`. -/
abbrev DescendingMap (V : Type) := OrderedMap (OrderedMap.descending Utilities.foldCase) V

namespace Utilities

def isExistsHeader (headers : ICHeaders) (field : Bytes) : Bool := (headers.lookup field).isSome

def getHeader (headers : ICHeaders) (field : Bytes) : Bytes := (headers.lookup field).getD []

def tryGetHeader (headers : ICHeaders) (field : Bytes) : Option Bytes := headers.lookup field

end Utilities
end Da4qi4
