import Da4qi4.Foundation.Bytes
import Mathlib.Data.List.Infix

/-! Paths of directories, resolved by their text alone: `.` is dropped and `..`
takes back the name before it. An absolute path stays at its root; a relative one
may climb out of the directory that it starts from. -/
namespace LexicalPath

def slash : UInt8 := 47

def dot : Bytes := [46]

def dotDot : Bytes := [46, 46]

/-- The segments of a text behind the start of a segment; empty ones are dropped. -/
def segmentsFrom (current : Bytes) : Bytes → List Bytes
  | [] => if current = [] then [] else [current]
  | c :: rest =>
    if c = slash then
      if current = [] then segmentsFrom [] rest else current :: segmentsFrom [] rest
    else segmentsFrom (current ++ [c]) rest

def segments (path : Bytes) : List Bytes := segmentsFrom [] path

def isAbsolute (path : Bytes) : Bool := path.head? = some slash

/-- A separator is added where there is none. -/
def join (dir sub : Bytes) : Bytes :=
  if sub = [] ∨ dir = [] ∨ dir.getLast? = some slash ∨ sub.head? = some slash then dir ++ sub
  else dir ++ slash :: sub

theorem segmentsFrom_append (current front back : Bytes) :
    segmentsFrom current (front ++ slash :: back) =
      segmentsFrom current front ++ segments back := by
  induction front generalizing current with
  | nil =>
    rw [List.nil_append, segmentsFrom, segmentsFrom, if_pos rfl, segments]
    split
    · rfl
    · rfl
  | cons c front ih =>
    rw [List.cons_append, segmentsFrom, segmentsFrom, ih, ih]
    split
    · split
      · rfl
      · rfl
    · rfl

theorem segments_append (front back : Bytes) :
    segments (front ++ slash :: back) = segments front ++ segments back :=
  segmentsFrom_append [] front back

theorem segments_slash (path : Bytes) : segments (slash :: path) = segments path :=
  segments_append [] path

/-- Joining paths is putting their segments one behind the other. -/
theorem segments_join (dir sub : Bytes) :
    segments (join dir sub) = segments dir ++ segments sub := by
  rw [join]
  split
  · rename_i joined
    rcases joined with rfl | rfl | ends | starts
    · rw [List.append_nil]
      exact (List.append_nil _).symm
    · rfl
    · obtain ⟨front, rfl⟩ := List.getLast?_eq_some_iff.mp ends
      rw [List.append_assoc, List.singleton_append, segments_append, segments_append]
      simp only [segments, segmentsFrom, if_true, List.append_nil]
    · obtain ⟨back, rfl⟩ := List.head?_eq_some_iff.mp starts
      rw [segments_append, segments_slash]
  · exact segments_append dir sub

theorem isAbsolute_join {dir : Bytes} (given : dir ≠ []) (sub : Bytes) :
    isAbsolute (join dir sub) = isAbsolute dir := by
  cases dir with
  | nil => exact absurd rfl given
  | cons c dir =>
    rw [join]
    split
    · rfl
    · rfl

/-- Where a path leads: how far above its start, and then down through names. -/
structure Place where
  absolute : Bool
  ups : Nat := 0
  names : List Bytes := []
  deriving DecidableEq, Repr

namespace Place

def enter (p : Place) (segment : Bytes) : Place :=
  if segment = dot then p
  else if segment = dotDot then
    if p.names = [] then (if p.absolute then p else { p with ups := p.ups + 1 })
    else { p with names := p.names.dropLast }
  else { p with names := p.names ++ [segment] }

def enterAll (p : Place) (segments : List Bytes) : Place := segments.foldl enter p

/-- To go on from a place by a way that climbs and then descends. -/
def move (p way : Place) : Place where
  absolute := p.absolute
  ups := if p.absolute then p.ups else p.ups + (way.ups - p.names.length)
  names := p.names.take (p.names.length - way.ups) ++ way.names

theorem move_enter (p : Place) {way : Place} (relative : way.absolute = false) (segment : Bytes) :
    (p.move way).enter segment = p.move (way.enter segment) := by
  obtain ⟨absolute, ups, names⟩ := p
  obtain ⟨flag, climbed, down⟩ := way
  obtain rfl : flag = false := relative
  rw [enter, enter]
  split
  · rfl
  split
  · -- The last name of the way is taken back, or else one more of the place.
    rcases List.eq_nil_or_concat down with rfl | ⟨down, last, rfl⟩
    · simp only [move, List.append_nil, if_true, Bool.false_eq_true, if_false]
      by_cases inside : climbed < names.length
      · have some : names.take (names.length - climbed) ≠ [] := by
          rw [ne_eq, List.take_eq_nil_iff]
          rintro (none | none)
          · omega
          · rw [none] at inside
            cases inside
        have taken : (names.take (names.length - climbed)).dropLast =
            names.take (names.length - climbed - 1) := by
          rw [List.dropLast_eq_take, List.take_take, List.length_take]
          congr 1
          omega
        rw [if_neg some, taken]
        have fewer : names.length - climbed - 1 = names.length - (climbed + 1) := by omega
        have level : climbed + 1 - names.length = climbed - names.length := by omega
        rw [fewer, level]
      · have none : names.length - climbed = 0 := by omega
        have deeper : names.length - (climbed + 1) = 0 := by omega
        have level : climbed + 1 - names.length = climbed - names.length + 1 := by omega
        rw [none, deeper, level, if_pos (List.take_zero ..)]
        cases absolute with
        | true => simp
        | false => simp [Nat.add_assoc]
    · simp [move, ← List.append_assoc]
  · simp only [move, List.append_assoc]

theorem enterAll_absolute (p : Place) (segments : List Bytes) :
    (p.enterAll segments).absolute = p.absolute := by
  induction segments generalizing p with
  | nil => rfl
  | cons segment segments ih =>
    rw [enterAll, List.foldl_cons]
    apply (ih (p.enter segment)).trans
    rw [enter]
    split
    · rfl
    split
    · split
      · split
        · rfl
        · rfl
      · rfl
    · rfl

/-- What segments do to a place is what their own way does to it. -/
theorem enterAll_eq_move (p : Place) (segments : List Bytes) :
    p.enterAll segments = p.move (enterAll ⟨false, 0, []⟩ segments) := by
  induction segments using List.reverseRecOn with
  | nil =>
    obtain ⟨absolute, ups, names⟩ := p
    simp [enterAll, move]
  | append_singleton segments segment ih =>
    simp only [enterAll, List.foldl_append, List.foldl_cons, List.foldl_nil] at ih ⊢
    rw [ih]
    exact p.move_enter (enterAll_absolute ⟨false, 0, []⟩ segments) segment

end Place

def resolve (path : Bytes) : Place := Place.enterAll ⟨isAbsolute path, 0, []⟩ (segments path)

/-- The way of a path, seen from any place. -/
def way (path : Bytes) : Place := Place.enterAll ⟨false, 0, []⟩ (segments path)

/-- The directory is a prefix of the path. -/
def Inside (dir path : Bytes) : Prop :=
  (resolve dir).absolute = (resolve path).absolute ∧ (resolve dir).ups = (resolve path).ups ∧
    (resolve dir).names <+: (resolve path).names

instance (dir path : Bytes) : Decidable (Inside dir path) := inferInstanceAs (Decidable (_ ∧ _ ∧ _))

/-- As far as the path climbs out of the directory, it goes back by the same names. -/
def Returns (dir sub : Bytes) : Prop :=
  (dir = [] → isAbsolute sub = false) ∧
    (isAbsolute dir = true ∨ (way sub).ups ≤ (resolve dir).names.length) ∧
    (resolve dir).names.drop ((resolve dir).names.length - (way sub).ups) <+: (way sub).names

instance (dir sub : Bytes) : Decidable (Returns dir sub) := inferInstanceAs (Decidable (_ ∧ _ ∧ _))

theorem resolve_join {dir sub : Bytes} (anchored : dir = [] → isAbsolute sub = false) :
    resolve (join dir sub) = (resolve dir).move (way sub) := by
  have same : isAbsolute (join dir sub) = isAbsolute dir := by
    by_cases given : dir = []
    · subst given
      have empty : join [] sub = sub := by simp [join]
      rw [empty, anchored rfl]
      rfl
    · exact isAbsolute_join given sub
  rw [resolve, same, segments_join, way, ← Place.enterAll_eq_move]
  exact List.foldl_append

/-- A joined path stays in the directory exactly if it goes back as far as it
climbs out. -/
theorem inside_join_iff (dir sub : Bytes) : Inside dir (join dir sub) ↔ Returns dir sub := by
  by_cases anchored : dir = [] → isAbsolute sub = false
  · have absolute : (resolve dir).absolute = isAbsolute dir := Place.enterAll_absolute _ _
    have level : (resolve dir).ups =
        (if isAbsolute dir then (resolve dir).ups
          else (resolve dir).ups + ((way sub).ups - (resolve dir).names.length)) ↔
        isAbsolute dir = true ∨ (way sub).ups ≤ (resolve dir).names.length := by
      cases isAbsolute dir with
      | true => simp
      | false =>
        simp only [Bool.false_eq_true, if_false, false_or]
        omega
    have down : (resolve dir).names <+:
        (resolve dir).names.take ((resolve dir).names.length - (way sub).ups) ++ (way sub).names ↔
        (resolve dir).names.drop ((resolve dir).names.length - (way sub).ups) <+:
          (way sub).names := by
      conv_lhs =>
        lhs
        rw [← List.take_append_drop ((resolve dir).names.length - (way sub).ups)
          (resolve dir).names]
      exact List.prefix_append_right_inj _
    rw [Inside, Returns, resolve_join anchored]
    simp only [Place.move, absolute, level, down, true_and]
    exact (and_iff_right anchored).symm
  · refine iff_of_false (fun inside => ?_) fun returns => anchored returns.1
    obtain ⟨rfl, rooted⟩ := Classical.not_imp.mp anchored
    have empty : join [] sub = sub := by simp [join]
    rw [empty] at inside
    have same := inside.1
    rw [resolve, resolve, Place.enterAll_absolute, Place.enterAll_absolute] at same
    exact rooted same.symm

end LexicalPath
