import Mathlib.Data.List.Induction
import Mathlib.Data.List.Lex
import Mathlib.Data.List.Pairwise
import Mathlib.Order.Lattice

/-! Maps kept as lists in the order of their keys, as a balanced tree would list
them. Keys are compared by what they fold to, so that several spellings can be
one key; a map keeps the spelling that was stored first. -/

/-- A map from `K` to `V` whose keys are equal when they fold to the same value. -/
structure OrderedMap {K L : Type} [LinearOrder L] (fold : K → L) (V : Type) where
  entries : List (K × V)
  sorted : entries.Pairwise fun e f => fold e.1 < fold f.1

namespace OrderedMap
variable {K L V : Type} [LinearOrder L] {fold : K → L}

instance [DecidableEq K] [DecidableEq V] : DecidableEq (OrderedMap fold V) := fun m n =>
  decidable_of_iff (m.entries = n.entries) (by cases m; cases n; simp)

/-- The entry goes to its place; an entry already there keeps its key and has its
value changed instead. -/
def place (fold : K → L) (change : V → V) (key : K) (value : V) : List (K × V) → List (K × V)
  | [] => [(key, value)]
  | e :: rest =>
    if fold key < fold e.1 then (key, value) :: e :: rest
    else if fold key = fold e.1 then (e.1, change e.2) :: rest
    else e :: place fold change key value rest

theorem mem_place {change : V → V} {key : K} {value : V} {l : List (K × V)} {e : K × V}
    (member : e ∈ place fold change key value l) :
    e = (key, value) ∨ e ∈ l ∨ ∃ f ∈ l, e = (f.1, change f.2) := by
  induction l with
  | nil => exact .inl (List.mem_singleton.mp member)
  | cons f rest ih =>
    simp only [place] at member
    split at member
    · rcases List.mem_cons.mp member with rfl | later
      · exact .inl rfl
      · exact .inr (.inl later)
    · split at member
      · rcases List.mem_cons.mp member with rfl | later
        · exact .inr (.inr ⟨f, List.mem_cons_self, rfl⟩)
        · exact .inr (.inl (List.mem_cons_of_mem _ later))
      · rcases List.mem_cons.mp member with rfl | later
        · exact .inr (.inl List.mem_cons_self)
        · rcases ih later with same | old | ⟨g, old, same⟩
          · exact .inl same
          · exact .inr (.inl (List.mem_cons_of_mem _ old))
          · exact .inr (.inr ⟨g, List.mem_cons_of_mem _ old, same⟩)

theorem mem_place_le {change : V → V} {key : K} {value : V} {l : List (K × V)} {e : K × V}
    (member : e ∈ place fold change key value l) :
    fold e.1 = fold key ∨ ∃ f ∈ l, fold e.1 = fold f.1 := by
  rcases mem_place member with rfl | old | ⟨f, old, rfl⟩
  · exact .inl rfl
  · exact .inr ⟨e, old, rfl⟩
  · exact .inr ⟨f, old, rfl⟩

theorem place_sorted (change : V → V) (key : K) (value : V) {l : List (K × V)}
    (sorted : l.Pairwise fun e f => fold e.1 < fold f.1) :
    (place fold change key value l).Pairwise fun e f => fold e.1 < fold f.1 := by
  induction l with
  | nil => exact List.pairwise_singleton _ _
  | cons e rest ih =>
    obtain ⟨first, others⟩ := List.pairwise_cons.mp sorted
    simp only [place]
    split
    · rename_i less
      refine List.pairwise_cons.mpr ⟨?_, sorted⟩
      intro f member
      rcases List.mem_cons.mp member with rfl | later
      · exact less
      · exact less.trans (first f later)
    · rename_i notLess
      split
      · exact List.pairwise_cons.mpr ⟨first, others⟩
      · rename_i different
        refine List.pairwise_cons.mpr ⟨?_, ih others⟩
        intro f member
        rcases mem_place_le member with same | ⟨g, old, same⟩
        · rw [same]
          exact lt_of_le_of_ne (not_lt.mp notLess) (Ne.symm different)
        · rw [same]
          exact first g old

def empty : OrderedMap fold V := ⟨[], .nil⟩

/-- `std::map::insert`: the first entry of a key stays. -/
def insert (m : OrderedMap fold V) (key : K) (value : V) : OrderedMap fold V :=
  ⟨place fold id key value m.entries, place_sorted _ _ _ m.sorted⟩

/-- `std::map::insert_or_assign`: the last value of a key stays. -/
def assign (m : OrderedMap fold V) (key : K) (value : V) : OrderedMap fold V :=
  ⟨place fold (fun _ => value) key value m.entries, place_sorted _ _ _ m.sorted⟩

theorem mem_insert {m : OrderedMap fold V} {key : K} {value : V} {e : K × V}
    (member : e ∈ (m.insert key value).entries) : e = (key, value) ∨ e ∈ m.entries := by
  rcases mem_place member with new | old | ⟨f, old, rfl⟩
  · exact .inl new
  · exact .inr old
  · exact .inr old

/-- An entry is an old one, or has the new value under the new key or an old one. -/
theorem mem_assign {m : OrderedMap fold V} {key : K} {value : V} {e : K × V}
    (member : e ∈ (m.assign key value).entries) :
    e ∈ m.entries ∨ (e.2 = value ∧ (e.1 = key ∨ ∃ f ∈ m.entries, e.1 = f.1)) := by
  rcases mem_place member with rfl | old | ⟨f, old, rfl⟩
  · exact .inr ⟨rfl, .inl rfl⟩
  · exact .inl old
  · exact .inr ⟨rfl, .inr ⟨f, old, rfl⟩⟩

def assignAll (m : OrderedMap fold V) (pairs : List (K × V)) : OrderedMap fold V :=
  pairs.foldl (fun m pair => m.assign pair.1 pair.2) m

/-- Whether an entry is the one of a key. -/
def isAt (fold : K → L) (key : K) (entry : K × V) : Bool := fold entry.1 = fold key

theorem isAt_iff {key : K} {e : K × V} : isAt fold key e = true ↔ fold e.1 = fold key :=
  decide_eq_true_iff

def find (m : OrderedMap fold V) (key : K) : Option (K × V) := m.entries.find? (isAt fold key)

def lookup (m : OrderedMap fold V) (key : K) : Option V := (m.find key).map Prod.snd

@[simp] theorem find_empty (key : K) : (empty : OrderedMap fold V).find key = none := rfl

theorem find_congr (m : OrderedMap fold V) {key other : K} (same : fold key = fold other) :
    m.find key = m.find other := by
  have matched : isAt fold key = (isAt fold other : K × V → Bool) := by
    funext e
    simp only [isAt, same]
  rw [find, find, matched]

theorem find?_place_self (change : V → V) (key : K) (value : V) {l : List (K × V)}
    (sorted : l.Pairwise fun e f => fold e.1 < fold f.1) :
    (place fold change key value l).find? (isAt fold key) =
      some (((l.find? (isAt fold key)).map fun e => (e.1, change e.2)).getD (key, value)) := by
  induction l with
  | nil => simp [place, isAt]
  | cons e rest ih =>
    obtain ⟨first, others⟩ := List.pairwise_cons.mp sorted
    simp only [place]
    split
    · rename_i less
      have absent : (e :: rest).find? (isAt fold key) = none := by
        refine List.find?_eq_none.mpr fun f member => ?_
        have above : fold key < fold f.1 := by
          rcases List.mem_cons.mp member with rfl | later
          · exact less
          · exact less.trans (first f later)
        simpa [isAt] using (ne_of_lt above).symm
      simp [absent, isAt]
    · split
      · rename_i same
        simp [isAt, same]
      · rename_i different
        simp only [List.find?_cons, isAt, Ne.symm different, decide_false]
        simpa only [isAt] using ih others

theorem find?_place_other (change : V → V) (value : V) {key other : K}
    (different : fold key ≠ fold other) (l : List (K × V)) :
    (place fold change key value l).find? (isAt fold other) = l.find? (isAt fold other) := by
  induction l with
  | nil => simp [place, isAt, different]
  | cons e rest ih =>
    simp only [place]
    split
    · simp [isAt, different]
    · split
      · rename_i same
        simp [isAt, ← same, different]
      · rw [List.find?_cons, List.find?_cons, ih]

theorem find_assign_self (m : OrderedMap fold V) (key : K) (value : V) :
    (m.assign key value).find key = some (((m.find key).map Prod.fst).getD key, value) := by
  refine (find?_place_self _ key value m.sorted).trans ?_
  change some (((m.find key).map fun e => (e.1, value)).getD (key, value)) = _
  cases m.find key <;> rfl

theorem find_assign_other (m : OrderedMap fold V) (value : V) {key other : K}
    (different : fold key ≠ fold other) : (m.assign key value).find other = m.find other :=
  find?_place_other _ value different m.entries

theorem find_insert_self (m : OrderedMap fold V) (key : K) (value : V) :
    (m.insert key value).find key = some ((m.find key).getD (key, value)) := by
  refine (find?_place_self id key value m.sorted).trans ?_
  change some (((m.find key).map fun e => (e.1, e.2)).getD (key, value)) = _
  cases m.find key <;> rfl

theorem find_insert_other (m : OrderedMap fold V) (value : V) {key other : K}
    (different : fold key ≠ fold other) : (m.insert key value).find other = m.find other :=
  find?_place_other id value different m.entries

theorem lookup_congr (m : OrderedMap fold V) {key other : K} (same : fold key = fold other) :
    m.lookup key = m.lookup other := by
  rw [lookup, lookup, find_congr m same]

theorem lookup_assign (m : OrderedMap fold V) (key other : K) (value : V)
    [Decidable (fold key = fold other)] :
    (m.assign key value).lookup other =
      if fold key = fold other then some value else m.lookup other := by
  split
  · rename_i same
    rw [← lookup_congr _ same, lookup, find_assign_self]
    rfl
  · rename_i different
    rw [lookup, find_assign_other _ _ different, lookup]

/-- The value that a key had stays. -/
theorem lookup_insert (m : OrderedMap fold V) (key other : K) (value : V)
    [Decidable (fold key = fold other)] :
    (m.insert key value).lookup other =
      if fold key = fold other then some ((m.lookup key).getD value) else m.lookup other := by
  split
  · rename_i same
    rw [← lookup_congr _ same, lookup, find_insert_self, lookup]
    cases m.find key with
    | none => rfl
    | some e => rfl
  · rename_i different
    rw [lookup, find_insert_other _ _ different, lookup]

theorem lookup_foldl_insert_other {A : Type} {f : A → K} {g : A → V} {l : List A} {key : K}
    (different : ∀ a ∈ l, fold (f a) ≠ fold key) (m : OrderedMap fold V) :
    (l.foldl (fun m a => m.insert (f a) (g a)) m).lookup key = m.lookup key := by
  induction l generalizing m with
  | nil => rfl
  | cons a l ih =>
    rw [List.foldl_cons, ih fun b later => different b (List.mem_cons_of_mem _ later),
      lookup_insert, if_neg (different a List.mem_cons_self)]

/-- Different keys that are not there get their own values. -/
theorem lookup_foldl_insert {A : Type} {f : A → K} {g : A → V} {l : List A} {a : A}
    (distinct : (l.map fun a => fold (f a)).Nodup) {m : OrderedMap fold V}
    (absent : ∀ a ∈ l, m.lookup (f a) = none) (member : a ∈ l) :
    (l.foldl (fun m a => m.insert (f a) (g a)) m).lookup (f a) = some (g a) := by
  induction l generalizing m with
  | nil => cases member
  | cons b l ih =>
    obtain ⟨single, others⟩ := List.nodup_cons.mp distinct
    have different : ∀ c ∈ l, fold (f c) ≠ fold (f b) := by
      intro c later same
      exact single (List.mem_map.mpr ⟨c, later, same⟩)
    rw [List.foldl_cons]
    rcases List.mem_cons.mp member with rfl | later
    · rw [lookup_foldl_insert_other different, lookup_insert, if_pos rfl,
        absent a List.mem_cons_self, Option.getD_none]
    · refine ih others ?_ later
      intro c known
      rw [lookup_insert, if_neg fun same => different c known same.symm]
      exact absent c (List.mem_cons_of_mem _ known)

/-- A key that is not there goes in the same way with both. -/
theorem insert_eq_assign {m : OrderedMap fold V} {key : K} (absent : m.find key = none)
    (value : V) :
    m.insert key value = m.assign key value := by
  have same : ∀ l : List (K × V), l.find? (isAt fold key) = none →
      place fold id key value l = place fold (fun _ => value) key value l := by
    intro l
    induction l with
    | nil => exact fun _ => rfl
    | cons e rest ih =>
      intro none
      simp only [List.find?_cons] at none
      split at none
      · cases none
      · rename_i apart
        have different : fold key ≠ fold e.1 := by simpa [isAt, eq_comm] using apart
        simp only [place, different, if_false, ih none]
  simp only [insert, assign, same m.entries absent]

/-- `std::map::erase`. -/
def erase (m : OrderedMap fold V) (key : K) : OrderedMap fold V :=
  ⟨m.entries.filter fun e => !isAt fold key e, m.sorted.filter _⟩

theorem lookup_erase (m : OrderedMap fold V) (key other : K) [Decidable (fold key = fold other)] :
    (m.erase key).lookup other = if fold key = fold other then none else m.lookup other := by
  rw [lookup, lookup, find, find, erase, List.find?_filter]
  split
  · rename_i same
    rw [List.find?_eq_none.mpr, Option.map_none]
    intro e _
    simp [isAt, same]
  · rename_i different
    congr 2
    funext e
    by_cases here : fold e.1 = fold other
    · simp [isAt, here, Ne.symm different]
    · simp [isAt, here]

theorem mem_iff_find? {l : List (K × V)} (sorted : l.Pairwise fun e f => fold e.1 < fold f.1)
    (e : K × V) : e ∈ l ↔ l.find? (isAt fold e.1) = some e := by
  induction l with
  | nil => simp
  | cons f rest ih =>
    obtain ⟨first, others⟩ := List.pairwise_cons.mp sorted
    rw [List.mem_cons, List.find?_cons, ih others]
    by_cases here : fold f.1 = fold e.1
    · have later : rest.find? (isAt fold e.1) ≠ some e := by
        intro found
        exact absurd here (ne_of_lt (first e (List.mem_of_find?_eq_some found)))
      simp [isAt, here, later, eq_comm]
    · have other : e ≠ f := fun equal => here (by rw [equal])
      simp [isAt, here, other]

theorem mem_of_lookup {m : OrderedMap fold V} {key : K} {value : V}
    (found : m.lookup key = some value) :
    ∃ e ∈ m.entries, fold e.1 = fold key ∧ e.2 = value := by
  obtain ⟨e, stored, same⟩ := Option.map_eq_some_iff.mp found
  have key := List.find?_some stored
  exact ⟨e, List.mem_of_find?_eq_some stored, of_decide_eq_true key, same⟩

theorem lookup_of_mem {m : OrderedMap fold V} {e : K × V} (member : e ∈ m.entries) :
    m.lookup e.1 = some e.2 :=
  congrArg (Option.map Prod.snd) ((mem_iff_find? m.sorted e).mp member)

/-- No key has two entries. -/
theorem filter_isAt (m : OrderedMap fold V) (key : K) :
    m.entries.filter (isAt fold key) = (m.find key).toList := by
  have filtered {l : List (K × V)} (sorted : l.Pairwise fun e f => fold e.1 < fold f.1) :
      l.filter (isAt fold key) = (l.find? (isAt fold key)).toList := by
    induction l with
    | nil => rfl
    | cons e rest ih =>
      obtain ⟨first, others⟩ := List.pairwise_cons.mp sorted
      cases here : isAt fold key e with
      | false => rw [List.filter_cons_of_neg (by simp [here]), List.find?_cons, here, ih others]
      | true =>
        have later : rest.filter (isAt fold key) = [] := by
          apply List.filter_eq_nil_iff.mpr
          intro f member there
          have same := (of_decide_eq_true here).trans (of_decide_eq_true there).symm
          exact absurd same (ne_of_lt (first f member))
        rw [List.filter_cons_of_pos here, List.find?_cons, here, later]
        rfl
  exact filtered m.sorted

theorem nodup_of_sorted {l : List (K × V)} (sorted : l.Pairwise fun e f => fold e.1 < fold f.1) :
    l.Nodup :=
  sorted.imp fun less equal => absurd (congrArg (fun e => fold e.1) equal) (ne_of_lt less)

/-- A map is determined by the entries it finds. -/
theorem ext_find {m n : OrderedMap fold V} (same : ∀ key, m.find key = n.find key) : m = n := by
  obtain ⟨l, sortedL⟩ := m
  obtain ⟨k, sortedK⟩ := n
  have members : l.Perm k := by
    apply (List.perm_ext_iff_of_nodup (nodup_of_sorted sortedL) (nodup_of_sorted sortedK)).mpr
    intro e
    rw [mem_iff_find? sortedL, mem_iff_find? sortedK]
    exact Eq.congr_left (same e.1)
  have equal : l = k := List.Perm.eq_of_pairwise
    (fun _ _ _ _ less greater => absurd less (not_lt.mpr greater.le)) sortedL sortedK members
  subst equal
  rfl

/-- A key that is there stays as it is. -/
theorem insert_eq_self {m : OrderedMap fold V} {key : K} {e : K × V} (found : m.find key = some e)
    (value : V) : m.insert key value = m := by
  apply ext_find
  intro other
  by_cases same : fold key = fold other
  · rw [← find_congr _ same, find_insert_self, ← find_congr _ same, found]
    rfl
  · rw [find_insert_other _ _ same]

theorem place_perm (change : V → V) (key : K) (value : V) {l : List (K × V)}
    (absent : ∀ e ∈ l, fold key ≠ fold e.1) :
    (place fold change key value l).Perm ((key, value) :: l) := by
  induction l with
  | nil => exact .refl _
  | cons e rest ih =>
    obtain ⟨here, there⟩ := List.forall_mem_cons.mp absent
    rw [place, if_neg here]
    split
    · exact .refl _
    · exact ((ih there).cons e).trans (List.Perm.swap ..)

def insertAll (m : OrderedMap fold V) (pairs : List (K × V)) : OrderedMap fold V :=
  pairs.foldl (fun m pair => m.insert pair.1 pair.2) m

theorem insertAll_perm (m : OrderedMap fold V) {pairs : List (K × V)}
    (distinct : pairs.Pairwise fun e f => fold e.1 ≠ fold f.1)
    (absent : ∀ e ∈ pairs, ∀ f ∈ m.entries, fold e.1 ≠ fold f.1) :
    (m.insertAll pairs).entries.Perm (pairs ++ m.entries) := by
  induction pairs generalizing m with
  | nil => exact .refl _
  | cons pair pairs ih =>
    obtain ⟨apart, others⟩ := List.pairwise_cons.mp distinct
    obtain ⟨here, there⟩ := List.forall_mem_cons.mp absent
    have placed : (m.insert pair.1 pair.2).entries.Perm (pair :: m.entries) :=
      place_perm id pair.1 pair.2 here
    have later (e : K × V) (member : e ∈ pairs) (f : K × V)
        (inside : f ∈ (m.insert pair.1 pair.2).entries) : fold e.1 ≠ fold f.1 := by
      rcases List.mem_cons.mp (placed.mem_iff.mp inside) with rfl | old
      · exact (apart e member).symm
      · exact there e member f old
    exact (ih _ others later).trans ((placed.append_left pairs).trans List.perm_middle)

/-- The entries of a map, in whatever order, make the map again. -/
theorem insertAll_entries (m : OrderedMap fold V) {pairs : List (K × V)}
    (perm : pairs.Perm m.entries) : empty.insertAll pairs = m := by
  have distinct : pairs.Pairwise fun e f => fold e.1 ≠ fold f.1 :=
    perm.symm.pairwise (m.sorted.imp ne_of_lt) fun apart => Ne.symm apart
  have entries := (insertAll_perm empty distinct fun _ _ _ none => nomatch none).trans
    ((List.append_nil pairs).symm ▸ perm)
  have equal : (empty.insertAll pairs : OrderedMap fold V).entries = m.entries :=
    List.Perm.eq_of_pairwise (fun _ _ _ _ less greater => absurd less (not_lt.mpr greater.le))
      (empty.insertAll pairs).sorted m.sorted entries
  obtain ⟨_, _⟩ := m
  subst equal
  rfl

theorem insertAll_append (m : OrderedMap fold V) (first second : List (K × V)) :
    m.insertAll (first ++ second) = (m.insertAll first).insertAll second :=
  List.foldl_append

/-- Of each key the first pair stays. -/
theorem find_insertAll (m : OrderedMap fold V) (pairs : List (K × V)) (key : K) :
    (m.insertAll pairs).find key = (m.find key).or (pairs.find? (isAt fold key)) := by
  induction pairs generalizing m with
  | nil => exact (Option.or_none).symm
  | cons pair pairs ih =>
    refine (ih (m.insert pair.1 pair.2)).trans ?_
    by_cases here : fold pair.1 = fold key
    · have first : (pair :: pairs).find? (isAt fold key) = some pair :=
        List.find?_cons_of_pos (isAt_iff.mpr here)
      rw [← find_congr _ here, find_insert_self, find_congr _ here, first]
      cases m.find key with
      | none => rfl
      | some e => rfl
    · have later : (pair :: pairs).find? (isAt fold key) = pairs.find? (isAt fold key) :=
        List.find?_cons_of_neg fun there => here (isAt_iff.mp there)
      rw [find_insert_other _ _ here, later]

/-- Pairs in front and behind change nothing: those in front are the first ones of their
keys, those behind bring no new key. -/
theorem insertAll_middle_iff (front pairs behind : List (K × V)) :
    (empty.insertAll (front ++ pairs ++ behind) : OrderedMap fold V) = empty.insertAll pairs ↔
      (∀ key pair, front.find? (isAt fold key) = some pair →
        pairs.find? (isAt fold key) = some pair) ∧
      ∀ pair ∈ behind, (pairs.find? (isAt fold pair.1)).isSome := by
  have found (key : K) : (empty.insertAll (front ++ pairs ++ behind) : OrderedMap fold V).find key =
      ((front.find? (isAt fold key)).or (pairs.find? (isAt fold key))).or
        (behind.find? (isAt fold key)) := by
    rw [find_insertAll, find_empty, Option.none_or, List.find?_append, List.find?_append]
  have kept (key : K) : (empty.insertAll pairs : OrderedMap fold V).find key =
      pairs.find? (isAt fold key) := by
    rw [find_insertAll, find_empty, Option.none_or]
  constructor
  · intro same
    have agree (key : K) := (found key).symm.trans ((congrArg (fun m => m.find key) same).trans
      (kept key))
    constructor
    · intro key pair first
      rw [← agree key, first]
      rfl
    · intro pair member
      by_contra absent
      have none := Option.not_isSome_iff_eq_none.mp absent
      have both := agree pair.1
      rw [none] at both
      have missed : behind.find? (isAt fold pair.1) = Option.none := (Option.or_eq_none_iff.mp both).2
      exact List.find?_eq_none.mp missed pair member (isAt_iff.mpr rfl)
  · rintro ⟨first, known⟩
    apply ext_find
    intro key
    rw [found, kept]
    cases inFront : front.find? (isAt fold key) with
    | some pair => exact (first key pair inFront).symm
    | none =>
      cases inside : pairs.find? (isAt fold key) with
      | some pair => rfl
      | none =>
        cases last : behind.find? (isAt fold key) with
        | none => rfl
        | some pair =>
          have same : isAt fold pair.1 = (isAt fold key : K × V → Bool) := by
            funext e
            rw [isAt, isAt, isAt_iff.mp (List.find?_some last)]
          have there := known pair (List.mem_of_find?_eq_some last)
          rw [same, inside] at there
          cases there

/-- What a list of pairs says about a key: the first spelling and the last value. -/
def entryOf (fold : K → L) (pairs : List (K × V)) (key : K) : Option (K × V) :=
  (pairs.find? (isAt fold key)).bind fun first =>
    (pairs.reverse.find? (isAt fold key)).map fun last => (first.1, last.2)

theorem entryOf_eq_none_iff {pairs : List (K × V)} {key : K} :
    entryOf fold pairs key = none ↔ ∀ pair ∈ pairs, fold pair.1 ≠ fold key := by
  constructor
  · intro none pair member here
    have at_ : isAt fold key pair = true := isAt_iff.mpr here
    have first : (pairs.find? (isAt fold key)).isSome := List.find?_isSome.mpr ⟨pair, member, at_⟩
    have last : (pairs.reverse.find? (isAt fold key)).isSome :=
      List.find?_isSome.mpr ⟨pair, List.mem_reverse.mpr member, at_⟩
    obtain ⟨e, first⟩ := Option.isSome_iff_exists.mp first
    obtain ⟨f, last⟩ := Option.isSome_iff_exists.mp last
    rw [entryOf, first, last] at none
    cases none
  · intro other
    have none : pairs.find? (isAt fold key) = none := by
      rw [List.find?_eq_none]
      intro pair member same
      exact other pair member (isAt_iff.mp same)
    rw [entryOf, none, Option.bind_none]

theorem assignAll_append (m : OrderedMap fold V) (first second : List (K × V)) :
    m.assignAll (first ++ second) = (m.assignAll first).assignAll second :=
  List.foldl_append

theorem find_assignAll (pairs : List (K × V)) (key : K) :
    (empty.assignAll pairs : OrderedMap fold V).find key = entryOf fold pairs key := by
  induction pairs using List.reverseRecOn with
  | nil => rfl
  | append_singleton pairs pair ih =>
    rw [assignAll_append]
    change ((empty.assignAll pairs).assign pair.1 pair.2).find key = _
    by_cases here : fold pair.1 = fold key
    · rw [← find_congr _ here, find_assign_self, find_congr _ here, ih]
      cases first : pairs.find? (isAt fold key) with
      | none => simp [entryOf, isAt, first, here]
      | some e =>
        have last : (pairs.reverse.find? (isAt fold key)).isSome := by
          rw [List.find?_isSome]
          exact ⟨e, List.mem_reverse.mpr (List.mem_of_find?_eq_some first), List.find?_some first⟩
        obtain ⟨f, last⟩ := Option.isSome_iff_exists.mp last
        simp [entryOf, isAt, first, last, here]
    · rw [find_assign_other _ _ here, ih]
      simp [entryOf, isAt, here]

/-- Two lists of pairs give one map exactly if they say the same about every key. -/
theorem assignAll_eq_iff (first second : List (K × V)) :
    (empty.assignAll first : OrderedMap fold V) = empty.assignAll second ↔
      ∀ key, entryOf fold first key = entryOf fold second key := by
  constructor
  · intro same key
    rw [← find_assignAll, ← find_assignAll, same]
  · intro same
    apply ext_find
    intro key
    rw [find_assignAll, find_assignAll, same key]

end OrderedMap
