import Da4qi4.Foundation.OrderedMap
import Mathlib.Data.List.Infix
import Mathlib.Order.OrderDual

/-! Maps in which keys that begin a text are looked up. Keys fold to lists, and the
greater ones come first; a prefix comes before what it begins, so the first key that
begins a text is the longest one. -/
namespace OrderedMap

section LowerBound
variable {K L V : Type} [LinearOrder L] {fold : K → L}

/-- The entries from `std::map::lower_bound` on. -/
def lowerBound (m : OrderedMap fold V) (key : K) : List (K × V) :=
  m.entries.dropWhile fun e => fold e.1 < fold key

/-- A search from the lower bound on finds what a search of the whole map finds, if
it cannot succeed below. -/
theorem find?_lowerBound {m : OrderedMap fold V} {key : K} {p : K × V → Bool}
    (above : ∀ e, p e = true → fold key ≤ fold e.1) :
    (m.lowerBound key).find? p = m.entries.find? p := by
  have skip : ∀ l : List (K × V),
      (l.dropWhile fun e => fold e.1 < fold key).find? p = l.find? p := by
    intro l
    induction l with
    | nil => rfl
    | cons e rest ih =>
      rw [List.dropWhile_cons, List.find?_cons]
      split
      · rename_i below
        have other : p e = false := by
          apply Bool.eq_false_iff.mpr
          intro holds
          exact absurd (above e holds) (not_le.mpr (of_decide_eq_true below))
        rw [ih, other]
      · exact List.find?_cons
  exact skip m.entries

/-- The first entry found stands before every other one that would do. -/
theorem find?_first {m : OrderedMap fold V} {p : K × V → Bool} {e f : K × V}
    (found : m.entries.find? p = some e) (member : f ∈ m.entries) (holds : p f = true) :
    f = e ∨ fold e.1 < fold f.1 := by
  obtain ⟨-, front, back, split, before⟩ := List.find?_eq_some_iff_append.mp found
  rw [split] at member
  rcases List.mem_append.mp member with early | late
  · have fails := before f early
    rw [holds] at fails
    cases fails
  · rcases List.mem_cons.mp late with same | later
    · exact .inl same
    · have sorted := m.sorted
      rw [split] at sorted
      exact .inr ((List.pairwise_cons.mp (List.pairwise_append.mp sorted).2.1).1 f later)

/-- What is found first is as large as anything that would do exactly if whatever would
do and is smaller than another comes behind one that is larger. -/
theorem find?_largest_iff (m : OrderedMap fold V) (p : K × V → Bool) (size : K × V → Nat) :
    (∀ e, m.entries.find? p = some e → ∀ f ∈ m.entries, p f = true → size f ≤ size e) ↔
      ∀ e ∈ m.entries, p e = true → ∀ f ∈ m.entries, p f = true → size e < size f →
        ∃ g ∈ m.entries, p g = true ∧ size e < size g ∧ fold g.1 < fold e.1 := by
  constructor
  · intro largest e member holds f other does smaller
    obtain ⟨g, found⟩ := Option.isSome_iff_exists.mp (List.find?_isSome.mpr ⟨e, member, holds⟩)
    have larger := smaller.trans_le (largest g found f other does)
    refine ⟨g, List.mem_of_find?_eq_some found, List.find?_some found, larger, ?_⟩
    rcases find?_first found member holds with rfl | behind
    · exact absurd larger (lt_irrefl _)
    · exact behind
  · intro ordered e found f other does
    by_contra larger
    have member := List.mem_of_find?_eq_some found
    have holds := List.find?_some found
    obtain ⟨g, before, fits, bigger, less⟩ :=
      ordered e member holds f other does (not_le.mp larger)
    rcases find?_first found before fits with rfl | behind
    · exact lt_irrefl _ bigger
    · exact lt_asymm less behind

end LowerBound

section Prefixes
variable {K A V : Type} [LinearOrder A] {fold : K → List A}

/-- Greater keys come first. -/
def descending (fold : K → List A) (key : K) : (List A)ᵒᵈ := OrderDual.toDual (fold key)

theorem descending_lt {key other : K} :
    descending fold key < descending fold other ↔ fold other < fold key :=
  OrderDual.toDual_lt_toDual

omit [LinearOrder A] in
theorem descending_inj {key other : K} :
    descending fold key = descending fold other ↔ fold key = fold other :=
  OrderDual.toDual.injective.eq_iff

theorem descending_le_of_begins {key text : K} (begins : fold key <+: fold text) :
    descending fold text ≤ descending fold key :=
  OrderDual.toDual_le_toDual.mpr (not_lt.mp begins.le)

/-- Of two beginnings of a text, the greater one is not shorter. -/
theorem length_le_of_begins {p q l : List A} (first : p <+: l) (second : q <+: l) (less : p < q) :
    p.length < q.length := by
  by_contra notShorter
  have begins : q <+: p := List.prefix_of_prefix_length_le second first (not_lt.mp notShorter)
  exact begins.le less

variable {m : OrderedMap (descending fold) V} {text : K} {p : K × V → Bool}

/-- No key that begins a text is below its lower bound. -/
theorem find?_begins (begins : ∀ e, p e = true ↔ fold e.1 <+: fold text) :
    (m.lowerBound text).find? p = m.entries.find? p :=
  find?_lowerBound fun e holds => descending_le_of_begins ((begins e).mp holds)

/-- The first key that begins a text is the longest one. -/
theorem find?_longest (begins : ∀ e, p e = true ↔ fold e.1 <+: fold text)
    (found : m.entries.find? p = some e) (member : f ∈ m.entries) (holds : p f = true) :
    f = e ∨ (fold f.1).length < (fold e.1).length := by
  rcases find?_first found member holds with same | later
  · exact .inl same
  · have first := (begins f).mp holds
    have second := (begins e).mp (List.find?_some found)
    exact .inr (length_le_of_begins first second (descending_lt.mp later))

end Prefixes
end OrderedMap
