import Mathlib.Data.List.Infix
import Mathlib.Data.List.Lemmas

/-! Elements of a list replaced by lists of their own: one after another, in passes over
the whole list, or all at once; and the way back. -/
namespace Substitution
variable {α : Type} [DecidableEq α]

/-- One pass replaces one element. -/
def pass (bef : α) (aft : List α) (l : List α) : List α :=
  l.flatMap fun c => if c = bef then aft else [c]

/-- The passes of a table, each over what the one before has left. -/
def passes (table : List (α × List α)) (l : List α) : List α :=
  table.foldl (fun l p => pass p.1 p.2 l) l

/-- What stands for one element. -/
def single (table : List (α × List α)) (c : α) : List α := (table.lookup c).getD [c]

/-- The first entry whose list is at the front gives its element; so many elements are
still those of such a list. -/
def restoreFrom (table : List (α × List α)) : Nat → List α → List α
  | _, [] => []
  | within + 1, _ :: m => restoreFrom table within m
  | 0, c :: m =>
    match table.find? fun p => p.2.isPrefixOf (c :: m) with
    | some p => p.1 :: restoreFrom table (p.2.length - 1) m
    | none => c :: restoreFrom table 0 m

def restore (table : List (α × List α)) (m : List α) : List α := restoreFrom table 0 m

/-- No list is at the front of another one, and each begins with an element that is
replaced. -/
structure Codes (table : List (α × List α)) : Prop where
  apart : ∀ p ∈ table, ∀ q ∈ table, p.2 <+: q.2 → p = q
  begins : ∀ p ∈ table, ∃ c rest, p.2 = c :: rest ∧ (table.lookup c).isSome

instance (table : List (α × List α)) : Decidable (Codes table) :=
  decidable_of_iff
    ((∀ p ∈ table, ∀ q ∈ table, p.2.isPrefixOf q.2 = true → p = q) ∧
      ∀ p ∈ table, ∃ c ∈ p.2.head?, (table.lookup c).isSome) <| by
    constructor
    · rintro ⟨apart, begins⟩
      refine ⟨fun p here q there front => apart p here q there ?_, fun p here => ?_⟩
      · exact List.isPrefixOf_iff_prefix.mpr front
      · obtain ⟨c, first, known⟩ := begins p here
        obtain ⟨rest, same⟩ := List.head?_eq_some_iff.mp first
        exact ⟨c, rest, same, known⟩
    · rintro ⟨apart, begins⟩
      refine ⟨fun p here q there front => apart p here q there ?_, fun p here => ?_⟩
      · exact List.isPrefixOf_iff_prefix.mp front
      · obtain ⟨c, rest, same, known⟩ := begins p here
        exact ⟨c, by simp [same], known⟩

theorem mem_of_lookup {table : List (α × List α)} (found : table.lookup c = some aft) :
    (c, aft) ∈ table := by
  obtain ⟨front, back, rfl, -⟩ := List.lookup_eq_some_iff.mp found
  simp

theorem single_of_not_mem {table : List (α × List α)} (free : ∀ p ∈ table, p.1 ≠ c) :
    single table c = [c] := by
  have none : table.lookup c = none := by
    rw [List.lookup_eq_none_iff]
    intro p member
    simpa using Ne.symm (free p member)
  rw [single, none, Option.getD_none]

/-- Passes do what all replacements at once do if none finds what an earlier one has
put in. -/
theorem passes_eq {table : List (α × List α)} (ordered : table.Pairwise fun p q => q.1 ∉ p.2)
    (l : List α) : passes table l = l.flatMap (single table) := by
  induction table generalizing l with
  | nil => exact (List.flatMap_singleton' l).symm
  | cons p rest ih =>
    obtain ⟨bef, aft⟩ := p
    obtain ⟨later, ordered⟩ := List.pairwise_cons.mp ordered
    have kept : aft.flatMap (single rest) = aft := by
      have each : ∀ d ∈ aft, single rest d = [d] := by
        intro d inside
        apply single_of_not_mem
        rintro q member rfl
        exact later q member inside
      rw [List.flatMap_congr each, List.flatMap_singleton']
    change passes rest (pass bef aft l) = _
    rw [ih ordered, pass, List.flatMap_assoc]
    refine List.flatMap_congr fun c _ => ?_
    by_cases here : c = bef
    · simp [here, kept, single]
    · have other : (c == bef) = false := beq_eq_false_iff_ne.mpr here
      simp [here, single, List.lookup_cons, other]

theorem not_mem_replaced {table : List (α × List α)} (known : (table.lookup d).isSome)
    (free : ∀ p ∈ table, d ∉ p.2) (l : List α) : d ∉ l.flatMap (single table) := by
  intro member
  obtain ⟨c, -, inside⟩ := List.mem_flatMap.mp member
  rw [single] at inside
  cases found : table.lookup c with
  | none =>
    rw [found, Option.getD_none, List.mem_singleton] at inside
    rw [inside, found] at known
    cases known
  | some aft =>
    rw [found, Option.getD_some] at inside
    exact free (c, aft) (mem_of_lookup found) inside

theorem restoreFrom_append (table : List (α × List α)) (front m : List α) :
    restoreFrom table front.length (front ++ m) = restoreFrom table 0 m := by
  induction front with
  | nil => rfl
  | cons c front ih => simpa [restoreFrom] using ih

theorem Codes.find {table : List (α × List α)} (codes : Codes table) (member : p ∈ table)
    (m : List α) : table.find? (fun q => q.2.isPrefixOf (p.2 ++ m)) = some p := by
  have known : (table.find? fun q => q.2.isPrefixOf (p.2 ++ m)).isSome :=
    List.find?_isSome.mpr ⟨p, member, List.isPrefixOf_iff_prefix.mpr (List.prefix_append _ _)⟩
  obtain ⟨q, found⟩ := Option.isSome_iff_exists.mp known
  have stored := List.mem_of_find?_eq_some found
  have front : q.2 <+: p.2 ++ m := by simpa using List.find?_some found
  have same : q = p := by
    rcases List.prefix_or_prefix_of_prefix front (List.prefix_append p.2 m) with before | behind
    · exact codes.apart q stored p member before
    · exact (codes.apart p member q stored behind).symm
  rw [found, same]

/-- What was replaced comes back. -/
theorem Codes.restore_replaced {table : List (α × List α)} (codes : Codes table) (l : List α) :
    restore table (l.flatMap (single table)) = l := by
  induction l with
  | nil => rfl
  | cons c l ih =>
    rw [restore] at ih
    rw [restore, List.flatMap_cons, single]
    cases found : table.lookup c with
    | some aft =>
      have member : (c, aft) ∈ table := mem_of_lookup found
      obtain ⟨first, rest, rfl, -⟩ := codes.begins _ member
      have here := codes.find member (l.flatMap (single table))
      rw [Option.getD_some, List.cons_append] at *
      simp only [restoreFrom, here, List.length_cons, Nat.add_sub_cancel, restoreFrom_append, ih]
    | none =>
      have free : table.find? (fun q => q.2.isPrefixOf (c :: l.flatMap (single table))) = none := by
        rw [List.find?_eq_none]
        intro q member front
        obtain ⟨first, rest, text, known⟩ := codes.begins q member
        rw [text, List.isPrefixOf_iff_prefix, List.cons_prefix_cons] at front
        rw [front.1, found] at known
        cases known
      simp only [Option.getD_none, List.singleton_append, restoreFrom, free, ih]

end Substitution
