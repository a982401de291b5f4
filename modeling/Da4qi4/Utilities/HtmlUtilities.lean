import Da4qi4.Foundation.Substitution
import Da4qi4.Utilities.Strings

/-! Text that is escaped for HTML, in one pass over the whole text for each of six
characters. -/
namespace Da4qi4.Utilities
open Substitution

/-- The ampersand goes first, as the others put ampersands in. -/
def htmlEscape (s : Bytes) : Bytes :=
  let r := replaceAll s [38] (Bytes.ofAscii "&amp;")
  let r := replaceAll r [62] (Bytes.ofAscii "&gt;")
  let r := replaceAll r [60] (Bytes.ofAscii "&lt;")
  let r := replaceAll r [32] (Bytes.ofAscii "&nbsp;")
  let r := replaceAll r [34] (Bytes.ofAscii "&quot;")
  replaceAll r [39] (Bytes.ofAscii "&apos;")

/-- The characters and their entities, in the order of the passes. -/
def entities : List (UInt8 × Bytes) :=
  [(38, Bytes.ofAscii "&amp;"), (62, Bytes.ofAscii "&gt;"), (60, Bytes.ofAscii "&lt;"),
    (32, Bytes.ofAscii "&nbsp;"), (34, Bytes.ofAscii "&quot;"), (39, Bytes.ofAscii "&apos;")]

/-- The entity of a character that has one, and any other character as it is. -/
def escapeChar (c : UInt8) : Bytes := single entities c

/-- Entities give way to their characters, from the left. -/
def htmlUnescape (s : Bytes) : Bytes := restore entities s

theorem replaceAll_single (s : Bytes) (c : UInt8) (aft : Bytes) :
    replaceAll s [c] aft = Substitution.pass c aft s := by
  rw [replaceAll, Substitution.pass]
  induction s with
  | nil => rfl
  | cons d s ih =>
    rw [replaceFrom, List.flatMap_cons, ← ih]
    by_cases same : d = c
    · simp [same]
    · simp [same, Ne.symm same]

theorem htmlEscape_eq_passes (s : Bytes) : htmlEscape s = passes entities s := by
  simp only [htmlEscape, replaceAll_single]
  rfl

theorem codes_entities : Codes entities := by decide

/-- The characters that no entity has in it. -/
theorem free_of_entities {c : UInt8} (listed : c ∈ [60, 62, 34, 39, 32]) :
    (entities.lookup c).isSome ∧ ∀ p ∈ entities, c ∉ p.2 := by
  simp only [List.mem_cons, List.not_mem_nil, or_false] at listed
  rcases listed with rfl | rfl | rfl | rfl | rfl
  all_goals decide

/-- The passes do what one pass does over all characters; afterwards there is none of
them but the ampersand, and the entities can be replaced back. -/
theorem htmlEscape_spec (s : Bytes) :
    htmlEscape s = s.flatMap escapeChar ∧
    (∀ c ∈ [60, 62, 34, 39, 32], c ∉ htmlEscape s) ∧
    htmlUnescape (htmlEscape s) = s := by
  have ordered : entities.Pairwise fun p q => q.1 ∉ p.2 := by decide
  have atOnce : htmlEscape s = s.flatMap escapeChar :=
    (htmlEscape_eq_passes s).trans (passes_eq ordered s)
  refine ⟨atOnce, ?_, ?_⟩
  · intro c listed
    obtain ⟨known, free⟩ := free_of_entities listed
    rw [atOnce]
    exact not_mem_replaced known free s
  · rw [atOnce]
    exact codes_entities.restore_replaced s

example : htmlEscape (Bytes.ofAscii "a<b&lt;'") = Bytes.ofAscii "a&lt;b&amp;lt;&apos;" := by decide

end Da4qi4.Utilities
