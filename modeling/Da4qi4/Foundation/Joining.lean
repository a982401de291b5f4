import Mathlib.Data.List.Chain

/-! Streams whose items may be cut into pieces: two neighbours that belong together are
joined. What is left is the same however the stream was cut. -/
namespace Joining
variable {E : Type}

/-- How two neighbours are joined. Whether and to what three of them are joined does not
depend on which two are joined first. -/
structure Glue (E : Type) where
  join : E → E → Option E
  assoc : ∀ {x y xy z}, join x y = some xy → join xy z = (join y z).bind (join x)
  meets : ∀ {x y xy z yz}, join x y = some xy → join y z = some yz → (join x yz).isSome

variable (G : Glue E)

/-- An item in front of joined ones. -/
def push (x : E) : List E → List E
  | [] => [x]
  | y :: rest =>
    match G.join x y with
    | some z => z :: rest
    | none => x :: y :: rest

def merged (pieces : List E) : List E := pieces.foldr (push G) []

@[simp] theorem merged_nil : merged G [] = [] := rfl

theorem merged_cons (x : E) (pieces : List E) : merged G (x :: pieces) = push G x (merged G pieces) :=
  rfl

theorem push_ne_nil (x : E) (rest : List E) : push G x rest ≠ [] := by
  cases rest with
  | nil => exact List.cons_ne_nil _ _
  | cons y rest =>
    rw [push]
    split
    · exact List.cons_ne_nil _ _
    · exact List.cons_ne_nil _ _

/-- An item that was joined before is put in front like its pieces. -/
theorem push_push {x y z : E} (joined : G.join x y = some z) (rest : List E) :
    push G x (push G y rest) = push G z rest := by
  cases rest with
  | nil => simp only [push, joined]
  | cons w rest =>
    have assoc := G.assoc (z := w) joined
    simp only [push]
    cases inner : G.join y w with
    | none =>
      rw [inner] at assoc
      simp only [joined, assoc, Option.bind_none]
    | some yw =>
      rw [inner, Option.bind_some] at assoc
      obtain ⟨all, met⟩ := Option.isSome_iff_exists.mp (G.meets joined inner)
      simp only [assoc, met]

theorem foldr_push (x : E) (front rest : List E) :
    (push G x front).foldr (push G) rest = push G x (front.foldr (push G) rest) := by
  cases front with
  | nil => rfl
  | cons y front =>
    rw [push]
    cases joined : G.join x y with
    | none => rfl
    | some z =>
      rw [List.foldr_cons, List.foldr_cons]
      exact (push_push G joined _).symm

theorem foldr_merged (front rest : List E) :
    (merged G front).foldr (push G) rest = front.foldr (push G) rest := by
  induction front with
  | nil => rfl
  | cons x front ih => rw [merged_cons, foldr_push, ih, List.foldr_cons]

theorem merged_append (front rest : List E) :
    merged G (front ++ rest) = (merged G front).foldr (push G) (merged G rest) := by
  rw [foldr_merged, merged, List.foldr_append]
  rfl

/-- Items of which no two neighbours belong together are left as they are. -/
theorem merged_of_apart {pieces : List E} (apart : pieces.IsChain fun x y => G.join x y = none) :
    merged G pieces = pieces := by
  induction pieces with
  | nil => rfl
  | cons x pieces ih =>
    obtain ⟨first, others⟩ := List.isChain_cons.mp apart
    rw [merged_cons, ih others]
    cases pieces with
    | nil => rfl
    | cons y pieces => rw [push, first y rfl]

/-- The same up to where the cuts are. -/
def Same (first second : List E) : Prop := merged G first = merged G second

namespace Same
variable {G}

theorem refl (pieces : List E) : Same G pieces pieces := rfl

theorem symm {first second : List E} (same : Same G first second) : Same G second first :=
  Eq.symm same

theorem trans {first second third : List E} (one : Same G first second)
    (two : Same G second third) : Same G first third :=
  Eq.trans one two

theorem append {front front' rest rest' : List E} (before : Same G front front')
    (behind : Same G rest rest') : Same G (front ++ rest) (front' ++ rest') := by
  have before : merged G front = merged G front' := before
  have behind : merged G rest = merged G rest' := behind
  rw [Same, merged_append, merged_append, before, behind]

theorem pair {x y z : E} (joined : G.join x y = some z) : Same G [x, y] [z] := by
  simp only [Same, merged, List.foldr_cons, List.foldr_nil, push, joined]

end Same

/-- Pieces that are joined to one item. -/
inductive Joins : List E → E → Prop
  | one (x : E) : Joins [x] x
  | more {x y z : E} {rest : List E} (joined : G.join x y = some z) (others : Joins rest y) :
    Joins (x :: rest) z

/-- The first item and the pieces it was cut into. -/
theorem pieces_of_merged {pieces : List E} {x : E} {rest : List E}
    (whole : merged G pieces = x :: rest) :
    ∃ front behind, pieces = front ++ behind ∧ Joins G front x ∧ merged G behind = rest := by
  induction pieces generalizing x rest with
  | nil => cases whole
  | cons y pieces ih =>
    rw [merged_cons] at whole
    cases later : merged G pieces with
    | nil =>
      rw [later, push] at whole
      obtain ⟨rfl, rfl⟩ := List.cons.inj whole
      exact ⟨[y], pieces, rfl, .one y, later⟩
    | cons z others =>
      rw [later, push] at whole
      cases joined : G.join y z with
      | none =>
        rw [joined] at whole
        obtain ⟨rfl, rfl⟩ := List.cons.inj whole
        exact ⟨[y], pieces, rfl, .one y, later⟩
      | some w =>
        rw [joined] at whole
        obtain ⟨rfl, rfl⟩ := List.cons.inj whole
        obtain ⟨front, behind, rfl, joins, same⟩ := ih later
        exact ⟨y :: front, behind, rfl, .more joined joins, same⟩

theorem nil_of_merged {pieces : List E} (none : merged G pieces = []) : pieces = [] := by
  cases pieces with
  | nil => rfl
  | cons x pieces => exact absurd none (push_ne_nil G x _)

end Joining
