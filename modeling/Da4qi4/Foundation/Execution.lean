import Mathlib.Data.List.Infix

/-! Machines that run with fuel, and the pieces of the code that they run, over arbitrary
states and instructions. -/

namespace Fuelled
variable {S R E : Type} {run : Nat → S → Option R}

/-- With any fuel from some amount on, the run from `s` ends with `r`. -/
def Gives (run : Nat → S → Option R) (s : S) (r : R) : Prop :=
  ∃ enough, ∀ fuel, enough ≤ fuel → run fuel s = some r

theorem gives_end (ends : ∀ fuel, run (fuel + 1) s = some r) : Gives run s r := by
  refine ⟨1, fun fuel positive => ?_⟩
  obtain ⟨fuel, rfl⟩ := Nat.exists_eq_add_of_le' positive
  exact ends fuel

theorem Gives.step (gives : Gives run t r) (steps : ∀ fuel, run (fuel + 1) s = run fuel t) :
    Gives run s r := by
  obtain ⟨enough, ends⟩ := gives
  refine ⟨enough + 1, fun fuel more => ?_⟩
  obtain ⟨fuel, rfl⟩ := Nat.exists_eq_add_of_le' (Nat.le_of_add_left_le more)
  rw [steps]
  exact ends fuel (Nat.le_of_add_le_add_right more)

/-- A step that waits for another run. -/
theorem Gives.call {T Q : Type} {other : Nat → T → Option Q} {u : T} {x : Q}
    (called : Gives other u x) (gives : Gives run t r)
    (steps : ∀ fuel, other fuel u = some x → run (fuel + 1) s = run fuel t) : Gives run s r := by
  obtain ⟨first, ends⟩ := called
  obtain ⟨second, rest⟩ := gives
  refine ⟨max first second + 1, fun fuel more => ?_⟩
  obtain ⟨fuel, rfl⟩ := Nat.exists_eq_add_of_le' (Nat.le_of_add_left_le more)
  have both := Nat.max_le.mp (Nat.le_of_add_le_add_right more)
  rw [steps fuel (ends fuel both.1)]
  exact rest fuel both.2

/-- A step that ends with what another run ends with. -/
theorem Gives.call_end {T Q : Type} {other : Nat → T → Option Q} {u : T} {x : Q}
    (called : Gives other u x)
    (steps : ∀ fuel, other fuel u = some x → run (fuel + 1) s = some r) : Gives run s r := by
  obtain ⟨enough, ends⟩ := called
  refine ⟨enough + 1, fun fuel more => ?_⟩
  obtain ⟨fuel, rfl⟩ := Nat.exists_eq_add_of_le' (Nat.le_of_add_left_le more)
  exact steps fuel (ends fuel (Nat.le_of_add_le_add_right more))

/-- Behind an outcome: the run from the state that was reached, or the failure. -/
def After (run : Nat → S → Option (Except E R)) : Except E S → Except E R → Prop
  | .ok s, r => Gives run s r
  | .error failure, r => r = .error failure

section After
variable {run : Nat → S → Option (Except E R)} {outcome : Except E S}

theorem After.gives (after : After run outcome r)
    (succeeds : ∀ t, outcome = .ok t → ∀ fuel, run (fuel + 1) s = run fuel t)
    (fails : ∀ x, outcome = .error x → ∀ fuel, run (fuel + 1) s = some (.error x)) :
    Gives run s r := by
  cases outcome with
  | ok t => exact Gives.step after (succeeds t rfl)
  | error x =>
    cases after
    exact gives_end (fails x rfl)

/-- What stands behind a part of an outcome stands behind the whole. -/
theorem After.bind {A B : Type} {first : Except E A} {next : A → Except E B} {f : B → S}
    {g : A → S} (after : After run ((first.bind next).map f) r)
    (leads : ∀ a, After run ((next a).map f) r → Gives run (g a) r) :
    After run (first.map g) r := by
  cases first with
  | ok a => exact leads a after
  | error x => exact after

theorem After.back {A : Type} {first : Except E A} {f g : A → S}
    (after : After run (first.map f) r)
    (leads : ∀ a, Gives run (f a) r → Gives run (g a) r) : After run (first.map g) r := by
  cases first with
  | ok a => exact leads a after
  | error x => exact after

end After
end Fuelled

namespace Segment
variable {I : Type} {whole first second : List I} {k : Nat}

/-- A piece stands in a list at a place. -/
def At (whole : List I) (k : Nat) (piece : List I) : Prop := piece <+: whole.drop k

theorem At.head {i : I} (here : At whole k (i :: first)) : whole[k]? = some i := by
  obtain ⟨rest, same⟩ := here
  rw [← List.head?_drop, ← same]
  rfl

theorem At.left (here : At whole k (first ++ second)) : At whole k first :=
  (List.prefix_append first second).trans here

theorem At.right (here : At whole k (first ++ second)) : At whole (k + first.length) second := by
  obtain ⟨rest, same⟩ := here
  refine ⟨rest, ?_⟩
  rw [← List.drop_drop, ← same, List.append_assoc, List.drop_left]

theorem At.tail {i : I} (here : At whole k (i :: first)) : At whole (k + 1) first := by
  have single : At whole k ([i] ++ first) := here
  exact single.right

theorem at_zero (whole : List I) : At whole 0 whole := List.prefix_refl _

end Segment
