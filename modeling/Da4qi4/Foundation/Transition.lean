import Mathlib.Init

/-! Runs of a machine with partial steps, over arbitrary states and actions: what
holds of every state that a run passes, and of every step that it takes. -/
namespace Transition
variable {S A : Type}

/-- The state behind a list of actions; `none` when one of them cannot happen. -/
def run (step : S → A → Option S) (s : S) : List A → Option S
  | [] => some s
  | a :: as => (step s a).bind fun t => run step t as

theorem run_append (step : S → A → Option S) (s : S) (front back : List A) :
    run step s (front ++ back) = (run step s front).bind fun t => run step t back := by
  induction front generalizing s with
  | nil => rfl
  | cons a front ih =>
    rw [List.cons_append, run, run, Option.bind_assoc]
    exact congrArg _ (funext ih)

theorem run_singleton (step : S → A → Option S) (s : S) (a : A) : run step s [a] = step s a :=
  Option.bind_fun_some _

/-- A property that steps preserve holds behind every run. -/
theorem run_invariant {step : S → A → Option S} {I : S → Prop}
    (preserves : ∀ {s a t}, I s → step s a = some t → I t)
    (initial : I s) (ran : run step s as = some t) : I t := by
  induction as generalizing s with
  | nil =>
    cases ran
    exact initial
  | cons a as ih =>
    obtain ⟨u, stepped, rest⟩ := Option.bind_eq_some_iff.mp ran
    exact ih (preserves initial stepped) rest

/-- Every state on the way, both ends included. -/
def Throughout (step : S → A → Option S) (P : S → Prop) : S → List A → Prop
  | s, [] => P s
  | s, a :: as => P s ∧ ∀ t, step s a = some t → Throughout step P t as

/-- Every step on the way. -/
def Steps (step : S → A → Option S) (M : S → A → S → Prop) : S → List A → Prop
  | _, [] => True
  | s, a :: as => ∀ t, step s a = some t → M s a t ∧ Steps step M t as

/-- Whichever steps with `M` are taken, one after another, a state with `P` is reached:
before that there is always such a step, and they do not go on forever. -/
inductive Inevitable (step : S → A → Option S) (M : S → A → S → Prop) (P : S → Prop) : S → Prop
  | here {s : S} (reached : P s) : Inevitable step M P s
  | next {s : S} (possible : ∃ a t, step s a = some t ∧ M s a t)
      (all : ∀ a t, step s a = some t → M s a t → Inevitable step M P t) : Inevitable step M P s

section Rules
variable {step : S → A → Option S} {I P : S → Prop} {M N : S → A → S → Prop}

theorem Throughout.initial (holds : Throughout step P s as) : P s := by
  cases as with
  | nil => exact holds
  | cons a as => exact holds.1

/-- What holds throughout every run holds of every state that a run reaches. -/
theorem Throughout.final (holds : Throughout step P s as) (ran : run step s as = some t) : P t := by
  induction as generalizing s with
  | nil =>
    cases ran
    exact holds
  | cons a as ih =>
    obtain ⟨u, stepped, rest⟩ := Option.bind_eq_some_iff.mp ran
    exact ih (holds.2 u stepped) rest

theorem throughout_of_invariant (preserves : ∀ {s a t}, I s → step s a = some t → I t)
    (sound : ∀ {s}, I s → P s) (initial : I s) : Throughout step P s as := by
  induction as generalizing s with
  | nil => exact sound initial
  | cons a as ih => exact ⟨sound initial, fun t stepped => ih (preserves initial stepped)⟩

theorem throughout_of_steps (preserves : ∀ {s a t}, I s → step s a = some t → M s a t → I t)
    (sound : ∀ {s}, I s → P s) (initial : I s) (kept : Steps step M s as) :
    Throughout step P s as := by
  induction as generalizing s with
  | nil => exact sound initial
  | cons a as ih =>
    refine ⟨sound initial, fun t stepped => ?_⟩
    obtain ⟨this, rest⟩ := kept t stepped
    exact ih (preserves initial stepped this) rest

theorem Steps.cons (stepped : step s a = some t) (taken : M s a t) (rest : Steps step M t as) :
    Steps step M s (a :: as) := by
  intro u again
  rw [stepped] at again
  cases again
  exact ⟨taken, rest⟩

theorem steps_of_throughout (breaks : ∀ {s a t}, step s a = some t → P t → M s a t)
    (holds : Throughout step P s as) : Steps step M s as := by
  induction as generalizing s with
  | nil => trivial
  | cons a as ih =>
    intro t stepped
    exact ⟨breaks stepped (holds.2 t stepped).initial, ih (holds.2 t stepped)⟩

/-- A property fails on a run exactly if a step is taken that breaks the
invariant behind it. -/
theorem throughout_iff_steps (preserves : ∀ {s a t}, I s → step s a = some t → M s a t → I t)
    (breaks : ∀ {s a t}, I s → step s a = some t → P t → M s a t)
    (sound : ∀ {s}, I s → P s) (initial : I s) :
    Throughout step P s as ↔ Steps step M s as := by
  induction as generalizing s with
  | nil => exact iff_of_true (sound initial) trivial
  | cons a as ih =>
    constructor
    · intro holds t stepped
      have kept := breaks initial stepped (holds.2 t stepped).initial
      exact ⟨kept, (ih (preserves initial stepped kept)).mp (holds.2 t stepped)⟩
    · intro holds
      refine ⟨sound initial, fun t stepped => ?_⟩
      obtain ⟨kept, rest⟩ := holds t stepped
      exact (ih (preserves initial stepped kept)).mpr rest

/-- Two properties of steps that agree wherever an invariant holds, which the steps
that have them preserve. -/
theorem steps_congr (preserves : ∀ {s a t}, I s → step s a = some t → N s a t → I t)
    (agree : ∀ {s a t}, I s → step s a = some t → (M s a t ↔ N s a t)) (initial : I s) :
    Steps step M s as ↔ Steps step N s as := by
  induction as generalizing s with
  | nil => exact Iff.rfl
  | cons a as ih =>
    refine forall_congr' fun t => imp_congr_right fun stepped => ?_
    rw [agree initial stepped]
    exact and_congr_right fun taken => ih (preserves initial stepped taken)

/-- Every step does some of the work that is left, and while some is left there is one. -/
theorem inevitable_of_work {work : S → Nat}
    (possible : ∀ {s}, I s → ¬P s → ∃ a t, step s a = some t ∧ M s a t)
    (works : ∀ {s a t}, I s → ¬P s → step s a = some t → M s a t →
      P t ∨ (I t ∧ work t < work s))
    (initial : I s) : Inevitable step M P s := by
  generalize bound : work s = n
  induction n using Nat.strongRecOn generalizing s with
  | ind n ih =>
    by_cases reached : P s
    · exact .here reached
    · refine .next (possible initial reached) fun a t stepped taken => ?_
      rcases works initial reached stepped taken with there | ⟨kept, less⟩
      · exact .here there
      · rw [bound] at less
        exact ih (work t) less kept rfl

theorem Inevitable.mono {Q : S → Prop} (inevitable : Inevitable step M P s)
    (follows : ∀ s, P s → Q s) : Inevitable step M Q s := by
  induction inevitable with
  | here reached => exact .here (follows _ reached)
  | next possible _ ih => exact .next possible ih

/-- Where no step is left, nothing comes. -/
theorem not_inevitable_of_stuck (missed : ¬P s) (stuck : ∀ a t, step s a = some t → ¬M s a t) :
    ¬Inevitable step M P s := by
  intro inevitable
  cases inevitable with
  | here reached => exact missed reached
  | next possible all =>
    obtain ⟨a, t, stepped, taken⟩ := possible
    exact stuck a t stepped taken

end Rules
end Transition
