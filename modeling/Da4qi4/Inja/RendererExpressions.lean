import Da4qi4.Inja.ParserExpressions

/-! The code of an expression puts its value on the stack, and fails as the expression does.
A value for the last argument of an operation can be within the operation: what this
saves is a push and a pop, and nothing is taken in another order. -/
namespace Da4qi4
open ResponseFraming (decimal)
open Valuetool (Json)
namespace Inja
open Bytecode (Op Flag)

theorem allValues_append (first others : List (Except Failure Json)) :
    allValues (first ++ others) =
      (allValues first).bind fun values => (allValues others).map (values ++ ·) := by
  induction first with
  | nil => cases h : allValues others <;> simp [allValues, Except.bind, Except.map, h]
  | cons outcome first ih =>
    cases outcome with
    | error failure => rfl
    | ok value =>
      simp only [List.cons_append, allValues, ih, bind, Except.bind, pure, Except.pure]
      cases allValues first with
      | error failure => rfl
      | ok values => cases allValues others <;> rfl

theorem length_of_allValues {outcomes : List (Except Failure Json)} {values : List Json}
    (all : allValues outcomes = .ok values) : values.length = outcomes.length := by
  induction outcomes generalizing values with
  | nil =>
    cases all
    rfl
  | cons outcome outcomes ih =>
    cases outcome with
    | error failure => cases all
    | ok value =>
      cases others : allValues outcomes with
      | error failure =>
        simp only [allValues, others, bind, Except.bind] at all
        cases all
      | ok rest =>
        simp only [allValues, others, bind, Except.bind, pure, Except.pure] at all
        cases all
        rw [List.length_cons, List.length_cons, ih others]

theorem allValues_single (outcome : Except Failure Json) :
    allValues [outcome] = outcome.map fun value => [value] := by
  cases outcome <;> rfl

/-- The operations that go on with the next bytecode. -/
def Bytecode.Op.straight : Op → Bool
  | .include | .jump | .conditionalJump | .startLoop | .endLoop => false
  | _ => true

/-- The functions of the engine that take their arguments as values. -/
def Bytecode.Op.plain : Op → Bool
  | .nop | .printText | .printValue | .push | .default | .callback | .result => false
  | op => op.straight

theorem Bytecode.Op.plain_ne {op : Op} (plain : op.plain = true) :
    op ≠ .push ∧ op.straight = true := by
  cases op <;> simp [Op.plain, Op.straight] at plain ⊢

theorem Operator.plain (o : Operator) : o.op.plain = true := by
  obtain ⟨t, is⟩ := o
  obtain ⟨op, same⟩ := Option.isSome_iff_exists.mp is
  have named : Operator.op ⟨t, is⟩ = op := Option.get_of_eq_some is same
  rw [named]
  rw [comparisonOp] at same
  split at same
  · split at same
    · cases same
      rfl
    · cases same
  all_goals
    cases same
    try rfl

theorem findBuiltin_plain (name : Bytes) (numArgs : Nat) :
    findBuiltin name numArgs = .nop ∨ findBuiltin name numArgs = .default ∨
      (findBuiltin name numArgs).plain = true := by
  rw [findBuiltin]
  cases found : builtins.lookup (name, numArgs) with
  | none => exact .inl rfl
  | some op =>
    have all : ∀ entry ∈ builtins, entry.2 = .default ∨ entry.2.plain = true := by
      simp [builtins, Op.plain, Op.straight]
    obtain ⟨before, rest, same, -⟩ := List.lookup_eq_some_iff.mp found
    exact .inr (all ((name, numArgs), op) (by rw [same]; simp))

namespace Renderer
variable (env : Environment) (root data : Json)

/-- Bytecodes that are executed one after the other. -/
def executeAll : List Bytecode → List Json → Except Failure (Bytes × List Json)
  | [], stack => .ok ([], stack)
  | bc :: rest, stack => do
    let (written, stack) ← execute env root data bc stack
    let (others, stack) ← executeAll rest stack
    return (written ++ others, stack)

variable {env root data}

theorem executeAll_append (first others : List Bytecode) (stack : List Json) :
    executeAll env root data (first ++ others) stack =
      (executeAll env root data first stack).bind fun before =>
        (executeAll env root data others before.2).map fun after =>
          (before.1 ++ after.1, after.2) := by
  induction first generalizing stack with
  | nil => cases h : executeAll env root data others stack <;>
      simp [executeAll, Except.bind, Except.map, h]
  | cons bc first ih =>
    simp only [List.cons_append, executeAll, bind, Except.bind]
    cases execute env root data bc stack with
    | error failure => rfl
    | ok step =>
      simp only [ih, Except.bind, pure, Except.pure]
      cases executeAll env root data first step.2 with
      | error failure => rfl
      | ok before =>
        cases h : executeAll env root data others before.2 <;> simp [Except.map, h]

theorem executeAll_single (bc : Bytecode) (stack : List Json) :
    executeAll env root data [bc] stack = execute env root data bc stack := by
  cases h : execute env root data bc stack <;>
    simp [executeAll, h, bind, Except.bind, pure, Except.pure]

theorem execute_plain {bc : Bytecode} (plain : bc.op.plain = true) (stack : List Json) :
    execute env root data bc stack =
      (getArgs env bc data stack).bind fun taken =>
        (env.builtin bc.op root taken.1).map fun value => ([], value :: taken.2) := by
  have mapped (outcome : Except Failure Json) (rest : List Json) :
      (do return (([] : Bytes), (← outcome) :: rest)) = outcome.map fun value => ([], value :: rest) := by
    cases outcome <;> rfl
  obtain ⟨op, args, flags, value, str⟩ := bc
  cases op <;> first
    | exact congrArg (Except.bind _) (funext fun taken => mapped _ _)
    | simp [Op.plain] at plain

variable (env root data) in
/-- Code that puts the values of outcomes on the stack, or fails like the first that fails. -/
def Computes (code : List Bytecode) (outcomes : List (Except Failure Json)) : Prop :=
  ∀ stack, executeAll env root data code stack =
    (allValues outcomes).map fun values => ([], values.reverse ++ stack)

theorem Computes.append {first others : List Bytecode} {earlier later : List (Except Failure Json)}
    (one : Computes env root data first earlier) (two : Computes env root data others later) :
    Computes env root data (first ++ others) (earlier ++ later) := by
  intro stack
  rw [executeAll_append, one, allValues_append]
  cases allValues earlier with
  | error failure => rfl
  | ok values =>
    cases all : allValues later <;> simp [Except.map, Except.bind, two _, all]

/-- An operation that takes all its arguments from the stack. -/
theorem Computes.popped {code : List Bytecode} {outcomes : List (Except Failure Json)}
    {next : List Json → List Json → Except Failure (Bytes × List Json)}
    (computes : Computes env root data code outcomes) (bc : Bytecode)
    (pops : bc.flags = .valuePop) (number : bc.args = outcomes.length)
    (takes : ∀ stack arguments rest, getArgs env bc data stack = .ok (arguments, rest) →
      execute env root data bc stack = next arguments rest) (stack : List Json) :
    executeAll env root data (code ++ [bc]) stack =
      (allValues outcomes).bind fun values => next values stack := by
  rw [executeAll_append, computes]
  cases all : allValues outcomes with
  | error failure => rfl
  | ok values =>
    have length : values.reverse.length = bc.args := by
      rw [List.length_reverse, length_of_allValues all, number]
    have taken : getArgs env bc data (values.reverse ++ stack) = .ok (values, stack) := by
      have enough : ¬(values.reverse ++ stack).length < bc.args := by
        rw [List.length_append, length]
        omega
      rw [getArgs, if_pos pops, if_neg enough, List.take_left' length, List.drop_left' length,
        List.reverse_reverse]
    simp only [Except.map, Except.bind, executeAll_single, takes _ _ _ taken]
    cases next values stack <;> rfl

/-- An operation that has a value for its last argument. -/
theorem Computes.merged {front : List Bytecode} {others : List (Except Failure Json)}
    {next : List Json → List Json → Except Failure (Bytes × List Json)}
    (computes : Computes env root data front others) (bc : Bytecode) (given : bc.flags ≠ .valuePop)
    (number : bc.args = others.length + 1)
    (takes : ∀ stack arguments rest, getArgs env bc data stack = .ok (arguments, rest) →
      execute env root data bc stack = next arguments rest)
    (fails : ∀ stack failure, getArgs env bc data stack = .error failure →
      getImm env bc data = .error failure → execute env root data bc stack = .error failure)
    (stack : List Json) :
    executeAll env root data (front ++ [bc]) stack =
      (allValues (others ++ [getImm env bc data])).bind fun values => next values stack := by
  rw [executeAll_append, computes, allValues_append, allValues_single]
  cases all : allValues others with
  | error failure => rfl
  | ok values =>
    have length : values.reverse.length = bc.args - 1 := by
      rw [List.length_reverse, length_of_allValues all, number, Nat.add_sub_cancel]
    have taken : getArgs env bc data (values.reverse ++ stack) =
        (getImm env bc data).map fun imm => (values ++ [imm], stack) := by
      have enough : ¬(bc.args = 0 ∨ (values.reverse ++ stack).length < bc.args - 1) := by
        rw [List.length_append, length, number]
        omega
      rw [getArgs, if_neg given, if_neg enough, List.take_left' length, List.drop_left' length,
        List.reverse_reverse]
      cases getImm env bc data <;> rfl
    cases imm : getImm env bc data with
    | error failure =>
      rw [imm] at taken
      simp only [Except.map, Except.bind, executeAll_single, fails _ _ taken imm]
    | ok value =>
      rw [imm] at taken
      simp only [Except.map, Except.bind, executeAll_single, takes _ _ _ taken]
      cases next (values ++ [value]) stack <;> rfl

/-- How code ends: with an operation, or with a push, which may still become one. -/
inductive Ending (env : Environment) (root data : Json) :
    List Bytecode → List (Except Failure Json) → Prop where
  | operation {front : List Bytecode} {bc : Bytecode} {outcomes : List (Except Failure Json)}
      (different : bc.op ≠ .push) : Ending env root data (front ++ [bc]) outcomes
  | push {front : List Bytecode} {others : List (Except Failure Json)} {bc : Bytecode}
      (computes : Computes env root data front others) (pushes : bc.op = .push)
      (given : bc.flags ≠ .valuePop) :
      Ending env root data (front ++ [bc]) (others ++ [getImm env bc data])

variable (env root data) in
/-- Code of one or more expressions. -/
structure Evaluates (code : List Bytecode) (outcomes : List (Except Failure Json)) : Prop where
  computes : Computes env root data code outcomes
  straight : ∀ bc ∈ code, bc.op.straight = true
  ending : Ending env root data code outcomes

theorem Evaluates.append {first others : List Bytecode} {earlier later : List (Except Failure Json)}
    (one : Evaluates env root data first earlier) (two : Evaluates env root data others later) :
    Evaluates env root data (first ++ others) (earlier ++ later) := by
  refine ⟨one.computes.append two.computes, List.forall_mem_append.mpr ⟨one.straight, two.straight⟩, ?_⟩
  cases two.ending with
  | operation different =>
    rw [← List.append_assoc]
    exact .operation different
  | push computes pushes given =>
    rw [← List.append_assoc, ← List.append_assoc]
    exact .push (one.computes.append computes) pushes given

theorem execute_push {bc : Bytecode} (pushes : bc.op = .push) (stack : List Json) :
    execute env root data bc stack =
      (getImm env bc data).map fun imm => ([], imm :: stack) := by
  obtain ⟨_, args, flags, value, str⟩ := bc
  cases pushes
  show (do return ([], (← getImm env _ data) :: stack)) = _
  cases getImm env _ data <;> rfl

theorem evaluates_push {bc : Bytecode} (pushes : bc.op = .push) (given : bc.flags ≠ .valuePop) :
    Evaluates env root data [bc] [getImm env bc data] := by
  have nothing : Computes env root data [] [] := fun _ => rfl
  refine ⟨fun stack => ?_, ?_, Ending.push nothing pushes given⟩
  · obtain ⟨op, args, flags, value, str⟩ := bc
    cases pushes
    rw [executeAll_single, allValues_single]
    show (do return ([], (← getImm env _ data) :: stack)) = _
    cases getImm env _ data <;> rfl
  · intro one is
    rw [List.mem_singleton.mp is, pushes]
    rfl

/-- Code that ends with an operation and has one value. -/
theorem evaluates_operation {front : List Bytecode} {bc : Bytecode} {outcome : Except Failure Json}
    (before : ∀ one ∈ front, one.op.straight = true) (straight : bc.op.straight = true)
    (different : bc.op ≠ .push)
    (runs : ∀ stack, executeAll env root data (front ++ [bc]) stack =
      outcome.map fun value => ([], value :: stack)) :
    Evaluates env root data (front ++ [bc]) [outcome] := by
  refine ⟨fun stack => ?_, ?_, .operation different⟩
  · rw [runs, allValues_single]
    cases outcome <;> rfl
  · exact List.forall_mem_append.mpr ⟨before, List.forall_mem_singleton.mpr straight⟩

/-- What an operation does behind its arguments, whether the last of them is merged with
it or not. -/
theorem Evaluates.appendFunction {code : List Bytecode} {outcomes : List (Except Failure Json)}
    {op : Op} (evaluates : Evaluates env root data code outcomes)
    (next : List Json → List Json → Except Failure (Bytes × List Json))
    (takes : ∀ bc stack, bc.op = op → execute env root data bc stack =
      (getArgs env bc data stack).bind fun taken => next taken.1 taken.2) :
    ∃ front bc, Inja.appendFunction code op outcomes.length = front ++ [bc] ∧ bc.op = op ∧
      (∀ one ∈ front, one.op.straight = true) ∧
      ∀ stack, executeAll env root data (front ++ [bc]) stack =
        (allValues outcomes).bind fun values => next values stack := by
  obtain ⟨computes, straight, ending⟩ := evaluates
  cases ending with
  | @operation front bc _ different =>
    refine ⟨front ++ [bc], { op := op, args := outcomes.length }, ?_, rfl, straight, ?_⟩
    · rw [Inja.appendFunction, List.getLast?_concat]
      exact if_neg different
    · refine computes.popped _ rfl rfl fun stack arguments rest taken => ?_
      rw [takes _ _ rfl, taken]
      rfl
  | @push front others bc earlier pushes given =>
    refine ⟨front, { bc with op := op, args := (others ++ [getImm env bc data]).length }, ?_, rfl,
      fun one is => straight one (List.mem_append_left _ is), ?_⟩
    · rw [Inja.appendFunction, List.getLast?_concat, List.dropLast_concat]
      exact if_pos pushes
    · refine earlier.merged { bc with op := op, args := _ } given List.length_append ?_ ?_
      · intro stack arguments rest taken
        rw [takes _ _ rfl, taken]
        rfl
      · intro stack failure taken _
        rw [takes _ _ rfl, taken]
        rfl

theorem Evaluates.apply {code : List Bytecode} {outcomes : List (Except Failure Json)} {op : Op}
    (evaluates : Evaluates env root data code outcomes) (plain : op.plain = true) :
    Evaluates env root data (Inja.appendFunction code op outcomes.length)
      [Inja.apply env root op outcomes] := by
  have takes : ∀ bc stack, bc.op = op → execute env root data bc stack =
      (getArgs env bc data stack).bind fun taken =>
        (env.builtin op root taken.1).map fun value => ([], value :: taken.2) := by
    rintro bc stack rfl
    exact execute_plain plain stack
  obtain ⟨front, bc, code, same, before, runs⟩ := evaluates.appendFunction
    (fun arguments stack => (env.builtin op root arguments).map fun value => ([], value :: stack)) takes
  obtain ⟨different, straight⟩ := Op.plain_ne plain
  rw [code]
  refine evaluates_operation before (by rwa [same]) (by rwa [same]) fun stack => ?_
  rw [runs, Inja.apply]
  cases allValues outcomes <;> rfl

theorem getImm_immediate {bc : Bytecode} (immediate : bc.flags = .valueImmediate) (data : Json) :
    getImm env bc data = .ok bc.value := by
  rw [getImm, immediate]

/-- A callback with its arguments. -/
def called (env : Environment) (name : Bytes) (numArgs : Nat) (arguments stack : List Json) :
    Except Failure (Bytes × List Json) :=
  match env.callbacks name numArgs with
  | some callback => (callback arguments).map fun value => ([], value :: stack)
  | none =>
    .error (renderError (word "function '" ++ name ++ word "' (" ++ decimal numArgs ++
      word ") not found"))

theorem execute_callback {bc : Bytecode} (op : bc.op = .callback) {stack arguments rest : List Json}
    (taken : getArgs env bc data stack = .ok (arguments, rest)) :
    execute env root data bc stack = called env bc.str bc.args arguments rest := by
  obtain ⟨_, args, flags, value, str⟩ := bc
  cases op
  rw [called]
  simp only [execute]
  cases env.callbacks str args with
  | none => rfl
  | some callback =>
    simp only [taken, bind, Except.bind, pure, Except.pure]
    cases callback arguments <;> rfl

theorem callValue_called {name : Bytes} {outcomes : List (Except Failure Json)}
    (unknown : findBuiltin name outcomes.length = .nop) (stack : List Json) :
    ((allValues outcomes).bind fun values => called env name outcomes.length values stack) =
      (callValue env root name outcomes).map fun value => ([], value :: stack) := by
  rw [callValue, unknown]
  cases allValues outcomes with
  | error failure => rfl
  | ok values =>
    simp only [called, bind, Except.bind, reduceCtorEq, if_false, ne_eq, not_true]
    cases env.callbacks name outcomes.length <;> rfl

theorem Evaluates.callback {code : List Bytecode} {outcomes : List (Except Failure Json)}
    (evaluates : Evaluates env root data code outcomes) {name : Bytes}
    (unknown : findBuiltin name outcomes.length = .nop) :
    Evaluates env root data (appendCallback code name outcomes.length)
      [callValue env root name outcomes] := by
  obtain ⟨computes, straight, ending⟩ := evaluates
  have other : Op.callback ≠ .push := by decide
  have behind : Evaluates env root data
      (code ++ [{ op := .callback, args := outcomes.length, str := name }])
      [callValue env root name outcomes] := by
    refine evaluates_operation straight rfl other fun stack => ?_
    rw [computes.popped _ rfl rfl fun _ _ _ taken => execute_callback rfl taken]
    exact callValue_called unknown stack
  cases ending with
  | @operation front bc _ different =>
    rw [appendCallback, List.getLast?_concat]
    simp only [different, false_and, if_false]
    exact behind
  | @push front others bc earlier pushes given =>
    rw [appendCallback, List.getLast?_concat, List.dropLast_concat]
    by_cases immediate : bc.flags = .valueImmediate
    · simp only [pushes, immediate, and_self, if_true]
      have before : ∀ one ∈ front, one.op.straight = true :=
        fun one is => straight one (List.mem_append_left _ is)
      refine evaluates_operation before rfl other fun stack => ?_
      have given : Flag.valueImmediate ≠ .valuePop := by decide
      have same : getImm env bc data = .ok bc.value := getImm_immediate immediate data
      rw [← callValue_called unknown, same]
      refine earlier.merged _ given List.length_append
        (fun _ _ _ taken => execute_callback rfl taken) ?_ stack
      intro _ failure _ imm
      cases imm
    · simp only [immediate, and_false, if_false]
      exact behind

/-- A push that is a whole expression. -/
theorem Evaluates.getImm_eq {bc : Bytecode} {outcome : Except Failure Json} (pushes : bc.op = .push)
    (evaluates : Evaluates env root data [bc] [outcome]) : getImm env bc data = outcome := by
  have runs := evaluates.computes []
  rw [executeAll_single, execute_push pushes, allValues_single] at runs
  cases imm : getImm env bc data with
  | error failure =>
    rw [imm] at runs
    cases outcome with
    | error other =>
      cases runs
      rfl
    | ok value => cases runs
  | ok value =>
    rw [imm] at runs
    cases outcome with
    | error other => cases runs
    | ok value =>
      cases runs
      rfl

theorem evaluates_default {place fallback : Bytecode} {first second : Except Failure Json}
    (pushes : place.op = .push) (one : Evaluates env root data [place] [first])
    (two : Evaluates env root data [fallback] [second]) :
    Evaluates env root data (Inja.appendFunction (swapLast [place, fallback]) .default 2)
      [defaultValue [first, second]] := by
  have code : Inja.appendFunction (swapLast [place, fallback]) .default 2 =
      [fallback] ++ [{ place with op := .default, args := 2 }] := by
    simp [swapLast, Inja.appendFunction, pushes]
  have imm : getImm env { place with op := .default, args := 2 } data = first :=
    show getImm env place data = first from one.getImm_eq pushes
  have other : Op.default ≠ .push := by decide
  rw [code]
  refine evaluates_operation two.straight rfl other fun stack => ?_
  rw [executeAll_append, two.computes, allValues_single, defaultValue]
  cases second with
  | error failure => rfl
  | ok other =>
    simp only [Except.map, Except.bind, executeAll_single, execute, imm]
    cases first with
    | ok value => rfl
    | error failure => cases failure <;> rfl

end Renderer

section Expressions
variable (env : Environment) {config : ParserConfig} {parse : Bytes → Except Failure Json}
  {content : Bytes} (root data : Json)
open Renderer (Evaluates evaluates_push evaluates_default)

theorem Arguments.length_outcomes (a : Arguments) :
    (a.outcomes env config root data).length = a.count := by
  induction a using Arguments.count.induct with
  | case1 e => rw [Arguments.outcomes, Arguments.count]; rfl
  | case2 e comma rest ih =>
    rw [Arguments.outcomes, Arguments.count, List.length_cons, ih]

/-- What holds of each argument. -/
def Arguments.Each (holds : Expression → Prop) : Arguments → Prop
  | .last e => holds e
  | .more e _ rest => holds e ∧ rest.Each holds

variable {env root data}

theorem Arguments.Each.evaluates {a : Arguments}
    (each : a.Each fun e => Evaluates env root data (e.code config) [e.value env config root data]) :
    Evaluates env root data (a.code config) (a.outcomes env config root data) := by
  induction a using Arguments.count.induct with
  | case1 e =>
    rw [Arguments.code, Arguments.outcomes]
    exact each
  | case2 e comma rest ih =>
    rw [Arguments.code, Arguments.outcomes]
    exact each.1.append (ih each.2)

theorem evaluates_call {a : Arguments} {name : Bytes}
    (works : findBuiltin name a.count = .default → a.DefaultWorks config)
    (each : a.Each fun e => Evaluates env root data (e.code config) [e.value env config root data]) :
    Evaluates env root data (callCode name a.count (a.code config))
      [callValue env root name (a.outcomes env config root data)] := by
  have length : (a.outcomes env config root data).length = a.count :=
    a.length_outcomes env root data
  have all := each.evaluates
  rcases findBuiltin_plain name a.count with unknown | default | plain
  · simp only [callCode, unknown, ne_eq, not_true, if_false]
    rw [← length]
    exact all.callback (by rwa [length])
  · obtain ⟨place, comma, fallback, push, single, rfl, one, pushes, two⟩ := (works default).shape
    obtain ⟨first, second⟩ := each
    simp only [Arguments.Each] at first second
    rw [one] at first
    rw [two] at second
    have both := evaluates_default pushes first second
    simp only [callCode, default, callValue, length, Arguments.code, one, two]
    exact both
  · have known : findBuiltin name a.count ≠ .nop := by
      intro nop
      rw [nop] at plain
      cases plain
    have other : findBuiltin name a.count ≠ .default := by
      intro default
      rw [default] at plain
      cases plain
    simp only [callCode, callValue, length, known, other, ne_eq, not_false_eq_true, if_true, if_false]
    rw [← length]
    exact all.apply (by rwa [length])

theorem evaluates_lookup (name : Bytes) :
    Evaluates env root data [{ op := .push, flags := lookupFlag config, str := name }]
      [lookupValue env config data name] := by
  have given : lookupFlag config ≠ .valuePop := by
    rw [lookupFlag]
    split <;> nofun
  have same : Renderer.getImm env { op := .push, flags := lookupFlag config, str := name } data =
      lookupValue env config data name := by
    rw [Renderer.getImm, lookupValue, lookupFlag]
    cases config.elements <;> rfl
  rw [← same]
  exact evaluates_push rfl given

variable (env root data)

mutual

theorem Expression.evaluates : (e : Expression) → e.Valid config parse content →
    Evaluates env root data (e.code config) [e.value env config root data]
  | .only e, valid => by
    rw [Expression.Valid] at valid
    rw [Expression.code, Expression.value]
    exact e.evaluates valid
  | .or left _ right, valid => by
    rw [Expression.Valid] at valid
    rw [Expression.code, Expression.value]
    exact ((left.evaluates valid.1).append (right.evaluates valid.2)).apply rfl

theorem Conjunction.evaluates : (e : Conjunction) → e.Valid config parse content →
    Evaluates env root data (e.code config) [e.value env config root data]
  | .only e, valid => by
    rw [Conjunction.Valid] at valid
    rw [Conjunction.code, Conjunction.value]
    exact e.evaluates valid
  | .and left _ right, valid => by
    rw [Conjunction.Valid] at valid
    rw [Conjunction.code, Conjunction.value]
    exact ((left.evaluates valid.1).append (right.evaluates valid.2)).apply rfl

theorem Negation.evaluates : (e : Negation) → e.Valid config parse content →
    Evaluates env root data (e.code config) [e.value env config root data]
  | .only e, valid => by
    rw [Negation.Valid] at valid
    rw [Negation.code, Negation.value]
    exact e.evaluates valid
  | .not _ e, valid => by
    rw [Negation.Valid] at valid
    rw [Negation.code, Negation.value]
    exact (e.evaluates valid).apply rfl

theorem Comparison.evaluates : (e : Comparison) → e.Valid config parse content →
    Evaluates env root data (e.code config) [e.value env config root data]
  | .only e, valid => by
    rw [Comparison.Valid] at valid
    rw [Comparison.code, Comparison.value]
    exact e.evaluates valid
  | .compare left sign right, valid => by
    rw [Comparison.Valid] at valid
    rw [Comparison.code, Comparison.value]
    exact ((left.evaluates valid.1).append (right.evaluates valid.2)).apply sign.plain

theorem Datum.evaluates : (e : Datum) → e.Valid config parse content →
    Evaluates env root data (e.code config) [e.value env config root data]
  | .group _ e _, valid => by
    rw [Datum.Valid] at valid
    rw [Datum.code, Datum.value]
    exact e.evaluates valid
  | .call name _ arguments _, valid => by
    rw [Datum.Valid] at valid
    rw [Datum.code, Datum.value]
    exact evaluates_call valid.2 (arguments.evaluates valid.1)
  | .lookup name, _ => by
    rw [Datum.code, Datum.value]
    exact evaluates_lookup name.1.text
  | .literal _ value, _ => by
    rw [Datum.code, Datum.value]
    exact evaluates_push rfl nofun

theorem Arguments.evaluates : (a : Arguments) → a.Valid config parse content →
    a.Each fun e => Evaluates env root data (e.code config) [e.value env config root data]
  | .last e, valid => by
    rw [Arguments.Valid] at valid
    exact e.evaluates valid
  | .more e _ rest, valid => by
    rw [Arguments.Valid] at valid
    exact ⟨e.evaluates valid.1, rest.evaluates valid.2⟩

end

end Expressions
end Inja
end Da4qi4
