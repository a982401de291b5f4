import Da4qi4.Foundation.Execution
import Da4qi4.Inja.RendererExpressions

/-! The renderer, which runs the code of a tree with its jumps, writes what the tree means:
the code of each part may stand anywhere in the code of a template, and leaves the stacks as
they were. -/
namespace Da4qi4
open Fuelled (Gives After gives_end)
open Segment (At)
open Valuetool (Json)
namespace Inja
open Bytecode (Op Flag)

namespace Renderer
variable {env : Environment} {tmpl : Template} {root : Json} {s : Renderer}
  {r : Except Failure Bytes}

/-- The runs over one template. -/
abbrev running (env : Environment) (tmpl : Template) (root : Json) :
    Nat → Renderer → Option (Except Failure Bytes) :=
  fun fuel s => renderTo env fuel tmpl root s

/-- What a part of a template changes. -/
def wrote (s : Renderer) (i : Nat) (written : Bytes) : Renderer :=
  { s with i := i, os := s.os ++ written }

@[simp] theorem wrote_i (i : Nat) (written : Bytes) : (s.wrote i written).i = i := rfl

@[simp] theorem wrote_loopStack (i : Nat) (written : Bytes) :
    (s.wrote i written).loopStack = s.loopStack := rfl

@[simp] theorem wrote_currentData (i : Nat) (written : Bytes) :
    (s.wrote i written).currentData root = s.currentData root := rfl

@[simp] theorem wrote_wrote (i j : Nat) (written more : Bytes) :
    (s.wrote i written).wrote j more = s.wrote j (written ++ more) := by
  simp [wrote]

theorem wrote_nothing : s.wrote s.i [] = s := by
  rw [wrote, List.append_nil]

theorem gives_step {bc : Bytecode} (here : tmpl.bytecodes[s.i]? = some bc)
    (other : bc.op ≠ .include) (after : After (running env tmpl root) (step env root bc s) r) :
    Gives (running env tmpl root) s r := by
  refine after.gives (fun t same fuel => ?_) fun failure same fuel => ?_
  · simp only [running, renderTo, here, other, if_false, same]
  · simp only [running, renderTo, here, other, if_false, same]

theorem step_straight {bc : Bytecode} (straight : bc.op.straight = true) :
    step env root bc s =
      (execute env root (s.currentData root) bc s.stack).map fun done =>
        { s with i := s.i + 1, os := s.os ++ done.1, stack := done.2 } := by
  have mapped (outcome : Except Failure (Bytes × List Json)) :
      (outcome.bind fun done =>
        .ok { s with i := s.i + 1, os := s.os ++ done.1, stack := done.2 }) =
      outcome.map fun done =>
        { s with i := s.i + 1, os := s.os ++ done.1, stack := done.2 } := by
    cases outcome <;> rfl
  obtain ⟨op, args, flags, value, str⟩ := bc
  cases op <;> first
    | exact mapped (execute env root (s.currentData root) _ s.stack)
    | rfl
    | simp [Op.straight] at straight

/-- Code without jumps is executed one bytecode after the other. -/
theorem gives_straight {code : List Bytecode} (here : At tmpl.bytecodes s.i code)
    (straight : ∀ bc ∈ code, bc.op.straight = true)
    (after : After (running env tmpl root)
      ((executeAll env root (s.currentData root) code s.stack).map fun done =>
        { s with i := s.i + code.length, os := s.os ++ done.1, stack := done.2 }) r) :
    Gives (running env tmpl root) s r := by
  induction code generalizing s with
  | nil =>
    simp only [executeAll, Except.map, List.length_nil, Nat.add_zero, List.append_nil] at after
    exact after
  | cons bc code ih =>
    obtain ⟨first, others⟩ := List.forall_mem_cons.mp straight
    have known : bc.op ≠ .include := by
      intro is
      rw [is] at first
      cases first
    refine gives_step here.head known ?_
    rw [step_straight first]
    simp only [executeAll, bind, Except.bind] at after
    cases done : execute env root (s.currentData root) bc s.stack with
    | error failure =>
      rw [done] at after
      exact after
    | ok step =>
      rw [done] at after
      refine ih here.tail others ?_
      dsimp only [currentData] at after ⊢
      cases rest : executeAll env root (s.currentData root) code step.2 with
      | error failure =>
        simp only [currentData] at rest
        rw [rest] at after ⊢
        exact after
      | ok more =>
        simp only [currentData] at rest
        rw [rest] at after ⊢
        simp only [Except.map, pure, Except.pure, List.length_cons, List.append_assoc] at after ⊢
        rw [Nat.add_assoc, Nat.add_comm 1]
        exact after

/-- Code that computes a value, with what is done with the value behind it. -/
theorem gives_value {code : List Bytecode} {outcome : Except Failure Json}
    (here : At tmpl.bytecodes s.i code)
    (evaluates : Evaluates env root (s.currentData root) code [outcome])
    (after : After (running env tmpl root) (outcome.map fun value =>
      { s with i := s.i + code.length, stack := value :: s.stack }) r) :
    Gives (running env tmpl root) s r := by
  refine gives_straight here evaluates.straight ?_
  rw [evaluates.computes, allValues_single]
  cases outcome with
  | error failure => exact after
  | ok value =>
    simp only [Except.map, List.append_nil] at after ⊢
    exact after

end Renderer

theorem LoopValues.length_bindings (keyName valueName : Bytes) (values : LoopValues) :
    (values.bindings keyName valueName).length = values.size := by
  cases values with
  | array values => rw [LoopValues.bindings, List.length_mapIdx, LoopValues.size]
  | map mapValues => rw [LoopValues.bindings, List.length_map, LoopValues.size]

/-- The data of a round are bound as the tree says. -/
theorem LoopLevel.updateLoopData_eq {level : LoopLevel} {binding : Json → Except Failure Json}
    (here : (level.values.bindings level.keyName level.valueName)[level.index]? = some binding) :
    level.updateLoopData = (binding level.data).map fun data => { level with data := data } := by
  obtain ⟨keyName, valueName, data, values, index⟩ := level
  cases values with
  | array values =>
    rw [LoopValues.bindings, List.getElem?_mapIdx, Option.map_eq_some_iff] at here
    obtain ⟨value, found, rfl⟩ := here
    simp only [LoopLevel.updateLoopData, found]
    cases bindElement valueName index values.length value data <;> rfl
  | map mapValues =>
    rw [LoopValues.bindings, List.getElem?_map, Option.map_eq_some_iff] at here
    obtain ⟨entry, found, rfl⟩ := here
    simp only [LoopLevel.updateLoopData, found]
    cases bindMember keyName valueName entry data <;> rfl

theorem LoopLevel.size_pos {keyed : Bool} {value : Json} {values : LoopValues}
    (some_ : Json.isEmpty value = false) (iterated : LoopLevel.iterated keyed value = .ok values) :
    0 < values.size := by
  cases keyed with
  | true =>
    cases value with
    | object entries =>
      cases iterated
      rw [LoopValues.size, LoopLevel.sortByKey, List.length_insertionSort]
      cases entries with
      | nil => cases some_
      | cons entry rest => exact Nat.succ_pos _
    | _ => cases iterated
  | false =>
    cases value with
    | array values =>
      cases iterated
      cases values with
      | nil => cases some_
      | cons value rest => exact Nat.succ_pos _
    | _ => cases iterated

namespace Renderer

section Loops
variable {outer : List LoopLevel} {level : LoopLevel} {bc : Bytecode}

theorem endLoop_last (levels : s.loopStack = level :: outer)
    (last : level.index + 1 = level.values.size) :
    endLoop bc s = .ok { s with i := s.i + 1, loopStack := outer } := by
  rw [endLoop, levels]
  exact if_pos last

theorem endLoop_next {binding : Json → Except Failure Json} (levels : s.loopStack = level :: outer)
    (found : (level.values.bindings level.keyName level.valueName)[level.index + 1]? = some binding) :
    endLoop bc s = (binding level.data).map fun data =>
      { s with
        i := bc.args, loopStack := { level with index := level.index + 1, data := data } :: outer } := by
  have more : level.index + 1 ≠ level.values.size := by
    have inside := (List.getElem?_eq_some_iff.mp found).1
    rw [LoopValues.length_bindings] at inside
    exact Nat.ne_of_lt inside
  have updated : LoopLevel.updateLoopData { level with index := level.index + 1 } =
      (binding level.data).map fun data => { level with index := level.index + 1, data := data } :=
    LoopLevel.updateLoopData_eq found
  rw [endLoop, levels]
  simp only [more, if_false, updated]
  cases binding level.data <;> rfl

variable {body : Json → Except Failure Bytes} {start finish : Nat}

/-- The rounds that remain at the end of one: the body is run for each of them, with the
data as the round before left them, and then the loop is over. -/
theorem gives_rounds
    (closing : tmpl.bytecodes[finish]? = some { op := .endLoop, args := start })
    (inside : ∀ {t : Renderer} {level : LoopLevel}, t.i = start → t.loopStack = level :: outer →
      After (running env tmpl root) ((body level.data).map (t.wrote finish)) r →
        Gives (running env tmpl root) t r)
    {remaining : List (Json → Except Failure Json)} (place : s.i = finish)
    (levels : s.loopStack = level :: outer) (within : level.index < level.values.size)
    (same : (level.values.bindings level.keyName level.valueName).drop (level.index + 1) =
      remaining)
    (after : After (running env tmpl root) ((rounds body remaining level.data).map fun written =>
      { s.wrote (finish + 1) written with loopStack := outer }) r) :
    Gives (running env tmpl root) s r := by
  induction remaining generalizing s level with
  | nil =>
    have last : level.index + 1 = level.values.size := by
      have all := List.drop_eq_nil_iff.mp same
      rw [LoopValues.length_bindings] at all
      omega
    rw [← place] at closing
    refine gives_step closing nofun ?_
    show After _ (endLoop _ s) r
    rw [endLoop_last levels last, place]
    simpa [rounds, wrote, Except.map] using after
  | cons binding remaining ih =>
    have found : (level.values.bindings level.keyName level.valueName)[level.index + 1]? =
        some binding := by
      rw [← List.head?_drop, same, List.head?_cons]
    have more : level.index + 1 < level.values.size := by
      rw [← LoopValues.length_bindings]
      exact (List.getElem?_eq_some_iff.mp found).1
    have here : tmpl.bytecodes[s.i]? = some { op := .endLoop, args := start } := by
      rw [place, closing]
    refine gives_step here nofun ?_
    show After _ (endLoop _ s) r
    rw [endLoop_next levels found]
    rw [rounds] at after
    cases bound : binding level.data with
    | error failure =>
      rw [bound] at after
      exact after
    | ok data =>
      rw [bound] at after
      refine inside rfl rfl ?_
      cases round : body data with
      | error failure =>
        simp only [bind, Except.bind, round] at after
        exact after
      | ok written =>
        refine ih rfl rfl more ?_ ?_
        · rw [← List.tail_drop, same, List.tail_cons]
        · cases others : rounds body remaining data with
          | error failure =>
            simp only [bind, Except.bind, round, others] at after
            exact after
          | ok more =>
            simp only [bind, Except.bind, round, others, pure, Except.pure] at after
            simpa [wrote, Except.map] using after

theorem startLoop_some {key : Option KeyName} {name : Bytes} {value : Json} {stack : List Json}
    (top : s.stack = value :: stack) (some_ : Json.isEmpty value = false)
    (room : s.loopStack.length < loopLevels) (finish : Nat) :
    startLoop root { op := .startLoop, args := finish, value := keyValue key, str := name } s = do
      let values ← LoopLevel.iterated key.isSome value
      let data ← LoopLevel.provideParent (s.currentData root)
      let level : LoopLevel :=
        ⟨(key.map fun k => k.name.1.text).getD [], name, data, values, 0⟩
      let level ← level.updateLoopData
      return { s with i := s.i + 1, stack := stack, loopStack := level :: s.loopStack } := by
  simp only [startLoop, top, some_, Nat.not_le.mpr room, if_false, Bool.false_eq_true]
  cases key <;> rfl

/-- A whole loop. -/
theorem gives_loop {key : Option KeyName} {name : Bytes} {value : Json} {stack : List Json}
    (opening : tmpl.bytecodes[s.i]? =
      some { op := .startLoop, args := finish, value := keyValue key, str := name })
    (closing : tmpl.bytecodes[finish]? = some { op := .endLoop, args := s.i + 1 })
    (room : s.loopStack.length < loopLevels)
    (inside : ∀ {t : Renderer} {level : LoopLevel}, t.i = s.i + 1 →
      t.loopStack = level :: s.loopStack →
      After (running env tmpl root) ((body level.data).map (t.wrote finish)) r →
        Gives (running env tmpl root) t r)
    (top : s.stack = value :: stack)
    (after : After (running env tmpl root)
      ((loopOutput key name value (s.currentData root) body).map fun written =>
        { s.wrote (finish + 1) written with stack := stack }) r) :
    Gives (running env tmpl root) s r := by
  refine gives_step opening nofun ?_
  show After _ (startLoop root _ s) r
  rw [loopOutput] at after
  cases some_ : Json.isEmpty value with
  | true =>
    rw [if_pos some_] at after
    simp only [startLoop, top, some_, if_true]
    simpa [wrote, Except.map] using after
  | false =>
    rw [startLoop_some top some_ room]
    simp only [some_, Bool.false_eq_true, if_false] at after
    cases through : LoopLevel.iterated key.isSome value with
    | error failure =>
      rw [through] at after
      exact after
    | ok values =>
      rw [through] at after
      cases within : LoopLevel.provideParent (s.currentData root) with
      | error failure =>
        rw [within] at after
        exact after
      | ok data =>
        rw [within] at after
        have positive := LoopLevel.size_pos some_ through
        simp only [bind, Except.bind] at after ⊢
        generalize (key.map fun k => k.name.1.text).getD [] = keyName at after ⊢
        rw [← LoopValues.length_bindings keyName name] at positive
        obtain ⟨binding, remaining, all⟩ := List.exists_cons_of_length_pos positive
        have updated : LoopLevel.updateLoopData ⟨keyName, name, data, values, 0⟩ =
            (binding data).map fun data => ⟨keyName, name, data, values, 0⟩ :=
          LoopLevel.updateLoopData_eq (by rw [all]; rfl)
        have others : (values.bindings keyName name).drop 1 = remaining := by
          rw [all]
          rfl
        rw [LoopValues.length_bindings] at positive
        rw [updated]
        rw [all, rounds] at after
        cases bound : binding data with
        | error failure =>
          rw [bound] at after
          exact after
        | ok data =>
          rw [bound] at after
          refine inside rfl rfl ?_
          cases round : body data with
          | error failure =>
            simp only [bind, Except.bind, round] at after
            exact after
          | ok written =>
            refine gives_rounds closing inside rfl rfl positive others ?_
            cases written : rounds body remaining data with
            | error failure =>
              simp only [bind, Except.bind, round, written] at after
              exact after
            | ok more =>
              simp only [bind, Except.bind, round, written, pure, Except.pure] at after
              simpa [wrote, Except.map] using after

end Loops

theorem gives_include {path name : Bytes} {template : Template} {outcome : Except Failure Bytes}
    (here : tmpl.bytecodes[s.i]? = some (reference path name))
    (found : env.included.lookup (Parser.includedName path name) = some template)
    (gives : Gives (running env template (s.currentData root)) {} outcome)
    (after : After (running env tmpl root) (outcome.map (s.wrote (s.i + 1))) r) :
    Gives (running env tmpl root) s r := by
  have referred : referred env (reference path name) (s.currentData root) = .ok template := by
    rw [Renderer.referred]
    simp only [reference, getImm, bind, Except.bind, found]
    rfl
  have known : (reference path name).op = .include := rfl
  cases outcome with
  | error failure =>
    cases after
    refine gives.call_end fun fuel ended => ?_
    have ended : renderTo env fuel template (s.currentData root) {} = some (.error failure) := ended
    simp only [running, renderTo, here, known, if_true, referred, ended]
  | ok written =>
    refine gives.call after fun fuel ended => ?_
    have ended : renderTo env fuel template (s.currentData root) {} = some (.ok written) := ended
    simp only [running, renderTo, here, known, if_true, referred, ended, wrote]

/-- The renderer does not check that there is a template. -/
theorem gives_missing {path name : Bytes}
    (here : tmpl.bytecodes[s.i]? = some (reference path name))
    (missing : env.included.lookup (Parser.includedName path name) = none) :
    Gives (running env tmpl root) s (.error .undefined) := by
  have referred : referred env (reference path name) (s.currentData root) = .error .undefined := by
    rw [Renderer.referred]
    simp only [reference, getImm, bind, Except.bind, missing]
    rfl
  have known : (reference path name).op = .include := rfl
  refine gives_end fun fuel => ?_
  simp only [running, renderTo, here, known, if_true, referred]

/-- A condition with what is done when it holds and when it does not. -/
theorem gives_condition {args : Nat} {value : Json} {stack : List Json}
    (here : tmpl.bytecodes[s.i]? = some { op := .conditionalJump, args := args })
    (top : s.stack = value :: stack)
    (after : After (running env tmpl root) ((Json.truthy value).map fun holds =>
      { s with i := if holds then s.i + 1 else args, stack := stack }) r) :
    Gives (running env tmpl root) s r := by
  refine gives_step here nofun ?_
  have stepped : step env root { op := .conditionalJump, args := args } s =
      (Json.truthy value).map fun holds =>
        { s with i := if holds then s.i + 1 else args, stack := stack } := by
    simp only [step, top, bind, Except.bind]
    cases Json.truthy value <;> rfl
  rwa [stepped]

theorem gives_jump {args : Nat}
    (here : tmpl.bytecodes[s.i]? = some { op := .jump, args := args })
    (gives : Gives (running env tmpl root) { s with i := args } r) :
    Gives (running env tmpl root) s r :=
  gives_step here nofun gives

/-- What is done with the argument of a print. -/
def printed (env : Environment) : List Json → List Json → Except Failure (Bytes × List Json)
  | value :: _, stack => (print env value).map fun written => (written, stack)
  | [], _ => .error .undefined

/-- Code that writes a value. -/
theorem gives_print {code : List Bytecode} {outcome : Except Failure Json}
    (here : At tmpl.bytecodes s.i (Inja.appendFunction code .printValue 1))
    (evaluates : Evaluates env root (s.currentData root) code [outcome])
    (after : After (running env tmpl root) ((outcome.bind (print env)).map
      (s.wrote (s.i + (Inja.appendFunction code .printValue 1).length))) r) :
    Gives (running env tmpl root) s r := by
  have takes : ∀ bc stack, bc.op = .printValue → execute env root (s.currentData root) bc stack =
      (getArgs env bc (s.currentData root) stack).bind fun taken => printed env taken.1 taken.2 := by
    rintro ⟨_, args, flags, value, str⟩ stack ⟨⟩
    simp only [execute]
    cases getArgs env _ (s.currentData root) stack with
    | error failure => rfl
    | ok taken =>
      obtain ⟨arguments, rest⟩ := taken
      cases arguments with
      | nil => rfl
      | cons value others =>
        simp only [bind, Except.bind, printed]
        cases print env value <;> rfl
  obtain ⟨front, bc, code, same, before, runs⟩ := evaluates.appendFunction (printed env) takes
  have code : Inja.appendFunction _ .printValue 1 = front ++ [bc] := code
  rw [code] at here after
  refine gives_straight here ?_ ?_
  · refine List.forall_mem_append.mpr ⟨before, List.forall_mem_singleton.mpr ?_⟩
    rw [same]
    rfl
  · rw [runs, allValues_single]
    cases outcome with
    | error failure => exact after
    | ok value =>
      simp only [Except.map, Except.bind, printed] at after ⊢
      cases written : print env value <;> rw [written] at after <;> exact after

end Renderer

section Trees
variable {env : Environment} {config : ParserConfig} {parse : Bytes → Except Failure Json}
  {content path : Bytes} {page : Bytes → Json → Except Failure Bytes} {tmpl : Template}
  {root : Json}
open Renderer

variable (env page) in
/-- Each of the names is that of a template which is rendered to its page, or nothing is
known by it. -/
def Serves (names : List Bytes) : Prop :=
  ∀ name ∈ names,
    (∃ template, env.included.lookup name = some template ∧
      ∀ data, Gives (running env template data) {} (page name data)) ∨
    (env.included.lookup name = none ∧ ∀ data, page name data = .error .undefined)

theorem Serves.split {front behind : List Bytes} (pages : Serves env page (front ++ behind)) :
    Serves env page front ∧ Serves env page behind :=
  List.forall_mem_append.mp pages

/-- A condition in front of two ways. -/
theorem gives_branch {condition : Expression} (valid : condition.Valid config parse content)
    {s : Renderer} {r : Except Failure Bytes} {k args finish : Nat} {behind : List Bytecode}
    {body rest : Except Failure Bytes} (place : s.i = k)
    (here : At tmpl.bytecodes k
      (condition.code config ++ { op := .conditionalJump, args := args } :: behind))
    (holds : After (running env tmpl root) (body.map (s.wrote finish)) r →
      Gives (running env tmpl root) { s with i := k + (condition.code config).length + 1 } r)
    (fails : After (running env tmpl root) (rest.map (s.wrote finish)) r →
      Gives (running env tmpl root) { s with i := args } r)
    (after : After (running env tmpl root) ((do
      let holds ← Json.truthy (← condition.value env config root (s.currentData root))
      if holds then body else rest).map (s.wrote finish)) r) :
    Gives (running env tmpl root) s r := by
  subst place
  refine gives_value here.left (condition.evaluates env root _ valid) ?_
  refine After.bind after fun value after => ?_
  refine gives_condition here.right.head rfl ?_
  refine After.bind after fun decided after => ?_
  cases decided with
  | true => exact holds after
  | false => exact fails after

theorem Alternative.skips (a : Alternative) {s : Renderer} {r : Except Failure Bytes}
    {start finish : Nat} (place : s.i = start) (ends : finish = start + a.size config)
    (here : At tmpl.bytecodes start (a.code config path start finish))
    (gives : Gives (running env tmpl root) { s with i := finish } r) :
    Gives (running env tmpl root) s r := by
  subst place
  cases a with
  | endif signs sign =>
    rw [Alternative.size, Nat.add_zero] at ends
    subst ends
    exact gives
  | otherwise signs sign body ending endSign =>
    rw [Alternative.code] at here
    exact gives_jump here.head gives
  | elseIf signs sign ifSign condition body rest =>
    rw [Alternative.code] at here
    exact gives_jump here.head gives

mutual

theorem Items.renders : (l : Items) → l.Valid config parse content →
    Serves env page (l.includes path) → ∀ {s : Renderer} {r : Except Failure Bytes} {k : Nat},
    s.i = k → At tmpl.bytecodes k (l.code config path k) →
    s.loopStack.length + l.depth ≤ loopLevels →
    After (running env tmpl root) ((l.output env config path page root (s.currentData root)).map
      (s.wrote (k + l.size config))) r →
    Gives (running env tmpl root) s r
  | .none, _, _, s, r, k, place, _, _, after => by
    subst place
    rw [Items.output, Items.size, Nat.add_zero] at after
    simp only [Except.map, wrote_nothing] at after
    exact after
  | .and first rest, valid, pages, s, r, k, place, here, levels, after => by
    rw [Items.Valid] at valid
    rw [Items.includes] at pages
    rw [Items.code] at here
    rw [Items.depth] at levels
    rw [Items.output, Items.size] at after
    refine first.renders valid.1 pages.split.1 place here.left (by omega) ?_
    refine After.bind after fun written after => ?_
    have behind := here.right
    rw [first.length_code] at behind
    refine rest.renders valid.2 pages.split.2 rfl behind ?_ ?_
    · rw [wrote_loopStack]
      omega
    · rw [wrote_currentData]
      refine After.back (After.bind after fun others after => after) fun others gives => ?_
      rw [wrote_wrote, wrote_i, Nat.add_assoc]
      exact gives

theorem Item.renders : (i : Item) → i.Valid config parse content →
    Serves env page (i.includes path) → ∀ {s : Renderer} {r : Except Failure Bytes} {k : Nat},
    s.i = k → At tmpl.bytecodes k (i.code config path k) →
    s.loopStack.length + i.depth ≤ loopLevels →
    After (running env tmpl root) ((i.output env config path page root (s.currentData root)).map
      (s.wrote (k + i.size config))) r →
    Gives (running env tmpl root) s r
  | .text t, _, _, s, r, k, place, here, _, after => by
    subst place
    rw [Item.code] at here
    rw [Item.output, Item.size] at after
    exact gives_step here.head nofun after
  | .comment _ _, _, _, s, r, k, place, _, _, after => by
    subst place
    rw [Item.output, Item.size, Nat.add_zero] at after
    simp only [Except.map, wrote_nothing] at after
    exact after
  | .emptyLine _ _, _, _, s, r, k, place, _, _, after => by
    subst place
    rw [Item.output, Item.size, Nat.add_zero] at after
    simp only [Except.map, wrote_nothing] at after
    exact after
  | .print _ e _, valid, _, s, r, k, place, here, _, after => by
    subst place
    rw [Item.Valid] at valid
    rw [Item.code] at here
    rw [Item.output, Item.size] at after
    exact gives_print here (e.evaluates env root _ valid) after
  | .conditional _ _ condition body rest, valid, pages, s, r, k, place, here, levels, after => by
    rw [Item.Valid] at valid
    rw [Item.includes] at pages
    rw [Item.code] at here
    rw [Item.depth] at levels
    rw [Item.output, Item.size] at after
    have behind := here.right.tail.right
    rw [body.length_code] at behind
    have ends : k + ((condition.code config).length + 1 + body.size config + rest.size config) =
        k + (condition.code config).length + 1 + body.size config + rest.size config := by
      omega
    rw [ends] at after
    refine gives_branch valid.1 place here (fun after => ?_) (fun after => ?_) after
    · refine body.renders valid.2.1 pages.split.1 rfl here.right.tail.left ?_ ?_
      · exact (Nat.add_le_add_left (Nat.le_max_left _ _) _).trans levels
      · exact After.back after fun written gives => rest.skips rfl rfl behind gives
    · refine rest.renders valid.2.2 pages.split.2 rfl rfl behind ?_ after
      exact (Nat.add_le_add_left (Nat.le_max_right _ _) _).trans levels
  | .loop _ _ key name _ values body _ _, valid, pages, s, r, k, place, here, levels, after => by
    subst place
    rw [Item.Valid] at valid
    rw [Item.includes] at pages
    rw [Item.code] at here
    rw [Item.depth] at levels
    rw [Item.output, Item.size] at after
    have closing := here.right.tail.right.head
    rw [body.length_code] at closing
    have ends : s.i + ((values.code config).length + 1 + body.size config + 1) =
        s.i + (values.code config).length + 1 + body.size config + 1 := by
      omega
    rw [ends] at after
    refine gives_value here.left (values.evaluates env root _ valid.1) ?_
    refine After.bind after fun value after => ?_
    refine gives_loop here.right.head closing (by show s.loopStack.length < _; omega) ?_ rfl after
    intro t level place outer after
    refine body.renders valid.2 pages place here.right.tail.left ?_ ?_
    · rw [outer, List.length_cons]
      show s.loopStack.length + 1 + _ ≤ _
      omega
    · rw [currentData, outer]
      exact after
  | .include _ _ _ name, _, pages, s, r, k, place, here, _, after => by
    subst place
    rw [Item.includes] at pages
    rw [Item.code] at here
    rw [Item.output, Item.size] at after
    rcases List.forall_mem_singleton.mp pages with ⟨template, found, gives⟩ | ⟨missing, undefined⟩
    · exact gives_include here.head found (gives _) after
    · rw [undefined] at after
      cases after
      exact gives_missing here.head missing

theorem Alternative.renders : (a : Alternative) → a.Valid config parse content →
    Serves env page (a.includes path) → ∀ {s : Renderer} {r : Except Failure Bytes}
      {start finish : Nat},
    s.i = a.target start → finish = start + a.size config →
    At tmpl.bytecodes start (a.code config path start finish) →
    s.loopStack.length + a.depth ≤ loopLevels →
    After (running env tmpl root) ((a.output env config path page root (s.currentData root)).map
      (s.wrote finish)) r →
    Gives (running env tmpl root) s r
  | .endif _ _, _, _, s, r, start, finish, place, ends, _, _, after => by
    rw [Alternative.output] at after
    rw [Alternative.target] at place
    rw [Alternative.size, Nat.add_zero, ← place] at ends
    subst ends
    simp only [Except.map, wrote_nothing] at after
    exact after
  | .otherwise _ _ body _ _, valid, pages, s, r, start, finish, place, ends, here, levels, after => by
    rw [Alternative.Valid] at valid
    rw [Alternative.includes] at pages
    rw [Alternative.code] at here
    rw [Alternative.depth] at levels
    rw [Alternative.output] at after
    rw [Alternative.size, ← Nat.add_assoc] at ends
    subst ends
    exact body.renders valid pages place here.tail levels after
  | .elseIf _ _ _ condition body rest, valid, pages, s, r, start, finish, place, ends, here, levels,
      after => by
    rw [Alternative.Valid] at valid
    rw [Alternative.includes] at pages
    rw [Alternative.code] at here
    rw [Alternative.depth] at levels
    rw [Alternative.output] at after
    rw [Alternative.size] at ends
    have behind := here.tail.right.tail.right
    rw [body.length_code] at behind
    have finishes : finish =
        start + 1 + (condition.code config).length + 1 + body.size config + rest.size config := by
      omega
    refine gives_branch valid.1 place here.tail (fun after => ?_) (fun after => ?_) after
    · refine body.renders valid.2.1 pages.split.1 rfl here.tail.right.tail.left ?_ ?_
      · exact (Nat.add_le_add_left (Nat.le_max_left _ _) _).trans levels
      · exact After.back after fun written gives => rest.skips rfl finishes behind gives
    · refine rest.renders valid.2.2 pages.split.2 rfl finishes behind ?_ after
      exact (Nat.add_le_add_left (Nat.le_max_right _ _) _).trans levels

end

end Trees
end Inja
end Da4qi4
