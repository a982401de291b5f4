import Da4qi4.Inja.ParserExpressions

/-! The parser makes the bytecodes of the tree whose tokens it reads: statements. When the
end of a statement comes, the jumps that wait for it are filled in, and the code in front
of them stays as it is. -/
namespace Da4qi4
open Valuetool (Json)
namespace Inja
open Bytecode (Op Flag)

namespace Parser

theorem length_setArgs (bytecodes : List Bytecode) (index args : Nat) :
    (setArgs bytecodes index args).length = bytecodes.length := by
  rw [setArgs, List.length_modify]

theorem setArgs_append {front : List Bytecode} (here : index < front.length)
    (behind : List Bytecode) (args : Nat) :
    setArgs (front ++ behind) index args = setArgs front index args ++ behind := by
  induction front generalizing index with
  | nil => cases here
  | cons b front ih =>
    cases index with
    | zero => rfl
    | succ index =>
      have same := ih (Nat.lt_of_succ_lt_succ here)
      simp only [setArgs, List.cons_append, List.modify_succ_cons] at same ⊢
      rw [same]

theorem setArgs_at (front behind : List Bytecode) (b : Bytecode) (args : Nat) :
    setArgs (front ++ b :: behind) front.length args = front ++ { b with args := args } :: behind := by
  induction front with
  | nil => rfl
  | cons c front ih =>
    simp only [setArgs, List.cons_append, List.length_cons, List.modify_succ_cons] at ih ⊢
    rw [ih]

/-- The jumps that lead to the end of an `if`. -/
def leadAll (jumps : List Nat) (finish : Nat) (bytecodes : List Bytecode) : List Bytecode :=
  jumps.foldl (fun bytecodes jump => setArgs bytecodes jump finish) bytecodes

theorem length_leadAll (jumps : List Nat) (finish : Nat) (bytecodes : List Bytecode) :
    (leadAll jumps finish bytecodes).length = bytecodes.length := by
  induction jumps generalizing bytecodes with
  | nil => rfl
  | cons jump jumps ih => rw [leadAll, List.foldl_cons, ← leadAll, ih, length_setArgs]

theorem leadAll_append {jumps : List Nat} {front : List Bytecode}
    (here : ∀ jump ∈ jumps, jump < front.length) (finish : Nat) (behind : List Bytecode) :
    leadAll jumps finish (front ++ behind) = leadAll jumps finish front ++ behind := by
  induction jumps generalizing front with
  | nil => rfl
  | cons jump jumps ih =>
    obtain ⟨first, others⟩ := List.forall_mem_cons.mp here
    rw [leadAll, List.foldl_cons, setArgs_append first, ← leadAll, ih]
    · rfl
    · rwa [length_setArgs]

theorem foldl_leads (jumps : List Nat) (p : Parser) :
    jumps.foldl (fun p jump => p.leads jump p.bytecodes.length) p =
      { p with bytecodes := leadAll jumps p.bytecodes.length p.bytecodes } := by
  induction jumps generalizing p with
  | nil => rfl
  | cons jump jumps ih =>
    have same : (p.leads jump p.bytecodes.length).bytecodes.length = p.bytecodes.length :=
      length_setArgs _ _ _
    rw [List.foldl_cons, ih, same]
    rfl

/-- The last of the jumps is the one that stands behind the code in front. -/
theorem leadAll_last {jumps : List Nat} {front : List Bytecode}
    (here : ∀ jump ∈ jumps, jump < front.length) (finish : Nat) (b : Bytecode)
    (behind : List Bytecode) :
    leadAll (jumps ++ [front.length]) finish (front ++ b :: behind) =
      leadAll jumps finish front ++ { b with args := finish } :: behind := by
  have last := setArgs_at (leadAll jumps finish front) behind b finish
  rw [length_leadAll] at last
  have split (bytecodes : List Bytecode) : leadAll (jumps ++ [front.length]) finish bytecodes =
      setArgs (leadAll jumps finish bytecodes) front.length finish := by
    rw [leadAll, List.foldl_append]
    rfl
  rw [split, leadAll_append here, last]

end Parser

mutual

def Items.rounds : Items → Nat
  | .none => 0
  | .and first rest => first.rounds + rest.rounds

def Item.rounds : Item → Nat
  | .text _ => 1
  | .comment _ _ => 1
  | .emptyLine _ _ => 1
  | .print _ _ _ => 1
  | .conditional _ _ _ body rest => 1 + (body.rounds + rest.rounds)
  | .loop _ _ _ _ _ _ body _ _ => 1 + (body.rounds + 1)
  | .include _ _ _ _ => 1

def Alternative.rounds : Alternative → Nat
  | .endif _ _ => 1
  | .otherwise _ _ body _ _ => 1 + (body.rounds + 1)
  | .elseIf _ _ _ _ body rest => 1 + (body.rounds + rest.rounds)

end

theorem Signs.expressionEnds (signs : Signs) (rest : List Token) :
    ExpressionEnds ((signs.closing :: rest).headD { kind := .eof }) := by
  refine expressionEnds_of_closes ?_
  rw [List.headD_cons]
  rcases signs.matching with ⟨-, closing⟩ | ⟨-, closing⟩
  · rw [closing]
    rfl
  · rw [closing]
    rfl

namespace Parser
variable (parseTemplate : TemplateStorage → Bytes → Except Failure (Template × TemplateStorage))

/-- The names of a template, loaded one after the other. -/
def loadAll (included : TemplateStorage) : List Bytes → Except Failure TemplateStorage
  | [] => .ok included
  | name :: rest =>
    match included.lookup name with
    | some _ => loadAll included rest
    | none => do
      let (template, others) ← parseTemplate included name
      loadAll ((name, template) :: others) rest

variable {parseTemplate}

theorem loadAll_split {front behind : List Bytes} {included storage : TemplateStorage}
    (loaded : loadAll parseTemplate included (front ++ behind) = .ok storage) :
    ∃ between, loadAll parseTemplate included front = .ok between ∧
      loadAll parseTemplate between behind = .ok storage := by
  induction front generalizing included with
  | nil => exact ⟨included, rfl, loaded⟩
  | cons name front ih =>
    rw [List.cons_append, loadAll] at loaded
    rw [loadAll]
    cases found : included.lookup name with
    | some template =>
      rw [found] at loaded
      exact ih loaded
    | none =>
      rw [found] at loaded
      cases read : parseTemplate included name with
      | error failure =>
        rw [read] at loaded
        cases loaded
      | ok both =>
        rw [read] at loaded
        exact ih loaded

end Parser

section Rounds
variable (config : ParserConfig) (parse : Bytes → Except Failure Json) (content path : Bytes)
  (parseTemplate : TemplateStorage → Bytes → Except Failure (Template × TemplateStorage))
  {fuel : Nat} {rest : List Token} {bytecodes : List Bytecode} {ifStack : List IfData}
  {loopStack : List Nat} {included : TemplateStorage}

/-- An expression within a statement. -/
theorem expression_parsed {e : Expression} (valid : e.Valid config parse content)
    (ends : ExpressionEnds (rest.headD { kind := .eof })) :
    Parser.expression parse config content
      ⟨⟨e.tokens ++ rest, bytecodes⟩, ifStack, loopStack, included⟩ =
      .ok (true, ⟨⟨rest, bytecodes ++ e.code config⟩, ifStack, loopStack, included⟩) := by
  have enough : 6 * e.tokens.length + 5 ≤ expressionFuel ⟨e.tokens ++ rest, bytecodes⟩ := by
    rw [expressionFuel, List.length_append]
    omega
  rw [Parser.expression, e.parsed config parse content valid enough ends]
  rfl

/-- A round whose token is parsed with what belongs to it. -/
theorem parseInto_round {t : Token} {p : Parser} (fuel : Nat)
    (parsed : Parser.parseOne parse config content path parseTemplate t
      ⟨⟨rest, bytecodes⟩, ifStack, loopStack, included⟩ = .ok p) :
    Parser.parseInto parse config content path parseTemplate (1 + fuel)
      ⟨⟨t :: rest, bytecodes⟩, ifStack, loopStack, included⟩ =
      Parser.parseInto parse config content path parseTemplate fuel p := by
  rw [Nat.add_comm, Parser.parseInto]
  simp only [Parser.getNextToken, Parsing.getNextToken, List.tail_cons, parsed]
  rfl

/-- A round with a statement between its signs. -/
theorem Signs.round (signs : Signs) (inside : List Token) {p : Parser} (fuel : Nat)
    (parsed : Parser.parseStatement parse config content path parseTemplate
      ⟨⟨inside ++ signs.closing :: rest, bytecodes⟩, ifStack, loopStack, included⟩ = .ok (true, p))
    (here : p.tokens = signs.closing :: rest) :
    Parser.parseInto parse config content path parseTemplate (1 + fuel)
      ⟨⟨signs.around inside ++ rest, bytecodes⟩, ifStack, loopStack, included⟩ =
      Parser.parseInto parse config content path parseTemplate fuel p.getNextToken := by
  have tokens : signs.around inside ++ rest = signs.opening :: (inside ++ signs.closing :: rest) := by
    rw [Signs.around, List.cons_append, List.append_assoc, List.singleton_append]
  have tok : p.tok = signs.closing := by rw [Parsing.tok, here, List.headD_cons]
  rw [tokens]
  refine parseInto_round config parse content path parseTemplate fuel ?_
  rcases signs.matching with ⟨opening, closing⟩ | ⟨opening, closing⟩
  · rw [Parser.parseOne, opening]
    simp [parsed, bind, Except.bind, pure, Except.pure, tok, closing]
  · rw [Parser.parseOne, opening]
    simp [parsed, bind, Except.bind, pure, Except.pure, tok, closing]

variable {parse path parseTemplate}

/-- The word that a statement begins with. -/
theorem parseStatement_word {text : Bytes} (sign : Word text) (others : List Token)
    (bytecodes : List Bytecode) (ifStack : List IfData) (loopStack : List Nat)
    (included : TemplateStorage) :
    let p : Parser := ⟨⟨sign.1 :: others, bytecodes⟩, ifStack, loopStack, included⟩
    Parser.parseStatement parse config content path parseTemplate p =
      if text = word "if" then p.parseIf parse config content
      else if text = word "endif" then p.parseEndif
      else if text = word "else" then p.parseElse parse config content
      else if text = word "for" then p.parseFor parse config content
      else if text = word "endfor" then p.parseEndfor
      else if text = word "include" then p.parseInclude parse path parseTemplate
      else .ok (false, p) := by
  intro p
  obtain ⟨kind, same⟩ := Token.isWord_iff.mp sign.2
  have named : ¬p.tok.kind ≠ .id := not_not.mpr kind
  have said : p.tok.text = text := same
  rw [Parser.parseStatement, if_neg named, said]

theorem if_parsed (signs : Signs) (sign : Word (word "if")) {condition : Expression}
    (valid : condition.Valid config parse content) :
    Parser.parseStatement parse config content path parseTemplate
      ⟨⟨sign.1 :: (condition.tokens ++ signs.closing :: rest), bytecodes⟩, ifStack, loopStack,
        included⟩ =
      .ok (true, ⟨⟨signs.closing :: rest,
        bytecodes ++ condition.code config ++ [{ op := .conditionalJump }]⟩,
        ⟨some (bytecodes ++ condition.code config).length, []⟩ :: ifStack, loopStack, included⟩) := by
  have parsed : Parser.expression parse config content
      ⟨⟨condition.tokens ++ signs.closing :: rest, bytecodes⟩, ifStack, loopStack, included⟩ =
      .ok (true, ⟨⟨signs.closing :: rest, bytecodes ++ condition.code config⟩, ifStack, loopStack,
        included⟩) :=
    expression_parsed config parse content valid (signs.expressionEnds rest)
  rw [parseStatement_word, if_pos rfl, Parser.parseIf]
  simp [Parser.getNextToken, Parsing.getNextToken, parsed, bind,
    Except.bind, pure, Except.pure, Parser.emplaceBack, Parsing.emplaceBack]

theorem endif_parsed (signs : Signs) (sign : Word (word "endif")) (jump : Option Nat)
    (jumps : List Nat) :
    Parser.parseStatement parse config content path parseTemplate
      ⟨⟨sign.1 :: signs.closing :: rest, bytecodes⟩, ⟨jump, jumps⟩ :: ifStack, loopStack,
        included⟩ =
      .ok (true, ⟨⟨signs.closing :: rest, Parser.leadAll jumps bytecodes.length
        (jump.elim bytecodes fun jump => Parser.setArgs bytecodes jump bytecodes.length)⟩,
        ifStack, loopStack, included⟩) := by
  rw [parseStatement_word, if_neg (by decide), if_pos rfl, Parser.parseEndif]
  cases jump with
  | none =>
    simp only [Parser.foldl_leads]
    rfl
  | some jump =>
    simp only [Parser.foldl_leads]
    simp [Parser.leads, Parser.getNextToken, Parsing.getNextToken, Parser.length_setArgs]

/-- An `else` that no `if` follows. -/
theorem else_parsed (signs : Signs) (sign : Word (word "else")) {jump : Nat} (jumps : List Nat)
    (here : jump < bytecodes.length) :
    Parser.parseStatement parse config content path parseTemplate
      ⟨⟨sign.1 :: signs.closing :: rest, bytecodes⟩, ⟨some jump, jumps⟩ :: ifStack, loopStack,
        included⟩ =
      .ok (true, ⟨⟨signs.closing :: rest,
        Parser.setArgs bytecodes jump (bytecodes.length + 1) ++ [{ op := .jump }]⟩,
        ⟨none, jumps ++ [bytecodes.length]⟩ :: ifStack, loopStack, included⟩) := by
  have other : signs.closing.isWord (word "if") = false := by
    refine isWord_of_kind ?_ _
    rcases signs.matching with ⟨-, closing⟩ | ⟨-, closing⟩
    · rw [closing]
      nofun
    · rw [closing]
      nofun
  rw [parseStatement_word, if_neg (by decide), if_neg (by decide), if_pos rfl,
    Parser.parseElse]
  simp [Parser.getNextToken, Parsing.getNextToken, Parser.emplaceBack, Parsing.emplaceBack,
    Parser.leads, Parsing.tok, bind, Except.bind, pure, Except.pure, other,
    Parser.setArgs_append here]

theorem elseIf_parsed (signs : Signs) (sign : Word (word "else")) (ifSign : Word (word "if"))
    {condition : Expression} (valid : condition.Valid config parse content) {jump : Nat}
    (jumps : List Nat) (here : jump < bytecodes.length) :
    Parser.parseStatement parse config content path parseTemplate
      ⟨⟨sign.1 :: ifSign.1 :: (condition.tokens ++ signs.closing :: rest), bytecodes⟩,
        ⟨some jump, jumps⟩ :: ifStack, loopStack, included⟩ =
      .ok (true, ⟨⟨signs.closing :: rest,
        Parser.setArgs bytecodes jump (bytecodes.length + 1) ++ { op := .jump } ::
          (condition.code config ++ [{ op := .conditionalJump }])⟩,
        ⟨some (bytecodes.length + 1 + (condition.code config).length),
          jumps ++ [bytecodes.length]⟩ :: ifStack, loopStack, included⟩) := by
  have parsed : Parser.expression parse config content
      ⟨⟨condition.tokens ++ signs.closing :: rest,
        Parser.setArgs bytecodes jump (bytecodes.length + 1) ++ [{ op := .jump }]⟩,
        ⟨none, jumps ++ [bytecodes.length]⟩ :: ifStack, loopStack, included⟩ = _ :=
    expression_parsed config parse content valid (signs.expressionEnds rest)
  rw [parseStatement_word, if_neg (by decide), if_neg (by decide), if_pos rfl,
    Parser.parseElse]
  simp [Parser.getNextToken, Parsing.getNextToken, Parser.emplaceBack, Parsing.emplaceBack,
    Parser.leads, Parsing.tok, bind, Except.bind, pure, Except.pure, ifSign.2,
    Parser.setArgs_append here, parsed, Parser.length_setArgs]
  omega

theorem for_parsed (signs : Signs) (sign : Word (word "for")) (key : Option KeyName)
    (name : Kinded .id) (within : Word (word "in")) {values : Expression}
    (valid : values.Valid config parse content) :
    Parser.parseStatement parse config content path parseTemplate
      ⟨⟨sign.1 :: ((keyTokens key ++ name.1 :: within.1 :: values.tokens) ++ signs.closing :: rest),
        bytecodes⟩, ifStack, loopStack, included⟩ =
      .ok (true, ⟨⟨signs.closing :: rest, bytecodes ++ values.code config ++
        [{ op := .startLoop, value := keyValue key, str := name.1.text }]⟩,
        ifStack, (bytecodes ++ values.code config).length :: loopStack, included⟩) := by
  have parsed : Parser.expression parse config content
      ⟨⟨values.tokens ++ signs.closing :: rest, bytecodes⟩, ifStack, loopStack, included⟩ =
      .ok (true, ⟨⟨signs.closing :: rest, bytecodes ++ values.code config⟩, ifStack, loopStack,
        included⟩) :=
    expression_parsed config parse content valid (signs.expressionEnds rest)
  rw [parseStatement_word, if_neg (by decide), if_neg (by decide), if_neg (by decide),
    if_pos rfl, Parser.parseFor]
  cases key with
  | none =>
    have other : within.1.kind ≠ .comma := by
      rw [(Token.isWord_iff.mp within.2).1]
      nofun
    simp [keyTokens, keyValue, Parser.getNextToken, Parsing.getNextToken, Parsing.tok, name.2, other,
      within.2, parsed, bind, Except.bind, pure, Except.pure, Parser.emplaceBack, Parsing.emplaceBack]
  | some key =>
    simp [keyTokens, keyValue, Parser.getNextToken, Parsing.getNextToken, Parsing.tok, name.2,
      key.name.2, key.comma.2, key.named, within.2, parsed, bind, Except.bind, pure, Except.pure,
      Parser.emplaceBack, Parsing.emplaceBack]

theorem endfor_parsed (signs : Signs) (sign : Word (word "endfor")) (start : Nat) :
    Parser.parseStatement parse config content path parseTemplate
      ⟨⟨sign.1 :: signs.closing :: rest, bytecodes⟩, ifStack, start :: loopStack, included⟩ =
      .ok (true, ⟨⟨signs.closing :: rest, Parser.setArgs bytecodes start bytecodes.length ++
        [{ op := .endLoop, args := start + 1 }]⟩, ifStack, loopStack, included⟩) := by
  rw [parseStatement_word, if_neg (by decide), if_neg (by decide), if_neg (by decide),
    if_neg (by decide), if_pos rfl]
  rfl

theorem include_parsed (signs : Signs) (sign : Word (word "include")) (file : Kinded .string)
    {name : Bytes} {storage : TemplateStorage} (named : parse file.1.text = .ok (.string name))
    (loaded : Parser.loadAll parseTemplate included [Parser.includedName path name] = .ok storage) :
    Parser.parseStatement parse config content path parseTemplate
      ⟨⟨sign.1 :: file.1 :: signs.closing :: rest, bytecodes⟩, ifStack, loopStack, included⟩ =
      .ok (true, ⟨⟨signs.closing :: rest, bytecodes ++ [reference path name]⟩, ifStack, loopStack,
        storage⟩) := by
  rw [parseStatement_word, if_neg (by decide), if_neg (by decide), if_neg (by decide),
    if_neg (by decide), if_neg (by decide), if_pos rfl, Parser.parseInclude]
  rw [Parser.loadAll] at loaded
  cases found : included.lookup (Parser.includedName path name) with
  | some template =>
    rw [found] at loaded
    cases loaded
    simp [Parser.getNextToken, Parsing.getNextToken, Parsing.tok, file.2, named, found, bind,
      Except.bind, pure, Except.pure, Parser.emplaceBack, Parsing.emplaceBack, reference]
  | none =>
    rw [found] at loaded
    cases read : parseTemplate included (Parser.includedName path name) with
    | error failure =>
      rw [read] at loaded
      cases loaded
    | ok both =>
      rw [read] at loaded
      cases loaded
      simp [Parser.getNextToken, Parsing.getNextToken, Parsing.tok, file.2, named, found, read, bind,
        Except.bind, pure, Except.pure, Parser.emplaceBack, Parsing.emplaceBack, reference]

variable (parse path parseTemplate)

mutual

/-- The rounds over a part of a template add the code of the part to what is there. -/
theorem Items.parsed : (l : Items) → l.Valid config parse content →
    ∀ {fuel : Nat} {rest : List Token} {bytecodes : List Bytecode} {ifStack : List IfData}
      {loopStack : List Nat} {included storage : TemplateStorage},
      Parser.loadAll parseTemplate included (l.includes path) = .ok storage →
      Parser.parseInto parse config content path parseTemplate (l.rounds + fuel)
        ⟨⟨l.tokens ++ rest, bytecodes⟩, ifStack, loopStack, included⟩ =
        Parser.parseInto parse config content path parseTemplate fuel
          ⟨⟨rest, bytecodes ++ l.code config path bytecodes.length⟩, ifStack, loopStack, storage⟩
  | .none, _, fuel, rest, bytecodes, ifStack, loopStack, included, storage, loaded => by
    cases loaded
    rw [Items.rounds, Nat.zero_add, Items.tokens, List.nil_append, Items.code, List.append_nil]
  | .and first others, valid, fuel, rest, bytecodes, ifStack, loopStack, included, storage, loaded => by
    rw [Items.Valid] at valid
    rw [Items.includes] at loaded
    obtain ⟨between, one, two⟩ := Parser.loadAll_split loaded
    rw [Items.rounds, Nat.add_assoc, Items.tokens, List.append_assoc, first.parsed valid.1 one,
      others.parsed valid.2 two, Items.code, List.length_append, first.length_code, List.append_assoc]

theorem Item.parsed : (i : Item) → i.Valid config parse content →
    ∀ {fuel : Nat} {rest : List Token} {bytecodes : List Bytecode} {ifStack : List IfData}
      {loopStack : List Nat} {included storage : TemplateStorage},
      Parser.loadAll parseTemplate included (i.includes path) = .ok storage →
      Parser.parseInto parse config content path parseTemplate (i.rounds + fuel)
        ⟨⟨i.tokens ++ rest, bytecodes⟩, ifStack, loopStack, included⟩ =
        Parser.parseInto parse config content path parseTemplate fuel
          ⟨⟨rest, bytecodes ++ i.code config path bytecodes.length⟩, ifStack, loopStack, storage⟩
  | .text t, _, fuel, rest, bytecodes, ifStack, loopStack, included, storage, loaded => by
    cases loaded
    rw [Item.rounds, Item.tokens, Item.code, List.singleton_append]
    refine parseInto_round config parse content path parseTemplate fuel ?_
    rw [Parser.parseOne, t.2]
    rfl
  | .comment opening closing, _, fuel, rest, bytecodes, ifStack, loopStack, included, storage,
      loaded => by
    cases loaded
    rw [Item.rounds, Item.tokens, Item.code, List.append_nil, List.cons_append]
    refine parseInto_round config parse content path parseTemplate fuel ?_
    rw [Parser.parseOne, opening.2]
    simp [Parsing.tok, closing.2, pure, Except.pure, Parser.getNextToken, Parsing.getNextToken]
  | .emptyLine opening closing, _, fuel, rest, bytecodes, ifStack, loopStack, included, storage,
      loaded => by
    cases loaded
    rw [Item.rounds, Item.tokens, Item.code, List.append_nil, List.cons_append]
    refine parseInto_round config parse content path parseTemplate fuel ?_
    rw [Parser.parseOne, opening.2]
    simp [Parser.parseStatement, Parsing.tok, closing.2, bind, Except.bind, pure, Except.pure,
      Parser.getNextToken, Parsing.getNextToken]
  | .print opening e closing, valid, fuel, rest, bytecodes, ifStack, loopStack, included, storage,
      loaded => by
    cases loaded
    rw [Item.Valid] at valid
    have parsed : Parser.expression parse config content
        ⟨⟨e.tokens ++ closing.1 :: rest, bytecodes⟩, ifStack, loopStack, included⟩ =
        .ok (true, ⟨⟨closing.1 :: rest, bytecodes ++ e.code config⟩, ifStack, loopStack,
          included⟩) :=
      expression_parsed config parse content valid
        (expressionEnds_of_closes (by rw [List.headD_cons, closing.2]; rfl))
    rw [Item.rounds, Item.tokens, Item.code, List.cons_append, List.append_assoc,
      List.singleton_append]
    refine parseInto_round config parse content path parseTemplate fuel ?_
    rw [Parser.parseOne, opening.2]
    simp [parsed, Parsing.tok, closing.2, bind, Except.bind, pure, Except.pure, Parser.getNextToken,
      Parsing.getNextToken, appendFunction_append (e.code_ne_nil config)]
  | .conditional signs sign condition body others, valid, fuel, rest, bytecodes, ifStack,
      loopStack, included, storage, loaded => by
    rw [Item.Valid] at valid
    obtain ⟨holds, inside, behind⟩ := valid
    rw [Item.includes] at loaded
    obtain ⟨between, one, two⟩ := Parser.loadAll_split loaded
    rw [Item.rounds, Nat.add_assoc, Nat.add_assoc, Item.tokens, List.append_assoc, List.append_assoc]
    refine (signs.round config parse content path parseTemplate (sign.1 :: condition.tokens) _
      (if_parsed config content signs sign holds) (by rfl)).trans ?_
    refine (body.parsed inside one).trans ?_
    refine (others.parsed behind two ?_ (List.forall_mem_nil _)).trans ?_
    · simp only [List.length_append, List.length_singleton]
      omega
    have start : (bytecodes ++ condition.code config ++ [({ op := .conditionalJump } : Bytecode)]).length =
        bytecodes.length + (condition.code config).length + 1 := by
      simp only [List.length_append, List.length_singleton]
    have filled (args : Nat) (behind : List Bytecode) : Parser.setArgs
        (bytecodes ++ condition.code config ++ [{ op := .conditionalJump }] ++ behind)
        (bytecodes ++ condition.code config).length args =
        bytecodes ++ (condition.code config ++ { op := .conditionalJump, args := args } :: behind) := by
      rw [List.append_assoc, List.singleton_append, Parser.setArgs_at, List.append_assoc]
    dsimp only [Parser.getNextToken, Parsing.getNextToken, List.tail_cons]
    rw [filled, List.length_append, start, body.length_code, Item.code, Parser.leadAll, List.foldl_nil,
      List.append_assoc, List.append_assoc, List.cons_append]
  | .loop signs sign key name within values body ending endSign, valid, fuel, rest, bytecodes,
      ifStack, loopStack, included, storage, loaded => by
    rw [Item.Valid] at valid
    rw [Item.rounds, Nat.add_assoc, Nat.add_assoc, Item.tokens, List.append_assoc, List.append_assoc]
    refine (signs.round config parse content path parseTemplate
      (sign.1 :: (keyTokens key ++ name.1 :: within.1 :: values.tokens)) _
      (for_parsed config content signs sign key name within valid.1) (by rfl)).trans ?_
    rw [Item.includes] at loaded
    refine (body.parsed valid.2 loaded).trans ?_
    refine (ending.round config parse content path parseTemplate [endSign.1] _
      (endfor_parsed config content ending endSign _) (by rfl)).trans ?_
    have start (b : Bytecode) : (bytecodes ++ values.code config ++ [b]).length =
        bytecodes.length + (values.code config).length + 1 := by
      simp only [List.length_append, List.length_singleton]
    have filled (b : Bytecode) (args : Nat) (behind : List Bytecode) : Parser.setArgs
        (bytecodes ++ values.code config ++ [b] ++ behind)
        (bytecodes ++ values.code config).length args =
        bytecodes ++ (values.code config ++ { b with args := args } :: behind) := by
      rw [List.append_assoc, List.singleton_append, Parser.setArgs_at, List.append_assoc]
    dsimp only [Parser.getNextToken, Parsing.getNextToken, List.tail_cons]
    rw [filled, List.length_append, start, body.length_code, Item.code, List.length_append,
      List.append_assoc, List.append_assoc, List.cons_append]
  | .include signs sign file name, valid, fuel, rest, bytecodes, ifStack, loopStack, included,
      storage, loaded => by
    rw [Item.Valid] at valid
    rw [Item.rounds, Item.tokens, Item.code]
    exact signs.round config parse content path parseTemplate [sign.1, file.1] fuel
      (include_parsed config content signs sign file valid loaded) (by rfl)

/-- What follows a condition leads the jumps that wait for it. -/
theorem Alternative.parsed : (a : Alternative) → a.Valid config parse content →
    ∀ {fuel : Nat} {rest : List Token} {bytecodes : List Bytecode} {ifStack : List IfData}
      {loopStack : List Nat} {included storage : TemplateStorage} {jump : Nat} {jumps : List Nat},
      Parser.loadAll parseTemplate included (a.includes path) = .ok storage →
      jump < bytecodes.length → (∀ earlier ∈ jumps, earlier < bytecodes.length) →
      Parser.parseInto parse config content path parseTemplate (a.rounds + fuel)
        ⟨⟨a.tokens ++ rest, bytecodes⟩, ⟨some jump, jumps⟩ :: ifStack, loopStack, included⟩ =
        Parser.parseInto parse config content path parseTemplate fuel
          ⟨⟨rest, Parser.leadAll jumps (bytecodes.length + a.size config)
              (Parser.setArgs bytecodes jump (a.target bytecodes.length)) ++
            a.code config path bytecodes.length (bytecodes.length + a.size config)⟩,
            ifStack, loopStack, storage⟩
  | .endif signs sign, _, fuel, rest, bytecodes, ifStack, loopStack, included, storage, jump, jumps,
      loaded, here, earlier => by
    cases loaded
    rw [Alternative.rounds, Alternative.tokens, Alternative.code, List.append_nil]
    exact signs.round config parse content path parseTemplate [sign.1] fuel
      (endif_parsed config content signs sign (some jump) jumps) (by rfl)
  | .otherwise signs sign body ending endSign, valid, fuel, rest, bytecodes, ifStack, loopStack,
      included, storage, jump, jumps, loaded, here, earlier => by
    rw [Alternative.Valid] at valid
    rw [Alternative.rounds, Nat.add_assoc, Nat.add_assoc, Alternative.tokens, List.append_assoc,
      List.append_assoc]
    refine (signs.round config parse content path parseTemplate [sign.1] _
      (else_parsed config content signs sign jumps here) (by rfl)).trans ?_
    rw [Alternative.includes] at loaded
    refine (body.parsed valid loaded).trans ?_
    refine (ending.round config parse content path parseTemplate [endSign.1] _
      (endif_parsed config content ending endSign none _) (by rfl)).trans ?_
    have front : bytecodes.length =
        (Parser.setArgs bytecodes jump (bytecodes.length + 1)).length :=
      (Parser.length_setArgs _ _ _).symm
    have start (b : Bytecode) : (Parser.setArgs bytecodes jump (bytecodes.length + 1) ++ [b]).length =
        bytecodes.length + 1 := by
      rw [List.length_append, ← front, List.length_singleton]
    have finish : (Parser.setArgs bytecodes jump (bytecodes.length + 1) ++
        ({ op := .jump } : Bytecode) :: body.code config path (bytecodes.length + 1)).length =
        bytecodes.length + (1 + body.size config) := by
      rw [List.length_append, ← front, List.length_cons, body.length_code, Nat.add_comm 1]
    have before : ∀ one ∈ jumps,
        one < (Parser.setArgs bytecodes jump (bytecodes.length + 1)).length := by
      rwa [← front]
    have all := Parser.leadAll_last before (bytecodes.length + (1 + body.size config))
      ({ op := .jump } : Bytecode) (body.code config path (bytecodes.length + 1))
    dsimp only [Parser.getNextToken, Parsing.getNextToken, List.tail_cons, Option.elim_none]
    rw [start, List.append_assoc, List.singleton_append, finish, Alternative.size, Alternative.target,
      Alternative.code]
    rw [← front] at all
    rw [all]
  | .elseIf signs sign ifSign condition body others, valid, fuel, rest, bytecodes, ifStack,
      loopStack, included, storage, jump, jumps, loaded, here, earlier => by
    rw [Alternative.Valid] at valid
    obtain ⟨holds, inside, behind⟩ := valid
    rw [Alternative.includes] at loaded
    obtain ⟨between, one, two⟩ := Parser.loadAll_split loaded
    rw [Alternative.rounds, Nat.add_assoc, Nat.add_assoc, Alternative.tokens, List.append_assoc,
      List.append_assoc]
    refine (signs.round config parse content path parseTemplate
      (sign.1 :: ifSign.1 :: condition.tokens) _
      (elseIf_parsed config content signs sign ifSign holds jumps here) (by rfl)).trans ?_
    refine (body.parsed inside one).trans ?_
    refine (others.parsed behind two ?_ ?_).trans ?_
    · simp only [List.length_append, List.length_cons, Parser.length_setArgs]
      omega
    · intro one there
      simp only [List.length_append, List.length_cons, Parser.length_setArgs]
      rcases List.mem_append.mp there with before | this
      · have less := earlier one before
        omega
      · rw [List.mem_singleton.mp this]
        omega
    have front : bytecodes.length =
        (Parser.setArgs bytecodes jump (bytecodes.length + 1)).length :=
      (Parser.length_setArgs _ _ _).symm
    dsimp only [Parser.getNextToken, Parsing.getNextToken, List.tail_cons]
    rw [Alternative.size, Alternative.target, Alternative.code]
    generalize Parser.setArgs bytecodes jump (bytecodes.length + 1) = filled at front ⊢
    generalize condition.code config = code
    have start (last : Bytecode) : (filled ++ ({ op := .jump } : Bytecode) :: (code ++ [last])).length =
        bytecodes.length + 1 + code.length + 1 := by
      simp only [List.length_append, List.length_cons, List.length_nil, ← front]
      omega
    rw [start, List.length_append, start, body.length_code]
    have inner := body.length_code config path (bytecodes.length + 1 + code.length + 1)
    generalize body.code config path (bytecodes.length + 1 + code.length + 1) = written at inner ⊢
    have finish : bytecodes.length + 1 + code.length + 1 + body.size config + others.size config =
        bytecodes.length + (1 + (code.length + 1 + body.size config + others.size config)) := by
      omega
    rw [finish]
    generalize bytecodes.length + (1 + (code.length + 1 + body.size config + others.size config)) =
      finish
    generalize others.target (bytecodes.length + 1 + code.length + 1 + body.size config) = target
    have pieces (b c : Bytecode) : filled ++ b :: (code ++ [c]) ++ written =
        (filled ++ b :: code) ++ c :: written := by
      simp only [List.append_assoc, List.cons_append, List.nil_append]
    have place (b : Bytecode) : (filled ++ b :: code).length = bytecodes.length + 1 + code.length := by
      rw [List.length_append, ← front, List.length_cons]
      omega
    have jumped (c : Bytecode) := Parser.leadAll_last (by rwa [← front]) finish
      ({ op := .jump } : Bytecode) (code ++ c :: written)
    rw [pieces, ← place { op := .jump }, Parser.setArgs_at, List.append_assoc, List.cons_append, front,
      jumped, List.append_assoc, List.cons_append, List.append_assoc, List.cons_append]

end

end Rounds

theorem Signs.length_around (signs : Signs) (inside : List Token) :
    (signs.around inside).length = inside.length + 2 := by
  rw [Signs.around, List.length_cons, List.length_append, List.length_singleton]

mutual

theorem Items.rounds_le : (l : Items) → l.rounds ≤ l.tokens.length
  | .none => Nat.zero_le _
  | .and first rest => by
    rw [Items.rounds, Items.tokens, List.length_append]
    exact Nat.add_le_add first.rounds_le rest.rounds_le

theorem Item.rounds_le : (i : Item) → i.rounds ≤ i.tokens.length
  | .text _ => Nat.le_refl _
  | .comment _ _ => Nat.le_succ _
  | .emptyLine _ _ => Nat.le_succ _
  | .print _ _ _ => by
    rw [Item.rounds, Item.tokens, List.length_cons]
    exact Nat.succ_le_succ (Nat.zero_le _)
  | .conditional _ _ _ body rest => by
    have inside := body.rounds_le
    have behind := rest.rounds_le
    rw [Item.rounds, Item.tokens, List.length_append, List.length_append, Signs.length_around]
    omega
  | .loop _ _ _ _ _ _ body _ _ => by
    have inside := body.rounds_le
    rw [Item.rounds, Item.tokens, List.length_append, List.length_append, Signs.length_around,
      Signs.length_around]
    omega
  | .include _ _ _ _ => by
    rw [Item.rounds, Item.tokens, Signs.length_around]
    exact Nat.succ_le_succ (Nat.zero_le _)

theorem Alternative.rounds_le : (a : Alternative) → a.rounds ≤ a.tokens.length
  | .endif _ _ => by
    rw [Alternative.rounds, Alternative.tokens, Signs.length_around]
    exact Nat.succ_le_succ (Nat.zero_le _)
  | .otherwise _ _ body _ _ => by
    have inside := body.rounds_le
    rw [Alternative.rounds, Alternative.tokens, List.length_append, List.length_append,
      Signs.length_around, Signs.length_around]
    omega
  | .elseIf _ _ _ _ body rest => by
    have inside := body.rounds_le
    have behind := rest.rounds_le
    rw [Alternative.rounds, Alternative.tokens, List.length_append, List.length_append,
      Signs.length_around]
    omega

end

/-- A text whose tokens are those of a tree becomes the code of the tree. -/
theorem Items.parseText_code {config : ParserConfig} {parse : Bytes → Except Failure Json}
    {content path : Bytes} {lexer : LexerConfig} {included storage : TemplateStorage}
    {parseTemplate : TemplateStorage → Bytes → Except Failure (Template × TemplateStorage)}
    {l : Items} (valid : l.Valid config parse content)
    (loaded : Parser.loadAll parseTemplate included (l.includes path) = .ok storage)
    (written : Lexer.tokens lexer content = l.tokens) :
    Parser.parseText parse config lexer parseTemplate included content path =
      .ok (⟨l.code config path 0, content⟩, storage) := by
  obtain ⟨more, enough⟩ := Nat.exists_eq_add_of_le l.rounds_le
  have all : Parser.parseInto parse config content path parseTemplate (l.rounds + (more + 1))
      ⟨⟨l.tokens ++ [], []⟩, [], [], included⟩ =
      Parser.parseInto parse config content path parseTemplate (more + 1)
        ⟨⟨[], [] ++ l.code config path 0⟩, [], [], storage⟩ :=
    l.parsed config parse content path parseTemplate valid loaded
  rw [List.append_nil, List.nil_append] at all
  rw [Parser.parseText, written, enough]
  simp only [Nat.add_assoc, all]
  rfl

end Inja
end Da4qi4
