import Da4qi4.Inja.Trees

/-! The parser makes the bytecodes of the tree whose tokens it reads: expressions. The fuel
that is asked for grows with the tokens, by six for each. -/
namespace Da4qi4
open Valuetool (Json)
namespace Inja
open Bytecode (Op Flag)

variable {config : ParserConfig} {parse : Bytes → Except Failure Json} {content : Bytes}

theorem appendFunction_append {code : List Bytecode} (some_ : code ≠ []) (front : List Bytecode)
    (op : Op) (numArgs : Nat) :
    appendFunction (front ++ code) op numArgs = front ++ appendFunction code op numArgs := by
  rw [appendFunction, appendFunction, List.getLast?_append_of_ne_nil _ some_,
    List.dropLast_append_of_ne_nil some_]
  split
  · split
    · rw [List.append_assoc]
    · rw [List.append_assoc]
  · rw [List.append_assoc]

theorem appendCallback_append {code : List Bytecode} (some_ : code ≠ []) (front : List Bytecode)
    (name : Bytes) (numArgs : Nat) :
    appendCallback (front ++ code) name numArgs = front ++ appendCallback code name numArgs := by
  rw [appendCallback, appendCallback, List.getLast?_append_of_ne_nil _ some_,
    List.dropLast_append_of_ne_nil some_]
  split
  · split
    · rw [List.append_assoc]
    · rw [List.append_assoc]
  · rw [List.append_assoc]

theorem appendFunction_ne_nil (code : List Bytecode) (op : Op) (numArgs : Nat) :
    appendFunction code op numArgs ≠ [] := by
  rw [appendFunction]
  split
  · split
    · exact List.append_ne_nil_of_right_ne_nil _ (List.cons_ne_nil _ _)
    · exact List.append_ne_nil_of_right_ne_nil _ (List.cons_ne_nil _ _)
  · exact List.append_ne_nil_of_right_ne_nil _ (List.cons_ne_nil _ _)

theorem appendCallback_ne_nil (code : List Bytecode) (name : Bytes) (numArgs : Nat) :
    appendCallback code name numArgs ≠ [] := by
  rw [appendCallback]
  split
  · split
    · exact List.append_ne_nil_of_right_ne_nil _ (List.cons_ne_nil _ _)
    · exact List.append_ne_nil_of_right_ne_nil _ (List.cons_ne_nil _ _)
  · exact List.append_ne_nil_of_right_ne_nil _ (List.cons_ne_nil _ _)

theorem callCode_ne_nil (name : Bytes) (numArgs : Nat) (code : List Bytecode) :
    callCode name numArgs code ≠ [] := by
  rw [callCode]
  split
  · exact appendFunction_ne_nil _ _ _
  · exact appendCallback_ne_nil _ _ _

section Nonempty
variable (config : ParserConfig)

mutual

theorem Expression.code_ne_nil : (e : Expression) → e.code config ≠ []
  | .only e => by rw [Expression.code]; exact e.code_ne_nil
  | .or _ _ _ => by rw [Expression.code]; exact appendFunction_ne_nil _ _ _

theorem Conjunction.code_ne_nil : (e : Conjunction) → e.code config ≠ []
  | .only e => by rw [Conjunction.code]; exact e.code_ne_nil
  | .and _ _ _ => by rw [Conjunction.code]; exact appendFunction_ne_nil _ _ _

theorem Negation.code_ne_nil : (e : Negation) → e.code config ≠ []
  | .only e => by rw [Negation.code]; exact e.code_ne_nil
  | .not _ _ => by rw [Negation.code]; exact appendFunction_ne_nil _ _ _

theorem Comparison.code_ne_nil : (e : Comparison) → e.code config ≠ []
  | .only e => by rw [Comparison.code]; exact e.code_ne_nil
  | .compare _ _ _ => by rw [Comparison.code]; exact appendFunction_ne_nil _ _ _

theorem Datum.code_ne_nil : (e : Datum) → e.code config ≠ []
  | .group _ e _ => by rw [Datum.code]; exact e.code_ne_nil
  | .call _ _ _ _ => by rw [Datum.code]; exact callCode_ne_nil _ _ _
  | .lookup _ => by rw [Datum.code]; exact List.cons_ne_nil _ _
  | .literal _ _ => by rw [Datum.code]; exact List.cons_ne_nil _ _

end

theorem Arguments.code_ne_nil (a : Arguments) : a.code config ≠ [] := by
  cases a with
  | last e =>
    rw [Arguments.code]
    exact e.code_ne_nil config
  | more e comma rest =>
    rw [Arguments.code]
    exact List.append_ne_nil_of_left_ne_nil (e.code_ne_nil config) _

end Nonempty

theorem swapLast_pair (front : List Bytecode) (first second : Bytecode) :
    swapLast (front ++ [first, second]) = front ++ [second, first] := by
  rw [swapLast, List.reverse_append]
  simp

theorem Arguments.DefaultWorks.shape {a : Arguments} (works : a.DefaultWorks config) :
    ∃ place comma fallback push single, a = .more place comma (.last fallback) ∧
      place.code config = [push] ∧ push.op = .push ∧ fallback.code config = [single] := by
  cases a with
  | last e => cases works
  | more place comma rest =>
    cases rest with
    | more _ _ _ => cases works
    | last fallback =>
      obtain ⟨⟨push, code, pushes⟩, single⟩ := works
      obtain ⟨bytecode, only⟩ := List.length_eq_one_iff.mp single
      exact ⟨place, comma, fallback, push, bytecode, rfl, code, pushes, only⟩

theorem Arguments.DefaultWorks.code {a : Arguments} (works : a.DefaultWorks config) :
    ∃ push single, a.code config = [push, single] ∧ push.op = .push := by
  obtain ⟨place, comma, fallback, push, single, rfl, code, pushes, only⟩ := works.shape
  exact ⟨push, single, by rw [Arguments.code, Arguments.code, code, only]; rfl, pushes⟩

/-- What the parser does for a call, behind other bytecodes. -/
theorem callCode_append {a : Arguments} {name : Bytes}
    (works : findBuiltin name a.count = .default → a.DefaultWorks config)
    (front : List Bytecode) :
    (if findBuiltin name a.count ≠ .nop then
      appendFunction (if findBuiltin name a.count = .default then swapLast (front ++ a.code config)
        else front ++ a.code config) (findBuiltin name a.count) a.count
      else appendCallback (front ++ a.code config) name a.count) =
      front ++ callCode name a.count (a.code config) := by
  rw [callCode]
  have some_ := a.code_ne_nil config
  split
  · split
    · rename_i isDefault
      obtain ⟨push, single, code, -⟩ := (works isDefault).code
      have alone := swapLast_pair [] push single
      rw [List.nil_append, List.nil_append] at alone
      rw [code, swapLast_pair, alone]
      exact appendFunction_append (List.cons_ne_nil _ _) _ _ _
    · exact appendFunction_append some_ _ _ _
  · exact appendCallback_append some_ _ _ _

/-- The token behind a datum, which does not make a call of it. -/
structure DatumEnds (t : Token) : Prop where
  paren : t.kind ≠ .leftParen

structure ComparisonEnds (t : Token) : Prop extends DatumEnds t where
  sign : comparisonOp t = none

structure ConjunctionEnds (t : Token) : Prop extends ComparisonEnds t where
  and : t.isWord (word "and") = false

structure ExpressionEnds (t : Token) : Prop extends ConjunctionEnds t where
  or : t.isWord (word "or") = false

theorem Token.isWord_iff {t : Token} {text : Bytes} :
    t.isWord text = true ↔ t.kind = .id ∧ t.text = text := by
  rw [isWord, Bool.and_eq_true, decide_eq_true_eq, decide_eq_true_eq]

theorem isWord_of_kind {t : Token} (other : t.kind ≠ .id) (text : Bytes) :
    t.isWord text = false :=
  Bool.eq_false_iff.mpr fun is => other (Token.isWord_iff.mp is).1

theorem isWord_of_text {t : Token} {text : Bytes} (other : t.text ≠ text) :
    t.isWord text = false :=
  Bool.eq_false_iff.mpr fun is => other (Token.isWord_iff.mp is).2

/-- The tokens that end whatever stands in front of them. -/
def Token.Kind.closes : Token.Kind → Bool
  | .rightParen | .comma | .expressionClose | .statementClose | .lineStatementClose => true
  | _ => false

theorem expressionEnds_of_closes {t : Token} (closes : t.kind.closes = true) :
    ExpressionEnds t := by
  have id : t.kind ≠ .id := by
    intro kind
    rw [kind] at closes
    cases closes
  refine ⟨⟨⟨⟨fun kind => ?_⟩, ?_⟩, isWord_of_kind id _⟩, isWord_of_kind id _⟩
  · rw [kind] at closes
    cases closes
  · rw [comparisonOp]
    split
    all_goals simp_all [Token.Kind.closes]

theorem comparisonEnds_and (sign : Word (word "and")) : ComparisonEnds sign.1 := by
  obtain ⟨kind, text⟩ := Token.isWord_iff.mp sign.2
  refine ⟨⟨?_⟩, ?_⟩
  · rw [kind]
    nofun
  · rw [comparisonOp, kind, text]
    rfl

theorem conjunctionEnds_or (sign : Word (word "or")) : ConjunctionEnds sign.1 := by
  obtain ⟨kind, text⟩ := Token.isWord_iff.mp sign.2
  refine ⟨⟨⟨?_⟩, ?_⟩, isWord_of_text ?_⟩
  · rw [kind]
    nofun
  · rw [comparisonOp, kind, text]
    rfl
  · rw [text]
    decide

theorem datumEnds_operator (sign : Operator) : DatumEnds sign.1 := by
  refine ⟨fun kind => ?_⟩
  have some_ := sign.2
  rw [comparisonOp, kind] at some_
  cases some_

theorem isLiteral_head {t : Token} (is : isLiteral bracketLevel braceLevel (t :: tokens) = true) :
    t.kind ≠ .leftParen := by
  intro kind
  rw [isLiteral, kind] at is
  cases is

/-- The loop over the tokens of a literal comes to its last token. -/
theorem parseExpressionDatum_literal {tokens : List Token} {bracketLevel braceLevel : Nat}
    (is : isLiteral bracketLevel braceLevel tokens = true) (enough : tokens.length ≤ fuel)
    (ends : DatumEnds (rest.headD { kind := .eof })) (jsonFirst : Nat) (bytecodes : List Bytecode) :
    ∃ first last, tokens.head? = some first ∧ tokens.getLast? = some last ∧
      parseExpressionDatum parse config content fuel jsonFirst bracketLevel braceLevel
        ⟨tokens ++ rest, bytecodes⟩ =
        returnJson parse content
          (if bracketLevel = 0 && braceLevel = 0 then first.start else jsonFirst)
          ⟨last :: rest, bytecodes⟩ := by
  induction tokens generalizing fuel jsonFirst bracketLevel braceLevel with
  | nil => cases is
  | cons t tokens ih =>
    obtain ⟨fuel, rfl⟩ := Nat.exists_eq_add_of_le' (Nat.le_of_add_left_le enough)
    have enough := Nat.le_of_add_le_add_right enough
    -- Inside, the loop goes on with the tokens behind.
    have goesOn {bracketLevel braceLevel : Nat} (jsonFirst : Nat)
        (is : isLiteral bracketLevel braceLevel tokens = true)
        (inside : (decide (bracketLevel = 0) && decide (braceLevel = 0)) = false) :
        ∃ last, (t :: tokens).getLast? = some last ∧
          parseExpressionDatum parse config content fuel jsonFirst bracketLevel braceLevel
            ⟨tokens ++ rest, bytecodes⟩ =
              returnJson parse content jsonFirst ⟨last :: rest, bytecodes⟩ := by
      obtain ⟨first, last, -, isLast, same⟩ := ih is enough jsonFirst
      refine ⟨last, ?_, ?_⟩
      · rw [List.getLast?_cons, isLast]
        rfl
      · rw [same, inside]
        rfl
    have tok : (⟨t :: tokens ++ rest, bytecodes⟩ : Parsing).tok = t := rfl
    have next : (⟨t :: tokens ++ rest, bytecodes⟩ : Parsing).getNextToken =
      ⟨tokens ++ rest, bytecodes⟩ := rfl
    refine ⟨t, ?_⟩
    suffices ends : ∃ last, (t :: tokens).getLast? = some last ∧
        parseExpressionDatum parse config content (fuel + 1) jsonFirst bracketLevel braceLevel
          ⟨t :: tokens ++ rest, bytecodes⟩ =
          returnJson parse content
            (if bracketLevel = 0 && braceLevel = 0 then t.start else jsonFirst)
            ⟨last :: rest, bytecodes⟩ by
      obtain ⟨last, isLast, same⟩ := ends
      exact ⟨last, rfl, isLast, same⟩
    rw [isLiteral] at is
    rw [parseExpressionDatum]
    simp only [tok, next]
    cases kind : t.kind
    case number | string =>
      simp only [kind] at is ⊢
      split at is
      · rename_i outside
        obtain rfl := List.isEmpty_iff.mp is
        rw [if_pos outside, if_pos outside]
        exact ⟨t, rfl, rfl⟩
      · rename_i inside
        rw [if_neg inside, if_neg inside]
        exact goesOn jsonFirst is (Bool.eq_false_iff.mpr inside)
    case id =>
      simp only [kind] at is ⊢
      obtain ⟨literal, is⟩ := Bool.and_eq_true_iff.mp is
      have literal := of_decide_eq_true literal
      split at is
      · rename_i outside
        obtain rfl := List.isEmpty_iff.mp is
        have call : ¬(⟨[t] ++ rest, bytecodes⟩ : Parsing).peekTok.kind = .leftParen := ends.paren
        rw [if_neg call, if_pos literal, if_pos outside, if_pos outside]
        exact ⟨t, rfl, rfl⟩
      · rename_i inside
        have call : ¬(⟨t :: tokens ++ rest, bytecodes⟩ : Parsing).peekTok.kind = .leftParen := by
          cases tokens with
          | nil => cases is
          | cons u tokens => exact isLiteral_head is
        rw [if_neg call, if_pos literal, if_neg inside, if_neg inside]
        exact goesOn jsonFirst is (Bool.eq_false_iff.mpr inside)
    case comma | colon =>
      simp only [kind] at is ⊢
      obtain ⟨inside, is⟩ := Bool.and_eq_true_iff.mp is
      have inside := (Bool.not_eq_true' _).mp inside
      rw [inside]
      exact goesOn jsonFirst is inside
    case leftBracket =>
      simp only [kind] at is ⊢
      exact goesOn _ is (by simp)
    case leftBrace =>
      simp only [kind] at is ⊢
      exact goesOn _ is (by simp)
    case rightBracket =>
      simp only [kind] at is ⊢
      obtain ⟨level, is⟩ := Bool.and_eq_true_iff.mp is
      have level := of_decide_eq_true level
      have outside : (decide (bracketLevel = 0) && decide (braceLevel = 0)) = false := by
        rw [decide_eq_false level, Bool.false_and]
      rw [if_neg level, outside]
      split
      · rename_i last
        rw [if_pos last] at is
        obtain rfl := List.isEmpty_iff.mp is
        exact ⟨t, rfl, rfl⟩
      · rename_i more
        rw [if_neg more] at is
        exact goesOn jsonFirst is (by simp only [Bool.and_eq_false_iff, decide_eq_false_iff_not]; omega)
    case rightBrace =>
      simp only [kind] at is ⊢
      obtain ⟨level, is⟩ := Bool.and_eq_true_iff.mp is
      have level := of_decide_eq_true level
      have outside : (decide (bracketLevel = 0) && decide (braceLevel = 0)) = false := by
        rw [decide_eq_false level, Bool.and_false]
      rw [if_neg level, outside]
      split
      · rename_i last
        rw [if_pos last] at is
        obtain rfl := List.isEmpty_iff.mp is
        exact ⟨t, rfl, rfl⟩
      · rename_i more
        rw [if_neg more] at is
        exact goesOn jsonFirst is (by simp only [Bool.and_eq_false_iff, decide_eq_false_iff_not]; omega)
    all_goals
      rw [kind] at is
      cases is

theorem comparisonOp_eq (sign : Operator) : comparisonOp sign.1 = some sign.op :=
  (Option.some_get sign.2).symm

/-- The first token of a datum neither negates nor ends a call without arguments. -/
structure Begins (t : Token) : Prop where
  not : t.isWord (word "not") = false
  paren : t.kind ≠ .rightParen

theorem begins_of_kind {t : Token} (id : t.kind ≠ .id) (paren : t.kind ≠ .rightParen) : Begins t :=
  ⟨isWord_of_kind id _, paren⟩

theorem begins_of_text {t : Token} (id : t.kind = .id) (text : t.text ≠ word "not") : Begins t := by
  refine ⟨isWord_of_text text, ?_⟩
  rw [id]
  nofun

theorem begins_literal (l : Literal) : ∃ t rest, l.1 = t :: rest ∧ Begins t := by
  obtain ⟨tokens, is⟩ := l
  cases tokens with
  | nil => cases is
  | cons t rest =>
    refine ⟨t, rest, rfl, ?_⟩
    by_cases id : t.kind = .id
    · rw [isLiteral, id] at is
      obtain ⟨literal, -⟩ := Bool.and_eq_true_iff.mp is
      refine begins_of_text id fun text => ?_
      rw [text] at literal
      revert literal
      decide
    · refine begins_of_kind id fun paren => ?_
      rw [isLiteral, paren] at is
      cases is

theorem Datum.begins (e : Datum) : ∃ t rest, e.tokens = t :: rest ∧ Begins t := by
  cases e with
  | group opening e closing =>
    refine ⟨opening.1, _, by rw [Datum.tokens], begins_of_kind ?_ ?_⟩
    · rw [opening.2]
      nofun
    · rw [opening.2]
      nofun
  | call name opening arguments closing =>
    exact ⟨name.1, _, by rw [Datum.tokens], begins_of_text name.2.1 name.2.2⟩
  | lookup name => exact ⟨name.1, [], by rw [Datum.tokens], begins_of_text name.2.1 name.2.2.1⟩
  | literal tokens value =>
    rw [Datum.tokens]
    exact begins_literal tokens

theorem Comparison.begins (e : Comparison) : ∃ t rest, e.tokens = t :: rest ∧ Begins t := by
  cases e with
  | only e =>
    rw [Comparison.tokens]
    exact e.begins
  | compare left sign right =>
    obtain ⟨t, rest, first, begins⟩ := left.begins
    exact ⟨t, _, by rw [Comparison.tokens, first]; rfl, begins⟩

theorem Negation.begins (e : Negation) : ∃ t rest, e.tokens = t :: rest ∧ t.kind ≠ .rightParen := by
  cases e with
  | only e =>
    obtain ⟨t, rest, first, begins⟩ := e.begins
    exact ⟨t, rest, by rw [Negation.tokens, first], begins.paren⟩
  | not sign e =>
    refine ⟨sign.1, _, by rw [Negation.tokens], ?_⟩
    rw [(Token.isWord_iff.mp sign.2).1]
    nofun

theorem Conjunction.begins (e : Conjunction) :
    ∃ t rest, e.tokens = t :: rest ∧ t.kind ≠ .rightParen := by
  cases e with
  | only e =>
    rw [Conjunction.tokens]
    exact e.begins
  | and left sign right =>
    obtain ⟨t, rest, first, begins⟩ := left.begins
    exact ⟨t, _, by rw [Conjunction.tokens, first]; rfl, begins⟩

theorem Expression.begins (e : Expression) :
    ∃ t rest, e.tokens = t :: rest ∧ t.kind ≠ .rightParen := by
  cases e with
  | only e =>
    rw [Expression.tokens]
    exact e.begins
  | or left sign right =>
    obtain ⟨t, rest, first, begins⟩ := left.begins
    exact ⟨t, _, by rw [Expression.tokens, first]; rfl, begins⟩

theorem Arguments.begins (a : Arguments) :
    ∃ t rest, a.tokens = t :: rest ∧ t.kind ≠ .rightParen := by
  cases a with
  | last e =>
    rw [Arguments.tokens]
    exact e.begins
  | more e comma others =>
    obtain ⟨t, rest, first, begins⟩ := e.begins
    exact ⟨t, _, by rw [Arguments.tokens, first]; rfl, begins⟩

section Parsed
variable (config : ParserConfig) (parse : Bytes → Except Failure Json) (content : Bytes)

mutual

theorem Expression.parsed : (e : Expression) → e.Valid config parse content →
    ∀ {fuel : Nat} {rest : List Token} {bytecodes : List Bytecode},
      6 * e.tokens.length + 5 ≤ fuel → ExpressionEnds (rest.headD { kind := .eof }) →
      parseExpression parse config content fuel ⟨e.tokens ++ rest, bytecodes⟩ =
        .ok (true, ⟨rest, bytecodes ++ e.code config⟩)
  | .only e, valid, fuel, rest, bytecodes, enough, ends => by
    obtain ⟨fuel, rfl⟩ := Nat.exists_eq_add_of_le' (show 1 ≤ fuel by omega)
    rw [Expression.tokens] at enough ⊢
    rw [Expression.Valid] at valid
    rw [parseExpression, e.parsed valid (by omega) ends.toConjunctionEnds, Expression.code]
    have stop (bytecodes : List Bytecode) : (⟨rest, bytecodes⟩ : Parsing).tok.isWord (word "or") =
      false := ends.or
    simp [bind, Except.bind, pure, Except.pure, stop]
  | .or left sign right, valid, fuel, rest, bytecodes, enough, ends => by
    obtain ⟨fuel, rfl⟩ := Nat.exists_eq_add_of_le' (show 1 ≤ fuel by omega)
    rw [Expression.tokens, List.append_assoc, List.cons_append]
    rw [Expression.tokens, List.length_append, List.length_cons] at enough
    rw [Expression.Valid] at valid
    have first : parseExpressionAnd parse config content fuel
        ⟨left.tokens ++ sign.1 :: (right.tokens ++ rest), bytecodes⟩ =
        .ok (true, ⟨sign.1 :: (right.tokens ++ rest), bytecodes ++ left.code config⟩) :=
      left.parsed valid.1 (by omega) (conjunctionEnds_or sign)
    have second : parseExpressionAnd parse config content fuel
        ⟨right.tokens ++ rest, bytecodes ++ left.code config⟩ =
        .ok (true, ⟨rest, bytecodes ++ left.code config ++ right.code config⟩) :=
      right.parsed valid.2 (by omega) ends.toConjunctionEnds
    rw [parseExpression, first, Expression.code,
      ← appendFunction_append (List.append_ne_nil_of_left_ne_nil (left.code_ne_nil config) _),
      ← List.append_assoc]
    simp [bind, Except.bind, pure, Except.pure, Parsing.tok, Parsing.getNextToken, sign.2, second]

theorem Conjunction.parsed : (e : Conjunction) → e.Valid config parse content →
    ∀ {fuel : Nat} {rest : List Token} {bytecodes : List Bytecode},
      6 * e.tokens.length + 4 ≤ fuel → ConjunctionEnds (rest.headD { kind := .eof }) →
      parseExpressionAnd parse config content fuel ⟨e.tokens ++ rest, bytecodes⟩ =
        .ok (true, ⟨rest, bytecodes ++ e.code config⟩)
  | .only e, valid, fuel, rest, bytecodes, enough, ends => by
    obtain ⟨fuel, rfl⟩ := Nat.exists_eq_add_of_le' (show 1 ≤ fuel by omega)
    rw [Conjunction.tokens] at enough ⊢
    rw [Conjunction.Valid] at valid
    rw [parseExpressionAnd, e.parsed valid (by omega) ends.toComparisonEnds, Conjunction.code]
    have stop (bytecodes : List Bytecode) : (⟨rest, bytecodes⟩ : Parsing).tok.isWord (word "and") =
      false := ends.and
    simp [bind, Except.bind, pure, Except.pure, stop]
  | .and left sign right, valid, fuel, rest, bytecodes, enough, ends => by
    obtain ⟨fuel, rfl⟩ := Nat.exists_eq_add_of_le' (show 1 ≤ fuel by omega)
    rw [Conjunction.tokens, List.append_assoc, List.cons_append]
    rw [Conjunction.tokens, List.length_append, List.length_cons] at enough
    rw [Conjunction.Valid] at valid
    have first : parseExpressionNot parse config content fuel
        ⟨left.tokens ++ sign.1 :: (right.tokens ++ rest), bytecodes⟩ =
        .ok (true, ⟨sign.1 :: (right.tokens ++ rest), bytecodes ++ left.code config⟩) :=
      left.parsed valid.1 (by omega) (comparisonEnds_and sign)
    have second : parseExpressionNot parse config content fuel
        ⟨right.tokens ++ rest, bytecodes ++ left.code config⟩ =
        .ok (true, ⟨rest, bytecodes ++ left.code config ++ right.code config⟩) :=
      right.parsed valid.2 (by omega) ends.toComparisonEnds
    rw [parseExpressionAnd, first, Conjunction.code,
      ← appendFunction_append (List.append_ne_nil_of_left_ne_nil (left.code_ne_nil config) _),
      ← List.append_assoc]
    simp [bind, Except.bind, pure, Except.pure, Parsing.tok, Parsing.getNextToken, sign.2, second]

theorem Negation.parsed : (e : Negation) → e.Valid config parse content →
    ∀ {fuel : Nat} {rest : List Token} {bytecodes : List Bytecode},
      6 * e.tokens.length + 3 ≤ fuel → ComparisonEnds (rest.headD { kind := .eof }) →
      parseExpressionNot parse config content fuel ⟨e.tokens ++ rest, bytecodes⟩ =
        .ok (true, ⟨rest, bytecodes ++ e.code config⟩)
  | .only e, valid, fuel, rest, bytecodes, enough, ends => by
    obtain ⟨fuel, rfl⟩ := Nat.exists_eq_add_of_le' (show 1 ≤ fuel by omega)
    rw [Negation.tokens] at enough ⊢
    rw [Negation.Valid] at valid
    have positive : (⟨e.tokens ++ rest, bytecodes⟩ : Parsing).tok.isWord (word "not") = false := by
      obtain ⟨t, others, first, begins⟩ := e.begins
      rw [first]
      exact begins.not
    rw [parseExpressionNot, positive, Negation.code]
    exact e.parsed valid (by omega) ends
  | .not sign e, valid, fuel, rest, bytecodes, enough, ends => by
    obtain ⟨fuel, rfl⟩ := Nat.exists_eq_add_of_le' (show 1 ≤ fuel by omega)
    rw [Negation.tokens, List.cons_append]
    rw [Negation.tokens, List.length_cons] at enough
    rw [Negation.Valid] at valid
    have inner : parseExpressionNot parse config content fuel ⟨e.tokens ++ rest, bytecodes⟩ =
        .ok (true, ⟨rest, bytecodes ++ e.code config⟩) := e.parsed valid (by omega) ends
    rw [parseExpressionNot, Negation.code, ← appendFunction_append (e.code_ne_nil config)]
    simp [bind, Except.bind, pure, Except.pure, Parsing.tok, Parsing.getNextToken, sign.2, inner]

theorem Comparison.parsed : (e : Comparison) → e.Valid config parse content →
    ∀ {fuel : Nat} {rest : List Token} {bytecodes : List Bytecode},
      6 * e.tokens.length + 2 ≤ fuel → ComparisonEnds (rest.headD { kind := .eof }) →
      parseExpressionComparison parse config content fuel ⟨e.tokens ++ rest, bytecodes⟩ =
        .ok (true, ⟨rest, bytecodes ++ e.code config⟩)
  | .only e, valid, fuel, rest, bytecodes, enough, ends => by
    obtain ⟨fuel, rfl⟩ := Nat.exists_eq_add_of_le' (show 1 ≤ fuel by omega)
    rw [Comparison.tokens] at enough ⊢
    rw [Comparison.Valid] at valid
    rw [parseExpressionComparison, e.parsed valid (by omega) ends.toDatumEnds, Comparison.code]
    have stop (bytecodes : List Bytecode) : comparisonOp (⟨rest, bytecodes⟩ : Parsing).tok = none :=
      ends.sign
    simp [bind, Except.bind, pure, Except.pure, stop]
  | .compare left sign right, valid, fuel, rest, bytecodes, enough, ends => by
    obtain ⟨fuel, rfl⟩ := Nat.exists_eq_add_of_le' (show 1 ≤ fuel by omega)
    rw [Comparison.tokens, List.append_assoc, List.cons_append]
    rw [Comparison.tokens, List.length_append, List.length_cons] at enough
    rw [Comparison.Valid] at valid
    have first : parseExpressionDatum parse config content fuel 0 0 0
        ⟨left.tokens ++ sign.1 :: (right.tokens ++ rest), bytecodes⟩ =
        .ok (true, ⟨sign.1 :: (right.tokens ++ rest), bytecodes ++ left.code config⟩) :=
      left.parsed valid.1 (by omega) (datumEnds_operator sign)
    have second : parseExpressionDatum parse config content fuel 0 0 0
        ⟨right.tokens ++ rest, bytecodes ++ left.code config⟩ =
        .ok (true, ⟨rest, bytecodes ++ left.code config ++ right.code config⟩) :=
      right.parsed valid.2 (by omega) ends.toDatumEnds
    rw [parseExpressionComparison, first, Comparison.code,
      ← appendFunction_append (List.append_ne_nil_of_left_ne_nil (left.code_ne_nil config) _),
      ← List.append_assoc]
    simp [bind, Except.bind, pure, Except.pure, Parsing.tok, Parsing.getNextToken,
      comparisonOp_eq sign, second]

theorem Datum.parsed : (e : Datum) → e.Valid config parse content →
    ∀ {fuel : Nat} {rest : List Token} {bytecodes : List Bytecode},
      6 * e.tokens.length + 1 ≤ fuel → DatumEnds (rest.headD { kind := .eof }) →
      parseExpressionDatum parse config content fuel 0 0 0 ⟨e.tokens ++ rest, bytecodes⟩ =
        .ok (true, ⟨rest, bytecodes ++ e.code config⟩)
  | .group opening e closing, valid, fuel, rest, bytecodes, enough, ends => by
    obtain ⟨fuel, rfl⟩ := Nat.exists_eq_add_of_le' (show 1 ≤ fuel by omega)
    rw [Datum.tokens, List.cons_append, List.append_assoc, List.singleton_append]
    rw [Datum.tokens, List.length_cons, List.length_append, List.length_singleton] at enough
    rw [Datum.Valid] at valid
    have inner : parseExpression parse config content fuel
        ⟨e.tokens ++ closing.1 :: rest, bytecodes⟩ =
        .ok (true, ⟨closing.1 :: rest, bytecodes ++ e.code config⟩) :=
      e.parsed valid (by omega) (expressionEnds_of_closes (by rw [List.headD_cons, closing.2]; rfl))
    rw [parseExpressionDatum, Datum.code]
    simp [bind, Except.bind, pure, Except.pure, Parsing.tok, Parsing.getNextToken, opening.2, inner,
      closing.2]
  | .call name opening arguments closing, valid, fuel, rest, bytecodes, enough, ends => by
    obtain ⟨fuel, rfl⟩ := Nat.exists_eq_add_of_le' (show 1 ≤ fuel by omega)
    rw [Datum.tokens, List.cons_append, List.cons_append, List.append_assoc, List.singleton_append]
    rw [Datum.tokens, List.length_cons, List.length_cons, List.length_append,
      List.length_singleton] at enough
    rw [Datum.Valid] at valid
    have inner : parseArguments parse config content fuel 0
        ⟨arguments.tokens ++ closing.1 :: rest, bytecodes⟩ =
        .ok (0 + arguments.count, ⟨rest, bytecodes ++ arguments.code config⟩) :=
      arguments.parsed valid.1 (by omega)
    obtain ⟨t, others, first, some_⟩ := arguments.begins
    have more : (⟨arguments.tokens ++ closing.1 :: rest, bytecodes⟩ : Parsing).tok.kind ≠
        .rightParen := by
      rw [first]
      exact some_
    have call : (⟨name.1 :: opening.1 :: (arguments.tokens ++ closing.1 :: rest), bytecodes⟩ :
        Parsing).peekTok.kind = .leftParen := opening.2
    have next : (⟨name.1 :: opening.1 :: (arguments.tokens ++ closing.1 :: rest), bytecodes⟩ :
        Parsing).getNextToken.getNextToken = ⟨arguments.tokens ++ closing.1 :: rest, bytecodes⟩ := rfl
    have tok : (⟨name.1 :: opening.1 :: (arguments.tokens ++ closing.1 :: rest), bytecodes⟩ :
        Parsing).tok = name.1 := rfl
    rw [parseExpressionDatum, Datum.code, ← callCode_append valid.2]
    simp only [tok, name.2.1]
    rw [if_pos call, next, if_neg more, inner, Nat.zero_add]
    simp only [bind, Except.bind, pure, Except.pure]
    split
    · rfl
    · rfl
  | .lookup name, valid, fuel, rest, bytecodes, enough, ends => by
    obtain ⟨fuel, rfl⟩ := Nat.exists_eq_add_of_le' (show 1 ≤ fuel by omega)
    rw [Datum.tokens, List.singleton_append, Datum.code, parseExpressionDatum]
    have call : ¬(⟨name.1 :: rest, bytecodes⟩ : Parsing).peekTok.kind = .leftParen := ends.paren
    simp [Parsing.tok, name.2.1, name.2.2.2, call, pure, Except.pure, Parsing.emplaceBack,
      Parsing.getNextToken]
  | .literal tokens value, valid, fuel, rest, bytecodes, enough, ends => by
    rw [Datum.tokens] at enough ⊢
    rw [Datum.Valid] at valid
    obtain ⟨first, last, isFirst, isLast, same⟩ := @parseExpressionDatum_literal config parse
      content fuel rest tokens.1 0 0 tokens.2 (by omega) ends 0 bytecodes
    rw [Literal.text, isFirst, isLast] at valid
    rw [same, Datum.code, returnJson]
    simp [Parsing.tok, valid, bind, Except.bind, pure, Except.pure, Parsing.emplaceBack,
      Parsing.getNextToken]

theorem Arguments.parsed : (a : Arguments) → a.Valid config parse content →
    ∀ {fuel : Nat} {closing : Kinded .rightParen} {rest : List Token}
      {bytecodes : List Bytecode} {numArgs : Nat}, 6 * a.tokens.length + 6 ≤ fuel →
      parseArguments parse config content fuel numArgs ⟨a.tokens ++ closing.1 :: rest, bytecodes⟩ =
        .ok (numArgs + a.count, ⟨rest, bytecodes ++ a.code config⟩)
  | .last e, valid, fuel, closing, rest, bytecodes, numArgs, enough => by
    obtain ⟨fuel, rfl⟩ := Nat.exists_eq_add_of_le' (show 1 ≤ fuel by omega)
    rw [Arguments.tokens] at enough ⊢
    rw [Arguments.Valid] at valid
    have inner : parseExpression parse config content fuel
        ⟨e.tokens ++ closing.1 :: rest, bytecodes⟩ =
        .ok (true, ⟨closing.1 :: rest, bytecodes ++ e.code config⟩) :=
      e.parsed valid (by omega) (expressionEnds_of_closes (by rw [List.headD_cons, closing.2]; rfl))
    rw [parseArguments, inner, Arguments.code, Arguments.count]
    simp [bind, Except.bind, pure, Except.pure, Parsing.tok, Parsing.getNextToken, closing.2]
  | .more e comma others, valid, fuel, closing, rest, bytecodes, numArgs, enough => by
    obtain ⟨fuel, rfl⟩ := Nat.exists_eq_add_of_le' (show 1 ≤ fuel by omega)
    rw [Arguments.tokens, List.append_assoc, List.cons_append]
    rw [Arguments.tokens, List.length_append, List.length_cons] at enough
    rw [Arguments.Valid] at valid
    have inner : parseExpression parse config content fuel
        ⟨e.tokens ++ comma.1 :: (others.tokens ++ closing.1 :: rest), bytecodes⟩ =
        .ok (true, ⟨comma.1 :: (others.tokens ++ closing.1 :: rest), bytecodes ++ e.code config⟩) :=
      e.parsed valid.1 (by omega) (expressionEnds_of_closes (by rw [List.headD_cons, comma.2]; rfl))
    have behind : parseArguments parse config content fuel (numArgs + 1)
        ⟨others.tokens ++ closing.1 :: rest, bytecodes ++ e.code config⟩ =
        .ok (numArgs + 1 + others.count,
          ⟨rest, bytecodes ++ e.code config ++ others.code config⟩) :=
      others.parsed valid.2 (by omega)
    rw [parseArguments, inner, Arguments.code, Arguments.count, Nat.add_comm others.count,
      ← Nat.add_assoc, ← List.append_assoc, ← behind]
    simp [bind, Except.bind, Parsing.tok, Parsing.getNextToken, comma.2]

end

end Parsed
end Inja
end Da4qi4
