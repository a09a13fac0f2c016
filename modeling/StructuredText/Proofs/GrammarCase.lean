-- SUMMARY: The grammar reads the same tree from tokens in either case, with its names spelled as the tokens are.
import StructuredText.Proofs.LiteralCase

/-!
# The grammar in either case

A parser looks at the kinds of tokens and at the values of literals, and neither depends on the case of letters. On
tokens in lower case it therefore takes the same number of them, fails at the same places, and results in the same tree
with its names in lower case. This is shown for each way of building a parser, and then for one rule of the grammar after
the other.
-/

namespace StructuredText

-- ---------------------------------------------------------------------------
-- Parsers
-- ---------------------------------------------------------------------------

namespace Parser

variable {α β γ δ : Type}

/--
On tokens in lower case the second parser ends as the first one does on the tokens as they are, and its result is that
of the first one in another form.
-/
def Agrees (g : α → β) (p : Parser α) (q : Parser β) : Prop :=
  ∀ ts, q (ts.map Token.caseless) = ⟨(p ts).result.map (Prod.map g (List.map Token.caseless)), (p ts).furthest⟩

namespace Agrees

variable {g : α → β} {p : Parser α} {q : Parser β}

protected theorem pure {a : α} {b : β} (h : g a = b) : Agrees g (pure a) (pure b) := by
  intro ts
  rw [← h]
  rfl

protected theorem fail : Agrees g (fail : Parser α) fail := fun _ => rfl

protected theorem failExpecting {e : Expected} : Agrees g (failExpecting e : Parser α) (failExpecting e) := by
  intro ts
  simp [failExpecting]

protected theorem bind {h : γ → δ} {k : α → Parser γ} {l : β → Parser δ} (hp : Agrees g p q)
    (hk : ∀ a, Agrees h (k a) (l (g a))) : Agrees h (p >>= k) (q >>= l) := by
  intro ts
  simp only [Bind.bind, Parser.bind, hp ts]
  cases hresult : (p ts).result with
  | none => rfl
  | some found =>
    obtain ⟨a, rest⟩ := found
    simp only [Option.map_some, Prod.map_apply, hk a rest]

protected theorem map {h : γ → δ} {f : α → γ} {f' : β → δ} (hp : Agrees g p q) (hf : ∀ a, h (f a) = f' (g a)) :
    Agrees h (f <$> p) (f' <$> q) :=
  hp.bind (k := fun a => pure (f a)) (l := fun b => pure (f' b)) fun a => .pure (hf a)

protected theorem orElse {p' : Parser α} {q' : Parser β} (hp : Agrees g p q) (hp' : Agrees g p' q') :
    Agrees g (p <|> p') (q <|> q') := by
  intro ts
  simp only [HOrElse.hOrElse, OrElse.orElse, Parser.orElse, hp ts, hp' ts]
  cases hresult : (p ts).result <;> simp [hresult]

/-- What is done with a token may rely on the condition that it satisfies. -/
theorem satisfy_bind {f : Token → Bool} (hf : ∀ t, f t.caseless = f t) {h : γ → δ} {k : Token → Parser γ}
    {l : Token → Parser δ} (hk : ∀ t, f t = true → Agrees h (k t) (l t.caseless)) :
    Agrees h (satisfy f >>= k) (satisfy f >>= l) := by
  intro ts
  cases ts with
  | nil => rfl
  | cons t rest =>
    by_cases ht : f t = true
    · simp only [Bind.bind, Parser.bind, satisfy, List.map_cons, hf, ht, if_true, hk t ht rest]
    · simp [Bind.bind, Parser.bind, satisfy, hf, ht, failExpecting]

theorem token_bind (kind : TokenKind) {h : γ → δ} {k : Token → Parser γ} {l : Token → Parser δ}
    (hk : ∀ t, t.kind = kind → Agrees h (k t) (l t.caseless)) : Agrees h (token kind >>= k) (token kind >>= l) :=
  satisfy_bind (by simp) fun t ht => hk t (of_decide_eq_true ht)

/-- The token itself is not used. -/
theorem skip (kind : TokenKind) {h : γ → δ} {k : Parser γ} {l : Parser δ} (hk : Agrees h k l) :
    Agrees h (token kind >>= fun _ => k) (token kind >>= fun _ => l) :=
  token_bind kind fun _ _ => hk

protected theorem token (kind : TokenKind) : Agrees Token.caseless (token kind) (token kind) := by
  intro ts
  cases ts with
  | nil => rfl
  | cons t rest =>
    by_cases ht : t.kind = kind <;> simp [token, satisfy, ht, failExpecting]

protected theorem optional (hp : Agrees g p q) : Agrees (Option.map g) (optional p) (optional q) :=
  .orElse (hp.map fun _ => rfl) (.pure rfl)

protected theorem manyWithin (hp : Agrees g p q) (bound : Nat) :
    Agrees (List.map g) (manyWithin p bound) (manyWithin q bound) := by
  induction bound with
  | zero => exact .pure rfl
  | succ bound ih => exact .orElse (hp.bind fun a => ih.bind fun rest => .pure rfl) (.pure rfl)

protected theorem many (hp : Agrees g p q) : Agrees (List.map g) (many p) (many q) := by
  intro ts
  rw [many, List.length_map]
  exact hp.manyWithin ts.length ts

protected theorem some1 (hp : Agrees g p q) : Agrees (List.map g) (some1 p) (some1 q) :=
  hp.bind fun _ => hp.many.bind fun _ => .pure rfl

protected theorem sepBy1 (hp : Agrees g p q) (kind : TokenKind) :
    Agrees (List.map g) (sepBy1 p (token kind)) (sepBy1 q (token kind)) := by
  have hmore : Agrees g (token kind *> p) (token kind *> q) := .skip kind (k := p) (l := q) hp
  exact hp.bind fun _ => hmore.many.bind fun _ => .pure rfl

protected theorem sepBy (hp : Agrees g p q) (kind : TokenKind) :
    Agrees (List.map g) (sepBy p (token kind)) (sepBy q (token kind)) :=
  .orElse (hp.sepBy1 kind) (.pure rfl)

theorem spanBetween_caseless (ts rest : List Token) :
    spanBetween (ts.map Token.caseless) (rest.map Token.caseless) = spanBetween ts rest := by
  cases ts with
  | nil => rfl
  | cons first ts =>
    simp only [spanBetween, List.length_map, List.getElem?_map]
    cases (first :: ts)[(first :: ts).length - rest.length - 1]? <;> simp

protected theorem spanned (hp : Agrees g p q) : Agrees (Prod.map g id) (spanned p) (spanned q) := by
  intro ts
  simp only [spanned, hp ts]
  cases hresult : (p ts).result with
  | none => rfl
  | some found => simp [spanBetween_caseless]

protected theorem bounded {p : Nat → Parser α} {q : Nat → Parser β} (hp : ∀ n, Agrees g (p n) (q n)) :
    Agrees g (bounded p) (bounded q) := by
  intro ts
  rw [bounded, List.length_map]
  exact hp (ts.length + 1) ts

theorem parseAll (hp : Agrees g p q) (ts : List Token) :
    Parser.parseAll q (ts.map Token.caseless) = (Parser.parseAll p ts).map g := by
  unfold Parser.parseAll
  rw [hp ts]
  cases hresult : (p ts).result with
  | none => simp [Except.map, hresult]
  | some found => obtain ⟨a, _ | ⟨t, rest⟩⟩ := found <;> simp [Except.map, hresult]

end Agrees

end Parser

-- ---------------------------------------------------------------------------
-- Constants
-- ---------------------------------------------------------------------------

/-- A constant has no names in it. -/
theorem Literal.value?_respell (f : String → String) {t : Token} {v : Value} (h : value? t = some (.ok v)) :
    v.respell f = v := by
  have hmap {α : Type} {x : Except LiteralError α} {k : α → Value} (hk : ∀ a, (k a).respell f = k a)
      (h : some (x.map k) = some (.ok v)) : v.respell f = v := by
    cases x with
    | ok a =>
      cases h
      exact hk a
    | error e => cases h
  unfold value? at h
  dsimp only at h
  split at h
  all_goals first
    | exact hmap (fun _ => rfl) h
    | cases h

namespace Grammar

open StructuredText.Parser Text

theorem identifier_agrees : Agrees (Ident.respell lower) identifier identifier := by
  refine .token_bind _ fun t ht => .pure ?_
  simp [Ident.respell, Token.caseless, Token.lower, ht]

section

variable {α β : Type} {g : α → β} {p : Parser α} {q : Parser β}

theorem listed_agrees (opening closing : TokenKind) (hp : Agrees g p q) :
    Agrees (List.map g) (listed opening closing p) (listed opening closing q) :=
  .skip _ ((hp.sepBy1 _).bind fun _ => .skip _ (.pure rfl))

theorem ended_agrees (hp : Agrees g p q) : Agrees g (ended p) (ended q) :=
  hp.bind fun _ => .skip _ (.pure rfl)

end

theorem literal_agrees (k : TokenKind) : Agrees (Value.respell lower) (literal k) (literal k) := by
  refine .token_bind _ fun t _ => ?_
  rw [Literal.value?_caseless]
  split
  · next v hv => exact .pure (Literal.value?_respell lower hv)
  · exact .fail

theorem integer_agrees : Agrees id integer integer := by
  refine .bind (.orElse (literal_agrees _) (literal_agrees _)) fun v => ?_
  cases v with
  | integer i => exact .pure rfl
  | _ => exact .fail

theorem signedInteger_agrees : Agrees id signedInteger signedInteger :=
  .orElse (.skip _ (.bind integer_agrees fun _ => .pure rfl))
    (.bind (.optional (.token _)) fun _ => integer_agrees)

theorem real_agrees : Agrees id real real := by
  refine (literal_agrees _).bind fun v => ?_
  cases v with
  | real x => exact .pure rfl
  | _ => exact .fail

theorem unsignedConstant_agrees : Agrees (Value.respell lower) unsignedConstant unsignedConstant := by
  refine .orElse (.map real_agrees fun _ => rfl) (.orElse (.map integer_agrees fun _ => rfl) ?_)
  refine .orElse (.skip _ (.pure rfl)) (.orElse (.skip _ (.pure rfl)) (.orElse (literal_agrees _) ?_))
  exact .orElse (literal_agrees _) (.orElse (literal_agrees _) (.orElse (literal_agrees _) (literal_agrees _)))

theorem constant_agrees : Agrees (Value.respell lower) constant constant := by
  refine .orElse (.skip _ (.bind real_agrees fun _ => .pure rfl)) ?_
  refine .orElse (.skip _ (.bind integer_agrees fun _ => .pure rfl)) ?_
  exact .bind (.optional (.token _)) fun _ => unsignedConstant_agrees

theorem enumerated_agrees : Agrees (Value.respell lower) enumerated enumerated :=
  .map identifier_agrees fun _ => rfl

theorem typedLiteral_agrees :
    Agrees (Prod.map (Ident.respell lower) (Value.respell lower)) typedLiteral typedLiteral :=
  .bind identifier_agrees fun _ => .skip _ (.bind (.orElse constant_agrees enumerated_agrees) fun _ => .pure rfl)

-- ---------------------------------------------------------------------------
-- Initial values
-- ---------------------------------------------------------------------------

section

variable {p q : Parser Value} (hp : Agrees (Value.respell lower) p q)

include hp

theorem arrayItem_agrees : Agrees (Prod.map id (Value.respell lower)) (arrayItem p) (arrayItem q) := by
  refine .orElse (.bind integer_agrees fun count => .skip _ (hp.bind fun v => .skip _ ?_))
    (hp.bind fun _ => .pure rfl)
  rw [id]
  split
  · exact .pure rfl
  · exact .failExpecting

theorem memberItem_agrees :
    Agrees (Prod.map (Ident.respell lower) (Value.respell lower)) (memberItem p) (memberItem q) :=
  .bind identifier_agrees fun _ => .skip _ (hp.bind fun _ => .pure rfl)

end

theorem initialValueWithin_agrees (depth : Nat) :
    Agrees (Value.respell lower) (initialValueWithin depth) (initialValueWithin depth) := by
  induction depth with
  | zero => exact .fail
  | succ depth ih =>
    refine .orElse ((listed_agrees _ _ (arrayItem_agrees ih)).map fun items => ?_) ?_
    · rw [Value.respell, Value.respellItems_eq]
    refine .orElse ((listed_agrees _ _ (memberItem_agrees ih)).map fun members => ?_) ?_
    · rw [Value.respell, Value.respellMembers_eq]
    exact .orElse (.map typedLiteral_agrees fun _ => rfl) (.orElse constant_agrees enumerated_agrees)

theorem initializer_agrees : Agrees (Value.respell lower) initializer initializer :=
  .skip _ (.bounded initialValueWithin_agrees)

theorem initial_agrees :
    Agrees (Option.map (Value.respell lower)) (Parser.optional initializer) (Parser.optional initializer) :=
  .optional initializer_agrees

-- ---------------------------------------------------------------------------
-- Types
-- ---------------------------------------------------------------------------

theorem range_agrees : Agrees id range range :=
  .bind signedInteger_agrees fun _ => .skip _ (.bind signedInteger_agrees fun _ => .pure rfl)

theorem subrange_agrees : Agrees (Prod.map (Ident.respell lower) id) subrange subrange :=
  .bind identifier_agrees fun _ => .skip _ (.bind range_agrees fun _ => .skip _ (.pure rfl))

theorem arrayOf_agrees {p q : Parser Tree.TypeExpr} (hp : Agrees (Tree.TypeExpr.respell lower) p q) :
    Agrees (Prod.map (Tree.TypeExpr.respell lower) id) (arrayOf p) (arrayOf q) := by
  refine .skip _ ((listed_agrees _ _ range_agrees).bind fun dimensions => .skip _ (hp.bind fun _ => .pure ?_))
  rw [List.map_id]
  rfl

theorem typeExprWithin_agrees (depth : Nat) :
    Agrees (Tree.TypeExpr.respell lower) (typeExprWithin depth) (typeExprWithin depth) := by
  induction depth with
  | zero => exact .fail
  | succ depth ih =>
    refine .orElse ((arrayOf_agrees ih).bind fun _ => .pure rfl) ?_
    exact .orElse (.bind subrange_agrees fun _ => .pure rfl) (.map identifier_agrees fun _ => rfl)

theorem typeExpr_agrees : Agrees (Tree.TypeExpr.respell lower) typeExpr typeExpr := .bounded typeExprWithin_agrees

-- ---------------------------------------------------------------------------
-- Expressions
-- ---------------------------------------------------------------------------

theorem binding_agrees (level : Nat) : Agrees id (binding level) (binding level) := by
  refine .satisfy_bind (by simp) fun t _ => ?_
  rw [Token.caseless_kind]
  split
  · exact .pure rfl
  · exact .fail

theorem unary_agrees : Agrees id unary unary := by
  refine .satisfy_bind (by simp) fun t _ => ?_
  rw [Token.caseless_kind, Token.caseless_span]
  split
  · exact .pure rfl
  · exact .fail

section

variable {p q : Parser Tree.Expr} (hp : Agrees (Tree.Expr.respell lower) p q)

include hp

theorem segment_agrees : Agrees (Tree.Segment.respell lower) (segment p) (segment q) := by
  have hindexes := (listed_agrees .leftBracket .rightBracket hp).optional
  refine .bind (.spanned (g := Prod.map (Ident.respell lower) (List.map (Tree.Expr.respell lower)))
    (.bind identifier_agrees fun name => hindexes.bind fun indexes => .pure ?_)) fun found => .pure rfl
  cases indexes <;> rfl

theorem path_agrees : Agrees (Tree.Path.respell lower) (path p) (path q) := by
  refine .bind (.spanned ((segment_agrees hp).sepBy1 _)) fun found => .pure ?_
  simp [Tree.Path.respell]

theorem argument_agrees : Agrees (Tree.Arg.respell lower) (argument p) (argument q) := by
  refine .orElse (.bind identifier_agrees fun _ => .skip _ (hp.bind fun _ => .pure rfl)) ?_
  refine .orElse (.bind identifier_agrees fun _ => .skip _ ((path_agrees hp).bind fun _ => .pure rfl)) ?_
  exact hp.bind fun _ => .pure rfl

theorem call_agrees :
    Agrees (Prod.map (Ident.respell lower) (List.map (Tree.Arg.respell lower))) (call p) (call q) :=
  .bind identifier_agrees fun _ => .skip _ (((argument_agrees hp).sepBy _).bind fun _ => .skip _ (.pure rfl))

theorem primary_agrees : Agrees (Tree.Expr.respell lower) (primary p) (primary q) := by
  refine .orElse (.skip _ (hp.bind fun _ => .skip _ (.pure rfl))) ?_
  refine .orElse (.bind (.spanned typedLiteral_agrees) fun _ => .pure rfl) ?_
  refine .orElse (.bind (.spanned unsignedConstant_agrees) fun _ => .pure rfl) ?_
  refine .orElse ((call_agrees hp).spanned.bind fun found => .pure ?_) ((path_agrees hp).map fun _ => rfl)
  simp [Tree.Expr.respell]

end

theorem extend_agrees {operand : Nat → Parser Tree.Expr}
    (h : ∀ level, Agrees (Tree.Expr.respell lower) (operand level) (operand level)) (level : Nat) (left : Tree.Expr)
    (bound : Nat) :
    Agrees (Tree.Expr.respell lower) (extend operand level left bound)
      (extend operand level (left.respell lower) bound) := by
  induction bound generalizing left with
  | zero => exact .pure rfl
  | succ bound ih =>
    refine .orElse ((binding_agrees level).bind fun b => (h b.right).bind fun right => ?_) (.pure rfl)
    have hnext := ih (.ofBinary b.op left right)
    simpa [Tree.Expr.ofBinary, Tree.Expr.respell] using hnext

theorem expressionWithin_agrees (depth level : Nat) :
    Agrees (Tree.Expr.respell lower) (expressionWithin depth level) (expressionWithin depth level) := by
  induction depth generalizing level with
  | zero => exact .fail
  | succ depth ih =>
    refine .bind (.orElse (.bind unary_agrees fun found => (ih _).bind fun operand => .pure ?_) (primary_agrees (ih 0)))
      fun left => .bounded fun bound => extend_agrees ih level left bound
    simp [Tree.Expr.ofUnary, Tree.Expr.respell]

theorem expression_agrees : Agrees (Tree.Expr.respell lower) expression expression :=
  .bounded fun depth => expressionWithin_agrees depth 0

theorem variablePath_agrees : Agrees (Tree.Path.respell lower) variablePath variablePath :=
  path_agrees expression_agrees

-- ---------------------------------------------------------------------------
-- Statements
-- ---------------------------------------------------------------------------

theorem assignment_agrees :
    Agrees (Prod.map (Tree.Path.respell lower) (Tree.Expr.respell lower)) assignment assignment :=
  .bind variablePath_agrees fun _ => .skip _ (.bind expression_agrees fun _ => .pure rfl)

/-- The statement in another spelling, wherever it is placed. -/
def respellAt (f : String → String) (statement : Span → Tree.Stmt) (span : Span) : Tree.Stmt :=
  (statement span).respell f

theorem simpleStatement_agrees : Agrees (respellAt lower) simpleStatement simpleStatement := by
  refine .orElse (.bind assignment_agrees fun _ => .pure rfl) ?_
  refine .orElse ((call_agrees expression_agrees).bind fun _ => .pure rfl) ?_
  exact .orElse (.skip _ (.pure rfl)) (.skip _ (.pure rfl))

theorem caseValue_agrees : Agrees (Tree.Expr.respell lower) caseValue caseValue :=
  .orElse (.bind (.spanned constant_agrees) fun _ => .pure rfl) (.map variablePath_agrees fun _ => rfl)

theorem caseLabel_agrees : Agrees (Tree.CaseLabel.respell lower) caseLabel caseLabel :=
  .orElse (.bind caseValue_agrees fun _ => .skip _ (.bind caseValue_agrees fun _ => .pure rfl))
    (.map caseValue_agrees fun _ => rfl)

section

variable {p q : Parser (List Tree.Stmt)} (hp : Agrees (List.map (Tree.Stmt.respell lower)) p q)

include hp

theorem elseStatements_agrees :
    Agrees (List.map (Tree.Stmt.respell lower)) (elseStatements p) (elseStatements q) := .skip _ hp

theorem branch_agrees (keyword : TokenKind) :
    Agrees (Prod.map (Tree.Expr.respell lower) (List.map (Tree.Stmt.respell lower))) (branch keyword p)
      (branch keyword q) :=
  .skip _ (.bind expression_agrees fun _ => .skip _ (hp.bind fun _ => .pure rfl))

theorem ifStatement_agrees : Agrees (respellAt lower) (ifStatement p) (ifStatement q) := by
  refine (branch_agrees hp _).bind fun first => (branch_agrees hp _).many.bind fun rest => ?_
  refine (elseStatements_agrees hp).optional.bind fun otherwise => .skip _ (.pure ?_)
  funext span
  simp [respellAt, Tree.Stmt.respell]

theorem caseArm_agrees :
    Agrees (Prod.map (List.map (Tree.CaseLabel.respell lower)) (List.map (Tree.Stmt.respell lower))) (caseArm p)
      (caseArm q) :=
  .bind (.sepBy1 caseLabel_agrees _) fun _ => .skip _ (hp.bind fun _ => .pure rfl)

theorem caseStatement_agrees : Agrees (respellAt lower) (caseStatement p) (caseStatement q) := by
  refine .skip _ (.bind expression_agrees fun selector => .skip _ ((caseArm_agrees hp).many.bind fun arms => ?_))
  refine (elseStatements_agrees hp).optional.bind fun otherwise => .skip _ (.pure ?_)
  funext span
  simp [respellAt, Tree.Stmt.respell]

theorem forStatement_agrees : Agrees (respellAt lower) (forStatement p) (forStatement q) := by
  have hstep : Agrees (Option.map (Tree.Expr.respell lower)) (Parser.optional (token .kwBy >>= fun _ => expression))
      (Parser.optional (token .kwBy >>= fun _ => expression)) := .optional (.skip _ expression_agrees)
  refine .skip _ (.bind assignment_agrees fun first => .skip _ (.bind expression_agrees fun stop => ?_))
  refine hstep.bind fun step => .skip _ (hp.bind fun body => .skip _ (.pure ?_))
  funext span
  simp [respellAt, Tree.Stmt.respell]

theorem whileStatement_agrees : Agrees (respellAt lower) (whileStatement p) (whileStatement q) := by
  refine .skip _ (.bind expression_agrees fun condition => .skip _ (hp.bind fun body => .skip _ (.pure ?_)))
  funext span
  simp [respellAt, Tree.Stmt.respell]

theorem repeatStatement_agrees : Agrees (respellAt lower) (repeatStatement p) (repeatStatement q) := by
  refine .skip _ (hp.bind fun body => .skip _ (.bind expression_agrees fun condition => .skip _ (.pure ?_)))
  funext span
  simp [respellAt, Tree.Stmt.respell]

theorem compoundStatement_agrees : Agrees (respellAt lower) (compoundStatement p) (compoundStatement q) :=
  .orElse (ifStatement_agrees hp) (.orElse (caseStatement_agrees hp)
    (.orElse (forStatement_agrees hp) (.orElse (whileStatement_agrees hp) (repeatStatement_agrees hp))))

theorem statementItem_agrees :
    Agrees (Option.map (Tree.Stmt.respell lower)) (statementItem p) (statementItem q) := by
  have hplaced {p q : Parser (Span → Tree.Stmt)} (h : Agrees (respellAt lower) p q) :
      Agrees (Tree.Stmt.respell lower) (placed p) (placed q) := h.spanned.bind fun _ => .pure rfl
  refine .orElse ((hplaced (compoundStatement_agrees hp)).bind fun _ => ?_) ?_
  · exact .bind (.optional (.token _)) fun _ => .pure rfl
  · exact .orElse ((hplaced simpleStatement_agrees).bind fun _ => .skip _ (.pure rfl)) (.skip _ (.pure rfl))

end

theorem statementsWithin_agrees (depth : Nat) :
    Agrees (List.map (Tree.Stmt.respell lower)) (statementsWithin depth) (statementsWithin depth) := by
  induction depth with
  | zero => exact .fail
  | succ depth ih =>
    refine (statementItem_agrees ih).many.bind fun items => .pure ?_
    induction items with
    | nil => rfl
    | cons item items ih => cases item <;> simp_all

theorem statements_agrees : Agrees (List.map (Tree.Stmt.respell lower)) statements statements :=
  .bounded statementsWithin_agrees

-- ---------------------------------------------------------------------------
-- Declarations
-- ---------------------------------------------------------------------------

theorem member_agrees : Agrees (Tree.Member.respell lower) member member :=
  .bind identifier_agrees fun _ => .skip _ (.bind typeExpr_agrees fun _ => .bind initial_agrees fun _ => .pure rfl)

theorem structBody_agrees : Agrees (Tree.TypeBody.respell lower) structBody structBody :=
  .skip _ ((ended_agrees member_agrees).some1.bind fun _ => .skip _ (.pure rfl))

theorem enumerationBody_agrees : Agrees (Tree.TypeBody.respell lower) enumerationBody enumerationBody :=
  (listed_agrees _ _ identifier_agrees).bind fun _ =>
    .bind (.optional (.skip _ identifier_agrees)) fun _ => .pure rfl

theorem typeBody_agrees : Agrees (Tree.TypeBody.respell lower) typeBody typeBody := by
  refine .orElse structBody_agrees (.orElse enumerationBody_agrees ?_)
  refine .orElse (.bind subrange_agrees fun _ => .bind initial_agrees fun _ => .pure rfl) ?_
  refine .orElse ((arrayOf_agrees typeExpr_agrees).bind fun _ => .bind initial_agrees fun _ => .pure rfl) ?_
  exact .bind identifier_agrees fun _ => .bind initial_agrees fun _ => .pure rfl

theorem typeDecl_agrees : Agrees (Tree.TypeDecl.respell lower) typeDecl typeDecl :=
  .bind identifier_agrees fun _ => .skip _ (.bind typeBody_agrees fun _ => .pure rfl)

theorem typeBlock_agrees : Agrees (List.map (Tree.TypeDecl.respell lower)) typeBlock typeBlock :=
  .skip _ ((ended_agrees typeDecl_agrees).some1.bind fun _ => .skip _ (.pure rfl))

theorem section_agrees : Agrees id «section» «section» :=
  .orElse (.skip _ (.pure rfl)) (.orElse (.skip _ (.pure rfl)) (.orElse (.skip _ (.pure rfl))
    (.orElse (.skip _ (.pure rfl)) (.orElse (.skip _ (.pure rfl)) (.skip _ (.pure rfl))))))

theorem qualifiers_agrees : Agrees id qualifiers qualifiers := by
  refine .bind (.many (.orElse (.skip _ (.pure (g := id) rfl)) (.skip _ (.pure rfl)))) fun all => .pure ?_
  rw [List.map_id, id]

theorem location_agrees : Agrees (Prod.map lower id) location location := by
  refine .skip _ (.token_bind _ fun t ht => .pure ?_)
  simp [Token.caseless, Token.lower, ht]

theorem varLine_agrees : Agrees (Tree.VarLine.respell lower) varLine varLine := by
  refine .bind (.sepBy1 identifier_agrees _) fun _ => .bind (.optional location_agrees) fun _ => .skip _ ?_
  exact .bind typeExpr_agrees fun _ => .bind initial_agrees fun _ => .pure rfl

theorem varBlockRest_agrees (s : Section) : Agrees (Tree.VarBlock.respell lower) (varBlockRest s) (varBlockRest s) :=
  .bind qualifiers_agrees fun _ => (ended_agrees varLine_agrees).many.bind fun _ => .skip _ (.pure rfl)

theorem varBlock_agrees : Agrees (Tree.VarBlock.respell lower) varBlock varBlock :=
  .bind section_agrees varBlockRest_agrees

theorem globalBlock_agrees : Agrees (Tree.VarBlock.respell lower) globalBlock globalBlock :=
  .skip _ (varBlockRest_agrees _)

theorem pouRest_agrees (kind : PouKind) (name : Ident) (returns : Option Tree.TypeExpr) (closing : TokenKind) :
    Agrees (Tree.Pou.respell lower) (pouRest kind name returns closing)
      (pouRest kind (name.respell lower) (returns.map (·.respell lower)) closing) :=
  .bind (.many varBlock_agrees) fun _ => .bind statements_agrees fun _ => .skip _ (.pure rfl)

theorem pou_agrees : Agrees (Tree.Pou.respell lower) pou pou := by
  refine .orElse (.skip _ (.bind identifier_agrees fun name => pouRest_agrees .program name none _)) ?_
  refine .orElse (.skip _ (.bind identifier_agrees fun name => pouRest_agrees .functionBlock name none _)) ?_
  refine .skip _ (.bind identifier_agrees fun name => .skip _ (.bind typeExpr_agrees fun returns => ?_))
  exact pouRest_agrees .function name (some returns) _

theorem element_agrees : Agrees (Tree.Element.respell lower) element element :=
  .orElse (.map typeBlock_agrees fun _ => rfl)
    (.orElse (.map globalBlock_agrees fun _ => rfl) (.map pou_agrees fun _ => rfl))

/-- The grammar reads the same elements, with their names in lower case. -/
theorem source_agrees : Agrees (List.map (Tree.Element.respell lower)) source source := .many element_agrees

end Grammar

end StructuredText
