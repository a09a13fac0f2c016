-- SUMMARY: What the grammar yields: plain constants and references with names, whatever the tokens are.
import StructuredText.Grammar.Declaration
import StructuredText.Proofs.Prepared
import StructuredText.Proofs.Units
import StructuredText.Source

/-!
# Parsed trees

Of what a parser yields, a property is known that holds whatever tokens there are. It is put together from the parsers
that a parser is made of, so that it needs one line for each rule of the grammar.
-/

namespace StructuredText

-- ---------------------------------------------------------------------------
-- Parsers
-- ---------------------------------------------------------------------------

namespace Parser

variable {α β : Type} {p : Parser α} {Q : α → Prop} {R : β → Prop}

/-- The parser only yields what has the property. -/
def Yields (p : Parser α) (Q : α → Prop) : Prop := ∀ ts a rest, (p ts).result = some (a, rest) → Q a

namespace Yields

theorem any : Yields p fun _ => True := fun _ _ _ _ => trivial

theorem mono {Q' : α → Prop} (h : Yields p Q) (hQ : ∀ a, Q a → Q' a) : Yields p Q' :=
  fun ts a rest heq => hQ a (h ts a rest heq)

theorem pure {a : α} (h : Q a) : Yields (Pure.pure a) Q := by
  intro ts b rest heq
  cases heq
  exact h

theorem fail : Yields (Parser.fail : Parser α) Q := nofun

theorem failExpecting {e : Expected} : Yields (Parser.failExpecting e : Parser α) Q := nofun

theorem bind {k : α → Parser β} (hp : Yields p Q) (hk : ∀ a, Q a → Yields (k a) R) : Yields (p >>= k) R := by
  intro ts b rest heq
  simp only [Bind.bind, Parser.bind] at heq
  cases hresult : (p ts).result with
  | none => simp [hresult] at heq
  | some found =>
    obtain ⟨a, middle⟩ := found
    simp only [hresult] at heq
    exact hk a (hp ts a middle hresult) middle b rest heq

/-- What the first part yields does not matter. -/
theorem skip {k : α → Parser β} (hk : ∀ a, Yields (k a) R) : Yields (p >>= k) R := any.bind fun a _ => hk a

theorem map {f : α → β} (hp : Yields p fun a => R (f a)) : Yields (f <$> p) R :=
  hp.bind (k := fun a => Pure.pure (f a)) fun _ ha => .pure ha

theorem orElse {q : Parser α} (hp : Yields p Q) (hq : Yields q Q) : Yields (p <|> q) Q := by
  intro ts a rest heq
  simp only [HOrElse.hOrElse, OrElse.orElse, Parser.orElse] at heq
  cases hresult : (p ts).result with
  | none =>
    simp only [hresult] at heq
    exact hq ts a rest heq
  | some found =>
    simp only [hresult] at heq
    exact hp ts a rest (hresult.trans heq)

theorem optional (hp : Yields p Q) : Yields (Parser.optional p) fun o => ∀ a ∈ o, Q a :=
  .orElse (.map (hp.mono fun a ha b hb => by cases hb; exact ha)) (.pure (by simp))

theorem manyWithin (hp : Yields p Q) (bound : Nat) : Yields (Parser.manyWithin p bound) fun as => ∀ a ∈ as, Q a := by
  induction bound with
  | zero => exact .pure (by simp)
  | succ bound ih =>
    refine .orElse (hp.bind fun a ha => ih.bind fun rest hrest => .pure ?_) (.pure (by simp))
    exact List.forall_mem_cons.mpr ⟨ha, hrest⟩

theorem many (hp : Yields p Q) : Yields (Parser.many p) fun as => ∀ a ∈ as, Q a :=
  fun ts => hp.manyWithin ts.length ts

theorem some1 (hp : Yields p Q) : Yields (Parser.some1 p) fun as => as ≠ [] ∧ ∀ a ∈ as, Q a :=
  hp.bind fun _ ha => hp.many.bind fun _ hrest => .pure ⟨nofun, List.forall_mem_cons.mpr ⟨ha, hrest⟩⟩

theorem sepBy1 {separator : Parser β} (hp : Yields p Q) :
    Yields (Parser.sepBy1 p separator) fun as => as ≠ [] ∧ ∀ a ∈ as, Q a := by
  have hmore : Yields (separator *> p) Q := .skip (k := fun _ => p) fun _ => hp
  exact hp.bind fun a ha => hmore.many.bind fun rest hrest => .pure ⟨nofun, List.forall_mem_cons.mpr ⟨ha, hrest⟩⟩

theorem sepBy {separator : Parser β} (hp : Yields p Q) : Yields (Parser.sepBy p separator) fun as => ∀ a ∈ as, Q a :=
  .orElse (hp.sepBy1.mono fun _ h => h.2) (.pure (by simp))

theorem spanned (hp : Yields p Q) : Yields (Parser.spanned p) fun found => Q found.1 := by
  intro ts found rest heq
  simp only [Parser.spanned] at heq
  cases hresult : (p ts).result with
  | none => simp [hresult] at heq
  | some found =>
    obtain ⟨a, rest'⟩ := found
    simp only [hresult] at heq
    cases heq
    exact hp ts a rest hresult

theorem bounded {q : Nat → Parser α} (hq : ∀ n, Yields (q n) Q) : Yields (Parser.bounded q) Q :=
  fun ts => hq (ts.length + 1) ts

theorem parseAll {ts : List Token} {a : α} (hp : Yields p Q) (h : Parser.parseAll p ts = .ok a) : Q a := by
  unfold Parser.parseAll at h
  dsimp only at h
  split at h
  · next found hresult =>
    cases h
    exact hp ts a [] hresult
  · cases h
  · cases h

end Yields

end Parser

-- ---------------------------------------------------------------------------
-- Literals
-- ---------------------------------------------------------------------------

namespace Literal

theorem orError_eq_ok {α : Type} {e : LiteralError} {o : Option α} {a : α} : orError e o = .ok a ↔ o = some a := by
  cases o <;> simp [orError]

theorem integerInBase_range {base : Nat} {cs : List Char} {i : Int} (h : integerInBase base cs = some i) :
    0 ≤ i ∧ i < 2 ^ 127 := by
  obtain ⟨n, hn, rfl⟩ := Option.map_eq_some_iff.mp h
  obtain ⟨-, hlimit⟩ := Option.filter_eq_some_iff.mp hn
  have hlimit : n < 2 ^ 127 := of_decide_eq_true hlimit
  simp only [Int.ofNat_eq_natCast]
  omega

theorem map_eq_some_ok {α : Type} {x : Except LiteralError α} {f : α → Value} {v : Value}
    (h : some (x.map f) = some (.ok v)) : ∃ a, x = .ok a ∧ v = f a := by
  cases x with
  | ok a =>
    cases h
    exact ⟨a, rfl, rfl⟩
  | error e => cases h

/-- The value of a literal token is plain. An integer has no sign. -/
theorem value?_plain {t : Token} {v : Value} (h : value? t = some (.ok v)) :
    v.Plain ∧ ∀ i, v = .integer i → 0 ≤ i := by
  have number {i : Int} (h : 0 ≤ i ∧ i < 2 ^ 127) :
      (Value.integer i).Plain ∧ ∀ j, Value.integer i = .integer j → 0 ≤ j := by
    refine ⟨⟨by omega, h.2⟩, ?_⟩
    rintro j ⟨⟩
    exact h.1
  unfold value? at h
  dsimp only at h
  split at h
  · obtain ⟨i, hi, rfl⟩ := map_eq_some_ok h
    exact number (integerInBase_range (orError_eq_ok.mp hi))
  · obtain ⟨i, hi, rfl⟩ := map_eq_some_ok h
    obtain ⟨base, -, hdigits⟩ := Option.bind_eq_some_iff.mp (orError_eq_ok.mp hi)
    exact number (integerInBase_range hdigits)
  all_goals first
    | obtain ⟨a, -, rfl⟩ := map_eq_some_ok h
      exact ⟨trivial, nofun⟩
    | exact absurd h (Option.some_ne_none _).symm

end Literal

-- ---------------------------------------------------------------------------
-- Constants
-- ---------------------------------------------------------------------------

namespace Grammar

open StructuredText.Parser

theorem literal_yields (k : TokenKind) : Yields (literal k) fun v => v.Plain ∧ ∀ i, v = .integer i → 0 ≤ i := by
  refine .skip fun t => ?_
  split
  · exact .pure (Literal.value?_plain ‹_›)
  · exact .fail

theorem integer_yields : Yields integer fun i => 0 ≤ i ∧ FitsInteger i := by
  refine (Yields.orElse (literal_yields _) (literal_yields _)).bind fun v hv => ?_
  split
  · exact .pure ⟨hv.2 _ rfl, hv.1⟩
  · exact .fail

theorem fitsInteger_neg {i : Int} (h : 0 ≤ i ∧ FitsInteger i) : FitsInteger (-i) := by
  obtain ⟨hi, -, hlimit⟩ := h
  exact ⟨by omega, by omega⟩

theorem signedInteger_yields : Yields signedInteger FitsInteger :=
  .orElse (.skip fun _ => integer_yields.bind fun _ hi => .pure (fitsInteger_neg hi))
    (.skip fun _ => integer_yields.mono fun _ hi => hi.2)

theorem unsignedConstant_yields : Yields unsignedConstant Value.Plain := by
  have literal (k : TokenKind) : Yields (Grammar.literal k) Value.Plain := (literal_yields k).mono fun _ h => h.1
  refine .orElse (.map (.mono .any fun _ _ => trivial)) ?_
  refine .orElse (.map (integer_yields.mono fun _ hi => hi.2)) ?_
  refine .orElse (.skip fun _ => .pure trivial) (.orElse (.skip fun _ => .pure trivial) ?_)
  exact .orElse (literal _) (.orElse (literal _) (.orElse (literal _) (.orElse (literal _) (literal _))))

theorem constant_yields : Yields constant Value.Plain := by
  refine .orElse (.skip fun _ => .skip fun _ => .pure trivial) (.orElse ?_ (.skip fun _ => unsignedConstant_yields))
  exact .skip fun _ => integer_yields.bind fun _ hi => .pure (fitsInteger_neg hi)

theorem enumerated_yields : Yields enumerated Value.Plain := .map (.mono .any fun _ _ => trivial)

theorem typedLiteral_yields : Yields typedLiteral fun found => found.2.Plain :=
  .skip fun _ => .skip fun _ => (Yields.orElse constant_yields enumerated_yields).bind fun _ hv => .pure hv

theorem listed_yields {α : Type} {p : Parser α} {Q : α → Prop} (opening closing : TokenKind) (hp : Yields p Q) :
    Yields (listed opening closing p) fun as => as ≠ [] ∧ ∀ a ∈ as, Q a :=
  .skip fun _ => hp.sepBy1.bind fun _ has => .skip fun _ => .pure has

-- ---------------------------------------------------------------------------
-- Initial values
-- ---------------------------------------------------------------------------

theorem arrayItem_yields {p : Parser Value} (hp : Yields p Value.Plain) :
    Yields (arrayItem p) fun item => item.2.Plain := by
  refine .orElse (.skip fun count => .skip fun _ => hp.bind fun v hv => .skip fun _ => ?_) (hp.bind fun _ hv => .pure hv)
  split
  · exact .pure hv
  · exact .failExpecting

theorem memberItem_yields {p : Parser Value} (hp : Yields p Value.Plain) :
    Yields (memberItem p) fun member => member.2.Plain :=
  .skip fun _ => .skip fun _ => hp.bind fun _ hv => .pure hv

theorem initialValueWithin_yields (depth : Nat) : Yields (initialValueWithin depth) Value.Plain := by
  induction depth with
  | zero => exact .fail
  | succ depth ih =>
    refine .orElse (.map ((listed_yields _ _ (arrayItem_yields ih)).mono fun _ h => Value.itemsProper_iff.mpr h.2)) ?_
    refine .orElse (.map ((listed_yields _ _ (memberItem_yields ih)).mono fun _ h => Value.membersProper_iff.mpr h.2)) ?_
    exact .orElse (.map typedLiteral_yields) (.orElse constant_yields enumerated_yields)

theorem initializer_yields : Yields initializer Value.Plain :=
  .skip fun _ => .bounded initialValueWithin_yields

-- ---------------------------------------------------------------------------
-- Expressions
-- ---------------------------------------------------------------------------

section

variable {p : Parser Tree.Expr} (hp : Yields p Tree.Expr.Proper)

include hp

theorem segment_yields : Yields (segment p) fun s => match s with | .mk _ indexes _ => Tree.Expr.AllProper indexes := by
  have hindexes : Yields (do
      let name ← identifier
      let indexes ← optional (listed .leftBracket .rightBracket p)
      pure (name, indexes.getD []) : Parser (Ident × List Tree.Expr)) fun found => Tree.Expr.AllProper found.2 := by
    refine .skip fun name => (listed_yields _ _ hp).optional.bind fun indexes h => .pure ?_
    cases indexes with
    | none => trivial
    | some es => exact Tree.Expr.allProper_iff.mpr (h es rfl).2
  exact hindexes.spanned.bind fun found h => .pure h

theorem path_yields : Yields (path p) Tree.Path.Proper :=
  (segment_yields hp).sepBy1.spanned.bind fun _ h => .pure ⟨h.1, Tree.Segment.allProper_iff.mpr h.2⟩

theorem argument_yields : Yields (argument p) fun arg => match arg with | .mk _ value _ => value.Proper := by
  refine .orElse (.skip fun _ => .skip fun _ => hp.bind fun _ h => .pure h) (.orElse ?_ (hp.bind fun _ h => .pure h))
  exact .skip fun _ => .skip fun _ => (path_yields hp).bind fun _ h => .pure h

theorem call_yields : Yields (call p) fun found => Tree.Arg.AllProper found.2 :=
  .skip fun _ => .skip fun _ => (argument_yields hp).sepBy.bind fun _ h => .skip fun _ =>
    .pure (Tree.Arg.allProper_iff.mpr h)

theorem primary_yields : Yields (primary p) Tree.Expr.Proper := by
  refine .orElse (.skip fun _ => hp.bind fun _ h => .skip fun _ => .pure h) ?_
  refine .orElse (typedLiteral_yields.spanned.bind fun _ h => .pure h) ?_
  refine .orElse (unsignedConstant_yields.spanned.bind fun _ h => .pure h) ?_
  exact .orElse ((call_yields hp).spanned.bind fun _ h => .pure h) (.map (path_yields hp))

end

theorem extend_yields {operand : Nat → Parser Tree.Expr} (hoperand : ∀ n, Yields (operand n) Tree.Expr.Proper)
    (level : Nat) (bound : Nat) {left : Tree.Expr} (hleft : left.Proper) :
    Yields (extend operand level left bound) Tree.Expr.Proper := by
  induction bound generalizing left with
  | zero => exact .pure hleft
  | succ bound ih =>
    exact .orElse (.skip fun b => (hoperand b.right).bind fun _ hright => ih ⟨hleft, hright⟩) (.pure hleft)

/-- An expression begins with an operator before an operand, or with a primary expression. -/
theorem operand_yields {p : Nat → Parser Tree.Expr} (hp : ∀ level, Yields (p level) Tree.Expr.Proper) :
    Yields ((do
      let (op, start) ← unary
      let operand ← p unaryOperandLevel
      pure (.ofUnary op start operand)) <|> primary (p 0)) Tree.Expr.Proper :=
  .orElse (.skip fun _ => (hp _).bind fun _ h => .pure h) (primary_yields (hp 0))

theorem expressionWithin_yields (depth level : Nat) : Yields (expressionWithin depth level) Tree.Expr.Proper := by
  induction depth generalizing level with
  | zero => exact .fail
  | succ depth ih =>
    exact (operand_yields ih).bind fun left hleft => .bounded fun bound => extend_yields ih level bound hleft

theorem expression_yields : Yields expression Tree.Expr.Proper := .bounded fun _ => expressionWithin_yields _ _

theorem variablePath_yields : Yields variablePath Tree.Path.Proper := path_yields expression_yields

-- ---------------------------------------------------------------------------
-- Statements
-- ---------------------------------------------------------------------------

theorem assignment_yields : Yields assignment fun found => found.1.Proper ∧ found.2.Proper :=
  variablePath_yields.bind fun _ htarget => .skip fun _ => expression_yields.bind fun _ hvalue => .pure ⟨htarget, hvalue⟩

theorem simpleStatement_yields : Yields simpleStatement fun f => ∀ span, (f span).Proper := by
  refine .orElse (assignment_yields.bind fun _ h => .pure fun _ => h) ?_
  refine .orElse ((call_yields expression_yields).bind fun _ h => .pure fun _ => h) ?_
  exact .orElse (.skip fun _ => .pure fun _ => trivial) (.skip fun _ => .pure fun _ => trivial)

theorem caseValue_yields : Yields caseValue Tree.Expr.Proper :=
  .orElse (constant_yields.spanned.bind fun _ h => .pure h) (.map variablePath_yields)

theorem caseLabel_yields : Yields caseLabel Tree.CaseLabel.Proper := by
  refine .orElse ?_ (.map caseValue_yields)
  exact caseValue_yields.bind fun _ hlow => .skip fun _ => caseValue_yields.bind fun _ hhigh => .pure ⟨hlow, hhigh⟩

section

variable {p : Parser (List Tree.Stmt)} (hp : Yields p Tree.Stmt.AllProper)

include hp

theorem elseStatements_yields : Yields (elseStatements p) Tree.Stmt.AllProper := .skip fun _ => hp

theorem branch_yields (keyword : TokenKind) :
    Yields (branch keyword p) fun b => b.1.Proper ∧ Tree.Stmt.AllProper b.2 :=
  .skip fun _ => expression_yields.bind fun _ hcondition => .skip fun _ => hp.bind fun _ h => .pure ⟨hcondition, h⟩

theorem ifStatement_yields : Yields (ifStatement p) fun f => ∀ span, (f span).Proper := by
  refine (branch_yields hp _).bind fun first hfirst => (branch_yields hp _).many.bind fun rest hrest => ?_
  refine (elseStatements_yields hp).optional.bind fun otherwise ho => .skip fun _ => .pure fun _ => ⟨?_, ?_⟩
  · exact Tree.Stmt.branchesProper_iff.mpr (List.forall_mem_cons.mpr ⟨hfirst, hrest⟩)
  · exact Tree.Stmt.optionProper_iff.mpr ho

theorem caseArm_yields : Yields (caseArm p) fun arm =>
    (∀ label ∈ arm.1, label.Proper) ∧ Tree.Stmt.AllProper arm.2 :=
  caseLabel_yields.sepBy1.bind fun _ hlabels => .skip fun _ => hp.bind fun _ h => .pure ⟨hlabels.2, h⟩

theorem caseStatement_yields : Yields (caseStatement p) fun f => ∀ span, (f span).Proper := by
  refine .skip fun _ => expression_yields.bind fun selector hselector => .skip fun _ => ?_
  refine (caseArm_yields hp).many.bind fun arms harms => (elseStatements_yields hp).optional.bind fun otherwise ho => ?_
  exact .skip fun _ => .pure fun _ =>
    ⟨hselector, Tree.Stmt.armsProper_iff.mpr harms, Tree.Stmt.optionProper_iff.mpr ho⟩

theorem forStatement_yields : Yields (forStatement p) fun f => ∀ span, (f span).Proper := by
  have hstep : Yields (do let _ ← token .kwBy; expression) Tree.Expr.Proper := .skip fun _ => expression_yields
  refine .skip fun _ => assignment_yields.bind fun found hfirst => .skip fun _ => ?_
  refine expression_yields.bind fun stop hstop => hstep.optional.bind fun step hstep => .skip fun _ => ?_
  exact hp.bind fun body h => .skip fun _ => .pure fun _ => ⟨hfirst.1, hfirst.2, hstop, hstep, h⟩

theorem whileStatement_yields : Yields (whileStatement p) fun f => ∀ span, (f span).Proper := by
  refine .skip fun _ => expression_yields.bind fun condition hcondition => .skip fun _ => ?_
  exact hp.bind fun body h => .skip fun _ => .pure fun _ => ⟨hcondition, h⟩

theorem repeatStatement_yields : Yields (repeatStatement p) fun f => ∀ span, (f span).Proper := by
  refine .skip fun _ => hp.bind fun body h => .skip fun _ => ?_
  exact expression_yields.bind fun condition hcondition => .skip fun _ => .pure fun _ => ⟨h, hcondition⟩

theorem compoundStatement_yields : Yields (compoundStatement p) fun f => ∀ span, (f span).Proper :=
  .orElse (ifStatement_yields hp) (.orElse (caseStatement_yields hp) (.orElse (forStatement_yields hp)
    (.orElse (whileStatement_yields hp) (repeatStatement_yields hp))))

omit hp in
theorem placed_yields {f : Parser (Span → Tree.Stmt)} (hf : Yields f fun f => ∀ span, (f span).Proper) :
    Yields (placed f) Tree.Stmt.Proper :=
  hf.spanned.bind fun found h => .pure (h found.2)

theorem statementItem_yields : Yields (statementItem p) fun o => ∀ s ∈ o, s.Proper := by
  have found {s : Tree.Stmt} (h : s.Proper) : ∀ s' ∈ some s, s'.Proper := by
    rintro _ ⟨⟩
    exact h
  refine .orElse ((placed_yields (compoundStatement_yields hp)).bind fun _ h => .skip fun _ => .pure (found h)) ?_
  refine .orElse ((placed_yields simpleStatement_yields).bind fun _ h => .skip fun _ => .pure (found h)) ?_
  exact .skip fun _ => .pure (by simp)

end

theorem statementsWithin_yields (depth : Nat) : Yields (statementsWithin depth) Tree.Stmt.AllProper := by
  induction depth with
  | zero => exact .fail
  | succ depth ih =>
    refine (statementItem_yields ih).many.bind fun items hitems => .pure (Tree.Stmt.allProper_iff.mpr fun s hs => ?_)
    obtain ⟨o, ho, hs⟩ := List.mem_filterMap.mp hs
    exact hitems o ho s hs

theorem statements_yields : Yields statements Tree.Stmt.AllProper := .bounded statementsWithin_yields

theorem query_yields : Yields query Tree.Query.Proper :=
  .orElse (assignment_yields.spanned.bind fun _ h => .skip fun _ => .pure h)
    (expression_yields.bind fun _ h => .skip fun _ => .pure h)

-- ---------------------------------------------------------------------------
-- Declarations
-- ---------------------------------------------------------------------------

theorem ended_yields {α : Type} {p : Parser α} {Q : α → Prop} (hp : Yields p Q) : Yields (ended p) Q :=
  hp.bind fun _ h => .skip fun _ => .pure h

theorem range_yields : Yields range fun d => FitsInteger d.min :=
  signedInteger_yields.bind fun _ hmin => .skip fun _ => .skip fun _ => .pure hmin

theorem subrange_yields : Yields subrange fun found => FitsInteger found.2.min :=
  .skip fun _ => .skip fun _ => range_yields.bind fun _ h => .skip fun _ => .pure h

theorem arrayOf_yields {p : Parser Tree.TypeExpr} (hp : Yields p Tree.TypeExpr.Proper) :
    Yields (arrayOf p) fun found => found.1.Proper :=
  .skip fun _ => .skip fun _ => .skip fun _ => hp.bind fun _ h => .pure h

theorem typeExprWithin_yields (depth : Nat) : Yields (typeExprWithin depth) Tree.TypeExpr.Proper := by
  induction depth with
  | zero => exact .fail
  | succ depth ih =>
    refine .orElse ((arrayOf_yields ih).bind fun _ h => .pure h) ?_
    exact .orElse (subrange_yields.bind fun _ h => .pure h) (.map (.mono .any fun _ _ => trivial))

theorem typeExpr_yields : Yields typeExpr Tree.TypeExpr.Proper := .bounded typeExprWithin_yields

theorem initial_yields : Yields (optional initializer) Tree.InitialProper := initializer_yields.optional

theorem member_yields : Yields member Tree.Member.Proper :=
  .skip fun _ => .skip fun _ => typeExpr_yields.bind fun _ htype => initial_yields.bind fun _ h => .pure ⟨htype, h⟩

theorem typeBody_yields : Yields typeBody Tree.TypeBody.Proper := by
  refine .orElse (.skip fun _ => (ended_yields member_yields).some1.bind fun _ h => .skip fun _ => .pure h.2) ?_
  refine .orElse (.skip fun _ => .skip fun _ => .pure trivial) ?_
  refine .orElse (subrange_yields.bind fun _ hmin => initial_yields.bind fun _ h => .pure ⟨hmin, h⟩) ?_
  refine .orElse ((arrayOf_yields typeExpr_yields).bind fun _ htype => initial_yields.bind fun _ h => .pure ⟨htype, h⟩) ?_
  exact .skip fun _ => initial_yields.bind fun _ h => .pure h

theorem typeBlock_yields : Yields typeBlock fun ds => ∀ d ∈ ds, d.body.Proper := by
  have hdecl : Yields typeDecl fun d => d.body.Proper := .skip fun _ => .skip fun _ => typeBody_yields.bind fun _ h => .pure h
  exact .skip fun _ => (ended_yields hdecl).some1.bind fun _ h => .skip fun _ => .pure h.2

theorem varLine_yields : Yields varLine Tree.VarLine.Proper :=
  .skip fun _ => .skip fun _ => .skip fun _ => typeExpr_yields.bind fun _ htype => initial_yields.bind fun _ h =>
    .pure ⟨htype, h⟩

theorem varBlockRest_yields (section' : Section) :
    Yields (varBlockRest section') fun b => b.section = section' ∧ b.Proper :=
  .skip fun _ => (ended_yields varLine_yields).many.bind fun _ h => .skip fun _ => .pure ⟨rfl, h⟩

theorem varBlock_yields : Yields varBlock Tree.VarBlock.Proper :=
  .skip fun section' => (varBlockRest_yields section').mono fun _ h => h.2

theorem pouRest_yields (kind : PouKind) (name : Ident) {returns : Option Tree.TypeExpr}
    (hreturns : ∀ t ∈ returns, t.Proper) (closing : TokenKind) :
    Yields (pouRest kind name returns closing) Tree.Pou.Proper :=
  varBlock_yields.many.bind fun _ hblocks => statements_yields.bind fun _ hbody => .skip fun _ =>
    .pure ⟨hreturns, hblocks, hbody⟩

theorem pou_yields : Yields pou Tree.Pou.Proper := by
  refine .orElse (.skip fun _ => .skip fun _ => pouRest_yields _ _ (by simp) _) ?_
  refine .orElse (.skip fun _ => .skip fun _ => pouRest_yields _ _ (by simp) _) ?_
  refine .skip fun _ => .skip fun _ => .skip fun _ => typeExpr_yields.bind fun t ht => pouRest_yields _ _ ?_ _
  rintro _ ⟨⟩
  exact ht

theorem element_yields : Yields element Tree.Element.Proper :=
  .orElse (.map typeBlock_yields) (.orElse (.map (.skip fun _ => varBlockRest_yields _)) (.map pou_yields))

theorem source_yields : Yields source fun elements => ∀ e ∈ elements, e.Proper := element_yields.many

end Grammar

-- ---------------------------------------------------------------------------
-- Sources and queries
-- ---------------------------------------------------------------------------

theorem proper_of_parseTokens {α : Type} {p : Parser α} {Q : α → Prop} (hp : p.Yields Q) {tokens : List Token} {a : α}
    (h : parseTokens p tokens = .ok a) : Q a :=
  hp.parseAll (Except.mapError_eq_ok.mp h)

variable {source : String} {file : FileId}

/-- The tree that a unit was made from. -/
theorem elements_of_parseUnit {u : CompilationUnit} (h : parseUnit source file = .ok u) :
    ∃ elements problems, parseTokens Grammar.source (tokenize source file).1 = .ok elements ∧
      u = .ofElements file problems elements := by
  unfold parseUnit at h
  dsimp only at h
  split at h
  · cases h
  · split at h
    · cases h
    · next elements hparse =>
      cases h
      exact ⟨elements, _, hparse, rfl⟩

theorem tree_of_parseQuery {q : Query} (h : parseQuery source = .ok q) :
    ∃ tree, parseTokens Grammar.query (tokenize source .anonymous).1 = .ok tree ∧ q = Body.ofQuery tree := by
  unfold parseQuery at h
  dsimp only at h
  split at h
  · cases h
  · split at h
    · cases h
    · split at h
      · cases h
      · next tree hparse =>
        cases h
        exact ⟨tree, hparse, rfl⟩

/-- A unit that is parsed is fresh. -/
theorem fresh_of_parseUnit {u : CompilationUnit} (h : parseUnit source file = .ok u) : u.Fresh := by
  obtain ⟨elements, problems, hparse, rfl⟩ := elements_of_parseUnit h
  exact CompilationUnit.fresh_ofElements _ _ (proper_of_parseTokens Grammar.source_yields hparse)

/-- A query that is parsed makes an assignment or shows a value, and no name in it is linked. -/
theorem unlinked_of_parseQuery {q : Query} (h : parseQuery source = .ok q) :
    q.body.IsQuery ∧ Body.Unlinked q.body q.pools := by
  obtain ⟨tree, hparse, rfl⟩ := tree_of_parseQuery h
  refine ⟨?_, Body.unlinked_ofQuery (proper_of_parseTokens Grammar.query_yields hparse)⟩
  cases tree <;> exact trivial

-- ---------------------------------------------------------------------------
-- Texts that are written out
-- ---------------------------------------------------------------------------

-- The characters of a text are decoded from its bytes, which takes long to evaluate. Those of a literal are known
-- without it, as a literal is unified with the text of its characters.

theorem toList_append_eq {s t : String} {cs ds : List Char} (hs : s.toList = cs) (ht : t.toList = ds) :
    (s ++ t).toList = cs ++ ds := by
  rw [String.toList_append, hs, ht]

theorem tokenize_of_toList {cs : List Char} (h : source.toList = cs) (file : FileId) :
    tokenize source file = Lexer.scan file 0 cs := by
  rw [tokenize, h]

end StructuredText
