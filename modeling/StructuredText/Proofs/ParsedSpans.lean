-- SUMMARY: The spans of the nodes of a parsed body nest, and those of the statements of a list follow each other.
import StructuredText.Proofs.CompleteBodies
import StructuredText.Proofs.NestedSpans

/-!
# Spans of parsed bodies

The place of a tree is from the first to the last of the tokens that it was read from, or it is put together from the
places of its parts. So what a rule of the grammar reads lies between what is read before and after it, and a line for
each rule shows that the spans of the trees nest. Of declarations it only matters that they take tokens from the front.
-/

namespace StructuredText

open Outline (Fits AllFit)

variable {source : String} {file : FileId} {lo mid hi : Nat}

-- ---------------------------------------------------------------------------
-- Constants and types
-- ---------------------------------------------------------------------------

namespace Grammar

open StructuredText.Parser

theorem identifier_spans : Reads source file lo identifier fun hi name => name.span.Reaches source file lo hi :=
  Reads.token.bind fun _ _ _ h => .pure h

theorem literal_spans (k : TokenKind) : Reads source file lo (literal k) fun hi _ => lo < hi := by
  refine Reads.token.bind fun mid t _ ht => ?_
  split
  · exact .pure ht.lt
  · exact .fail

theorem integer_spans : Reads source file lo integer fun hi _ => lo < hi := by
  refine (Reads.orElse (literal_spans _) (literal_spans _)).bind fun mid v _ h => ?_
  split
  · exact .pure h
  · exact .fail

theorem real_spans : Reads source file lo real fun hi _ => lo < hi := by
  refine (literal_spans _).bind fun mid v _ h => ?_
  split
  · exact .pure h
  · exact .fail

theorem unsignedConstant_spans : Reads source file lo unsignedConstant fun hi _ => lo < hi := by
  refine .orElse (.map real_spans) (.orElse (.map integer_spans) ?_)
  refine .orElse (Reads.token.bind fun _ _ _ h => .pure h.lt) (.orElse (Reads.token.bind fun _ _ _ h => .pure h.lt) ?_)
  exact .orElse (literal_spans _) (.orElse (literal_spans _) (.orElse (literal_spans _) (.orElse (literal_spans _)
    (literal_spans _))))

theorem constant_spans : Reads source file lo constant fun hi _ => lo < hi := by
  refine .orElse ?_ (.orElse ?_ ?_)
  · exact Reads.token.bind fun _ _ _ h => real_spans.bind fun _ _ _ h' => .pure (h.lt.trans h')
  · exact Reads.token.bind fun _ _ _ h => integer_spans.bind fun _ _ _ h' => .pure (h.lt.trans h')
  · have hsign : Reads source file lo (optional (token .plus)) fun hi _ => lo ≤ hi :=
      .optional (Reads.token.mono fun _ _ hle _ => hle) (Nat.le_refl lo)
    exact hsign.bind fun _ _ hle _ => unsignedConstant_spans.mono fun _ _ _ h => hle.trans_lt h

theorem typedValue_spans : Reads source file lo typedValue fun hi _ => lo < hi :=
  .orElse constant_spans (.map (identifier_spans.mono fun _ _ _ h => h.lt))

theorem typedLiteral_spans : Reads source file lo typedLiteral fun hi _ => lo < hi :=
  identifier_spans.bind fun _ _ _ h => Reads.token.bind fun _ _ hle _ => typedValue_spans.bind fun _ _ _ h' =>
    .pure (h.lt.trans (hle.trans_lt h'))

theorem listed_spans {α : Type} {p : Parser α} {P : Nat → Nat → α → Prop} (opening closing : TokenKind)
    (hp : ∀ lo, Reads source file lo p (P lo)) : Reads source file lo (listed opening closing p) fun hi as =>
      ∃ start stop, lo < start ∧ stop < hi ∧ Chained P start stop as := by
  refine Reads.token.bind fun start _ _ hopening => ?_
  refine (Reads.sepBy1 hp fun _ => Reads.token).bind fun stop as _ has => ?_
  exact Reads.token.bind fun hi _ _ hclosing => .pure ⟨start, stop, hopening.lt, hclosing.lt, has.2⟩

-- ---------------------------------------------------------------------------
-- Expressions
-- ---------------------------------------------------------------------------

section

variable {p : Parser Tree.Expr} (hp : ∀ lo, Reads source file lo p fun hi e => e.outline.Fits source file lo hi)

include hp

theorem indexes_spans : Reads source file lo (optional (listed .leftBracket .rightBracket p)) fun hi indexes =>
    AllFit source file lo hi (Tree.Expr.outlines (indexes.getD [])) := by
  refine .optional ((listed_spans .leftBracket .rightBracket hp).mono fun hi es _ h => ?_) ?_
  · obtain ⟨start, stop, hstart, hstop, hes⟩ := h
    rw [Option.getD_some, Tree.Expr.outlines_eq]
    exact (AllFit.flatMap (hes.mono fun _ _ _ h => .single h)).mono hstart.le hstop.le
  · rw [Option.getD_none, Tree.Expr.outlines]
    exact .nil (Nat.le_refl lo)

theorem segment_spans : Reads source file lo (segment p) fun hi s =>
    lo < hi ∧ AllFit source file lo hi (Tree.Segment.outlines [s]) := by
  have hinner (lo : Nat) : Reads source file lo (do
      let name ← identifier
      let indexes ← optional (listed .leftBracket .rightBracket p)
      pure (name, indexes.getD []) : Parser (Ident × List Tree.Expr)) fun hi found =>
        lo < hi ∧ AllFit source file lo hi (Tree.Expr.outlines found.2) :=
    identifier_spans.bind fun mid name hle hname => (indexes_spans hp).bind fun hi indexes hle' h =>
      .pure ⟨hname.lt.trans_le hle', h.mono hle (Nat.le_refl hi)⟩
  refine (Reads.spanned hinner fun _ _ _ h => h.1).bind fun hi found _ h => .pure ⟨h.1.lt, ?_⟩
  rw [Tree.Segment.outlines, Tree.Segment.outlines, List.append_nil]
  exact h.2.2.mono h.1.start (Nat.le_refl hi)

theorem path_spans : Reads source file lo (path p) fun hi path => path.outline.Fits source file lo hi := by
  have hsegments (lo : Nat) : Reads source file lo (sepBy1 (segment p) (token .period)) fun hi segments =>
      lo < hi ∧ AllFit source file lo hi (Tree.Segment.outlines segments) := by
    refine (Reads.sepBy1 (fun _ => segment_spans hp) fun _ => Reads.token).mono fun hi segments _ h => ?_
    rw [Tree.Segment.outlines_eq]
    exact ⟨h.2.lt (fun _ _ _ h => h.1) h.1, .flatMap (h.2.mono fun _ _ _ h => h.2)⟩
  refine (Reads.spanned hsegments fun _ _ _ h => h.1).bind fun hi found _ h => .pure ?_
  rw [Tree.Path.outline]
  exact .of_reaches h.1 h.2.2

theorem argument_spans : Reads source file lo (argument p) fun hi arg =>
    AllFit source file lo hi (Tree.Arg.outlines [arg]) := by
  have value {start hi : Nat} {name : Option Ident} {e : Tree.Expr} {output : Bool} (hle : lo ≤ start)
      (h : e.outline.Fits source file start hi) : AllFit source file lo hi (Tree.Arg.outlines [.mk name e output]) := by
    rw [Tree.Arg.outlines, Tree.Arg.outlines]
    exact .single (h.mono hle (Nat.le_refl hi))
  refine .orElse ?_ (.orElse ?_ ?_)
  · exact identifier_spans.skip fun _ _ hle => Reads.token.skip fun _ _ hle' => (hp _).bind fun _ _ _ h =>
      .pure (value (hle.trans hle') h)
  · refine identifier_spans.skip fun _ _ hle => Reads.token.skip fun _ _ hle' => (path_spans hp).bind fun _ path _ h =>
      .pure (value (hle.trans hle') ?_)
    rwa [Tree.Expr.outline]
  · exact (hp lo).bind fun _ _ _ h => .pure (value (Nat.le_refl lo) h)

theorem call_spans : Reads source file lo (call p) fun hi found =>
    lo < hi ∧ AllFit source file lo hi (Tree.Arg.outlines found.2) := by
  refine identifier_spans.bind fun _ name _ hname => Reads.token.skip fun start _ hle => ?_
  refine (Reads.sepBy (fun _ => argument_spans hp) fun _ => Reads.token).bind fun stop args hle' hargs => ?_
  refine Reads.token.bind fun hi _ _ hclosing => .pure ⟨?_, ?_⟩
  · exact ((hname.lt.trans_le hle).trans_le hle').trans hclosing.lt
  · rw [Tree.Arg.outlines_eq]
    exact (AllFit.flatMap hargs).mono (hname.lt.le.trans hle) hclosing.lt.le

theorem primary_spans : Reads source file lo (primary p) fun hi e => e.outline.Fits source file lo hi := by
  refine .orElse ?_ (.orElse ?_ (.orElse ?_ (.orElse ?_ ?_)))
  · exact Reads.token.skip fun _ _ hle => (hp _).bind fun _ e _ h => Reads.token.bind fun _ _ hle' _ =>
      .pure (h.mono hle hle')
  · refine (Reads.spanned (fun _ => typedLiteral_spans) fun _ _ _ h => h).bind fun _ found _ h => .pure ?_
    rw [Tree.Expr.outline]
    exact .leaf h.1
  · refine (Reads.spanned (fun _ => unsignedConstant_spans) fun _ _ _ h => h).bind fun _ found _ h => .pure ?_
    rw [Tree.Expr.outline]
    exact .leaf h.1
  · refine (Reads.spanned (fun _ => call_spans hp) fun _ _ _ h => h.1).bind fun _ found _ h => .pure ?_
    rw [Tree.Expr.outline]
    exact .of_reaches h.1 h.2.2
  · refine .map ((path_spans hp).mono fun _ path _ h => ?_)
    rwa [Tree.Expr.outline]

end

theorem unary_spans : Reads source file lo unary fun hi found => found.2.Reaches source file lo hi := by
  refine Reads.satisfy.bind fun mid t _ ht => ?_
  split
  · exact .pure ht
  · exact .fail

theorem extend_spans {operand : Nat → Parser Tree.Expr}
    (hoperand : ∀ level lo, Reads source file lo (operand level) fun hi e => e.outline.Fits source file lo hi)
    (level bound : Nat) {left : Tree.Expr} (hleft : left.outline.Fits source file lo mid) :
    Reads source file mid (extend operand level left bound) fun hi e => e.outline.Fits source file lo hi := by
  induction bound generalizing left mid with
  | zero => exact .pure hleft
  | succ bound ih =>
    have hbinding : Reads source file mid (binding level) fun _ _ => True := by
      refine Reads.satisfy.skip fun _ _ _ => ?_
      split
      · exact .pure trivial
      · exact .fail
    refine .orElse (hbinding.skip fun _ b hle => (hoperand b.right _).bind fun _ right _ hright => ih ?_) (.pure hleft)
    exact Tree.fits_ofBinary b.op hleft (hright.mono hle (Nat.le_refl _))

theorem expressionWithin_spans (depth level : Nat) : Reads source file lo (expressionWithin depth level) fun hi e =>
    e.outline.Fits source file lo hi := by
  induction depth generalizing level lo with
  | zero => exact .fail
  | succ depth ih =>
    refine Reads.bind (Q := fun hi e => e.outline.Fits source file lo hi) ?_ fun _ _ _ h =>
      .bounded fun bound => extend_spans (fun level _ => ih level) level bound h
    refine .orElse ?_ (primary_spans fun _ => ih 0)
    exact unary_spans.bind fun _ found _ hstart => (ih _).bind fun _ _ _ h =>
      .pure (Tree.fits_ofUnary found.1 hstart h)

theorem expression_spans : Reads source file lo expression fun hi e => e.outline.Fits source file lo hi :=
  .bounded fun _ => expressionWithin_spans _ 0

theorem variablePath_spans : Reads source file lo variablePath fun hi path => path.outline.Fits source file lo hi :=
  path_spans fun _ => expression_spans

-- ---------------------------------------------------------------------------
-- Statements
-- ---------------------------------------------------------------------------

open Tree (InOrder Placed Fills)

theorem assignment_spans : Reads source file lo assignment fun hi found =>
    AllFit source file lo hi [found.1.outline, found.2.outline] :=
  variablePath_spans.bind fun _ _ _ htarget => Reads.token.skip fun _ _ hle =>
    expression_spans.bind fun hi _ _ hvalue => .pure (.cons htarget (.single (hvalue.mono hle (Nat.le_refl hi))))

theorem assignment_lt {target value : Outline} (h : AllFit source file lo hi [target, value]) : lo < hi :=
  (h.2 target List.mem_cons_self).lt

theorem simpleStatement_spans : Reads source file lo simpleStatement fun hi f => Fills source file lo hi f := by
  refine .orElse ?_ (.orElse ?_ (.orElse ?_ ?_))
  · exact assignment_spans.bind fun _ _ _ h => .pure ⟨assignment_lt h, _, .of_allFit h, fun _ => by
      rw [Tree.Stmt.outline]⟩
  · exact (call_spans fun _ => expression_spans).bind fun _ _ _ h => .pure ⟨h.1, _, .of_allFit h.2, fun _ => by
      rw [Tree.Stmt.outline]⟩
  all_goals
    exact Reads.token.bind fun _ _ _ h => .pure ⟨h.lt, _, .of_allFit (.nil h.lt.le), fun _ => by rw [Tree.Stmt.outline]⟩

theorem caseValue_spans : Reads source file lo caseValue fun hi e => e.outline.Fits source file lo hi := by
  refine .orElse ?_ (.map (variablePath_spans.mono fun _ path _ h => ?_))
  · refine (Reads.spanned (fun _ => constant_spans) fun _ _ _ h => h).bind fun _ found _ h => .pure ?_
    rw [Tree.Expr.outline]
    exact .leaf h.1
  · rwa [Tree.Expr.outline]

theorem caseLabel_spans : Reads source file lo caseLabel fun hi label =>
    AllFit source file lo hi label.outlines := by
  refine .orElse ?_ (.map (caseValue_spans.mono fun _ _ _ h => .single h))
  exact caseValue_spans.bind fun _ _ _ hlow => Reads.token.skip fun _ _ hle => caseValue_spans.bind fun hi _ _ hhigh =>
    .pure (.cons hlow (.single (hhigh.mono hle (Nat.le_refl hi))))

section

variable {p : Parser (List Tree.Stmt)} (hp : ∀ lo, Reads source file lo p fun hi ss => InOrder source file lo hi ss)

include hp

theorem otherwise_spans : Reads source file lo (optional (elseStatements p)) fun hi otherwise =>
    Placed source file lo hi fun whole => Tree.Stmt.outlinesOfOption whole otherwise := by
  refine .optional (Reads.token.skip fun _ _ hle => (hp _).mono fun hi ss _ h => ?_) ⟨Nat.le_refl lo, nofun⟩
  exact (Placed.block h).mono hle (Nat.le_refl hi)

theorem branch_spans (keyword : TokenKind) : Reads source file lo (branch keyword p) fun hi b =>
    lo < hi ∧ Placed source file lo hi fun whole => [b.1.outline, Tree.blockOutline whole b.2] := by
  refine Reads.token.bind fun start _ _ hkeyword => expression_spans.bind fun mid condition _ hcondition => ?_
  refine Reads.token.skip fun _ _ hle => (hp _).bind fun hi ss hle' hss => .pure ?_
  have hparts := (Placed.of_allFit (.single hcondition)).append ((Placed.block hss).mono hle (Nat.le_refl hi))
  exact ⟨hkeyword.lt.trans_le hparts.1, hparts.mono hkeyword.lt.le (Nat.le_refl hi)⟩

theorem ifStatement_spans : Reads source file lo (ifStatement p) fun hi f => Fills source file lo hi f := by
  refine (branch_spans hp _).bind fun start first _ hfirst => ?_
  refine (Reads.many fun _ => branch_spans hp _).bind fun mid rest _ hrest => ?_
  refine (otherwise_spans hp).bind fun stop otherwise _ ho => Reads.token.bind fun hi _ _ hclosing => .pure ?_
  have hbranches : Placed source file lo mid fun whole => Tree.Stmt.outlinesOfBranches whole (first :: rest) := by
    simp only [Tree.Stmt.outlinesOfBranches_eq]
    exact .flatMap (.cons (Nat.le_refl lo) hfirst.2 (hrest.mono fun _ _ _ h => h.2))
  have hparts := (hbranches.append ho).mono (Nat.le_refl lo) hclosing.lt.le
  have hlt : lo < mid := hfirst.1.trans_le (hrest.le fun _ _ _ h => h.1.le)
  exact ⟨hlt.trans_le (ho.1.trans hclosing.lt.le), _, hparts, fun _ => by rw [Tree.Stmt.outline]⟩

theorem caseArm_spans : Reads source file lo (caseArm p) fun hi arm =>
    Placed source file lo hi fun whole => arm.1.flatMap Tree.CaseLabel.outlines ++ [Tree.blockOutline whole arm.2] := by
  refine (Reads.sepBy1 (fun _ => caseLabel_spans) fun _ => Reads.token).bind fun mid labels _ hlabels => ?_
  refine Reads.token.skip fun _ _ hle => (hp _).bind fun hi ss _ hss => .pure ?_
  exact (Placed.of_allFit (.flatMap hlabels.2)).append ((Placed.block hss).mono hle (Nat.le_refl hi))

theorem caseStatement_spans : Reads source file lo (caseStatement p) fun hi f => Fills source file lo hi f := by
  refine Reads.token.bind fun start _ _ hkeyword => expression_spans.bind fun mid selector _ hselector => ?_
  refine Reads.token.skip fun mid' _ hle => (Reads.many fun _ => caseArm_spans hp).bind fun stop arms _ harms => ?_
  refine (otherwise_spans hp).bind fun stop' otherwise _ ho => Reads.token.bind fun hi _ _ hclosing => .pure ?_
  have harms : Placed source file mid stop fun whole => Tree.Stmt.outlinesOfArms whole arms := by
    simp only [Tree.Stmt.outlinesOfArms_eq]
    exact (Placed.flatMap harms).mono hle (Nat.le_refl stop)
  have hparts := ((Placed.of_allFit (.single hselector)).append harms).append ho
  refine ⟨(hkeyword.lt.trans_le hparts.1).trans hclosing.lt, _, hparts.mono hkeyword.lt.le hclosing.lt.le, fun _ => ?_⟩
  rw [Tree.Stmt.outline]
  rfl

theorem forStatement_spans : Reads source file lo (forStatement p) fun hi f => Fills source file lo hi f := by
  have hstep {lo : Nat} : Reads source file lo (optional (do let _ ← token .kwBy; expression)) fun hi step =>
      AllFit source file lo hi (Tree.Expr.outlines step.toList) := by
    refine .optional (Reads.token.skip fun _ _ hle => expression_spans.mono fun hi e _ h => ?_) ?_
    · rw [Option.toList_some, Tree.Expr.outlines, Tree.Expr.outlines]
      exact .single (h.mono hle (Nat.le_refl hi))
    · rw [Option.toList_none, Tree.Expr.outlines]
      exact .nil (Nat.le_refl _)
  refine Reads.token.bind fun start _ _ hkeyword => assignment_spans.bind fun mid found _ hfound => ?_
  refine Reads.token.skip fun _ _ hle => expression_spans.bind fun _ stop _ hstop => hstep.bind fun _ step _ hstep => ?_
  refine Reads.token.skip fun _ _ hle' => (hp _).bind fun last ss _ hss => ?_
  refine Reads.token.bind fun hi _ _ hclosing => .pure ?_
  have hcontrol := (hfound.append ((AllFit.single hstop).mono hle (Nat.le_refl _))).append hstep
  have hparts := (Placed.of_allFit hcontrol).append ((Placed.block hss).mono hle' (Nat.le_refl last))
  refine ⟨(hkeyword.lt.trans_le hparts.1).trans hclosing.lt, _, hparts.mono hkeyword.lt.le hclosing.lt.le, fun _ => ?_⟩
  rw [Tree.Stmt.outline]
  rfl

theorem whileStatement_spans : Reads source file lo (whileStatement p) fun hi f => Fills source file lo hi f := by
  refine Reads.token.bind fun start _ _ hkeyword => expression_spans.bind fun mid condition _ hcondition => ?_
  refine Reads.token.skip fun _ _ hle => (hp _).bind fun stop ss _ hss => ?_
  refine Reads.token.bind fun hi _ _ hclosing => .pure ?_
  have hparts := (Placed.of_allFit (.single hcondition)).append ((Placed.block hss).mono hle (Nat.le_refl stop))
  refine ⟨(hkeyword.lt.trans_le hparts.1).trans hclosing.lt, _, hparts.mono hkeyword.lt.le hclosing.lt.le, fun _ => ?_⟩
  rw [Tree.Stmt.outline]
  rfl

theorem repeatStatement_spans : Reads source file lo (repeatStatement p) fun hi f => Fills source file lo hi f := by
  refine Reads.token.bind fun start _ _ hkeyword => (hp _).bind fun mid ss _ hss => Reads.token.skip fun _ _ hle => ?_
  refine expression_spans.bind fun stop condition _ hcondition => Reads.token.bind fun hi _ _ hclosing => .pure ?_
  have hparts := (Placed.block hss).append (.of_allFit (.single (hcondition.mono hle (Nat.le_refl stop))))
  refine ⟨(hkeyword.lt.trans_le hparts.1).trans hclosing.lt, _, hparts.mono hkeyword.lt.le hclosing.lt.le, fun _ => ?_⟩
  rw [Tree.Stmt.outline]
  rfl

theorem compoundStatement_spans : Reads source file lo (compoundStatement p) fun hi f => Fills source file lo hi f :=
  .orElse (ifStatement_spans hp) (.orElse (caseStatement_spans hp) (.orElse (forStatement_spans hp)
    (.orElse (whileStatement_spans hp) (repeatStatement_spans hp))))

omit hp in
theorem placed_spans {f : Parser (Span → Tree.Stmt)}
    (hf : ∀ lo, Reads source file lo f fun hi f => Fills source file lo hi f) :
    Reads source file lo (placed f) fun hi s => s.outline.Fits source file lo hi :=
  (Reads.spanned hf fun _ _ _ h => h.1).bind fun _ _ _ h => .pure (h.2.fits h.1)

theorem statementItem_spans : Reads source file lo (statementItem p) fun hi item =>
    lo ≤ hi ∧ ∀ s ∈ item, s.outline.Fits source file lo hi := by
  have found {mid hi : Nat} {s : Tree.Stmt} (hs : s.outline.Fits source file lo mid) (hle : mid ≤ hi) :
      lo ≤ hi ∧ ∀ s' ∈ some s, s'.outline.Fits source file lo hi := by
    refine ⟨hs.lt.le.trans hle, ?_⟩
    rintro _ ⟨⟩
    exact hs.mono (Nat.le_refl lo) hle
  refine .orElse ?_ (.orElse ?_ ?_)
  · exact (placed_spans fun _ => compoundStatement_spans hp).bind fun _ s _ hs =>
      (Takes.token.optional _).skip fun _ _ hle => .pure (found hs hle)
  · exact (placed_spans fun _ => simpleStatement_spans).bind fun _ s _ hs => Reads.token.skip fun _ _ hle =>
      .pure (found hs hle)
  · exact Reads.token.bind fun _ _ _ h => .pure ⟨h.lt.le, nofun⟩

end

theorem statementsWithin_spans (depth : Nat) : Reads source file lo (statementsWithin depth) fun hi ss =>
    InOrder source file lo hi ss := by
  induction depth generalizing lo with
  | zero => exact .fail
  | succ depth ih =>
    refine (Reads.many fun _ => statementItem_spans fun _ => ih).bind fun hi items _ h => .pure ?_
    exact h.filterMap (fun _ _ _ h => h.1) fun _ _ item s h hs => h.2 s hs

theorem statements_spans : Reads source file lo statements fun hi ss => InOrder source file lo hi ss :=
  .bounded statementsWithin_spans

theorem query_spans : Reads source file lo query fun _ q => ∃ lo hi, q.outline.Fits source file lo hi := by
  refine .orElse ?_ (expression_spans.bind fun _ _ _ h => (Takes.token.optional _).skip fun _ _ _ => .pure ⟨_, _, h⟩)
  refine (Reads.spanned (fun _ => assignment_spans) fun _ _ _ h => assignment_lt h).bind fun _ found _ h => ?_
  exact (Takes.token.optional _).skip fun _ _ _ => .pure ⟨_, _, Fits.of_reaches h.1 h.2⟩

-- ---------------------------------------------------------------------------
-- Declarations
-- ---------------------------------------------------------------------------

theorem identifier_takes : Takes source file identifier := .of_reads fun _ => identifier_spans

theorem integer_takes : Takes source file integer := .of_reads fun _ => integer_spans

theorem constant_takes : Takes source file constant := .of_reads fun _ => constant_spans

theorem listed_takes {α : Type} {p : Parser α} (opening closing : TokenKind) (hp : Takes source file p) :
    Takes source file (listed opening closing p) := .of_reads fun _ => listed_spans opening closing hp

theorem arrayItem_takes {p : Parser Value} (hp : Takes source file p) : Takes source file (arrayItem p) := by
  refine .orElse (integer_takes.bind fun _ => Takes.token.bind fun _ => hp.bind fun _ => Takes.token.bind fun _ => ?_)
    (hp.bind fun _ => .pure)
  split
  · exact .pure
  · exact .failExpecting

theorem initialValueWithin_takes (depth : Nat) : Takes source file (initialValueWithin depth) := by
  induction depth with
  | zero => exact .fail
  | succ depth ih =>
    have hmember : Takes source file (memberItem (initialValueWithin depth)) :=
      identifier_takes.bind fun _ => Takes.token.bind fun _ => ih.bind fun _ => .pure
    refine .orElse (.map (listed_takes _ _ (arrayItem_takes ih))) (.orElse (.map (listed_takes _ _ hmember)) ?_)
    exact .orElse (.map (.of_reads fun _ => typedLiteral_spans)) (.orElse constant_takes (.map identifier_takes))

theorem initializer_takes : Takes source file initializer :=
  Takes.token.bind fun _ => .bounded initialValueWithin_takes

theorem signedInteger_takes : Takes source file signedInteger :=
  .orElse (Takes.token.bind fun _ => integer_takes.bind fun _ => .pure)
    (Takes.token.optional.bind fun _ => integer_takes)

theorem range_takes : Takes source file range :=
  signedInteger_takes.bind fun _ => Takes.token.bind fun _ => signedInteger_takes.bind fun _ => .pure

theorem subrange_takes : Takes source file subrange :=
  identifier_takes.bind fun _ => Takes.token.bind fun _ => range_takes.bind fun _ => Takes.token.bind fun _ => .pure

theorem arrayOf_takes {p : Parser Tree.TypeExpr} (hp : Takes source file p) : Takes source file (arrayOf p) :=
  Takes.token.bind fun _ => (listed_takes _ _ range_takes).bind fun _ => Takes.token.bind fun _ =>
    hp.bind fun _ => .pure

theorem typeExprWithin_takes (depth : Nat) : Takes source file (typeExprWithin depth) := by
  induction depth with
  | zero => exact .fail
  | succ depth ih =>
    exact .orElse ((arrayOf_takes ih).bind fun _ => .pure) (.orElse (subrange_takes.bind fun _ => .pure)
      (.map identifier_takes))

theorem typeExpr_takes : Takes source file typeExpr := .bounded typeExprWithin_takes

theorem ended_takes {α : Type} {p : Parser α} (hp : Takes source file p) : Takes source file (ended p) :=
  hp.bind fun _ => Takes.token.bind fun _ => .pure

theorem member_takes : Takes source file member :=
  identifier_takes.bind fun _ => Takes.token.bind fun _ => typeExpr_takes.bind fun _ =>
    initializer_takes.optional.bind fun _ => .pure

theorem typeBody_takes : Takes source file typeBody := by
  refine .orElse ?_ (.orElse ?_ (.orElse ?_ (.orElse ?_ ?_)))
  · exact Takes.token.bind fun _ => (ended_takes member_takes).some1.bind fun _ => Takes.token.bind fun _ => .pure
  · have hinitial : Takes source file (do let _ ← token .assignment; identifier) :=
      Takes.token.bind fun _ => identifier_takes
    exact (listed_takes _ _ identifier_takes).bind fun _ => hinitial.optional.bind fun _ => .pure
  · exact subrange_takes.bind fun _ => initializer_takes.optional.bind fun _ => .pure
  · exact (arrayOf_takes typeExpr_takes).bind fun _ => initializer_takes.optional.bind fun _ => .pure
  · exact identifier_takes.bind fun _ => initializer_takes.optional.bind fun _ => .pure

theorem typeBlock_takes : Takes source file typeBlock := by
  have hdecl : Takes source file typeDecl :=
    identifier_takes.bind fun _ => Takes.token.bind fun _ => typeBody_takes.bind fun _ => .pure
  exact Takes.token.bind fun _ => (ended_takes hdecl).some1.bind fun _ => Takes.token.bind fun _ => .pure

theorem varLine_takes : Takes source file varLine := by
  have hlocation : Takes source file location := Takes.token.bind fun _ => Takes.token.bind fun _ => .pure
  exact (identifier_takes.sepBy1 .token).bind fun _ => hlocation.optional.bind fun _ => Takes.token.bind fun _ =>
    typeExpr_takes.bind fun _ => initializer_takes.optional.bind fun _ => .pure

theorem varBlockRest_takes (section' : Section) : Takes source file (varBlockRest section') := by
  have hqualifiers : Takes source file qualifiers :=
    (Takes.many (.orElse (Takes.token.bind fun _ => .pure) (Takes.token.bind fun _ => .pure))).bind fun _ => .pure
  exact hqualifiers.bind fun _ => (ended_takes varLine_takes).many.bind fun _ => Takes.token.bind fun _ => .pure

theorem varBlock_takes : Takes source file varBlock := by
  have hkeyword {k : TokenKind} {s : Section} : Takes source file (do let _ ← token k; pure s) :=
    Takes.token.bind fun _ => .pure
  have hsection : Takes source file «section» :=
    .orElse hkeyword (.orElse hkeyword (.orElse hkeyword (.orElse hkeyword (.orElse hkeyword hkeyword))))
  exact hsection.bind varBlockRest_takes

-- ---------------------------------------------------------------------------
-- Program organization units
-- ---------------------------------------------------------------------------

/-- The name of a unit covers a part of the source, and the statements of its body follow each other. -/
def PouFits (source : String) (file : FileId) (t : Tree.Pou) : Prop :=
  t.name.span.Covers source file ∧ ∃ lo hi, InOrder source file lo hi t.body

theorem pouRest_spans (kind : PouKind) {name : Ident} (returns : Option Tree.TypeExpr) (closing : TokenKind)
    (hname : name.span.Covers source file) :
    Reads source file lo (pouRest kind name returns closing) fun _ t => PouFits source file t :=
  (varBlock_takes.many lo).skip fun _ _ _ => statements_spans.bind fun _ _ _ hbody => Reads.token.skip fun _ _ _ =>
    .pure ⟨hname, _, _, hbody⟩

theorem pou_spans : Reads source file lo pou fun _ t => PouFits source file t := by
  refine .orElse ?_ (.orElse ?_ ?_)
  · exact Reads.token.skip fun _ _ _ => identifier_spans.bind fun _ _ _ hname => pouRest_spans _ _ _ hname.covers
  · exact Reads.token.skip fun _ _ _ => identifier_spans.bind fun _ _ _ hname => pouRest_spans _ _ _ hname.covers
  · exact Reads.token.skip fun _ _ _ => identifier_spans.bind fun _ _ _ hname => Reads.token.skip fun _ _ _ =>
      (typeExpr_takes _).skip fun _ _ _ => pouRest_spans _ _ _ hname.covers

theorem element_spans : Reads source file lo element fun _ e =>
    ∀ t ∈ CompilationUnit.pou? e, PouFits source file t := by
  refine .orElse (.map ((typeBlock_takes lo).mono fun _ _ _ _ => nofun)) (.orElse (.map ?_) (.map ?_))
  · exact Reads.token.skip fun mid _ _ => (varBlockRest_takes _ mid).mono fun _ _ _ _ => nofun
  · refine pou_spans.mono fun _ t _ h => ?_
    rintro _ ⟨⟩
    exact h

theorem source_spans : Reads source file lo Grammar.source fun _ elements =>
    ∀ t ∈ elements.filterMap CompilationUnit.pou?, PouFits source file t := by
  refine (Reads.many fun _ => element_spans).mono fun _ elements _ h t ht => ?_
  obtain ⟨e, he, hpou⟩ := List.mem_filterMap.mp ht
  obtain ⟨_, _, he⟩ := h.exists_of_mem e he
  exact he t hpou

theorem PouFits.nests {t : Tree.Pou} (h : PouFits source file t) :
    (Tree.blockOutline t.name.span t.body).Nests source file := by
  obtain ⟨hname, lo, hi, hbody⟩ := h
  by_cases hne : t.body = []
  · rw [hne]
    exact (Tree.fits_blockOutline_nil hname).nests
  · exact (Tree.fits_blockOutline hbody hne _).nests

end Grammar

-- ---------------------------------------------------------------------------
-- Sources and queries
-- ---------------------------------------------------------------------------

theorem exists_reads_of_parseTokens {α : Type} {p : Parser α} {Q : Nat → α → Prop}
    (hp : p.Reads source file 0 Q) {a : α} (h : parseTokens p (tokenize source file).1 = .ok a) : ∃ hi, Q hi a :=
  hp.parseAll (ordered_tokenize source file) (Except.mapError_eq_ok.mp h)

/-- The nodes of every body of a parsed source, and those of a parsed query, cover parts of the source on the boundaries
of characters. The parts of a node lie within it, and the statements of a list follow each other without overlap. The
body of a unit without statements has the place of the name of the unit. -/
theorem spans_nest (source : String) :
    (∀ file unit, parseUnit source file = .ok unit → unit.file = file ∧ ∀ pou ∈ unit.pous,
      pou.body.outline.Nests source unit.file ∧ (pou.body.outline.parts = [] → pou.body.span = pou.name.span)) ∧
    ∀ query, parseQuery source = .ok query → query.body.outline.Nests source .anonymous := by
  refine ⟨fun file unit hparse => ?_, fun query hparse => ?_⟩
  · obtain ⟨elements, problems, helements, rfl⟩ := elements_of_parseUnit hparse
    obtain ⟨-, hfits⟩ := exists_reads_of_parseTokens Grammar.source_spans helements
    obtain ⟨hfile, hbodies⟩ := CompilationUnit.namedBodies_ofElements file problems elements
    refine ⟨hfile, fun pou hpou => ?_⟩
    have hmem : (pou.name, pou.body, pou.pools) ∈ (CompilationUnit.ofElements file problems elements).namedBodies :=
      List.mem_map_of_mem hpou
    rw [hbodies] at hmem
    obtain ⟨t, ht, heq⟩ := List.mem_map.mp hmem
    obtain ⟨hname, hbuilt⟩ := Prod.mk.inj heq
    have hbody : (Body.ofStatements t.body t.name.span).1 = pou.body := congrArg Prod.fst hbuilt
    rw [hfile, ← Stmt.span_outline, ← hname, ← hbody, Body.outline_ofStatements]
    exact ⟨(hfits t ht).nests, Tree.span_blockOutline_of_parts _⟩
  · obtain ⟨tree, htree, rfl⟩ := tree_of_parseQuery hparse
    obtain ⟨-, _, _, hfits⟩ := exists_reads_of_parseTokens Grammar.query_spans htree
    rw [Body.outline_ofQuery]
    exact hfits.nests

/-- Declares a program with a loop and one without statements. -/
def loopAndEmptySource : String :=
  "PROGRAM P VAR x : INT; END_VAR WHILE x < 9 DO x := (x + 1) * 2; ; IF x > 5 THEN EXIT; END_IF END_WHILE; END_PROGRAM
   PROGRAM Empty END_PROGRAM"

/-- The bodies of two programs, one of which is at the name of its program, and that of a query. -/
theorem spans_nest_loop : ∃ unit query, parseUnit loopAndEmptySource .anonymous = .ok unit ∧
    (∀ pou ∈ unit.pous, pou.body.outline.Nests loopAndEmptySource .anonymous) ∧
    (∃ pou ∈ unit.pous, pou.body.span = pou.name.span) ∧
    parseQuery "(P.x + 1) * 2" = .ok query ∧ query.body.outline.Nests "(P.x + 1) * 2" .anonymous := by
  have hsource : (parseUnit loopAndEmptySource .anonymous).toOption.any (fun unit =>
      unit.pous.any fun pou => pou.body.outline.parts.isEmpty) = true := by
    decide +kernel
  have hquery : (parseQuery "(P.x + 1) * 2").toOption.any (fun _ => true) = true := by decide +kernel
  obtain ⟨unit, hparse, hempty⟩ := exists_of_any hsource
  obtain ⟨query, hparse', -⟩ := exists_of_any hquery
  obtain ⟨pou, hpou, hempty⟩ := List.any_eq_true.mp hempty
  obtain ⟨hfile, hnests⟩ := (spans_nest loopAndEmptySource).1 .anonymous unit hparse
  rw [hfile] at hnests
  exact ⟨unit, query, hparse, fun pou hpou => (hnests pou hpou).1,
    ⟨pou, hpou, (hnests pou hpou).2 (List.isEmpty_iff.mp hempty)⟩, hparse', (spans_nest _).2 query hparse'⟩

/-- The parentheses around a sum do not belong to it, but the product begins with the sum. -/
example : (parseQuery "(a + 1) * 2").toOption.map
    (fun q => q.body.outline.nodes.map fun n => (n.span.start, n.span.stop)) =
    some [(1, 2), (5, 6), (1, 6), (10, 11), (1, 11)] := by
  decide +kernel

end StructuredText
