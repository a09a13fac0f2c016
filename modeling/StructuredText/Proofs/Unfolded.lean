-- SUMMARY: The form of a body in which nothing is computed beforehand, of which the prepared body is the folded form.
import StructuredText.Proofs.LockstepStmt
import StructuredText.Proofs.Prepared

/-!
# Unfolded bodies

The unfolded form of a body has what the check finds out about each node, but computes nothing: its operators and calls
of standard functions stay where they are, and the indexes of its references are evaluated each time. A body that is
prepared is the folded form of it.
-/

namespace StructuredText

open Returning

-- ---------------------------------------------------------------------------
-- Definition
-- ---------------------------------------------------------------------------

/-- No reference is followed beforehand. -/
def Expr.unfixed : NodeSpec where
  literal _ _ := True
  var _ path _ := path.fixed = none
  operator _ := True
  call _ _ _ _ := True

namespace Body

/-- What the check makes of an expression, or the expression itself if it fails the check. -/
def checkedOr (s : Scope) (e : Expr) : Expr :=
  match checkExpr s e with
  | .ok c => c.expr
  | .error _ => e

theorem checkedOr_of_ok {s : Scope} {e : Expr} {c : Checked} (h : checkExpr s e = .ok c) : checkedOr s e = c.expr := by
  rw [checkedOr, h]

end Body

open Body

namespace Expr

/-- The matched arguments of a call. -/
def bindings : Expr → List ArgBinding
  | .call _ _ _ _ _ bindings => bindings
  | _ => []

/-- The reference, whose indexes are other ones and are evaluated each time. -/
def withIndexes (indexes : List Expr) : Expr → Expr
  | .var info path _ => .var info { path with fixed := none } indexes
  | e => e

mutual

/-- The expression as the check leaves it, but with nothing computed. -/
def unfolded (s : Scope) : Expr → Expr
  | .literal info v type => checkedOr s (.literal info v type)
  | .var info path indexes => (checkedOr s (.var info path indexes)).withIndexes (unfoldedAll s indexes)
  | .unary info op e => .unary (checkedOr s (.unary info op e)).info op (e.unfolded s)
  | .binary info op left right =>
    .binary (checkedOr s (.binary info op left right)).info op (left.unfolded s) (right.unfolded s)
  | .call info name labels args callee bindings =>
    let checked := checkedOr s (.call info name labels args callee bindings)
    .call checked.info name labels ((labels.zip (unfoldedAll s args)).map (·.2)) callee checked.bindings

def unfoldedAll (s : Scope) : List Expr → List Expr
  | [] => []
  | e :: es => e.unfolded s :: unfoldedAll s es

end

end Expr

/-- Labels have to be constants, so they are left as the check leaves them. -/
def CaseLabel.unfolded (s : Scope) : CaseLabel → CaseLabel
  | .value e => .value (checkedOr s e)
  | .range low high => .range (checkedOr s low) (checkedOr s high)

namespace Stmt

mutual

/-- The statement as the check leaves it, but with nothing computed in its expressions. -/
def unfolded (s : Scope) : Stmt → Stmt
  | .eval e => .eval (e.unfolded s)
  | .assign info target value => .assign info (target.unfolded s) (value.unfolded s)
  | .block info statements => .block info (unfoldedAll s statements)
  | .ifThen info branches otherwise => .ifThen info (unfoldedBranches s branches) (unfoldedOption s otherwise)
  | .case info selector arms otherwise =>
    .case info (selector.unfolded s) (unfoldedArms s arms) (unfoldedOption s otherwise)
  | .forLoop info control start stop step body =>
    .forLoop info (control.unfolded s) (start.unfolded s) (stop.unfolded s) (step.map (·.unfolded s)) (body.unfolded s)
  | .whileLoop info condition body => .whileLoop info (condition.unfolded s) (body.unfolded s)
  | .repeatLoop info body condition => .repeatLoop info (body.unfolded s) (condition.unfolded s)
  | .exit info => .exit info
  | .ret info => .ret info

def unfoldedAll (s : Scope) : List Stmt → List Stmt
  | [] => []
  | stmt :: rest => stmt.unfolded s :: unfoldedAll s rest

def unfoldedOption (s : Scope) : Option Stmt → Option Stmt
  | none => none
  | some stmt => some (stmt.unfolded s)

def unfoldedBranches (s : Scope) : List (Expr × Stmt) → List (Expr × Stmt)
  | [] => []
  | (condition, stmt) :: rest => (condition.unfolded s, stmt.unfolded s) :: unfoldedBranches s rest

def unfoldedArms (s : Scope) : List (List CaseLabel × Stmt) → List (List CaseLabel × Stmt)
  | [] => []
  | (labels, stmt) :: rest => (labels.map (·.unfolded s), stmt.unfolded s) :: unfoldedArms s rest

end

end Stmt

/-- The library with the unfolded bodies of its units. -/
def Library.unfolded (eps : Float) (l : Library) : Library :=
  { l with pous := l.pous.map fun p => { p with body := p.body.unfolded ⟨l, some p, eps⟩ } }

-- ---------------------------------------------------------------------------
-- Constant expressions
-- ---------------------------------------------------------------------------

namespace Expr

open Run

variable {eps : Float} {info : NodeInfo}

theorem IsConstant.unary {op : UnaryOp} {e : Expr} {a v : Value} (h : e.IsConstant eps a) (hv : op.evaluate a = .ok v) :
    (Expr.unary info op e).IsConstant eps v := by
  intro l x
  rw [evaluate]
  simp only [andThen, EStateM.bind_apply, h l x, applyUnary, hv, atSpan, Except.mapError, EStateM.ofExcept_apply]
  rfl

theorem IsConstant.binary {op : BinaryOp} {left right : Expr} {a b v : Value} (hleft : left.IsConstant eps a)
    (hright : right.IsConstant eps b) (hv : op.evaluate a b eps = .ok v) :
    (Expr.binary info op left right).IsConstant eps v := by
  intro l x
  rw [evaluate]
  simp only [andThen, EStateM.bind_apply, hleft l x, hright l x, applyBinary, hv, Except.mapError,
    EStateM.ofExcept_apply]
  rfl

theorem IsConstant.call {name : Ident} {labels : List ArgLabel} {args : List Expr} {f : StandardFunction}
    {bindings : List ArgBinding} {values : List (Span × Value)} {v : Value} (h : AreConstant eps args values)
    (hv : f.evaluate (values.map (·.2)) = .ok v) :
    (Expr.call info name labels args (some (.standard f)) bindings).IsConstant eps v := by
  intro l x
  rw [evaluate, evaluateAll_constant h, List.nil_append, invoke]
  simp only [List.map_map, Function.comp_def, hv, atSpan, Except.mapError, EStateM.bind_apply, EStateM.ofExcept_apply]
  rfl

/-- Literals are the folded forms of constant expressions. -/
theorem areConstant_of_literalValues? {es us : List Expr} {values : List (Span × Value)}
    (h : List.Forall₂ (Folds eps) es us) (hvalues : literalValues? es = some values) : AreConstant eps us values := by
  induction h generalizing values with
  | nil =>
    cases hvalues
    exact .nil
  | @cons e u es us hfirst _ ih =>
    rw [literalValues?, List.mapM_cons] at hvalues
    obtain ⟨p, hp, hvalues⟩ := Option.bind_eq_some_iff.mp hvalues
    obtain ⟨rest, hrest, hvalues⟩ := Option.bind_eq_some_iff.mp hvalues
    cases hvalues
    cases e with
    | literal info v type =>
      cases hp
      exact .cons ⟨hfirst.span.symm, hfirst.isConstant⟩ (ih hrest)
    | var | unary | binary | call => cases hp

end Expr

-- ---------------------------------------------------------------------------
-- Checked expressions
-- ---------------------------------------------------------------------------

namespace Body

variable {s : Scope} {info : NodeInfo}

/-- Whatever the checked expression is prepared to is the folded form of another expression. -/
structure Checked.Unfolds (s : Scope) (c : Checked) (u : Expr) : Prop where
  /-- If it is a literal, it is one of its probe, which the other expression always results in. -/
  constant : c.expr.isLiteral = true →
    ∃ info type, c.expr = .literal info c.probe type ∧ info.span = u.span ∧ u.IsConstant s.epsilon c.probe
  folds : ∀ p, c.expr.mapNodesM fixNode = .ok p → p.Folds s.epsilon u

namespace Checked.Unfolds

theorem literal {v : Value} {type : Option Ident} {u : Expr} (hspan : info.span = u.span) (hvar : u.path? = none)
    (hv : u.IsConstant s.epsilon v) : (⟨.literal info v type, v⟩ : Checked).Unfolds s u := by
  refine ⟨fun _ => ⟨info, type, rfl, hspan, hv⟩, fun p hp => ?_⟩
  cases hp
  exact .constant hspan hvar hv

end Checked.Unfolds

variable {c : Checked}

/-- Checked expressions that are prepared are folded forms of other expressions. -/
theorem folds_of_unfolds {cs : List Checked} {us es : List Expr} (h : List.Forall₂ (Checked.Unfolds s) cs us)
    (hes : Expr.mapAllM fixNode (cs.map (·.expr)) = .ok es) : List.Forall₂ (Expr.Folds s.epsilon) es us := by
  induction h generalizing es with
  | nil =>
    cases hes
    exact .nil
  | cons hfirst _ ih =>
    rw [List.map_cons, Expr.mapAllM] at hes
    obtain ⟨e, he, hes⟩ := Except.bind_eq_ok.mp hes
    obtain ⟨rest, hrest, hes⟩ := Except.bind_eq_ok.mp hes
    cases hes
    exact .cons (hfirst.folds e he) (ih hrest)

/-- Checked expressions that are all literals come from constant ones. -/
theorem areConstant_of_unfolds {cs : List Checked} {us : List Expr} (h : List.Forall₂ (Checked.Unfolds s) cs us)
    (hliteral : ∀ c ∈ cs, c.expr.isLiteral = true) :
    ∃ values : List (Span × Value), Expr.AreConstant s.epsilon us values ∧ values.map (·.2) = cs.map (·.probe) := by
  induction h with
  | nil => exact ⟨[], .nil, rfl⟩
  | @cons c u _ _ hfirst _ ih =>
    obtain ⟨hc, hrest⟩ := List.forall_mem_cons.mp hliteral
    obtain ⟨_, _, -, -, hv⟩ := hfirst.constant hc
    obtain ⟨values, hvalues, hprobes⟩ := ih hrest
    exact ⟨(u.span, c.probe) :: values, .cons ⟨rfl, hv⟩ hvalues, by rw [List.map_cons, List.map_cons, hprobes]⟩

theorem checkLiteral_unfolds {v : Value} {type : Option Ident} (h : checkLiteral s info v type = .ok c) :
    c.Unfolds s c.expr := by
  unfold checkLiteral at h
  split at h
  · split at h
    · cases h
    · obtain ⟨v, -, h⟩ := Except.bind_eq_ok.mp h
      cases h
      exact .literal rfl rfl (Expr.isConstant_literal _ _ _)
  · cases h
    exact .literal rfl rfl (Expr.isConstant_literal _ _ _)

theorem checkUnary_unfolds {op : UnaryOp} {operand : Checked} {u : Expr} (hoperand : operand.Unfolds s u)
    (h : checkUnary info op operand = .ok c) : c.Unfolds s (.unary c.info op u) := by
  obtain ⟨_, -, h⟩ := Except.bind_eq_ok.mp h
  split at h
  · next hliteral =>
    obtain ⟨v, hv, h⟩ := Except.bind_eq_ok.mp h
    cases h
    obtain ⟨_, _, -, -, hconstant⟩ := hoperand.constant hliteral
    exact .literal rfl rfl (hconstant.unary (atSpan_eq_ok.mp hv))
  · cases h
    refine ⟨nofun, fun p hp => ?_⟩
    rw [Expr.mapNodesM] at hp
    obtain ⟨e, he, hp⟩ := Except.bind_eq_ok.mp hp
    cases hp
    exact .unary (hoperand.folds e he)

theorem checkBinary_unfolds {op : BinaryOp} {left right : Checked} {u u' : Expr} (hleft : left.Unfolds s u)
    (hright : right.Unfolds s u') (h : checkBinary s info op left right = .ok c) :
    c.Unfolds s (.binary c.info op u u') := by
  obtain ⟨_, -, h⟩ := Except.bind_eq_ok.mp h
  split at h
  · next hliteral =>
    obtain ⟨v, hv, h⟩ := Except.bind_eq_ok.mp h
    cases h
    obtain ⟨hliteral, hliteral'⟩ := Bool.and_eq_true_iff.mp hliteral
    obtain ⟨_, _, -, -, hconstant⟩ := hleft.constant hliteral
    obtain ⟨_, _, -, -, hconstant'⟩ := hright.constant hliteral'
    exact .literal rfl rfl (hconstant.binary hconstant' (Except.mapError_eq_ok.mp hv))
  · cases h
    refine ⟨nofun, fun p hp => ?_⟩
    rw [Expr.mapNodesM] at hp
    obtain ⟨e, he, hp⟩ := Except.bind_eq_ok.mp hp
    obtain ⟨e', he', hp⟩ := Except.bind_eq_ok.mp hp
    cases hp
    exact .binary (hleft.folds e he) (hright.folds e' he')

/-- A reference that passes the check keeps its indexes, and its selectors are found. -/
theorem checkVar_eq_ok {path : VarPath} {root : Root} {indexes : List Expr}
    (h : checkVar s info path root indexes = .ok c) :
    ∃ info' selectors, c.expr = .var info' { path with selectors } indexes ∧ info'.id = info.id := by
  obtain ⟨start, -, h⟩ := Except.bind_eq_ok.mp h
  dsimp only at h
  -- A reference of one name and one of several names only differ in the walk to what they denote.
  split at h
  on_goal 2 => obtain ⟨_, -, h⟩ := Except.bind_eq_ok.mp h
  all_goals
    obtain ⟨w, -, h⟩ := Except.bind_eq_ok.mp h
    split at h
    · cases h
    · obtain ⟨probe, -, h⟩ := Except.bind_eq_ok.mp h
      cases h
      exact ⟨_, _, rfl, rfl⟩

theorem checkVar_unfolds {path : VarPath} {root : Root} {es us : List Expr} (hunfixed : path.fixed = none)
    (hindexes : ∀ ps, Expr.mapAllM fixNode es = .ok ps → List.Forall₂ (Expr.Folds s.epsilon) ps us)
    (h : checkVar s info path root es = .ok c) : c.Unfolds s (c.expr.withIndexes us) := by
  obtain ⟨info, selectors, hvar, -⟩ := checkVar_eq_ok h
  rw [hvar, Expr.withIndexes]
  refine ⟨fun hliteral => ?_, fun p hp => ?_⟩
  · rw [hvar] at hliteral
    cases hliteral
  · rw [hvar, Expr.mapNodesM] at hp
    obtain ⟨ps, hps, hp⟩ := Except.bind_eq_ok.mp hp
    have hfolds := hindexes ps hps
    unfold fixNode at hp
    dsimp only at hp
    split at hp
    · next values hvalues =>
      obtain ⟨hops, hhops, hp⟩ := Except.bind_eq_ok.mp hp
      cases hp
      exact .fixed rfl (Expr.areConstant_of_literalValues? hfolds hvalues) hhops
    · cases hp
      rw [hunfixed]
      exact .var (Expr.allFold_iff.mpr hfolds)

-- ---------------------------------------------------------------------------
-- Checked calls
-- ---------------------------------------------------------------------------

section

variable {name : Ident} {args : List (ArgLabel × Checked)} {us : List Expr}
  (hargs : List.Forall₂ (Checked.Unfolds s) (args.map (·.2)) us)

include hargs

/-- A call whose arguments are folded is the folded form of one with the same binding of arguments. -/
theorem call_unfolds {labels : List ArgLabel} {callee : Callee} {bindings : List ArgBinding}
    (hc : c.expr = .call info name (args.map (·.1)) (args.map (·.2.expr)) (some callee) bindings) :
    c.Unfolds s (.call c.info name labels us (some callee) c.expr.bindings) := by
  refine ⟨fun hliteral => ?_, fun p hp => ?_⟩
  · rw [hc] at hliteral
    cases hliteral
  · rw [hc, Expr.mapNodesM] at hp
    obtain ⟨es, hes, hp⟩ := Except.bind_eq_ok.mp hp
    cases hp
    rw [Checked.info, hc]
    refine .call (Expr.allFold_iff.mpr (folds_of_unfolds hargs ?_))
    rwa [List.map_map]

theorem checkStandard_unfolds {labels : List ArgLabel} {f : StandardFunction}
    (h : checkStandard s info name f args = .ok c) :
    c.Unfolds s (.call c.info name labels us (some (.standard f)) c.expr.bindings) := by
  unfold checkStandard at h
  generalize args.find? _ = found at h
  rcases found with _ | ⟨label, arg⟩
  · cases haccepts : f.accepts args.length with
    | false =>
      rw [haccepts] at h
      cases h
    | true =>
      simp only [haccepts, Bool.not_true, Bool.false_eq_true, if_false] at h
      split at h
      · next hliteral =>
        obtain ⟨v, hv, h⟩ := Except.bind_eq_ok.mp h
        cases h
        obtain ⟨values, hvalues, hprobes⟩ := areConstant_of_unfolds hargs fun c hc => by
          obtain ⟨a, ha, rfl⟩ := List.mem_map.mp hc
          exact List.all_eq_true.mp hliteral a ha
        rw [List.map_map] at hprobes
        exact .literal rfl rfl (.call hvalues (hprobes ▸ atSpan_eq_ok.mp hv))
      · obtain ⟨probe, h⟩ : ∃ probe, c = ⟨.call
            { info with type? := f.resultType (args.map (·.2.info.type?)), storage := .result } name (args.map (·.1))
            (args.map (·.2.expr)) (some (.standard f)) [], probe⟩ := by
          split at h <;> obtain ⟨probe, -, h⟩ := Except.bind_eq_ok.mp h <;> exact ⟨probe, (Except.ok.inj h).symm⟩
        exact call_unfolds hargs (congrArg Checked.expr h)
  · cases h

theorem checkCall_unfolds {labels : List ArgLabel} {callee : Callee} (h : checkCall s info name callee args = .ok c) :
    c.Unfolds s (.call c.info name labels us (some callee) c.expr.bindings) := by
  unfold checkCall at h
  cases callee with
  | standard f => exact checkStandard_unfolds hargs h
  | function pou =>
    dsimp only at h
    split at h
    · cases h
    · obtain ⟨bindings, -, h⟩ := Except.bind_eq_ok.mp h
      split at h
      · cases h
        exact call_unfolds hargs rfl
      · cases h
        exact call_unfolds hargs rfl
  | «instance» root =>
    obtain ⟨block?, -, h⟩ := Except.bind_eq_ok.mp h
    split at h
    · cases h
    · obtain ⟨bindings, -, h⟩ := Except.bind_eq_ok.mp h
      cases h
      exact call_unfolds hargs rfl

end

-- ---------------------------------------------------------------------------
-- Checked bodies
-- ---------------------------------------------------------------------------

theorem forall₂_zip {cs : List Checked} {us : List Expr} (h : List.Forall₂ (Checked.Unfolds s) cs us)
    (labels : List ArgLabel) :
    List.Forall₂ (Checked.Unfolds s) ((labels.zip cs).map (·.2)) ((labels.zip us).map (·.2)) := by
  induction h generalizing labels with
  | nil => simp
  | cons hfirst _ ih =>
    cases labels with
    | nil => exact .nil
    | cons _ labels => exact .cons hfirst (ih labels)

mutual

/-- What a checked expression is prepared to is the folded form of the unfolded expression. -/
theorem checkExpr_unfolds : (e : Expr) → {c : Checked} → e.Satisfies Expr.unfixed → checkExpr s e = .ok c →
    c.Unfolds s (e.unfolded s)
  | .literal .., c, _, h => by
    rw [Expr.unfolded, checkedOr_of_ok h]
    rw [checkExpr] at h
    exact checkLiteral_unfolds h
  | .var info path indexes, c, he, h => by
    rw [Expr.unfolded, checkedOr_of_ok h]
    rw [checkExpr] at h
    split at h
    · cases h
    · obtain ⟨es, hes, h⟩ := Except.bind_eq_ok.mp h
      exact checkVar_unfolds he.1 (checkIndexes_unfolds indexes he.2 hes) h
  | .unary _ _ e, c, he, h => by
    rw [Expr.unfolded, checkedOr_of_ok h]
    rw [checkExpr] at h
    obtain ⟨operand, hoperand, h⟩ := Except.bind_eq_ok.mp h
    exact checkUnary_unfolds (checkExpr_unfolds e he.2 hoperand) h
  | .binary _ _ left right, c, he, h => by
    rw [Expr.unfolded, checkedOr_of_ok h]
    rw [checkExpr] at h
    obtain ⟨l, hl, h⟩ := Except.bind_eq_ok.mp h
    obtain ⟨r, hr, h⟩ := Except.bind_eq_ok.mp h
    exact checkBinary_unfolds (checkExpr_unfolds left he.2.1 hl) (checkExpr_unfolds right he.2.2 hr) h
  | .call _ _ labels args callee _, c, he, h => by
    rw [Expr.unfolded, checkedOr_of_ok h]
    rw [checkExpr] at h
    obtain ⟨cs, hcs, h⟩ := Except.bind_eq_ok.mp h
    cases callee with
    | none => cases h
    | some callee => exact checkCall_unfolds (forall₂_zip (checkArgs_unfolds args he.2 hcs) labels) h

theorem checkIndexes_unfolds : (es : List Expr) → {checked : List Expr} → Expr.AllSatisfy Expr.unfixed es →
    checkIndexes s es = .ok checked → ∀ ps, Expr.mapAllM fixNode checked = .ok ps →
      List.Forall₂ (Expr.Folds s.epsilon) ps (Expr.unfoldedAll s es)
  | [], _, _, h => by
    rw [checkIndexes] at h
    cases h
    rintro _ ⟨⟩
    exact .nil
  | e :: es, _, he, h => by
    rw [checkIndexes] at h
    obtain ⟨c, hc, h⟩ := Except.bind_eq_ok.mp h
    obtain ⟨_, -, h⟩ := Except.bind_eq_ok.mp h
    obtain ⟨checked, hchecked, h⟩ := Except.bind_eq_ok.mp h
    cases h
    intro ps hps
    rw [Expr.mapAllM] at hps
    obtain ⟨p, hp, hps⟩ := Except.bind_eq_ok.mp hps
    obtain ⟨rest, hrest, hps⟩ := Except.bind_eq_ok.mp hps
    cases hps
    exact .cons ((checkExpr_unfolds e he.1 hc).folds p hp) (checkIndexes_unfolds es he.2 hchecked rest hrest)

theorem checkArgs_unfolds : (es : List Expr) → {cs : List Checked} → Expr.AllSatisfy Expr.unfixed es →
    checkArgs s es = .ok cs → List.Forall₂ (Checked.Unfolds s) cs (Expr.unfoldedAll s es)
  | [], _, _, h => by
    rw [checkArgs] at h
    cases h
    exact .nil
  | e :: es, _, he, h => by
    rw [checkArgs] at h
    obtain ⟨c, hc, h⟩ := Except.bind_eq_ok.mp h
    obtain ⟨cs, hcs, h⟩ := Except.bind_eq_ok.mp h
    cases h
    exact .cons (checkExpr_unfolds e he.1 hc) (checkArgs_unfolds es he.2 hcs)

end

-- ---------------------------------------------------------------------------
-- Prepared statements
-- ---------------------------------------------------------------------------

/-- An expression is checked, and its references are fixed. -/
theorem folds_of_checked {e p : Expr} (he : e.Satisfies Expr.unfixed) (hc : checkExpr s e = .ok c)
    (hp : c.expr.mapNodesM fixNode = .ok p) : p.Folds s.epsilon (e.unfolded s) :=
  (checkExpr_unfolds e he hc).folds p hp

/-- Labels that pass the check are literals, which are left as they are. -/
theorem checkLabel_unfolded {selector : Checked} {e e' p : Expr} (h : checkLabel s selector e = .ok e')
    (hp : e'.mapNodesM fixNode = .ok p) : p = checkedOr s e := by
  obtain ⟨⟨c, hc, rfl⟩, hliteral⟩ := checkLabel_eq_ok h
  rw [checkedOr_of_ok hc]
  revert hliteral hp
  cases c.expr with
  | literal =>
    rintro ⟨⟩ -
    rfl
  | var | unary | binary | call => nofun

theorem labels_unfolded {selector : Checked} {labels checked prepared : List CaseLabel}
    (h : List.Forall₂ (LabelVerified s selector) labels checked)
    (hp : List.Forall₂ (CaseLabel.Replaced fun e p => e.mapNodesM fixNode = .ok p) checked prepared) :
    prepared = labels.map (·.unfolded s) := by
  induction h generalizing prepared with
  | nil =>
    cases hp
    rfl
  | cons hfirst _ ih =>
    cases hp with
    | cons hp hrest =>
      rw [List.map_cons, ← ih hrest]
      congr 1
      cases hfirst with
      | value h =>
        cases hp with
        | value hp => exact congrArg CaseLabel.value (checkLabel_unfolded h hp)
      | range hlow hhigh =>
        cases hp with
        | range hp hp' => exact congrArg₂ CaseLabel.range (checkLabel_unfolded hlow hp) (checkLabel_unfolded hhigh hp')

theorem checkBound_folds {control : Checked} {what : String} {e e' p : Expr} (he : e.Satisfies Expr.unfixed)
    (h : checkBound s control what e = .ok e') (hp : e'.mapNodesM fixNode = .ok p) :
    p.Folds s.epsilon (e.unfolded s) := by
  obtain ⟨c, hc, rfl⟩ := checkBound_eq_ok h
  exact folds_of_checked he hc hp

theorem checkCondition_folds {e e' p : Expr} (he : e.Satisfies Expr.unfixed) (h : checkCondition s e = .ok e')
    (hp : e'.mapNodesM fixNode = .ok p) : p.Folds s.epsilon (e.unfolded s) := by
  obtain ⟨c, hc, rfl⟩ := checkCondition_eq_ok h
  exact folds_of_checked he hc hp

mutual

/-- What a checked statement is prepared to is the folded form of the unfolded statement. -/
theorem Verified.folds {inLoop : Bool} {stmt checked prepared : Stmt} :
    Verified s inLoop stmt checked → (∀ e ∈ stmt.exprs, e.Satisfies Expr.unfixed) →
      checked.Replaced (fun e p => e.mapNodesM fixNode = .ok p) prepared →
      prepared.Folds s.epsilon (stmt.unfolded s)
  | .eval h, he, .eval hp => .eval (folds_of_checked (he _ (by simp [Stmt.exprs])) h hp)
  | .assign h, he, hp => by
    obtain ⟨t, v, path, ht, -, hv, -, -, -, rfl⟩ := checkAssign_ok h
    cases hp with
    | assign hp hp' =>
      exact .assign (folds_of_checked (he _ (by simp [Stmt.exprs])) ht hp)
        (folds_of_checked (he _ (by simp [Stmt.exprs])) hv hp')
  | .block h, he, .block hp => .block (h.folds (fun e hmem => he e (by rw [Stmt.exprs]; exact hmem)) hp)
  | .ifThen hbranches hotherwise, he, .ifThen hp hp' =>
    .ifThen (hbranches.folds (fun e hmem => he e (by rw [Stmt.exprs.eq_def]; exact List.mem_append_left _ hmem)) hp)
      (hotherwise.folds (fun e hmem => he e (by rw [Stmt.exprs.eq_def]; exact List.mem_append_right _ hmem)) hp')
  | .case hselector harms hotherwise, he, .case hp hp' hp'' =>
    .case (folds_of_checked (he _ (by rw [Stmt.exprs.eq_def]; simp)) (checkSelector_eq_ok hselector) hp)
      (harms.folds (fun e hmem => he e (by rw [Stmt.exprs.eq_def]; simp [hmem])) hp')
      (hotherwise.folds (fun e hmem => he e (by rw [Stmt.exprs.eq_def]; exact List.mem_append_right _ hmem)) hp'')
  | .forLoop hcontrol hstart hstop hstep hbody, he, .forLoop hp hp' hp'' hpstep hpbody => by
    refine .forLoop (folds_of_checked (he _ (by simp [Stmt.exprs])) (checkControl_eq_ok hcontrol).1 hp)
      (checkBound_folds (he _ (by simp [Stmt.exprs])) hstart hp')
      (checkBound_folds (he _ (by simp [Stmt.exprs])) hstop hp'') ?_
      (hbody.folds (fun e hmem => he e (by simp [Stmt.exprs, hmem])) hpbody)
    cases hstep with
    | none =>
      cases hpstep
      exact .none
    | some hstep =>
      cases hpstep with
      | some hpstep => exact .some (checkBound_folds (he _ (by simp [Stmt.exprs])) hstep hpstep)
  | .whileLoop hcondition hbody, he, .whileLoop hp hp' =>
    .whileLoop (checkCondition_folds (he _ (by simp [Stmt.exprs])) hcondition hp)
      (hbody.folds (fun e hmem => he e (by simp [Stmt.exprs, hmem])) hp')
  | .repeatLoop hbody hcondition, he, .repeatLoop hp hp' =>
    .repeatLoop (hbody.folds (fun e hmem => he e (by simp [Stmt.exprs, hmem])) hp)
      (checkCondition_folds (he _ (by simp [Stmt.exprs])) hcondition hp')
  | .exit, _, .exit => .exit
  | .ret, _, .ret => .ret

theorem VerifiedAll.folds {inLoop : Bool} {ss checked prepared : List Stmt} :
    VerifiedAll s inLoop ss checked → (∀ e ∈ Stmt.exprsOfAll ss, e.Satisfies Expr.unfixed) →
      Stmt.AllReplaced (fun e p => e.mapNodesM fixNode = .ok p) checked prepared →
      Stmt.AllFold s.epsilon prepared (Stmt.unfoldedAll s ss)
  | .nil, _, .nil => .nil
  | .cons hfirst hrest, he, .cons hp hp' =>
    .cons (hfirst.folds (fun e hmem => he e (by simp [Stmt.exprsOfAll, hmem])) hp)
      (hrest.folds (fun e hmem => he e (by simp [Stmt.exprsOfAll, hmem])) hp')

theorem VerifiedOption.folds {inLoop : Bool} {o checked prepared : Option Stmt} :
    VerifiedOption s inLoop o checked →
      (∀ e ∈ (match o with | some stmt => stmt.exprs | none => [] : List Expr), e.Satisfies Expr.unfixed) →
      Stmt.OptionReplaced (fun e p => e.mapNodesM fixNode = .ok p) checked prepared →
      Stmt.OptionFolds s.epsilon prepared (Stmt.unfoldedOption s o)
  | .none, _, .none => .none
  | .some h, he, .some hp => .some (h.folds he hp)

theorem VerifiedBranches.folds {inLoop : Bool} {bs checked prepared : List (Expr × Stmt)} :
    VerifiedBranches s inLoop bs checked → (∀ e ∈ Stmt.exprsOfBranches bs, e.Satisfies Expr.unfixed) →
      Stmt.BranchesReplaced (fun e p => e.mapNodesM fixNode = .ok p) checked prepared →
      Stmt.BranchesFold s.epsilon prepared (Stmt.unfoldedBranches s bs)
  | .nil, _, .nil => .nil
  | .cons hcondition hbody hrest, he, .cons hp hp' hp'' =>
    .cons (checkCondition_folds (he _ (by simp [Stmt.exprsOfBranches])) hcondition hp)
      (hbody.folds (fun e hmem => he e (by simp [Stmt.exprsOfBranches, hmem])) hp')
      (hrest.folds (fun e hmem => he e (by simp [Stmt.exprsOfBranches, hmem])) hp'')

theorem VerifiedArms.folds {selector : Checked} {inLoop : Bool} {arms checked prepared : List (List CaseLabel × Stmt)} :
    VerifiedArms s selector inLoop arms checked → (∀ e ∈ Stmt.exprsOfArms arms, e.Satisfies Expr.unfixed) →
      Stmt.ArmsReplaced (fun e p => e.mapNodesM fixNode = .ok p) checked prepared →
      Stmt.ArmsFold s.epsilon prepared (Stmt.unfoldedArms s arms)
  | .nil, _, .nil => .nil
  | .cons hlabels hbody hrest, he, .cons hp hp' hp'' => by
    rw [labels_unfolded hlabels hp]
    exact .cons (hbody.folds (fun e hmem => he e (by simp [Stmt.exprsOfArms, hmem])) hp')
      (hrest.folds (fun e hmem => he e (by simp [Stmt.exprsOfArms, hmem])) hp'')

end

/-- A body that is prepared is the folded form of the unfolded body. -/
theorem prepare_folds {body prepared : Stmt} (hbody : body.Satisfies Expr.unfixed)
    (h : prepare s body = .ok prepared) : prepared.Folds s.epsilon (body.unfolded s) := by
  obtain ⟨checked, hchecked, h⟩ := Except.bind_eq_ok.mp h
  have hmapped := returns_of_eq_ok (Except.mapError_eq_ok.mp h)
  exact (verified_of_verify hchecked).folds (Expr.allSatisfy_iff.mp hbody) (Stmt.replaced_of_mapExprsM checked hmapped)

end Body

end StructuredText
