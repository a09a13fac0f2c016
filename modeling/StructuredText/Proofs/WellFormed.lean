-- SUMMARY: Statements whose targets are variables, whose labels are constants and whose `EXIT`s stand in loops.
import StructuredText.Proofs.Exits
import StructuredText.Proofs.Nodes

/-!
# Well-formed statements

The checks of a body leave statements that can be executed: an assignment has a variable as its target, a label is
a constant, and an `EXIT` stands in a loop. Replacing the expressions of a statement keeps that if variables
stay variables and constants stay constants.
-/

namespace StructuredText

def CaseLabel.IsConstant (label : CaseLabel) : Prop := ∀ e ∈ label.exprs, e.isLiteral = true

namespace Stmt

mutual

/-- The statement can be executed, and its expressions have a property. -/
def WellFormed (E : Expr → Prop) (inLoop : Prop) : Stmt → Prop
  | .eval e => E e
  | .assign _ target value => target.IsVar ∧ E target ∧ E value
  | .block _ statements => AllWellFormed E inLoop statements
  | .ifThen _ branches otherwise =>
    BranchesWellFormed E inLoop branches ∧ OptionWellFormed E inLoop otherwise
  | .case _ selector arms otherwise =>
    E selector ∧ ArmsWellFormed E inLoop arms ∧ OptionWellFormed E inLoop otherwise
  | .forLoop _ control start stop step body =>
    control.IsVar ∧ (∀ e ∈ [control, start, stop] ++ step.toList, E e) ∧ body.WellFormed E True
  | .whileLoop _ condition body => E condition ∧ body.WellFormed E True
  | .repeatLoop _ body condition => body.WellFormed E True ∧ E condition
  | .exit _ => inLoop
  | .ret _ => True

def AllWellFormed (E : Expr → Prop) (inLoop : Prop) : List Stmt → Prop
  | [] => True
  | s :: rest => s.WellFormed E inLoop ∧ AllWellFormed E inLoop rest

def OptionWellFormed (E : Expr → Prop) (inLoop : Prop) : Option Stmt → Prop
  | none => True
  | some s => s.WellFormed E inLoop

def BranchesWellFormed (E : Expr → Prop) (inLoop : Prop) : List (Expr × Stmt) → Prop
  | [] => True
  | (condition, s) :: rest =>
    E condition ∧ s.WellFormed E inLoop ∧ BranchesWellFormed E inLoop rest

def ArmsWellFormed (E : Expr → Prop) (inLoop : Prop) : List (List CaseLabel × Stmt) → Prop
  | [] => True
  | (labels, s) :: rest =>
    (∀ label ∈ labels, label.IsConstant) ∧ s.WellFormed E inLoop ∧ ArmsWellFormed E inLoop rest

end

-- ---------------------------------------------------------------------------
-- Replacing expressions
-- ---------------------------------------------------------------------------

mutual

theorem WellFormed.mono {E E' : Expr → Prop} (hE : ∀ e, E e → E' e) {inLoop : Prop} :
    {s : Stmt} → s.WellFormed E inLoop → s.WellFormed E' inLoop
  | .eval _, h => hE _ h
  | .assign .., h => ⟨h.1, hE _ h.2.1, hE _ h.2.2⟩
  | .block .., h => AllWellFormed.mono hE h
  | .ifThen .., h => ⟨BranchesWellFormed.mono hE h.1, OptionWellFormed.mono hE h.2⟩
  | .case .., h => ⟨hE _ h.1, ArmsWellFormed.mono hE h.2.1, OptionWellFormed.mono hE h.2.2⟩
  | .forLoop .., h => ⟨h.1, fun e he => hE e (h.2.1 e he), WellFormed.mono hE h.2.2⟩
  | .whileLoop .., h => ⟨hE _ h.1, WellFormed.mono hE h.2⟩
  | .repeatLoop .., h => ⟨WellFormed.mono hE h.1, hE _ h.2⟩
  | .exit _, h => h
  | .ret _, _ => trivial

theorem AllWellFormed.mono {E E' : Expr → Prop} (hE : ∀ e, E e → E' e) {inLoop : Prop} :
    {ss : List Stmt} → AllWellFormed E inLoop ss → AllWellFormed E' inLoop ss
  | [], _ => trivial
  | _ :: _, h => ⟨WellFormed.mono hE h.1, AllWellFormed.mono hE h.2⟩

theorem OptionWellFormed.mono {E E' : Expr → Prop} (hE : ∀ e, E e → E' e) {inLoop : Prop} :
    {o : Option Stmt} → OptionWellFormed E inLoop o → OptionWellFormed E' inLoop o
  | none, _ => trivial
  | some _, h => WellFormed.mono hE h

theorem BranchesWellFormed.mono {E E' : Expr → Prop} (hE : ∀ e, E e → E' e) {inLoop : Prop} :
    {bs : List (Expr × Stmt)} → BranchesWellFormed E inLoop bs → BranchesWellFormed E' inLoop bs
  | [], _ => trivial
  | _ :: _, h => ⟨hE _ h.1, WellFormed.mono hE h.2.1, BranchesWellFormed.mono hE h.2.2⟩

theorem ArmsWellFormed.mono {E E' : Expr → Prop} (hE : ∀ e, E e → E' e) {inLoop : Prop} :
    {arms : List (List CaseLabel × Stmt)} → ArmsWellFormed E inLoop arms → ArmsWellFormed E' inLoop arms
  | [], _ => trivial
  | _ :: _, h => ⟨h.1, WellFormed.mono hE h.2.1, ArmsWellFormed.mono hE h.2.2⟩

end

/-- Replacing an expression keeps a property, and variables and constants stay what they are. -/
structure Preserving (E E' : Expr → Prop) (e e' : Expr) : Prop where
  property : E e → E' e'
  isVar : e.IsVar → e'.IsVar
  isLiteral : e.isLiteral = true → e'.isLiteral = true

section

variable {R : Expr → Expr → Prop} {E E' : Expr → Prop} (hR : ∀ e e', R e e' → Preserving E E' e e')

set_option linter.unusedSectionVars false

include hR

theorem isConstant_of_replaced {label label' : CaseLabel}
    (h : label.Replaced R label') (hlabel : label.IsConstant) : label'.IsConstant := by
  cases h with
  | value h =>
    simp only [CaseLabel.IsConstant, CaseLabel.exprs, List.forall_mem_cons] at hlabel ⊢
    exact ⟨(hR _ _ h).isLiteral hlabel.1, by simp⟩
  | range hlow hhigh =>
    simp only [CaseLabel.IsConstant, CaseLabel.exprs, List.forall_mem_cons] at hlabel ⊢
    exact ⟨(hR _ _ hlow).isLiteral hlabel.1, (hR _ _ hhigh).isLiteral hlabel.2.1, by simp⟩

theorem forall_isConstant_of_replaced {labels labels' : List CaseLabel}
    (h : List.Forall₂ (CaseLabel.Replaced R) labels labels')
    (hlabels : ∀ label ∈ labels, label.IsConstant) : ∀ label ∈ labels', label.IsConstant := by
  induction h with
  | nil => simp
  | cons hfirst hrest ih =>
    simp only [List.forall_mem_cons] at hlabels ⊢
    exact ⟨isConstant_of_replaced hR hfirst hlabels.1, ih hlabels.2⟩

theorem forall_bounds_of_replaced {control control' start start' stop stop' : Expr}
    {step step' : Option Expr} (hcontrol : R control control') (hstart : R start start')
    (hstop : R stop stop') (hstep : Option.Rel R step step')
    (h : ∀ e ∈ [control, start, stop] ++ step.toList, E e) :
    ∀ e ∈ [control', start', stop'] ++ step'.toList, E' e := by
  cases hstep with
  | none =>
    simp only [Option.toList, List.append_nil, List.forall_mem_cons] at h ⊢
    exact ⟨(hR _ _ hcontrol).property h.1, (hR _ _ hstart).property h.2.1, (hR _ _ hstop).property h.2.2.1, by simp⟩
  | some hstep =>
    simp only [Option.toList, List.cons_append, List.nil_append, List.forall_mem_cons] at h ⊢
    exact ⟨(hR _ _ hcontrol).property h.1, (hR _ _ hstart).property h.2.1, (hR _ _ hstop).property h.2.2.1,
      (hR _ _ hstep).property h.2.2.2.1, by simp⟩

mutual

theorem Replaced.wellFormed {inLoop : Prop} {s s' : Stmt} :
    s.Replaced R s' → s.WellFormed E inLoop → s'.WellFormed E' inLoop
  | .eval h, hs => (hR _ _ h).property hs
  | .assign htarget hvalue, hs =>
    ⟨(hR _ _ htarget).isVar hs.1, (hR _ _ htarget).property hs.2.1, (hR _ _ hvalue).property hs.2.2⟩
  | .block h, hs => AllReplaced.wellFormed h hs
  | .ifThen hbranches hotherwise, hs =>
    ⟨BranchesReplaced.wellFormed hbranches hs.1, OptionReplaced.wellFormed hotherwise hs.2⟩
  | .case hselector harms hotherwise, hs =>
    ⟨(hR _ _ hselector).property hs.1, ArmsReplaced.wellFormed harms hs.2.1,
      OptionReplaced.wellFormed hotherwise hs.2.2⟩
  | .forLoop hcontrol hstart hstop hstep hbody, hs =>
    ⟨(hR _ _ hcontrol).isVar hs.1, forall_bounds_of_replaced hR hcontrol hstart hstop hstep hs.2.1,
      hbody.wellFormed hs.2.2⟩
  | .whileLoop hcondition hbody, hs => ⟨(hR _ _ hcondition).property hs.1, hbody.wellFormed hs.2⟩
  | .repeatLoop hbody hcondition, hs => ⟨hbody.wellFormed hs.1, (hR _ _ hcondition).property hs.2⟩
  | .exit, hs => hs
  | .ret, _ => trivial

theorem AllReplaced.wellFormed {inLoop : Prop} {ss ss' : List Stmt} :
    AllReplaced R ss ss' → AllWellFormed E inLoop ss → AllWellFormed E' inLoop ss'
  | .nil, _ => trivial
  | .cons hfirst hrest, hs => ⟨hfirst.wellFormed hs.1, AllReplaced.wellFormed hrest hs.2⟩

theorem OptionReplaced.wellFormed {inLoop : Prop} {o o' : Option Stmt} :
    OptionReplaced R o o' → OptionWellFormed E inLoop o → OptionWellFormed E' inLoop o'
  | .none, _ => trivial
  | .some h, hs => Replaced.wellFormed h hs

theorem BranchesReplaced.wellFormed {inLoop : Prop} {bs bs' : List (Expr × Stmt)} :
    BranchesReplaced R bs bs' → BranchesWellFormed E inLoop bs →
      BranchesWellFormed E' inLoop bs'
  | .nil, _ => trivial
  | .cons hcondition hbody hrest, hs =>
    ⟨(hR _ _ hcondition).property hs.1, hbody.wellFormed hs.2.1, BranchesReplaced.wellFormed hrest hs.2.2⟩

theorem ArmsReplaced.wellFormed {inLoop : Prop} {arms arms' : List (List CaseLabel × Stmt)} :
    ArmsReplaced R arms arms' → ArmsWellFormed E inLoop arms →
      ArmsWellFormed E' inLoop arms'
  | .nil, _ => trivial
  | .cons hlabels hbody hrest, hs =>
    ⟨forall_isConstant_of_replaced hR hlabels hs.1, hbody.wellFormed hs.2.1,
      ArmsReplaced.wellFormed hrest hs.2.2⟩

end

end

end Stmt

-- ---------------------------------------------------------------------------
-- Checking
-- ---------------------------------------------------------------------------

namespace Body

variable {s : Scope} {e e' : Expr} {c : Checked}

theorem checkCondition_eq_ok (h : checkCondition s e = .ok e') :
    ∃ c, checkExpr s e = .ok c ∧ c.expr = e' := by
  obtain ⟨c, hc, h⟩ := Except.bind_eq_ok.mp h
  obtain ⟨_, -, h⟩ := Except.bind_eq_ok.mp h
  exact ⟨c, hc, Except.ok.inj h⟩

theorem checkBound_eq_ok {control : Checked} {what : String} (h : checkBound s control what e = .ok e') :
    ∃ c, checkExpr s e = .ok c ∧ c.expr = e' := by
  obtain ⟨c, hc, h⟩ := Except.bind_eq_ok.mp h
  obtain ⟨_, -, h⟩ := Except.bind_eq_ok.mp h
  obtain ⟨_, -, h⟩ := Except.bind_eq_ok.mp h
  exact ⟨c, hc, Except.ok.inj h⟩

theorem checkSelector_eq_ok (h : checkSelector s e = .ok c) : checkExpr s e = .ok c := by
  obtain ⟨c', hc, h⟩ := Except.bind_eq_ok.mp h
  split at h
  · cases h
    exact hc
  · cases h

theorem checkControl_eq_ok (h : checkControl s e = .ok c) :
    checkExpr s e = .ok c ∧ c.expr.IsVar := by
  obtain ⟨c', hc, h⟩ := Except.bind_eq_ok.mp h
  split at h
  · cases h
  · next path hpath =>
    obtain ⟨_, -, h⟩ := Except.bind_eq_ok.mp h
    split at h
    · cases h
    · cases h
      exact ⟨hc, Expr.isVar_of_path? hpath⟩

theorem checkLabel_eq_ok {selector : Checked} (h : checkLabel s selector e = .ok e') :
    (∃ c, checkExpr s e = .ok c ∧ c.expr = e') ∧ e'.isLiteral = true := by
  obtain ⟨c, hc, h⟩ := Except.bind_eq_ok.mp h
  cases hliteral : c.expr.isLiteral with
  | false => simp [hliteral, bind, Except.bind, throw, throwThe, MonadExceptOf.throw] at h
  | true =>
    simp only [hliteral, Bool.not_true, Bool.false_eq_true, if_false] at h
    split at h
    · cases h
    · cases h
      exact ⟨⟨c, hc, rfl⟩, hliteral⟩

theorem LabelVerified.isConstant {selector : Checked} {label label' : CaseLabel}
    (h : LabelVerified s selector label label') : label'.IsConstant := by
  cases h with
  | value h =>
    simp only [CaseLabel.IsConstant, CaseLabel.exprs, List.forall_mem_cons]
    exact ⟨(checkLabel_eq_ok h).2, by simp⟩
  | range hlow hhigh =>
    simp only [CaseLabel.IsConstant, CaseLabel.exprs, List.forall_mem_cons]
    exact ⟨(checkLabel_eq_ok hlow).2, (checkLabel_eq_ok hhigh).2, by simp⟩

end Body

end StructuredText
