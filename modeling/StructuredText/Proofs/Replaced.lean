-- SUMMARY: Statements that differ in their expressions, and replacing the expressions of a statement.
import Mathlib.Data.List.Forall2
import StructuredText.Body
import StructuredText.Proofs.Computation

/-!
# Replaced expressions

Replacing the expressions of a statement, one by one, leads to a statement of the same shape. What has to do
with its shape only is read off the relation below.
-/

namespace StructuredText

-- ---------------------------------------------------------------------------
-- Statements of the same shape
-- ---------------------------------------------------------------------------

/-- Labels of the same shape, whose expressions are related. -/
inductive CaseLabel.Replaced (R : Expr → Expr → Prop) : CaseLabel → CaseLabel → Prop
  | value {e e'} (h : R e e') : Replaced R (.value e) (.value e')
  | range {low low' high high'} (hlow : R low low') (hhigh : R high high') :
    Replaced R (.range low high) (.range low' high')

namespace Stmt

mutual

/-- Statements of the same shape, whose expressions are related. -/
inductive Replaced (R : Expr → Expr → Prop) : Stmt → Stmt → Prop
  | eval {e e'} (h : R e e') : Replaced R (.eval e) (.eval e')
  | assign {info target target' value value'} (htarget : R target target')
    (hvalue : R value value') :
    Replaced R (.assign info target value) (.assign info target' value')
  | block {info statements statements'} (h : AllReplaced R statements statements') :
    Replaced R (.block info statements) (.block info statements')
  | ifThen {info branches branches' otherwise otherwise'}
    (hbranches : BranchesReplaced R branches branches')
    (hotherwise : OptionReplaced R otherwise otherwise') :
    Replaced R (.ifThen info branches otherwise) (.ifThen info branches' otherwise')
  | case {info selector selector' arms arms' otherwise otherwise'}
    (hselector : R selector selector') (harms : ArmsReplaced R arms arms')
    (hotherwise : OptionReplaced R otherwise otherwise') :
    Replaced R (.case info selector arms otherwise) (.case info selector' arms' otherwise')
  | forLoop {info control control' start start' stop stop' step step' body body'}
    (hcontrol : R control control') (hstart : R start start') (hstop : R stop stop')
    (hstep : Option.Rel R step step') (hbody : Replaced R body body') :
    Replaced R (.forLoop info control start stop step body)
      (.forLoop info control' start' stop' step' body')
  | whileLoop {info condition condition' body body'}
    (hcondition : R condition condition') (hbody : Replaced R body body') :
    Replaced R (.whileLoop info condition body) (.whileLoop info condition' body')
  | repeatLoop {info condition condition' body body'}
    (hbody : Replaced R body body') (hcondition : R condition condition') :
    Replaced R (.repeatLoop info body condition) (.repeatLoop info body' condition')
  | exit {info} : Replaced R (.exit info) (.exit info)
  | ret {info} : Replaced R (.ret info) (.ret info)

inductive AllReplaced (R : Expr → Expr → Prop) : List Stmt → List Stmt → Prop
  | nil : AllReplaced R [] []
  | cons {first first' rest rest'} (hfirst : Replaced R first first')
    (hrest : AllReplaced R rest rest') : AllReplaced R (first :: rest) (first' :: rest')

inductive OptionReplaced (R : Expr → Expr → Prop) : Option Stmt → Option Stmt → Prop
  | none : OptionReplaced R none none
  | some {body body'} (h : Replaced R body body') : OptionReplaced R (some body) (some body')

inductive BranchesReplaced (R : Expr → Expr → Prop) :
    List (Expr × Stmt) → List (Expr × Stmt) → Prop
  | nil : BranchesReplaced R [] []
  | cons {condition condition' body body' rest rest'}
    (hcondition : R condition condition') (hbody : Replaced R body body')
    (hrest : BranchesReplaced R rest rest') :
    BranchesReplaced R ((condition, body) :: rest) ((condition', body') :: rest')

inductive ArmsReplaced (R : Expr → Expr → Prop) :
    List (List CaseLabel × Stmt) → List (List CaseLabel × Stmt) → Prop
  | nil : ArmsReplaced R [] []
  | cons {labels labels' body body' rest rest'}
    (hlabels : List.Forall₂ (CaseLabel.Replaced R) labels labels') (hbody : Replaced R body body')
    (hrest : ArmsReplaced R rest rest') :
    ArmsReplaced R ((labels, body) :: rest) ((labels', body') :: rest')

end

variable {R : Expr → Expr → Prop}

theorem labels_exprs {labels labels' : List CaseLabel}
    (h : List.Forall₂ (CaseLabel.Replaced R) labels labels') :
    List.Forall₂ R (labels.flatMap CaseLabel.exprs) (labels'.flatMap CaseLabel.exprs) := by
  refine List.rel_flatMap h fun label label' h => ?_
  cases h with
  | value h => exact .cons h .nil
  | range hlow hhigh => exact .cons hlow (.cons hhigh .nil)

theorem toList_exprs {e e' : Option Expr} (h : Option.Rel R e e') :
    List.Forall₂ R e.toList e'.toList := by
  cases h with
  | none => exact .nil
  | some h => exact .cons h .nil

mutual

/-- The expressions of statements of the same shape are related one by one. -/
theorem Replaced.exprs {s s' : Stmt} : s.Replaced R s' → List.Forall₂ R s.exprs s'.exprs
  | .eval h => .cons h .nil
  | .assign htarget hvalue => .cons htarget (.cons hvalue .nil)
  | .block h => by
    rw [Stmt.exprs, Stmt.exprs]
    exact h.exprs
  | .ifThen hbranches hotherwise => by
    rw [Stmt.exprs.eq_def, Stmt.exprs.eq_def (.ifThen ..)]
    exact List.rel_append hbranches.exprs hotherwise.exprs
  | .case hselector harms hotherwise => by
    rw [Stmt.exprs.eq_def, Stmt.exprs.eq_def (.case ..)]
    exact .cons hselector (List.rel_append harms.exprs hotherwise.exprs)
  | .forLoop hcontrol hstart hstop hstep hbody => by
    rw [Stmt.exprs, Stmt.exprs]
    refine List.rel_append (List.rel_append ?_ (toList_exprs hstep)) hbody.exprs
    exact .cons hcontrol (.cons hstart (.cons hstop .nil))
  | .whileLoop hcondition hbody => by
    rw [Stmt.exprs, Stmt.exprs]
    exact .cons hcondition hbody.exprs
  | .repeatLoop hbody hcondition => by
    rw [Stmt.exprs, Stmt.exprs]
    exact List.rel_append hbody.exprs (.cons hcondition .nil)
  | .exit | .ret => by
    rw [Stmt.exprs]
    exact .nil

theorem AllReplaced.exprs {ss ss' : List Stmt} :
    AllReplaced R ss ss' → List.Forall₂ R (exprsOfAll ss) (exprsOfAll ss')
  | .nil => .nil
  | .cons hfirst hrest => List.rel_append hfirst.exprs hrest.exprs

theorem OptionReplaced.exprs {o o' : Option Stmt} : OptionReplaced R o o' →
    List.Forall₂ R (match o with | some s => s.exprs | none => [])
      (match o' with | some s => s.exprs | none => [])
  | .none => .nil
  | .some h => h.exprs

theorem BranchesReplaced.exprs {bs bs' : List (Expr × Stmt)} :
    BranchesReplaced R bs bs' → List.Forall₂ R (exprsOfBranches bs) (exprsOfBranches bs')
  | .nil => .nil
  | .cons hcondition hbody hrest => .cons hcondition (List.rel_append hbody.exprs hrest.exprs)

theorem ArmsReplaced.exprs {arms arms' : List (List CaseLabel × Stmt)} :
    ArmsReplaced R arms arms' → List.Forall₂ R (exprsOfArms arms) (exprsOfArms arms')
  | .nil => .nil
  | .cons hlabels hbody hrest =>
    List.rel_append (List.rel_append (labels_exprs hlabels) hbody.exprs) hrest.exprs

end

end Stmt

-- ---------------------------------------------------------------------------
-- Replacing expressions
-- ---------------------------------------------------------------------------

open Returning

variable {m : Type → Type} [Monad m] [LawfulMonad m] [Returning m] {f : Expr → m Expr}

omit [LawfulMonad m] in
theorem CaseLabel.replaced_of_mapExprsM {label label' : CaseLabel}
    (h : Returns (label.mapExprsM f) label') : label.Replaced (fun e => Returns (f e)) label' := by
  cases label with
  | value e =>
    obtain ⟨e', he, h⟩ := of_bind h
    obtain rfl := of_pure h
    exact .value he
  | range low high =>
    obtain ⟨low', hlow, h⟩ := of_bind h
    obtain ⟨high', hhigh, h⟩ := of_bind h
    obtain rfl := of_pure h
    exact .range hlow hhigh

namespace Stmt

theorem labelsReplaced_of_mapM {arms : List (List CaseLabel × Stmt)}
    {labels : List (List CaseLabel)}
    (h : Returns (arms.mapM fun (ls, _) => ls.mapM (CaseLabel.mapExprsM f)) labels) :
    List.Forall₂ (fun arm => List.Forall₂ (CaseLabel.Replaced (fun e => Returns (f e))) arm.1) arms labels := by
  refine (Returning.forall₂_of_mapM h).imp fun arm ls hls => ?_
  exact List.Forall₂.imp (fun _ _ => CaseLabel.replaced_of_mapExprsM) (Returning.forall₂_of_mapM hls)

set_option linter.unusedSectionVars false in
mutual

theorem replaced_of_mapExprsM : (s : Stmt) → {s' : Stmt} →
    Returns (s.mapExprsM f) s' → s.Replaced (fun e => Returns (f e)) s'
  | .eval e, _, h => by
    rw [mapExprsM] at h
    obtain ⟨e', he, h⟩ := of_bind h
    obtain rfl := of_pure h
    exact .eval he
  | .assign info target value, _, h => by
    rw [mapExprsM] at h
    obtain ⟨target', htarget, h⟩ := of_bind h
    obtain ⟨value', hvalue, h⟩ := of_bind h
    obtain rfl := of_pure h
    exact .assign htarget hvalue
  | .block info statements, _, h => by
    rw [mapExprsM] at h
    obtain ⟨statements', hall, h⟩ := of_bind h
    obtain rfl := of_pure h
    exact .block (allReplaced_of_mapAllM statements hall)
  | .ifThen info branches none, _, h => by
    rw [mapExprsM] at h
    obtain ⟨branches', hbranches, h⟩ := of_bind h
    obtain rfl := of_pure h
    exact .ifThen (branchesReplaced_of_mapBranchesM branches hbranches) .none
  | .ifThen info branches (some s), _, h => by
    rw [mapExprsM] at h
    obtain ⟨branches', hbranches, h⟩ := of_bind h
    obtain ⟨s', hs, h⟩ := of_bind h
    obtain rfl := of_pure h
    exact .ifThen (branchesReplaced_of_mapBranchesM branches hbranches)
      (.some (replaced_of_mapExprsM s hs))
  | .case info selector arms none, _, h => by
    rw [mapExprsM] at h
    obtain ⟨selector', hselector, h⟩ := of_bind h
    obtain ⟨labels, hlabels, h⟩ := of_bind h
    obtain ⟨arms', harms, h⟩ := of_bind h
    obtain rfl := of_pure h
    exact .case hselector (armsReplaced_of_mapArmsM arms (labelsReplaced_of_mapM hlabels) harms) .none
  | .case info selector arms (some s), _, h => by
    rw [mapExprsM] at h
    obtain ⟨selector', hselector, h⟩ := of_bind h
    obtain ⟨labels, hlabels, h⟩ := of_bind h
    obtain ⟨arms', harms, h⟩ := of_bind h
    obtain ⟨s', hs, h⟩ := of_bind h
    obtain rfl := of_pure h
    exact .case hselector (armsReplaced_of_mapArmsM arms (labelsReplaced_of_mapM hlabels) harms)
      (.some (replaced_of_mapExprsM s hs))
  | .forLoop info control start stop none body, _, h => by
    rw [mapExprsM] at h
    obtain ⟨control', hcontrol, h⟩ := of_bind h
    obtain ⟨start', hstart, h⟩ := of_bind h
    obtain ⟨stop', hstop, h⟩ := of_bind h
    obtain ⟨step', hstep, h⟩ := of_bind h
    obtain rfl := of_pure hstep
    obtain ⟨body', hbody, h⟩ := of_bind h
    obtain rfl := of_pure h
    exact .forLoop hcontrol hstart hstop .none (replaced_of_mapExprsM body hbody)
  | .forLoop info control start stop (some step) body, _, h => by
    rw [mapExprsM] at h
    obtain ⟨control', hcontrol, h⟩ := of_bind h
    obtain ⟨start', hstart, h⟩ := of_bind h
    obtain ⟨stop', hstop, h⟩ := of_bind h
    obtain ⟨step', hstep, h⟩ := of_bind h
    obtain ⟨e', he, rfl⟩ := of_map hstep
    obtain ⟨body', hbody, h⟩ := of_bind h
    obtain rfl := of_pure h
    exact .forLoop hcontrol hstart hstop (.some he) (replaced_of_mapExprsM body hbody)
  | .whileLoop info condition body, _, h => by
    rw [mapExprsM] at h
    obtain ⟨condition', hcondition, h⟩ := of_bind h
    obtain ⟨body', hbody, h⟩ := of_bind h
    obtain rfl := of_pure h
    exact .whileLoop hcondition (replaced_of_mapExprsM body hbody)
  | .repeatLoop info body condition, _, h => by
    rw [mapExprsM] at h
    obtain ⟨body', hbody, h⟩ := of_bind h
    obtain ⟨condition', hcondition, h⟩ := of_bind h
    obtain rfl := of_pure h
    exact .repeatLoop (replaced_of_mapExprsM body hbody) hcondition
  | .exit info, _, h => by
    rw [mapExprsM] at h
    obtain rfl := of_pure h
    exact .exit
  | .ret info, _, h => by
    rw [mapExprsM] at h
    obtain rfl := of_pure h
    exact .ret

theorem allReplaced_of_mapAllM : (ss : List Stmt) → {ss' : List Stmt} →
    Returns (mapAllM f ss) ss' → AllReplaced (fun e => Returns (f e)) ss ss'
  | [], _, h => by
    rw [mapAllM] at h
    obtain rfl := of_pure h
    exact .nil
  | s :: ss, _, h => by
    rw [mapAllM] at h
    obtain ⟨s', hs, h⟩ := of_bind h
    obtain ⟨ss', hss, h⟩ := of_bind h
    obtain rfl := of_pure h
    exact .cons (replaced_of_mapExprsM s hs) (allReplaced_of_mapAllM ss hss)

theorem branchesReplaced_of_mapBranchesM : (bs : List (Expr × Stmt)) →
    {bs' : List (Expr × Stmt)} → Returns (mapBranchesM f bs) bs' →
    BranchesReplaced (fun e => Returns (f e)) bs bs'
  | [], _, h => by
    rw [mapBranchesM] at h
    obtain rfl := of_pure h
    exact .nil
  | (condition, s) :: bs, _, h => by
    rw [mapBranchesM] at h
    obtain ⟨condition', hcondition, h⟩ := of_bind h
    obtain ⟨s', hs, h⟩ := of_bind h
    obtain ⟨bs', hbs, h⟩ := of_bind h
    obtain rfl := of_pure h
    exact .cons hcondition (replaced_of_mapExprsM s hs) (branchesReplaced_of_mapBranchesM bs hbs)

theorem armsReplaced_of_mapArmsM {labels : List (List CaseLabel)} :
    (arms : List (List CaseLabel × Stmt)) → {arms' : List (List CaseLabel × Stmt)} →
    List.Forall₂ (fun arm => List.Forall₂ (CaseLabel.Replaced (fun e => Returns (f e))) arm.1) arms labels →
    Returns (mapArmsM f labels arms) arms' → ArmsReplaced (fun e => Returns (f e)) arms arms'
  | [], _, .nil, h => by
    rw [mapArmsM.eq_def] at h
    obtain rfl := of_pure h
    exact .nil
  | (old, s) :: arms, _, .cons hlabels hmore, h => by
    rw [mapArmsM] at h
    obtain ⟨s', hs, h⟩ := of_bind h
    obtain ⟨arms', harms, h⟩ := of_bind h
    obtain rfl := of_pure h
    exact .cons hlabels (replaced_of_mapExprsM s hs) (armsReplaced_of_mapArmsM arms hmore harms)

end

end Stmt

end StructuredText
