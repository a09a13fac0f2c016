-- SUMMARY: What it means for a statement to pass the checks, and that accepted bodies have passed them.
import Mathlib.Data.List.Forall2
import StructuredText.Body.Verify
import StructuredText.Proofs.Computation

/-!
# Verified bodies

The checks of a body report the problems of a block statement by statement and go on after each one. A body
is accepted if no problem is reported, and then every statement in it has passed its own checks.
-/

namespace StructuredText.Body

-- ---------------------------------------------------------------------------
-- Verified statements
-- ---------------------------------------------------------------------------

/-- A label passes the check against a selector and becomes another one. -/
inductive LabelVerified (s : Scope) (selector : Checked) : CaseLabel → CaseLabel → Prop
  | value {e e'} (h : checkLabel s selector e = .ok e') :
    LabelVerified s selector (.value e) (.value e')
  | range {low low' high high'} (hlow : checkLabel s selector low = .ok low')
    (hhigh : checkLabel s selector high = .ok high') :
    LabelVerified s selector (.range low high) (.range low' high')

mutual

/-- A statement, in a loop or not, passes the checks and becomes another one. -/
inductive Verified (s : Scope) : Bool → Stmt → Stmt → Prop
  | eval {inLoop e c} (h : checkExpr s e = .ok c) : Verified s inLoop (.eval e) (.eval c.expr)
  | assign {inLoop info target value checked} (h : checkAssign s info target value = .ok checked) :
    Verified s inLoop (.assign info target value) checked
  | block {inLoop info statements checked} (h : VerifiedAll s inLoop statements checked) :
    Verified s inLoop (.block info statements) (.block info checked)
  | ifThen {inLoop info branches branches' otherwise otherwise'}
    (hbranches : VerifiedBranches s inLoop branches branches')
    (hotherwise : VerifiedOption s inLoop otherwise otherwise') :
    Verified s inLoop (.ifThen info branches otherwise) (.ifThen info branches' otherwise')
  | case {inLoop info selector c arms arms' otherwise otherwise'}
    (hselector : checkSelector s selector = .ok c) (harms : VerifiedArms s c inLoop arms arms')
    (hotherwise : VerifiedOption s inLoop otherwise otherwise') :
    Verified s inLoop (.case info selector arms otherwise) (.case info c.expr arms' otherwise')
  | forLoop {inLoop info control c start start' stop stop' step step' body body'}
    (hcontrol : checkControl s control = .ok c) (hstart : checkBound s c "start" start = .ok start')
    (hstop : checkBound s c "end" stop = .ok stop')
    (hstep : Option.Rel (fun e e' => checkBound s c "step" e = .ok e') step step')
    (hbody : Verified s true body body') :
    Verified s inLoop (.forLoop info control start stop step body)
      (.forLoop info c.expr start' stop' step' body')
  | whileLoop {inLoop info condition condition' body body'}
    (hcondition : checkCondition s condition = .ok condition') (hbody : Verified s true body body') :
    Verified s inLoop (.whileLoop info condition body) (.whileLoop info condition' body')
  | repeatLoop {inLoop info condition condition' body body'}
    (hbody : Verified s true body body') (hcondition : checkCondition s condition = .ok condition') :
    Verified s inLoop (.repeatLoop info body condition) (.repeatLoop info body' condition')
  | exit {info} : Verified s true (.exit info) (.exit info)
  | ret {inLoop info} : Verified s inLoop (.ret info) (.ret info)

inductive VerifiedAll (s : Scope) : Bool → List Stmt → List Stmt → Prop
  | nil {inLoop} : VerifiedAll s inLoop [] []
  | cons {inLoop first first' rest rest'} (hfirst : Verified s inLoop first first')
    (hrest : VerifiedAll s inLoop rest rest') :
    VerifiedAll s inLoop (first :: rest) (first' :: rest')

inductive VerifiedOption (s : Scope) : Bool → Option Stmt → Option Stmt → Prop
  | none {inLoop} : VerifiedOption s inLoop none none
  | some {inLoop body body'} (h : Verified s inLoop body body') :
    VerifiedOption s inLoop (some body) (some body')

inductive VerifiedBranches (s : Scope) :
    Bool → List (Expr × Stmt) → List (Expr × Stmt) → Prop
  | nil {inLoop} : VerifiedBranches s inLoop [] []
  | cons {inLoop condition condition' body body' rest rest'}
    (hcondition : checkCondition s condition = .ok condition')
    (hbody : Verified s inLoop body body') (hrest : VerifiedBranches s inLoop rest rest') :
    VerifiedBranches s inLoop ((condition, body) :: rest) ((condition', body') :: rest')

inductive VerifiedArms (s : Scope) :
    Checked → Bool → List (List CaseLabel × Stmt) → List (List CaseLabel × Stmt) → Prop
  | nil {selector inLoop} : VerifiedArms s selector inLoop [] []
  | cons {selector inLoop labels labels' body body' rest rest'}
    (hlabels : List.Forall₂ (LabelVerified s selector) labels labels')
    (hbody : Verified s inLoop body body') (hrest : VerifiedArms s selector inLoop rest rest') :
    VerifiedArms s selector inLoop ((labels, body) :: rest) ((labels', body') :: rest')

end

/-- An assignment that passes the check has a target of its own and a value that fits. -/
theorem checkAssign_ok {s : Scope} {info : NodeInfo} {target value : Expr} {checked : Stmt}
    (h : checkAssign s info target value = .ok checked) :
    ∃ t v path, checkExpr s target = .ok t ∧ t.expr.path? = some path ∧ checkExpr s value = .ok v ∧
      t.info.storage.constant = false ∧ t.probe.kind ≠ .block ∧
      s.types.assignable t.info.type? v.info.type? v.info.storage v.probe = .ok () ∧
      checked = .assign info t.expr v.expr := by
  obtain ⟨t, ht, h⟩ := Except.bind_eq_ok.mp h
  split at h
  · cases h
  · next path hpath =>
    obtain ⟨v, hv, h⟩ := Except.bind_eq_ok.mp h
    cases hconstant : t.info.storage.constant with
    | true =>
      simp only [hconstant, if_true] at h
      cases h
    | false =>
      simp only [hconstant, Bool.false_eq_true, if_false] at h
      split at h
      · cases h
      · next hblock =>
        obtain ⟨_, hfits, h⟩ := Except.bind_eq_ok.mp h
        cases h
        refine ⟨t, v, path, ht, hpath, hv, hconstant, fun hkind => ?_, atSpan_eq_ok.mp hfits, rfl⟩
        cases hprobe : t.probe <;> simp_all [Value.kind]

-- ---------------------------------------------------------------------------
-- Checks that report nothing
-- ---------------------------------------------------------------------------

/--
If the check passes and no problem has been reported when it ends, then none had been reported before it,
and the result has a property.
-/
def Certifies {α : Type} (m : Checking α) (P : α → Prop) : Prop :=
  ∀ ds a, m.run.run ds = (.ok a, []) → ds = [] ∧ P a

namespace Certifies

variable {α β : Type} {P : α → Prop}

theorem pure {a : α} (h : P a) : Certifies (Pure.pure a) P := by
  intro ds b hb
  cases hb
  exact ⟨rfl, h⟩

theorem lift (x : Except Diagnostic α) : Certifies (liftM x) (x = .ok ·) := by
  intro ds a h
  cases x with
  | error e => cases h
  | ok b =>
    cases h
    exact ⟨rfl, rfl⟩

theorem throw (d : Diagnostic) : Certifies (MonadExcept.throw d : Checking α) P := by
  intro ds a h
  cases h

theorem mono {m : Checking α} {Q : α → Prop} (h : Certifies m P) (hPQ : ∀ a, P a → Q a) :
    Certifies m Q := by
  intro ds a ha
  obtain ⟨hds, hP⟩ := h ds a ha
  exact ⟨hds, hPQ a hP⟩

theorem bind {m : Checking α} {f : α → Checking β} {Q : β → Prop} (hm : Certifies m P)
    (hf : ∀ a, Certifies (f a) fun b => P a → Q b) : Certifies (m >>= f) Q := by
  intro ds b h
  rcases hrun : m.run.run ds with ⟨a | a, ds'⟩
  · simp only [ExceptT.run_bind, StateT.run_bind, hrun] at h
    cases h
  · simp only [ExceptT.run_bind, StateT.run_bind, hrun] at h
    obtain ⟨rfl, hQ⟩ := hf a ds' b h
    obtain ⟨rfl, hP⟩ := hm ds a hrun
    exact ⟨rfl, hQ hP⟩

theorem map {m : Checking α} {f : α → β} {Q : β → Prop}
    (hm : Certifies m fun a => Q (f a)) : Certifies (f <$> m) Q := by
  rw [map_eq_pure_bind]
  exact bind hm fun a => pure id

theorem mapM {R : α → β → Prop} {f : α → Checking β} (as : List α)
    (hf : ∀ a ∈ as, Certifies (f a) (R a)) : Certifies (as.mapM f) (List.Forall₂ R as) := by
  induction as with
  | nil => exact pure .nil
  | cons a as ih =>
    rw [List.mapM_cons]
    refine bind (hf a List.mem_cons_self) fun b => ?_
    refine bind (ih fun a' ha => hf a' (List.mem_cons_of_mem a ha)) fun bs => ?_
    exact pure fun hbs hb => .cons hb hbs

/-- A check whose problem is reported certifies nothing. -/
theorem reporting {m : Checking α} {a : α} (hm : Certifies m P) :
    Certifies (tryCatch m fun d => do modify (· ++ [d]); Pure.pure a) P := by
  intro ds b h
  rcases hrun : m.run.run ds with ⟨d | b', ds'⟩
  · simp only [ExceptT.run_tryCatch, StateT.run_bind, hrun] at h
    obtain ⟨-, h⟩ := Prod.mk.inj h
    simp at h
  · simp only [ExceptT.run_tryCatch, StateT.run_bind, hrun] at h
    cases h
    exact hm ds b hrun

end Certifies

-- ---------------------------------------------------------------------------
-- Accepted bodies
-- ---------------------------------------------------------------------------

theorem labelVerified_of_checkLabel (s : Scope) (selector : Checked) (label : CaseLabel) :
    Certifies (label.mapExprsM fun e => liftM (checkLabel s selector e))
      (LabelVerified s selector label) := by
  cases label with
  | value e => exact .bind (.lift _) fun e' => .pure .value
  | range low high =>
    exact .bind (.lift _) fun low' => .bind (.lift _) fun high' => .pure fun hhigh hlow =>
      .range hlow hhigh

theorem labelsVerified (s : Scope) (selector : Checked) (arms : List (List CaseLabel × Stmt)) :
    Certifies (arms.mapM fun (labels, _) =>
        labels.mapM (·.mapExprsM fun e => liftM (checkLabel s selector e)))
      (List.Forall₂ (fun arm => List.Forall₂ (LabelVerified s selector) arm.1) arms) :=
  .mapM _ fun _ _ => .mapM _ fun label _ => labelVerified_of_checkLabel s selector label

theorem stepVerified (s : Scope) (control : Checked) (step : Expr) :
    Certifies (some <$> liftM (checkBound s control "step" step))
      (Option.Rel (fun e e' => checkBound s control "step" e = .ok e') (some step)) :=
  .map ((Certifies.lift _).mono fun _ h => .some h)

mutual

theorem verified_of_checkStmt (s : Scope) (inLoop : Bool) : (stmt : Stmt) →
    Certifies (checkStmt s inLoop stmt) (Verified s inLoop stmt)
  | .eval e => by
    rw [checkStmt]
    exact .bind (.lift _) fun c => .pure .eval
  | .assign info target value => by
    rw [checkStmt]
    exact (Certifies.lift _).mono fun _ => .assign
  | .block info statements => by
    rw [checkStmt]
    exact .bind (verifiedAll_of_checkAll s inLoop statements) fun checked => .pure .block
  | .ifThen info branches none => by
    rw [checkStmt]
    exact .bind (verifiedBranches_of_checkBranches s inLoop branches) fun branches' =>
      .pure fun hbranches => .ifThen hbranches .none
  | .ifThen info branches (some body) => by
    rw [checkStmt]
    exact .bind (verifiedBranches_of_checkBranches s inLoop branches) fun branches' =>
      .bind (verified_of_checkStmt s inLoop body) fun body' =>
        .pure fun hbody hbranches => .ifThen hbranches (.some hbody)
  | .case info selector arms none => by
    rw [checkStmt]
    refine .bind (.lift _) fun c => .bind (labelsVerified s c arms) fun labels => ?_
    exact .bind (verifiedArms_of_checkArms s c inLoop labels arms) fun arms' =>
      .pure fun harms hlabels hselector => .case hselector (harms hlabels) .none
  | .case info selector arms (some body) => by
    rw [checkStmt]
    refine .bind (.lift _) fun c => .bind (labelsVerified s c arms) fun labels => ?_
    exact .bind (verifiedArms_of_checkArms s c inLoop labels arms) fun arms' =>
      .bind (verified_of_checkStmt s inLoop body) fun body' =>
        .pure fun hbody harms hlabels hselector => .case hselector (harms hlabels) (.some hbody)
  | .forLoop info control start stop none body => by
    rw [checkStmt]
    refine .bind (.lift _) fun c => .bind (.lift _) fun start' => .bind (.lift _) fun stop' =>
      .bind (P := (· = none)) (.pure rfl) fun step' => ?_
    refine .bind (verified_of_checkStmt s true body) fun body' => .pure ?_
    rintro hbody rfl hstop hstart hcontrol
    exact .forLoop hcontrol hstart hstop .none hbody
  | .forLoop info control start stop (some step) body => by
    rw [checkStmt]
    refine .bind (.lift _) fun c => .bind (.lift _) fun start' => .bind (.lift _) fun stop' =>
      .bind (stepVerified s c step) fun step' => ?_
    exact .bind (verified_of_checkStmt s true body) fun body' =>
      .pure fun hbody hstep hstop hstart hcontrol => .forLoop hcontrol hstart hstop hstep hbody
  | .whileLoop info condition body => by
    rw [checkStmt]
    exact .bind (.lift _) fun condition' => .bind (verified_of_checkStmt s true body) fun body' =>
      .pure fun hbody hcondition => .whileLoop hcondition hbody
  | .repeatLoop info body condition => by
    rw [checkStmt]
    exact .bind (verified_of_checkStmt s true body) fun body' => .bind (.lift _) fun condition' =>
      .pure fun hcondition hbody => .repeatLoop hbody hcondition
  | .exit info => by
    rw [checkStmt]
    cases inLoop with
    | true => exact .pure .exit
    | false => exact .throw _
  | .ret info => by
    rw [checkStmt]
    exact .pure .ret

theorem verifiedAll_of_checkAll (s : Scope) (inLoop : Bool) : (statements : List Stmt) →
    Certifies (checkAll s inLoop statements) (VerifiedAll s inLoop statements)
  | [] => by
    rw [checkAll]
    exact .pure .nil
  | first :: rest => by
    rw [checkAll]
    exact .bind (.reporting (verified_of_checkStmt s inLoop first)) fun first' =>
      .bind (verifiedAll_of_checkAll s inLoop rest) fun rest' =>
        .pure fun hrest hfirst => .cons hfirst hrest

theorem verifiedBranches_of_checkBranches (s : Scope) (inLoop : Bool) :
    (branches : List (Expr × Stmt)) →
    Certifies (checkBranches s inLoop branches) (VerifiedBranches s inLoop branches)
  | [] => by
    rw [checkBranches]
    exact .pure .nil
  | (condition, body) :: rest => by
    rw [checkBranches]
    exact .bind (.lift _) fun condition' => .bind (verified_of_checkStmt s inLoop body) fun body' =>
      .bind (verifiedBranches_of_checkBranches s inLoop rest) fun rest' =>
        .pure fun hrest hbody hcondition => .cons hcondition hbody hrest

theorem verifiedArms_of_checkArms (s : Scope) (selector : Checked) (inLoop : Bool)
    (labels : List (List CaseLabel)) : (arms : List (List CaseLabel × Stmt)) →
    Certifies (checkArms s inLoop labels arms) fun checked =>
      List.Forall₂ (fun arm => List.Forall₂ (LabelVerified s selector) arm.1) arms labels →
        VerifiedArms s selector inLoop arms checked
  | [] => by
    rw [checkArms.eq_def]
    cases labels <;> exact .pure fun _ => .nil
  | (old, body) :: rest => by
    cases labels with
    | nil =>
      rw [checkArms.eq_def]
      exact .pure nofun
    | cons new more =>
      rw [checkArms]
      refine .bind (verified_of_checkStmt s inLoop body) fun body' =>
        .bind (verifiedArms_of_checkArms s selector inLoop more rest) fun rest' =>
          .pure fun hrest hbody hlabels => ?_
      cases hlabels with
      | cons hlabels hmore => exact .cons hlabels hbody (hrest hmore)

end

theorem verified_of_verify {s : Scope} {body checked : Stmt} (h : verify s body = .ok checked) :
    Verified s false body checked := by
  unfold verify at h
  split at h
  · next hc =>
    cases h
    exact (verified_of_checkStmt s false body [] checked hc).2
  · cases h
  · cases h

end StructuredText.Body
