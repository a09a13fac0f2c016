-- SUMMARY: Executing a folded statement, and any number of micro-steps, in lockstep with the statement itself.
import StructuredText.Proofs.Lockstep

/-!
# Statements in lockstep

A folded statement is executed in lockstep with the statement, and a folded frame resumes in lockstep with the frame.
A micro-step, and then any number of them, is that for each of its frames in turn.
-/

namespace StructuredText

open Run

variable {eps : Float} {l l' : Library}

namespace Stmt

-- ---------------------------------------------------------------------------
-- Blocks and assignments
-- ---------------------------------------------------------------------------

theorem announce_lockstep {ss ss' : List Stmt} (h : AllFold eps ss ss') :
    Lockstep eps (announce ss) (announce ss') := by
  cases h with
  | nil => exact .refl _
  | cons hfirst hrest =>
    rw [announce, announce, hfirst.span]
    exact .bind fun _ => .paused (.cons (.start hfirst) (.cons (.rest hrest) .nil))

theorem continueBlock_lockstep {ss ss' : List Stmt} (h : AllFold eps ss ss') :
    Lockstep eps (continueBlock ss) (continueBlock ss') := by
  refine .bind fun x => ?_
  cases x.cursor.pending with
  | none => exact announce_lockstep h
  | some _ => exact .refl _

/-- The truth of a condition is reported at the place where it is written. -/
theorem truth_folds {condition condition' : Expr} (h : condition.Folds eps condition') :
    truth condition = truth condition' := by
  funext r
  rw [truth, truth, h.span]

theorem integerOf_folds {e e' : Expr} (h : e.Folds eps e') : integerOf e = integerOf e' := by
  funext r
  rw [integerOf, integerOf, h.span]

section

variable (hl : l.Folds eps l')

include hl

theorem assignTo_folds {a a' : AssignTarget} (h : a.Folds eps a') (source : Evaluated) :
    assignTo ⟨l, eps⟩ a source = assignTo ⟨l', eps⟩ a' source := by
  obtain ⟨span, target, place?⟩ := a
  obtain ⟨span', target', place?'⟩ := a'
  obtain ⟨rfl, htarget, rfl⟩ := h
  unfold assignTo
  rw [Storage.store_folds hl]
  cases htarget with
  | constant _ hvar =>
    cases target' with
    | var => cases hvar
    | literal | unary | binary | call => rfl
  | fixed | var => cases place? <;> rfl
  | unary | binary | call => rfl

theorem assignValue_lockstep (info : NodeInfo) {target target' value value' : Expr} (htarget : target.Folds eps target')
    (hvalue : value.Folds eps value') (located : Evaluated) :
    Lockstep eps (assignValue ⟨l, eps⟩ info target value located)
      (assignValue ⟨l', eps⟩ info target' value' located) := by
  have ha : AssignTarget.Folds eps ⟨info.span, target, located.place?⟩ ⟨info.span, target', located.place?⟩ :=
    ⟨rfl, htarget, rfl⟩
  refine .andThen (hvalue.lockstep hl) (.value ha) fun source => ?_
  rw [assignTo_folds hl ha]
  exact .refl _

-- ---------------------------------------------------------------------------
-- Loops
-- ---------------------------------------------------------------------------

theorem setControl_folds {control control' : Expr} (h : control.Folds eps control') :
    setControl ⟨l, eps⟩ control = setControl ⟨l', eps⟩ control' := by
  funext place? start
  unfold setControl
  rw [Storage.store_folds hl]
  cases h with
  | constant hspan hvar =>
    cases control' with
    | var => cases hvar
    | literal | unary | binary | call =>
      simp only [Expr.span, Expr.info] at hspan ⊢
      rw [hspan]
  | fixed | var => cases place? <;> rfl
  | unary | binary | call => rfl

theorem startFor_folds {loop loop' : ForLoop} (h : loop.Folds eps loop') (results : List Evaluated) :
    startFor ⟨l, eps⟩ loop results = startFor ⟨l', eps⟩ loop' results := by
  obtain ⟨info, control, start, stop, step, body⟩ := loop
  obtain ⟨info', control', start', stop', step', body'⟩ := loop'
  obtain ⟨rfl, hcontrol, hstart, hstop, hstep, -⟩ := h
  unfold startFor
  dsimp only
  rw [setControl_folds hl hcontrol, integerOf_folds hstart, integerOf_folds hstop]
  cases hstep with
  | none => rfl
  | some hstep =>
    dsimp only
    rw [integerOf_folds hstep, Option.map_some, Option.map_some, hstep.span]

end

theorem afterIteration_lockstep (info : NodeInfo) {next next' : Run (Progress Evaluated)}
    (h : Lockstep eps next next') : Lockstep eps (afterIteration info next) (afterIteration info next') := by
  refine .bind fun x => ?_
  cases x.cursor.pending with
  | none => exact h
  | some transfer => cases transfer <;> exact .refl _

theorem afterFor_lockstep (info : NodeInfo) (remaining : Int) {body body' : Stmt} (h : body.Folds eps body') :
    Lockstep eps (afterFor info remaining body) (afterFor info remaining body') :=
  afterIteration_lockstep info (.ite (.refl _) (.paused (.cons (.start h) (.cons (.forBody h) .nil))))

section

variable {condition condition' : Expr} {body body' : Stmt} (hcondition : condition.Folds eps condition')
  (hbody : body.Folds eps body')

include hcondition hbody

theorem afterWhile_lockstep (info : NodeInfo) :
    Lockstep eps (afterWhile info condition body) (afterWhile info condition' body') :=
  afterIteration_lockstep info (.paused (.cons (.whileAgain hcondition hbody) .nil))

theorem testWhile_lockstep (info : NodeInfo) {run run' : Run (Progress Evaluated)} (hrun : Lockstep eps run run')
    (entered : Bool) (r : Evaluated) :
    Lockstep eps (testWhile info condition body run entered r) (testWhile info condition' body' run' entered r) := by
  have iterated : Lockstep eps (andThen run (.whileBody info condition body) fun _ => afterWhile info condition body)
      (andThen run' (.whileBody info condition' body') fun _ => afterWhile info condition' body') :=
    .andThen hrun (.whileBody hcondition hbody) fun _ => afterWhile_lockstep hcondition hbody info
  unfold testWhile
  rw [truth_folds hcondition]
  exact .bind fun b => .ite (.ite (.bind fun _ => iterated) iterated) (.refl _)

theorem testRepeat_lockstep (info : NodeInfo) (r : Evaluated) :
    Lockstep eps (testRepeat info body condition r) (testRepeat info body' condition' r) := by
  unfold testRepeat
  rw [truth_folds hcondition]
  exact .bind fun b => .ite (.refl _) (.paused (.cons (.start hbody) (.cons (.repeatBody hbody hcondition) .nil)))

end

section

variable (hl : l.Folds eps l')

include hl

theorem afterRepeat_lockstep (info : NodeInfo) {condition condition' : Expr} {body body' : Stmt}
    (hbody : body.Folds eps body') (hcondition : condition.Folds eps condition') :
    Lockstep eps (afterRepeat ⟨l, eps⟩ info body condition) (afterRepeat ⟨l', eps⟩ info body' condition') :=
  afterIteration_lockstep info (.andThen (hcondition.lockstep hl) (.repeatTest hbody hcondition)
    fun r => testRepeat_lockstep hcondition hbody info r)

theorem runFor_lockstep {loop loop' : ForLoop} (h : loop.Folds eps loop') {run run' : Run (Progress Evaluated)}
    (hrun : Lockstep eps run run') (results : List Evaluated) :
    Lockstep eps (runFor ⟨l, eps⟩ loop run results) (runFor ⟨l', eps⟩ loop' run' results) := by
  unfold runFor
  rw [startFor_folds hl h, h.info]
  refine .bind fun count => .ite (.refl _) (.bind fun _ => ?_)
  exact .andThen hrun (.forBody h.body) fun _ => afterFor_lockstep _ count h.body

omit hl in
theorem allFold_bounds {loop loop' : ForLoop} (h : loop.Folds eps loop') :
    Expr.AllFold eps (bounds loop) (bounds loop') := by
  obtain ⟨_, _, _, _, step, _⟩ := loop
  obtain ⟨_, _, _, _, step', _⟩ := loop'
  obtain ⟨-, hcontrol, hstart, hstop, hstep, -⟩ := h
  cases hstep with
  | none => exact .cons hcontrol (.cons hstart (.cons hstop .nil))
  | some hstep => exact .cons hcontrol (.cons hstart (.cons hstop (.cons hstep .nil)))

-- ---------------------------------------------------------------------------
-- Statements
-- ---------------------------------------------------------------------------

set_option linter.unusedSectionVars false in
mutual

/-- A folded statement is executed in lockstep with the statement. -/
theorem Folds.lockstep {s s' : Stmt} :
    s.Folds eps s' → Lockstep eps (s.execute ⟨l, eps⟩) (s'.execute ⟨l', eps⟩)
  | .eval h => by
    rw [execute, execute]
    exact h.lockstep hl
  | .assign htarget hvalue => by
    rw [execute, execute]
    exact .andThen (htarget.lockstep hl) (.target htarget hvalue) fun r =>
      assignValue_lockstep hl _ htarget hvalue r
  | .block h => by
    rw [execute, execute]
    exact announce_lockstep h
  | .ifThen hbranches hotherwise => by
    rw [execute, execute]
    exact hbranches.lockstep hotherwise hotherwise.lockstep
  | .case hselector harms hotherwise => by
    rw [execute, execute]
    refine .andThen (hselector.lockstep hl) (.selector hselector harms hotherwise) fun r => ?_
    rw [hselector.span]
    exact harms.lockstep _ r.value hotherwise.lockstep
  | @Folds.forLoop _ info control control' start start' stop stop' step step' body body' hcontrol hstart hstop hstep
      hbody => by
    rw [execute, execute]
    have hloop : ForLoop.Folds eps ⟨info, control, start, stop, step, body⟩
        ⟨info, control', start', stop', step', body'⟩ := ⟨rfl, hcontrol, hstart, hstop, hstep, hbody⟩
    refine (allFold_bounds hloop).lockstep hl ?_ (runFor_lockstep hl hloop hbody.lockstep) []
    exact fun _ _ _ hrest => .bound hloop hrest
  | .whileLoop hcondition hbody => by
    rw [execute, execute]
    exact .andThen (hcondition.lockstep hl) (.whileTest hcondition hbody) fun r =>
      testWhile_lockstep hcondition hbody _ hbody.lockstep false r
  | .repeatLoop hbody hcondition => by
    rw [execute, execute]
    refine .bind fun _ => .andThen hbody.lockstep (.repeatBody hbody hcondition) fun _ => ?_
    exact afterRepeat_lockstep hl _ hbody hcondition
  | .exit => by
    rw [execute, execute]
    exact .refl _
  | .ret => by
    rw [execute, execute]
    exact .refl _

theorem OptionFolds.lockstep {o o' : Option Stmt} :
    OptionFolds eps o o' → Lockstep eps (executeOption ⟨l, eps⟩ o) (executeOption ⟨l', eps⟩ o')
  | .none => by
    rw [executeOption, executeOption]
    exact .refl _
  | .some h => by
    rw [executeOption, executeOption]
    exact h.lockstep

theorem BranchesFold.lockstep {o o' : Option Stmt} (ho : OptionFolds eps o o') {run run' : Run (Progress Evaluated)}
    (hrun : Lockstep eps run run') {bs bs' : List (Expr × Stmt)} :
    BranchesFold eps bs bs' → Lockstep eps (executeBranches ⟨l, eps⟩ o run bs) (executeBranches ⟨l', eps⟩ o' run' bs')
  | .nil => by
    rw [executeBranches, executeBranches]
    exact hrun
  | .cons hcondition hbody hrest => by
    rw [executeBranches, executeBranches]
    refine .andThen (hcondition.lockstep hl) (.condition hcondition hbody hrest ho) fun r => ?_
    rw [truth_folds hcondition]
    exact .bind fun b => .ite hbody.lockstep (hrest.lockstep ho hrun)

theorem ArmsFold.lockstep (span : Span) (v : Value) {run run' : Run (Progress Evaluated)}
    (hrun : Lockstep eps run run') {arms arms' : List (List CaseLabel × Stmt)} :
    ArmsFold eps arms arms' →
      Lockstep eps (executeArms ⟨l, eps⟩ span v run arms) (executeArms ⟨l', eps⟩ span v run' arms')
  | .nil => by
    rw [executeArms, executeArms]
    exact hrun
  | .cons hbody hrest => by
    rw [executeArms, executeArms]
    exact .bind fun b => .ite hbody.lockstep (hrest.lockstep span v hrun)

end

end

end Stmt

-- ---------------------------------------------------------------------------
-- Micro-steps
-- ---------------------------------------------------------------------------

namespace Run

/-- Performs a number of micro-steps, or fewer if there is nothing left to do. -/
def microSteps (env : Environment) : (count : Nat) → List Frame → Run (Progress Evaluated)
  | 0, frames => pure (.paused frames)
  | count + 1, frames => do
    onCursor (·.clearPause)
    match ← microStep env frames with
    | .done r => pure (.done r)
    | .paused frames => microSteps env count frames

section

variable (hl : l.Folds eps l')

include hl

/-- A folded frame goes on in lockstep with the frame. -/
theorem resume_lockstep (r : Evaluated) {frame frame' : Frame} (h : frame.Folds eps frame') :
    Lockstep eps (resume ⟨l, eps⟩ r frame) (resume ⟨l', eps⟩ r frame') := by
  cases h with
  | index hindexes hrest =>
    refine hrest.lockstep hl ?_ (fun values => ?_) _
    · exact fun _ _ _ hmore => .index hindexes hmore
    · rw [Expr.lookupAt_folds hl _ _ hindexes]
      exact .refl _
  | operand => exact .refl _
  | left hleft hright =>
    refine .andThen (hright.lockstep hl) (.right hleft hright) fun b => ?_
    rw [Expr.applyBinary_folds hleft hright]
    exact .refl _
  | right hleft hright =>
    rw [resume, resume, Expr.applyBinary_folds hleft hright]
    exact .refl _
  | arg hsite hrest =>
    refine hrest.lockstep hl ?_ (Expr.invoke_folds hl hsite) _
    exact fun _ _ _ hmore => .arg hsite hmore
  | callee h => exact .bind fun _ => .paused (.cons (.results h) .nil)
  | results h => exact Expr.collectResults_folds hl h _ _
  | start h => exact h.lockstep hl
  | rest h => exact Stmt.continueBlock_lockstep h
  | target htarget hvalue => exact Stmt.assignValue_lockstep hl _ htarget hvalue r
  | value h =>
    rw [resume, resume, Stmt.assignTo_folds hl h]
    exact .refl _
  | condition hcondition hbody hrest hotherwise =>
    rw [resume, resume, Stmt.truth_folds hcondition]
    exact .bind fun b => .ite (hbody.lockstep hl) (hrest.lockstep hl hotherwise (hotherwise.lockstep hl))
  | selector hselector harms hotherwise =>
    rw [resume, resume, hselector.span]
    exact harms.lockstep hl _ _ (hotherwise.lockstep hl)
  | bound hloop hrest =>
    refine hrest.lockstep hl ?_ (Stmt.runFor_lockstep hl hloop (hloop.body.lockstep hl)) _
    exact fun _ _ _ hmore => .bound hloop hmore
  | forBody h => exact Stmt.afterFor_lockstep _ _ h
  | whileTest hcondition hbody => exact Stmt.testWhile_lockstep hcondition hbody _ (hbody.lockstep hl) _ r
  | whileBody hcondition hbody => exact Stmt.afterWhile_lockstep hcondition hbody _
  | whileAgain hcondition hbody =>
    exact .andThen (hcondition.lockstep hl) (.whileTest hcondition hbody) fun r =>
      Stmt.testWhile_lockstep hcondition hbody _ (hbody.lockstep hl) true r
  | repeatBody hbody hcondition => exact Stmt.afterRepeat_lockstep hl _ hbody hcondition
  | repeatTest hbody hcondition => exact Stmt.testRepeat_lockstep hcondition hbody _ r

theorem resumeAll_lockstep {frames frames' : List Frame} (h : List.Forall₂ (Frame.Folds eps) frames frames')
    (r : Evaluated) : Lockstep eps (resumeAll ⟨l, eps⟩ frames r) (resumeAll ⟨l', eps⟩ frames' r) := by
  induction h generalizing r with
  | nil => exact .refl _
  | cons hframe houter ih =>
    intro x
    have hx := resume_lockstep hl r hframe x
    rw [resumeAll_cons, resumeAll_cons]
    revert hx
    generalize resume _ r _ x = p
    generalize resume _ r _ x = p'
    rintro (_ | _ | hinner)
    · exact .failed
    · exact ih _ _
    · exact .paused (List.rel_append hinner houter)

/-- Any number of micro-steps of folded frames are performed in lockstep with those of the frames. -/
theorem microSteps_lockstep (count : Nat) {frames frames' : List Frame}
    (h : List.Forall₂ (Frame.Folds eps) frames frames') :
    Lockstep eps (microSteps ⟨l, eps⟩ count frames) (microSteps ⟨l', eps⟩ count frames') := by
  induction count generalizing frames frames' with
  | zero => exact .paused h
  | succ count ih =>
    refine .bind fun _ x => ?_
    have hx := resumeAll_lockstep hl h {} x
    simp only [EStateM.bind_apply, microStep]
    revert hx
    generalize resumeAll _ frames {} x = p
    generalize resumeAll _ frames' {} x = p'
    rintro (_ | _ | hleft)
    · exact .failed
    · exact .done
    · exact ih hleft _

end

end Run

end StructuredText
