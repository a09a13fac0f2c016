-- SUMMARY: Executing a statement on two storages that are alike takes the same course, pause by pause.
import StructuredText.Proofs.ParallelExpr
import StructuredText.Proofs.SafeStmt

/-!
# Parallel statements

The statements of linked bodies are parallel, and so the bodies of all units are. Which statement comes next depends on
the values of conditions and bounds, which are the same in both executions, and on the cursor. As for safety, the
induction is on the number of pauses: what a body calls, and what a loop does again, comes after a pause.
-/

namespace StructuredText.Comparison

open Run

variable {c : Comparison} {n : Nat} {before after chain : Chain} {vars : List VarDecl} {body : Stmt}

/-- The execution stays on the chain, and its result does not matter. -/
abbrev Takes (c : Comparison) (n : Nat) (chain : Chain) (m : Run (Progress Evaluated)) : Prop :=
  c.Parallel n [] chain chain m fun _ => True

theorem takes_finish : c.Takes n chain finish := .done trivial

-- ---------------------------------------------------------------------------
-- Blocks
-- ---------------------------------------------------------------------------

section

variable (hin : c.inUnit)

include hin

/-- Frames that are left to do start a statement, and another frame waits for it. -/
theorem takes_started {frame : Frame} (hbody : c.Takes n chain (body.execute c.env))
    (hframe : ∀ k < n, ∀ r, c.Takes k chain (resume c.env r frame)) :
    c.Takes n chain (pure (.paused [.start body, frame])) := by
  refine .paused hin (List.cons_ne_nil _ _) rfl fun k hk => .resumed (hbody.fewer (Nat.le_of_lt hk)) fun r _ => ?_
  exact .resumed (hframe k hk r) fun r _ => .finished trivial

theorem takes_announce {statements : List Stmt} (h : ∀ s ∈ statements, c.Takes n chain (s.execute c.env)) :
    c.Takes n chain (Stmt.announce statements) := by
  induction statements generalizing n with
  | nil => exact takes_finish
  | cons s rest ih =>
    refine .announced hin (List.cons_ne_nil _ _) rfl fun k hk => ?_
    refine .resumed ((h s List.mem_cons_self).fewer (Nat.le_of_lt hk)) fun r _ => ?_
    refine .resumed (Q := fun _ => True) (.reads (fun x _ => ?_) fun _ _ _ => rfl) fun r _ => .finished trivial
    cases x.cursor.pending with
    | none => exact ih fun s hs => (h s (List.mem_cons_of_mem _ hs)).fewer (Nat.le_of_lt hk)
    | some transfer => exact takes_finish

end

-- ---------------------------------------------------------------------------
-- Loops
-- ---------------------------------------------------------------------------

theorem uniform_enterLoop {y : Layout} {kept : List InstanceId} (info : NodeInfo) :
    Uniform (Abreast y kept chain) (Stmt.enterLoop info) fun _ => True := by
  rintro ⟨s, cursor⟩ ⟨s', cursor'⟩ hx
  obtain rfl : cursor = cursor' := hx.cursor
  simp only [Stmt.enterLoop, EStateM.bind_apply, EStateM.get_apply]
  cases Stmt.loopEntry? cursor info with
  | none => exact ⟨rfl, hx⟩
  | some entry => exact ⟨rfl, ⟨rfl, hx.onChain, hx.pause, hx.storages⟩, trivial⟩

theorem takes_leaveLoop (info : NodeInfo) : c.Takes n chain (do Stmt.leaveLoop info; finish) := by
  refine .steering (fun cursor => ?_) takes_finish
  cases Stmt.loopEntry? cursor info with
  | none => exact ⟨rfl, rfl⟩
  | some entry =>
    simp only [Cursor.leaveLoop]
    split <;> exact ⟨rfl, rfl⟩

theorem takes_afterIteration (info : NodeInfo) {next : Run (Progress Evaluated)} (h : c.Takes n chain next) :
    c.Takes n chain (Stmt.afterIteration info next) := by
  refine .reads (fun x _ => ?_) fun _ _ _ => rfl
  cases x.cursor.pending with
  | none => exact h
  | some transfer =>
    cases transfer with
    | exit => exact .steering (fun _ => ⟨rfl, rfl⟩) (takes_leaveLoop info)
    | ret => exact takes_leaveLoop info

theorem takes_requestExit (info : NodeInfo) : c.Takes n chain (Stmt.requestExit info) := by
  refine .reads (fun x _ => ?_) fun _ _ _ => rfl
  dsimp only
  cases x.cursor.current with
  | none => exact .fail
  | some i => exact .ite (fun _ => .steering (fun _ => ⟨rfl, rfl⟩) takes_finish) fun _ => .fail

theorem takes_afterFor (hin : c.inUnit) (info : NodeInfo) (remaining : Int) (hbody : c.Takes n chain (body.execute c.env)) :
    c.Takes n chain (Stmt.afterFor info remaining body) := by
  induction n using Nat.strongRecOn generalizing remaining with
  | ind n ih =>
    refine takes_afterIteration info (.ite (fun _ => takes_leaveLoop info) fun _ => ?_)
    exact takes_started hin hbody fun k hk r => ih k hk (remaining - 1) (hbody.fewer (Nat.le_of_lt hk))

/-- A choice by the truth of a condition. -/
theorem takes_choice {condition : Expr} {r : Evaluated} {m m' : Run (Progress Evaluated)} (h : c.Takes n chain m)
    (h' : c.Takes n chain m') : c.Takes n chain (do if ← Stmt.truth condition r then m else m') :=
  .bind (.checked _) fun _ _ => .ite (fun _ => h) fun _ => h'

section

variable (hl : c.layout.library.Resolved) (hbodies : c.inUnit → c.BodiesParallel n)
  (hruns : c.layout.Runs chain.current vars) (hunit : c.inUnit → ∃ caller, chain.current = some caller)

include hl hbodies hruns hunit

/-- A linked expression is evaluated, and what goes on with its result is parallel. -/
theorem parallel_evaluated {e : Expr} {frame : Frame} {next : Evaluated → Run (Progress Evaluated)}
    {Q : Evaluated → Prop} (he : e.Linked c.layout.library vars c.inUnit)
    (hframe : ∀ r, resume c.env r frame = next r)
    (hnext : ∀ r, c.Locates chain e r → c.Parallel n [] chain after (next r) Q) :
    c.Parallel n [] chain after (andThen (e.evaluate c.env) frame next) Q :=
  .andThen (evaluate_parallel hl hbodies hruns hunit e he) hframe hnext

theorem takes_testWhile (hin : c.inUnit) {info : NodeInfo} {condition : Expr}
    (hcondition : condition.Linked c.layout.library vars c.inUnit) (hbody : c.Takes n chain (body.execute c.env))
    (entered : Bool) (r : Evaluated) :
    c.Takes n chain (Stmt.testWhile info condition body (body.execute c.env) entered r) := by
  induction n using Nat.strongRecOn generalizing entered r with
  | ind n ih =>
    have iterated : c.Takes n chain
        (andThen (body.execute c.env) (.whileBody info condition body) fun _ => Stmt.afterWhile info condition body) := by
      refine .andThen hbody (fun _ => rfl) fun r _ => takes_afterIteration info ?_
      refine .paused hin (List.cons_ne_nil _ _) rfl fun k hk => ?_
      have hbodies (hin : c.inUnit) := (hbodies hin).mono (Nat.le_of_lt hk)
      refine .resumed (Q := fun _ => True)
        (parallel_evaluated hl hbodies hruns hunit hcondition (fun _ => rfl) fun r _ => ?_)
        fun _ _ => .finished trivial
      exact ih k hk hbodies (hbody.fewer (Nat.le_of_lt hk)) true r
    refine takes_choice ?_ ?_
    · cases entered with
      | false => exact .bind (uniform_enterLoop info) fun _ _ => iterated
      | true => exact iterated
    · cases entered with
      | false => exact takes_finish
      | true => exact takes_leaveLoop info

theorem takes_afterRepeat (hin : c.inUnit) {info : NodeInfo} {condition : Expr}
    (hcondition : condition.Linked c.layout.library vars c.inUnit) (hbody : c.Takes n chain (body.execute c.env)) :
    c.Takes n chain (Stmt.afterRepeat c.env info body condition) := by
  induction n using Nat.strongRecOn with
  | ind n ih =>
    refine takes_afterIteration info (parallel_evaluated hl hbodies hruns hunit hcondition (fun _ => rfl) fun r _ => ?_)
    refine takes_choice (takes_leaveLoop info) (takes_started hin hbody fun k hk r => ?_)
    exact ih k hk (fun hin => (hbodies hin).mono (Nat.le_of_lt hk)) (hbody.fewer (Nat.le_of_lt hk))

end

-- ---------------------------------------------------------------------------
-- Assignments
-- ---------------------------------------------------------------------------

/-- The result of an assignment is the place of its target, where both storages have the same value. -/
def Assigns (c : Comparison) (chain : Chain) (r : Evaluated) : Prop :=
  ∃ type place, r.place? = some place ∧ c.layout.Placed place type ∧
    c.layout.Sees (c.kept ++ chain.instances) place.slot

section

variable (hl : c.layout.library.Resolved)

include hl

theorem assignTo_parallel {span : Span} {target : Expr} {located source : Evaluated} (hvar : target.IsVar)
    (htarget : c.Locates chain target located) (hsource : source.value.Proper c.layout.Bound) :
    c.Parallel n [] chain chain (Stmt.assignTo c.env ⟨span, target, located.place?⟩ source) (c.Assigns chain) := by
  obtain ⟨info, path, indexes, rfl⟩ := hvar
  obtain ⟨type, place, htype, hdeclared, hpermanent, hplace, hplaced⟩ := htarget.located _ _ _ rfl
  have hsees := htarget.sees place hplace
  unfold Stmt.assignTo
  simp only [hplace, htype]
  exact .bind (.abreast (fun stack => Expr.store_steady hl hplaced hdeclared hpermanent hsource) fun cursor =>
    uniform_storing (Storage.store_uniform hsees _ _ _ _)) fun _ _ => .done ⟨type, place, rfl, hplaced, hsees⟩

theorem assign_parallel (hbodies : c.inUnit → c.BodiesParallel n) (hruns : c.layout.Runs chain.current vars)
    (hunit : c.inUnit → ∃ caller, chain.current = some caller) {info : NodeInfo} {target value : Expr}
    (hvar : target.IsVar) (htarget : target.Linked c.layout.library vars c.inUnit)
    (hvalue : value.Linked c.layout.library vars c.inUnit) :
    c.Parallel n [] chain chain ((Stmt.assign info target value).execute c.env) (c.Assigns chain) := by
  rw [Stmt.execute]
  refine parallel_evaluated hl hbodies hruns hunit htarget (fun _ => rfl) fun located hlocated => ?_
  refine parallel_evaluated hl hbodies hruns hunit hvalue (fun _ => rfl) fun source hsource => ?_
  exact assignTo_parallel hl hvar hlocated hsource.proper

end

-- ---------------------------------------------------------------------------
-- `FOR` loops
-- ---------------------------------------------------------------------------

theorem setControl_uniform {y : Layout} {busy : List InstanceId} {cursor : Cursor} {env : Environment} {place? : Option Place}
    (hsees : ∀ place, place? = some place → y.Sees busy place.slot) (control : Expr) (start : Int) :
    Uniform (AlikeAt y busy cursor) (Stmt.setControl env control place? start) fun _ => True := by
  unfold Stmt.setControl
  split
  · exact uniform_storing (Storage.store_uniform (hsees _ rfl) _ _ _ _)
  · exact .fail
  · exact .fail

theorem startFor_uniform {y : Layout} {busy : List InstanceId} {cursor : Cursor} {env : Environment} {loop : ForLoop}
    {results : List Evaluated} (hsees : ∀ r ∈ results, ∀ place, r.place? = some place → y.Sees busy place.slot) :
    Uniform (AlikeAt y busy cursor) (Stmt.startFor env loop results) fun _ => True := by
  have hhead : ∀ place, results.head?.bind (·.place?) = some place → y.Sees busy place.slot := by
    intro place hplace
    obtain ⟨r, hr, hplace⟩ := Option.bind_eq_some_iff.mp hplace
    exact hsees r (List.mem_of_mem_head? hr) _ hplace
  have assigned (start stop step : Int) : Uniform (AlikeAt y busy cursor) (do
      Stmt.setControl env loop.control (results.head?.bind (·.place?)) start
      pure (Stmt.iterations start stop step)) fun _ => True :=
    .bind (setControl_uniform hhead _ _) fun _ _ => .pure trivial
  refine .bind (.checked _) fun start _ => .bind (.checked _) fun stop _ => ?_
  cases loop.step with
  | none =>
    refine .bind (Q := fun _ => True) (.pure trivial) fun step _ => ?_
    exact .ite (fun _ => .fail) fun _ => assigned start stop step
  | some e =>
    refine .bind (.checked _) fun step _ => ?_
    exact .ite (fun _ => .fail) fun _ => assigned start stop step

theorem takes_runFor (hl : c.layout.library.Resolved) (hin : c.inUnit) {loop : ForLoop} {results : List Evaluated}
    (hvar : loop.control.IsVar) (hbody : c.Takes n chain (loop.body.execute c.env))
    (hresults : List.Forall₂ (c.Locates chain) (Stmt.bounds loop) results) :
    c.Takes n chain (Stmt.runFor c.env loop (loop.body.execute c.env) results) := by
  have hyields := hresults.imp fun _ _ (h : c.Locates chain _ _) => h.toYields
  refine .bind (.abreast (fun stack => Stmt.steady_startFor hl hvar hyields) fun cursor =>
    startFor_uniform (sees_of_locates hresults [])) fun count _ => .ite (fun _ => takes_finish) fun _ => ?_
  refine .bind (uniform_enterLoop loop.info) fun _ _ => .andThen hbody (fun _ => rfl) fun r _ => ?_
  exact takes_afterFor hin loop.info count hbody

-- ---------------------------------------------------------------------------
-- Choices
-- ---------------------------------------------------------------------------

theorem takes_arms {span : Span} {v : Value} {otherwise : Run (Progress Evaluated)}
    {arms : List (List CaseLabel × Stmt)} (hotherwise : c.Takes n chain otherwise)
    (harms : ∀ arm ∈ arms, c.Takes n chain (arm.2.execute c.env)) :
    c.Takes n chain (Stmt.executeArms c.env span v otherwise arms) := by
  induction arms with
  | nil =>
    rw [Stmt.executeArms]
    exact hotherwise
  | cons arm rest ih =>
    rw [Stmt.executeArms]
    refine .bind (.checked _) fun matched _ => .ite (fun _ => harms arm List.mem_cons_self) fun _ => ?_
    exact ih fun arm harm => harms arm (List.mem_cons_of_mem _ harm)

theorem takes_branches (hl : c.layout.library.Resolved) (hbodies : c.inUnit → c.BodiesParallel n)
    (hruns : c.layout.Runs chain.current vars) (hunit : c.inUnit → ∃ caller, chain.current = some caller)
    {otherwise : Option Stmt} {branches : List (Expr × Stmt)}
    (hotherwise : c.Takes n chain (Stmt.executeOption c.env otherwise))
    (hbranches : ∀ branch ∈ branches, branch.1.Linked c.layout.library vars c.inUnit ∧
      c.Takes n chain (branch.2.execute c.env)) :
    c.Takes n chain (Stmt.executeBranches c.env otherwise (Stmt.executeOption c.env otherwise) branches) := by
  induction branches with
  | nil =>
    rw [Stmt.executeBranches]
    exact hotherwise
  | cons branch rest ih =>
    obtain ⟨condition, s⟩ := branch
    obtain ⟨hcondition, hbody⟩ := hbranches _ List.mem_cons_self
    rw [Stmt.executeBranches]
    refine parallel_evaluated hl hbodies hruns hunit hcondition (fun _ => rfl) fun r _ => takes_choice hbody ?_
    exact ih fun branch hbranch => hbranches branch (List.mem_cons_of_mem _ hbranch)

-- ---------------------------------------------------------------------------
-- Statements
-- ---------------------------------------------------------------------------

section

variable (hl : c.layout.library.Resolved) (hin : c.inUnit) (hbodies : c.BodiesParallel n)
  (hruns : c.layout.Runs chain.current vars) {caller : InstanceId} (hcaller : chain.current = some caller)

set_option linter.unusedSectionVars false in
include hl hin hbodies hruns hcaller in
mutual

/-- A statement that can be executed is parallel in an instance. -/
theorem execute_parallel {inLoop : Prop} : (s : Stmt) →
    s.WellFormed (Expr.Linked c.layout.library vars c.inUnit) inLoop → c.Takes n chain (s.execute c.env)
  | .eval e, h => by
    rw [Stmt.execute]
    have hevaluate := evaluate_parallel hl (fun _ => hbodies) hruns (fun _ => ⟨caller, hcaller⟩) e h
    exact hevaluate.weaken fun _ _ => trivial
  | .assign info target value, h => by
    have hassign : c.Parallel n [] chain chain ((Stmt.assign info target value).execute c.env) (c.Assigns chain) :=
      assign_parallel hl (fun _ => hbodies) hruns (fun _ => ⟨caller, hcaller⟩) h.1 h.2.1 h.2.2
    exact hassign.weaken fun _ _ => trivial
  | .block info statements, h => by
    rw [Stmt.execute]
    exact takes_announce hin (execute_parallel_all statements h)
  | .ifThen info branches otherwise, h => by
    rw [Stmt.execute]
    exact takes_branches hl (fun _ => hbodies) hruns (fun _ => ⟨caller, hcaller⟩)
      (executeOption_parallel otherwise h.2) (execute_parallel_branches branches h.1)
  | .case info selector arms otherwise, h => by
    rw [Stmt.execute]
    refine parallel_evaluated hl (fun _ => hbodies) hruns (fun _ => ⟨caller, hcaller⟩) h.1 (fun _ => rfl) fun r _ => ?_
    exact takes_arms (executeOption_parallel otherwise h.2.2) (execute_parallel_arms arms h.2.1)
  | .forLoop info control start stop step body, h => by
    rw [Stmt.execute]
    refine evaluateAll_parallel hl (fun _ => hbodies) hruns (fun _ => ⟨caller, hcaller⟩) (fun _ _ _ => rfl) .nil _
      (Expr.allSatisfy_iff.mpr h.2.1) fun results hresults => ?_
    exact takes_runFor hl hin h.1 (execute_parallel body h.2.2) hresults
  | .whileLoop info condition body, h => by
    rw [Stmt.execute]
    refine parallel_evaluated hl (fun _ => hbodies) hruns (fun _ => ⟨caller, hcaller⟩) h.1 (fun _ => rfl) fun r _ => ?_
    exact takes_testWhile hl (fun _ => hbodies) hruns (fun _ => ⟨caller, hcaller⟩) hin h.1
      (execute_parallel body h.2) false r
  | .repeatLoop info body condition, h => by
    rw [Stmt.execute]
    have hbody := execute_parallel body h.1
    refine .bind (uniform_enterLoop info) fun _ _ => .andThen hbody (fun _ => rfl) fun r _ => ?_
    exact takes_afterRepeat hl (fun _ => hbodies) hruns (fun _ => ⟨caller, hcaller⟩) hin h.2 hbody
  | .exit info, _ => by
    rw [Stmt.execute]
    exact takes_requestExit info
  | .ret info, _ => by
    rw [Stmt.execute]
    exact .steering (fun _ => ⟨rfl, rfl⟩) takes_finish

theorem execute_parallel_all {inLoop : Prop} : (statements : List Stmt) →
    Stmt.AllWellFormed (Expr.Linked c.layout.library vars c.inUnit) inLoop statements →
    ∀ s ∈ statements, c.Takes n chain (s.execute c.env)
  | [], _ => by simp
  | s :: rest, h => List.forall_mem_cons.mpr ⟨execute_parallel s h.1, execute_parallel_all rest h.2⟩

theorem executeOption_parallel {inLoop : Prop} : (otherwise : Option Stmt) →
    Stmt.OptionWellFormed (Expr.Linked c.layout.library vars c.inUnit) inLoop otherwise →
    c.Takes n chain (Stmt.executeOption c.env otherwise)
  | none, _ => by
    rw [Stmt.executeOption]
    exact takes_finish
  | some s, h => by
    rw [Stmt.executeOption]
    exact execute_parallel s h

theorem execute_parallel_branches {inLoop : Prop} : (branches : List (Expr × Stmt)) →
    Stmt.BranchesWellFormed (Expr.Linked c.layout.library vars c.inUnit) inLoop branches →
    ∀ branch ∈ branches, branch.1.Linked c.layout.library vars c.inUnit ∧ c.Takes n chain (branch.2.execute c.env)
  | [], _ => by simp
  | (_, s) :: rest, h => List.forall_mem_cons.mpr
    ⟨⟨h.1, execute_parallel s h.2.1⟩, execute_parallel_branches rest h.2.2⟩

theorem execute_parallel_arms {inLoop : Prop} : (arms : List (List CaseLabel × Stmt)) →
    Stmt.ArmsWellFormed (Expr.Linked c.layout.library vars c.inUnit) inLoop arms →
    ∀ arm ∈ arms, c.Takes n chain (arm.2.execute c.env)
  | [], _ => by simp
  | (_, s) :: rest, h => List.forall_mem_cons.mpr ⟨execute_parallel s h.2.1, execute_parallel_arms rest h.2.2⟩

end

end

/-- In a library whose bodies can be executed, all bodies are parallel, up to any number of pauses. -/
theorem bodiesParallel (hl : c.layout.Resolved) (hlinked : c.layout.library.BodiesLinked) (hin : c.inUnit) (n : Nat) :
    c.BodiesParallel n := by
  induction n using Nat.strongRecOn with
  | ind n ih =>
    intro k hk i p callers hi
    have hbody := hlinked p (List.mem_of_getElem? hi.choose_spec.2)
    have hruns : c.layout.Runs (some i) p.vars := ⟨p, hi, rfl⟩
    have hlinked : p.body.WellFormed (Expr.Linked c.layout.library p.vars c.inUnit) False := by
      rw [eq_true hin]
      exact hbody
    have htakes : c.Takes k ⟨some i, callers⟩ (p.body.execute c.env) :=
      execute_parallel hl.library hin (ih k hk) hruns rfl p.body hlinked
    exact htakes

end StructuredText.Comparison
