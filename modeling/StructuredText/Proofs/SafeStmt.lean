-- SUMMARY: Executing the statements of well-formed bodies is safe.
import StructuredText.Proofs.SafeExpr
import StructuredText.Proofs.WellFormed

/-!
# Safe statements

A well-formed statement whose expressions are linked is safe in an instance, and so are the bodies of all units of a
library with such bodies. The number of pauses is what the induction is on: whatever a body calls, and whatever a
loop does again, comes after a pause. A loop is on the stack while its body runs, so that an `EXIT` finds it.
-/

namespace StructuredText

open Run

/-- Every statement of a unit can be executed in an instance of it. -/
def Stmt.Linked (l : Library) (vars : List VarDecl) (inLoop : Prop) (s : Stmt) : Prop :=
  s.WellFormed (Expr.Linked l vars True) inLoop

/-- The body of every unit can be executed. -/
def Library.BodiesLinked (l : Library) : Prop := ∀ p ∈ l.pous, p.body.Linked l p.vars False

/-- The stack with one more loop that runs. -/
def Stack.push (stack : Stack) (loop : LoopEntry) : Stack := { stack with loops := loop :: stack.loops }

variable {y : Layout} {epsilon : Float} {vars : List VarDecl} {inUnit : Prop} {n : Nat}
  {stack before : Stack} {caller : InstanceId}

/-- The computation is safe on the variables of the layout, and leads from one stack to another. -/
abbrev Layout.Leads (y : Layout) (epsilon : Float) (n : Nat) (before after : Stack)
    (m : Run (Progress Evaluated)) : Prop :=
  Safe ⟨y.library, epsilon⟩ (Storage.Sound y) n before after m fun _ => True

namespace Stmt

variable {body : Stmt}

theorem safe_finish : y.Leads epsilon n stack stack finish := .done trivial

-- ---------------------------------------------------------------------------
-- Blocks
-- ---------------------------------------------------------------------------

/-- Frames that are left to do start a statement, and another frame waits for it. -/
theorem safe_started {frame : Frame}
    (hbody : y.Leads epsilon n before before (body.execute ⟨y.library, epsilon⟩))
    (hframe : ∀ k < n, ∀ r, y.Leads epsilon k before stack (resume ⟨y.library, epsilon⟩ r frame)) :
    y.Leads epsilon n before stack (pure (.paused [.start body, frame])) := by
  refine .paused fun k hk => .resumed (hbody.fewer (Nat.le_of_lt hk)) fun r _ => ?_
  exact .resumed (hframe k hk r) fun r _ => .finished trivial

theorem safe_announce {statements : List Stmt}
    (h : ∀ s ∈ statements, y.Leads epsilon n stack stack (s.execute ⟨y.library, epsilon⟩)) :
    y.Leads epsilon n stack stack (announce statements) := by
  induction statements generalizing n with
  | nil => exact safe_finish
  | cons s rest ih =>
    refine .onCursor stack (fun c hc => hc) (safe_started (h s List.mem_cons_self) fun k hk r => ?_)
    refine .reads fun x _ => ?_
    cases x.cursor.pending with
    | none => exact ih fun s hs => (h s (List.mem_cons_of_mem _ hs)).fewer (Nat.le_of_lt hk)
    | some transfer => exact safe_finish

-- ---------------------------------------------------------------------------
-- Loops
-- ---------------------------------------------------------------------------

section

variable {info : NodeInfo} {next : Unit → Run (Progress Evaluated)} (hcaller : stack.current = some caller)

include hcaller

theorem loopEntry?_eq {c : Cursor} {loops : List LoopEntry} (hc : c.stack = { stack with loops }) :
    loopEntry? c info = some ⟨caller, info.id⟩ := by
  have hcurrent : c.current = stack.current := congrArg Stack.current hc
  rw [ loopEntry?, hcurrent, hcaller]
  rfl

theorem safe_enterLoop {after : Stack}
    (h : y.Leads epsilon n (stack.push ⟨caller, info.id⟩) after (next ())) :
    y.Leads epsilon n stack after (enterLoop info >>= next) := by
  intro x hx hstack
  have hentry : loopEntry? x.cursor info = some ⟨caller, info.id⟩ := loopEntry?_eq hcaller hstack
  simp only [enterLoop, EStateM.bind_apply, EStateM.get_apply, hentry]
  refine h ⟨x.storage, x.cursor.enterLoop ⟨caller, info.id⟩⟩ hx ?_
  rw [← hstack]
  rfl

theorem safe_leaveLoop (h : y.Leads epsilon n stack stack (next ())) :
    y.Leads epsilon n (stack.push ⟨caller, info.id⟩) stack (leaveLoop info >>= next) := by
  refine .onCursor stack (fun c hc => ?_) h
  have hloops : c.loops = ⟨caller, info.id⟩ :: stack.loops := congrArg Stack.loops hc
  rw [loopEntry?_eq hcaller hc]
  simp only [Cursor.leaveLoop, hloops, List.head?_cons, if_true, List.tail_cons]
  obtain ⟨current, waiting, running, pending, pause⟩ := c
  cases hc
  rfl

theorem safe_afterIteration {next : Run (Progress Evaluated)}
    (h : y.Leads epsilon n (stack.push ⟨caller, info.id⟩) stack next) :
    y.Leads epsilon n (stack.push ⟨caller, info.id⟩) stack (afterIteration info next) := by
  refine .reads fun x _ => ?_
  have left : y.Leads epsilon n (stack.push ⟨caller, info.id⟩) stack (leaveLoop info >>= fun _ => finish) :=
    safe_leaveLoop hcaller safe_finish
  cases x.cursor.pending with
  | none => exact h
  | some transfer =>
    cases transfer with
    | exit => exact .onCursor _ (fun c hc => hc) left
    | ret => exact left

theorem safe_afterFor (remaining : Int)
    (hbody : y.Leads epsilon n (stack.push ⟨caller, info.id⟩) (stack.push ⟨caller, info.id⟩)
      (body.execute ⟨y.library, epsilon⟩)) :
    y.Leads epsilon n (stack.push ⟨caller, info.id⟩) stack (afterFor info remaining body) := by
  induction n using Nat.strongRecOn generalizing remaining with
  | ind n ih =>
    refine safe_afterIteration hcaller (.ite (fun _ => safe_leaveLoop hcaller safe_finish) fun _ => ?_)
    exact safe_started hbody fun k hk r => ih k hk (remaining - 1) (hbody.fewer (Nat.le_of_lt hk))

end

theorem steady_truth (condition : Expr) (r : Evaluated) :
    Steady (Storage.Sound y) stack (truth condition r) fun _ => True :=
  .checked (r.value.toBool_orderly.atSpan _)

variable (hl : y.library.Resolved) (hbodies : y.BodiesSafe epsilon n) (hruns : y.Runs stack.current vars)
  (hunit : inUnit → ∃ caller, stack.current = some caller)

section

include hl hbodies hruns hunit

/-- A linked expression is evaluated, whatever loops run, and what goes on with its result is safe. -/
theorem safe_evaluated {e : Expr} {loops : List LoopEntry} {after : Stack} {frame : Frame}
    {next : Evaluated → Run (Progress Evaluated)} {Q : Evaluated → Prop}
    (he : e.Linked y.library vars inUnit) (hframe : ∀ r, resume ⟨y.library, epsilon⟩ r frame = next r)
    (hnext : ∀ r, y.Yields e r →
      Safe ⟨y.library, epsilon⟩ (Storage.Sound y) n { stack with loops } after (next r) Q) :
    Safe ⟨y.library, epsilon⟩ (Storage.Sound y) n { stack with loops } after
      (andThen (e.evaluate ⟨y.library, epsilon⟩) frame next) Q := by
  have hruns : y.Runs ({ stack with loops } : Stack).current vars := hruns
  have hevaluate := Expr.evaluate_safe hl hbodies hruns hunit e he
  exact .andThen hevaluate hframe hnext

theorem safe_testWhile {info : NodeInfo} {condition : Expr} (hcaller : stack.current = some caller)
    (hcondition : condition.Linked y.library vars inUnit)
    (hbody : y.Leads epsilon n (stack.push ⟨caller, info.id⟩) (stack.push ⟨caller, info.id⟩)
      (body.execute ⟨y.library, epsilon⟩)) (entered : Bool) (r : Evaluated) :
    y.Leads epsilon n (if entered then stack.push ⟨caller, info.id⟩ else stack) stack
      (testWhile info condition body (body.execute ⟨y.library, epsilon⟩) entered r) := by
  induction n using Nat.strongRecOn generalizing entered r with
  | ind n ih =>
    have iterated : y.Leads epsilon n (stack.push ⟨caller, info.id⟩) stack
        (andThen (body.execute ⟨y.library, epsilon⟩) (.whileBody info condition body)
          fun _ => afterWhile info condition body) := by
      refine .andThen hbody (fun _ => rfl) fun r _ => safe_afterIteration hcaller (.paused fun k hk => ?_)
      have hbodies := hbodies.mono (Nat.le_of_lt hk)
      refine .resumed (Q := fun _ => True)
        (safe_evaluated hl hbodies hruns hunit hcondition (fun _ => rfl) fun r _ => ?_)
        fun _ _ => .finished trivial
      exact ih k hk hbodies (hbody.fewer (Nat.le_of_lt hk)) true r
    refine .bind (steady_truth condition r) fun holds _ => .ite (fun _ => ?_) fun _ => ?_
    · cases entered with
      | false => exact safe_enterLoop hcaller iterated
      | true => exact iterated
    · cases entered with
      | false => exact safe_finish
      | true => exact safe_leaveLoop hcaller safe_finish

theorem safe_afterRepeat {info : NodeInfo} {condition : Expr} (hcaller : stack.current = some caller)
    (hcondition : condition.Linked y.library vars inUnit)
    (hbody : y.Leads epsilon n (stack.push ⟨caller, info.id⟩) (stack.push ⟨caller, info.id⟩)
      (body.execute ⟨y.library, epsilon⟩)) :
    y.Leads epsilon n (stack.push ⟨caller, info.id⟩) stack
      (afterRepeat ⟨y.library, epsilon⟩ info body condition) := by
  induction n using Nat.strongRecOn with
  | ind n ih =>
    refine safe_afterIteration hcaller ?_
    refine safe_evaluated hl hbodies hruns hunit hcondition (fun _ => rfl) fun r _ => ?_
    refine .bind (steady_truth condition r) fun holds _ => .ite (fun _ => ?_) fun _ => ?_
    · exact safe_leaveLoop hcaller safe_finish
    · refine safe_started hbody fun k hk r => ?_
      exact ih k hk (hbodies.mono (Nat.le_of_lt hk)) (hbody.fewer (Nat.le_of_lt hk))

end

-- ---------------------------------------------------------------------------
-- Assignments
-- ---------------------------------------------------------------------------

/-- The result of an assignment is the place of its target. -/
def Assigns (y : Layout) (r : Evaluated) : Prop := ∃ type place, r.place? = some place ∧ y.Placed place type

include hl in
theorem assignTo_safe {span : Span} {target : Expr} {located source : Evaluated}
    (hvar : target.IsVar) (htarget : y.Yields target located) (hsource : source.value.Proper y.Bound) :
    y.Performs epsilon n stack
      (assignTo ⟨y.library, epsilon⟩ ⟨span, target, located.place?⟩ source) (Assigns y) := by
  obtain ⟨info, path, indexes, rfl⟩ := hvar
  obtain ⟨type, place, htype, hdeclared, hpermanent, hplace, hplaced⟩ := htarget.located _ _ _ rfl
  unfold assignTo
  simp only [hplace, htype]
  exact .bind (Expr.store_steady hl hplaced hdeclared hpermanent hsource) fun _ _ =>
    .done ⟨type, place, rfl, hplaced⟩

include hl hbodies hruns hunit in
theorem assign_safe {info : NodeInfo} {target value : Expr} (hvar : target.IsVar)
    (htarget : target.Linked y.library vars inUnit) (hvalue : value.Linked y.library vars inUnit) :
    y.Performs epsilon n stack ((Stmt.assign info target value).execute ⟨y.library, epsilon⟩)
      (Assigns y) := by
  rw [execute]
  refine safe_evaluated hl hbodies hruns hunit htarget (fun _ => rfl) fun located hlocated => ?_
  refine safe_evaluated hl hbodies hruns hunit hvalue (fun _ => rfl) fun source hsource => ?_
  exact assignTo_safe hl hvar hlocated hsource.proper

-- ---------------------------------------------------------------------------
-- `FOR` loops
-- ---------------------------------------------------------------------------

/-- An integer that an expression results in fits 128 bits. -/
theorem steady_integerOf (e : Expr) {r : Evaluated} (hr : r.value.Proper y.Bound) :
    Steady (Storage.Sound y) stack (integerOf e r) fun i => (Value.integer i).Proper y.Bound :=
  .checked ((Value.toInteger_regular hr).atSpan _)

include hl in
theorem steady_startFor {loop : ForLoop} {results : List Evaluated} (hvar : loop.control.IsVar)
    (hresults : List.Forall₂ y.Yields (bounds loop) results) :
    Steady (Storage.Sound y) stack (startFor ⟨y.library, epsilon⟩ loop results) fun _ => True := by
  have hproper (k : Nat) : (results[k]?.getD {}).value.Proper y.Bound := by
    cases hk : results[k]? with
    | none => trivial
    | some r => exact Layout.proper_of_yields hresults r (List.mem_of_getElem? hk)
  have hfirst : (bounds loop)[0]? = some loop.control := rfl
  obtain ⟨located, hhead, hlocated⟩ := TypeTable.exists_getElem?_of_forall₂ hresults hfirst
  obtain ⟨info, path, indexes, hcontrol⟩ := hvar
  rw [hcontrol] at hlocated
  obtain ⟨type, place, htype, hdeclared, hpermanent, hplace, hplaced⟩ := hlocated.located _ _ _ rfl
  rw [← List.head?_eq_getElem?] at hhead
  have assigned {start : Int} (hstart : (Value.integer start).Proper y.Bound) (stop step : Int) :
      Steady (Storage.Sound y) stack (do
        setControl ⟨y.library, epsilon⟩ loop.control (results.head?.bind (·.place?)) start
        pure (iterations start stop step)) fun _ => True := by
    simp only [setControl, hcontrol, hhead, Option.bind_some, hplace, htype]
    exact .bind (Expr.store_steady hl hplaced hdeclared hpermanent hstart) fun _ _ => .pure trivial
  refine .bind (steady_integerOf _ (hproper 1)) fun start hstart => ?_
  refine .bind (steady_integerOf _ (hproper 2)) fun stop _ => ?_
  cases loop.step with
  | none =>
    refine .bind (Q := fun _ => True) (.pure trivial) fun step _ => ?_
    exact .ite (fun _ => .bind_fail (by rintro ⟨⟩)) fun _ => assigned hstart stop step
  | some e =>
    refine .bind (steady_integerOf e (hproper 3)) fun step _ => ?_
    exact .ite (fun _ => .bind_fail (by rintro ⟨⟩)) fun _ => assigned hstart stop step

include hl in
theorem safe_runFor {loop : ForLoop} {results : List Evaluated} (hcaller : stack.current = some caller)
    (hvar : loop.control.IsVar)
    (hbody : y.Leads epsilon n (stack.push ⟨caller, loop.info.id⟩) (stack.push ⟨caller, loop.info.id⟩)
      (loop.body.execute ⟨y.library, epsilon⟩))
    (hresults : List.Forall₂ y.Yields (bounds loop) results) :
    y.Leads epsilon n stack stack
      (runFor ⟨y.library, epsilon⟩ loop (loop.body.execute ⟨y.library, epsilon⟩) results) := by
  refine .bind (steady_startFor hl hvar hresults) fun count _ => .ite (fun _ => safe_finish) fun _ => ?_
  refine safe_enterLoop hcaller (.andThen hbody (fun _ => rfl) fun r _ => ?_)
  exact safe_afterFor hcaller count hbody

-- ---------------------------------------------------------------------------
-- Choices
-- ---------------------------------------------------------------------------

theorem labelMatches_orderly (v : Value) {label : CaseLabel} (h : label.IsConstant) :
    Orderly (labelMatches v label) := by
  have exists_literal {e : Expr} (he : e.isLiteral = true) :
      ∃ info w type, e = .literal info w type := by
    cases e with
    | literal info w type => exact ⟨info, w, type, rfl⟩
    | var | unary | binary | call => cases he
  cases label with
  | value e =>
    obtain ⟨_, w, _, rfl⟩ := exists_literal (h e (by simp [CaseLabel.exprs]))
    exact v.equals_orderly w 0
  | range low high =>
    obtain ⟨_, low, _, rfl⟩ := exists_literal (h low (by simp [CaseLabel.exprs]))
    obtain ⟨_, high, _, rfl⟩ := exists_literal (h high (by simp [CaseLabel.exprs]))
    refine .bind (v.lesser_orderly low) fun below _ => .ite (fun _ => .pure trivial) fun _ => ?_
    exact .bind (v.greater_orderly high) fun above _ => .pure trivial

theorem anyMatches_orderly (v : Value) {labels : List CaseLabel}
    (h : ∀ label ∈ labels, label.IsConstant) : Orderly (anyMatches v labels) := by
  induction labels with
  | nil => exact .ok trivial
  | cons label rest ih =>
    refine .bind (labelMatches_orderly v (h label List.mem_cons_self)) fun matched _ => ?_
    exact .ite (fun _ => .pure trivial) fun _ => ih fun label hlabel =>
      h label (List.mem_cons_of_mem _ hlabel)

theorem safe_arms {span : Span} {v : Value} {otherwise : Run (Progress Evaluated)}
    {arms : List (List CaseLabel × Stmt)} (hotherwise : y.Leads epsilon n stack stack otherwise)
    (harms : ∀ arm ∈ arms, (∀ label ∈ arm.1, label.IsConstant) ∧
      y.Leads epsilon n stack stack (arm.2.execute ⟨y.library, epsilon⟩)) :
    y.Leads epsilon n stack stack (executeArms ⟨y.library, epsilon⟩ span v otherwise arms) := by
  induction arms with
  | nil =>
    rw [executeArms]
    exact hotherwise
  | cons arm rest ih =>
    obtain ⟨labels, s⟩ := arm
    obtain ⟨hlabels, hbody⟩ := harms _ List.mem_cons_self
    rw [executeArms]
    refine .bind (.checked ((anyMatches_orderly v hlabels).atSpan _)) fun matched _ =>
      .ite (fun _ => hbody) fun _ => ?_
    exact ih fun arm harm => harms arm (List.mem_cons_of_mem _ harm)

include hl hbodies hruns hunit in
theorem safe_branches {otherwise : Option Stmt} {runOtherwise : Run (Progress Evaluated)}
    {branches : List (Expr × Stmt)} (hotherwise : y.Leads epsilon n stack stack runOtherwise)
    (hframe : executeOption ⟨y.library, epsilon⟩ otherwise = runOtherwise)
    (hbranches : ∀ branch ∈ branches, branch.1.Linked y.library vars inUnit ∧
      y.Leads epsilon n stack stack (branch.2.execute ⟨y.library, epsilon⟩)) :
    y.Leads epsilon n stack stack
      (executeBranches ⟨y.library, epsilon⟩ otherwise runOtherwise branches) := by
  induction branches with
  | nil =>
    rw [executeBranches]
    exact hotherwise
  | cons branch rest ih =>
    obtain ⟨condition, s⟩ := branch
    obtain ⟨hcondition, hbody⟩ := hbranches _ List.mem_cons_self
    rw [executeBranches]
    refine safe_evaluated hl hbodies hruns hunit hcondition (fun r => by rw [← hframe]; rfl) fun r _ => ?_
    refine .bind (steady_truth condition r) fun holds _ => .ite (fun _ => hbody) fun _ => ?_
    exact ih fun branch hbranch => hbranches branch (List.mem_cons_of_mem _ hbranch)

theorem safe_requestExit (info : NodeInfo) (hcaller : stack.current = some caller)
    (hloop : stack.loops.head?.map (·.instance) = some caller) :
    y.Leads epsilon n stack stack (requestExit info) := by
  refine .reads fun x hx => ?_
  have hcurrent : x.cursor.current = some caller := by rw [← hcaller, ← hx]; rfl
  have hloops : x.cursor.loops = stack.loops := by rw [← hx]; rfl
  simp only [hcurrent, hloops, hloop, if_true]
  exact .onCursor stack (fun c hc => hc) safe_finish

-- ---------------------------------------------------------------------------
-- Statements
-- ---------------------------------------------------------------------------

set_option linter.unusedSectionVars false in
include hl hbodies in
mutual

/-- A statement that can be executed is safe in an instance, which the innermost loop belongs to around an `EXIT`. -/
theorem execute_safe {inLoop : Prop} (stack : Stack) (hruns : y.Runs stack.current vars)
    (hcaller : stack.current = some caller)
    (hloop : inLoop → stack.loops.head?.map (·.instance) = some caller) :
    (s : Stmt) → s.Linked y.library vars inLoop →
      y.Leads epsilon n stack stack (s.execute ⟨y.library, epsilon⟩)
  | .eval e, h => by
    rw [execute]
    exact (Expr.evaluate_safe hl hbodies hruns (fun _ => ⟨caller, hcaller⟩) e h).weaken fun _ _ => trivial
  | .assign info target value, h =>
    (assign_safe hl hbodies hruns (fun _ => ⟨caller, hcaller⟩) h.1 h.2.1 h.2.2).weaken fun _ _ => trivial
  | .block info statements, h => by
    rw [execute]
    exact safe_announce (execute_safe_all stack hruns hcaller hloop statements h)
  | .ifThen info branches otherwise, h => by
    rw [execute]
    exact safe_branches hl hbodies hruns (fun _ => ⟨caller, hcaller⟩)
      (executeOption_safe stack hruns hcaller hloop otherwise h.2) rfl
      (execute_safe_branches stack hruns hcaller hloop branches h.1)
  | .case info selector arms otherwise, h => by
    rw [execute]
    refine safe_evaluated hl hbodies hruns (fun _ => ⟨caller, hcaller⟩) h.1 (fun _ => rfl) fun r _ => ?_
    exact safe_arms (executeOption_safe stack hruns hcaller hloop otherwise h.2.2)
      (execute_safe_arms stack hruns hcaller hloop arms h.2.1)
  | .forLoop info control start stop step body, h => by
    rw [execute]
    refine Expr.evaluateAll_safe hl hbodies hruns (fun _ => ⟨caller, hcaller⟩) (fun _ _ _ => rfl) .nil _
      (Expr.allSatisfy_iff.mpr h.2.1) fun results hresults => ?_
    refine safe_runFor hl hcaller h.1 ?_ hresults
    exact execute_safe (stack.push ⟨caller, info.id⟩) hruns hcaller (fun _ => rfl) body h.2.2
  | .whileLoop info condition body, h => by
    rw [execute]
    refine safe_evaluated hl hbodies hruns (fun _ => ⟨caller, hcaller⟩) h.1 (fun _ => rfl) fun r _ => ?_
    refine safe_testWhile hl hbodies hruns (fun _ => ⟨caller, hcaller⟩) hcaller h.1 ?_ false r
    exact execute_safe (stack.push ⟨caller, info.id⟩) hruns hcaller (fun _ => rfl) body h.2
  | .repeatLoop info body condition, h => by
    rw [execute]
    have hbody : y.Leads epsilon n (stack.push ⟨caller, info.id⟩) (stack.push ⟨caller, info.id⟩)
        (body.execute ⟨y.library, epsilon⟩) := execute_safe (stack.push ⟨caller, info.id⟩) hruns hcaller (fun _ => rfl) body h.1
    refine safe_enterLoop hcaller (.andThen hbody (fun _ => rfl) fun r _ => ?_)
    exact safe_afterRepeat hl hbodies hruns (fun _ => ⟨caller, hcaller⟩) hcaller h.2 hbody
  | .exit info, h => by
    rw [execute]
    exact safe_requestExit info hcaller (hloop h)
  | .ret info, _ => by
    rw [execute]
    exact .onCursor stack (fun c hc => hc) safe_finish

theorem execute_safe_all {inLoop : Prop} (stack : Stack) (hruns : y.Runs stack.current vars)
    (hcaller : stack.current = some caller)
    (hloop : inLoop → stack.loops.head?.map (·.instance) = some caller) : (statements : List Stmt) →
    AllWellFormed (Expr.Linked y.library vars True) inLoop statements →
    ∀ s ∈ statements, y.Leads epsilon n stack stack (s.execute ⟨y.library, epsilon⟩)
  | [], _ => by simp
  | s :: rest, h => List.forall_mem_cons.mpr
    ⟨execute_safe stack hruns hcaller hloop s h.1, execute_safe_all stack hruns hcaller hloop rest h.2⟩

theorem executeOption_safe {inLoop : Prop} (stack : Stack) (hruns : y.Runs stack.current vars)
    (hcaller : stack.current = some caller)
    (hloop : inLoop → stack.loops.head?.map (·.instance) = some caller) : (otherwise : Option Stmt) →
    OptionWellFormed (Expr.Linked y.library vars True) inLoop otherwise →
    y.Leads epsilon n stack stack (executeOption ⟨y.library, epsilon⟩ otherwise)
  | none, _ => by
    rw [executeOption]
    exact safe_finish
  | some s, h => by
    rw [executeOption]
    exact execute_safe stack hruns hcaller hloop s h

theorem execute_safe_branches {inLoop : Prop} (stack : Stack) (hruns : y.Runs stack.current vars)
    (hcaller : stack.current = some caller)
    (hloop : inLoop → stack.loops.head?.map (·.instance) = some caller) :
    (branches : List (Expr × Stmt)) →
    BranchesWellFormed (Expr.Linked y.library vars True) inLoop branches →
    ∀ branch ∈ branches, branch.1.Linked y.library vars True ∧
      y.Leads epsilon n stack stack (branch.2.execute ⟨y.library, epsilon⟩)
  | [], _ => by simp
  | (_, s) :: rest, h => List.forall_mem_cons.mpr
    ⟨⟨h.1, execute_safe stack hruns hcaller hloop s h.2.1⟩,
      execute_safe_branches stack hruns hcaller hloop rest h.2.2⟩

theorem execute_safe_arms {inLoop : Prop} (stack : Stack) (hruns : y.Runs stack.current vars)
    (hcaller : stack.current = some caller)
    (hloop : inLoop → stack.loops.head?.map (·.instance) = some caller) :
    (arms : List (List CaseLabel × Stmt)) →
    ArmsWellFormed (Expr.Linked y.library vars True) inLoop arms →
    ∀ arm ∈ arms, (∀ label ∈ arm.1, label.IsConstant) ∧
      y.Leads epsilon n stack stack (arm.2.execute ⟨y.library, epsilon⟩)
  | [], _ => by simp
  | (_, s) :: rest, h => List.forall_mem_cons.mpr
    ⟨⟨h.1, execute_safe stack hruns hcaller hloop s h.2.1⟩, execute_safe_arms stack hruns hcaller hloop rest h.2.2⟩

end

end Stmt

/-- In a library whose bodies can be executed, all bodies are safe, up to any number of pauses. -/
theorem Layout.bodiesSafe (hl : y.Resolved) (hlinked : y.library.BodiesLinked) (n : Nat) :
    y.BodiesSafe epsilon n := by
  induction n using Nat.strongRecOn with
  | ind n ih =>
    intro k hk i p callers loops hi
    have hbody := hlinked p (List.mem_of_getElem? hi.choose_spec.2)
    exact Stmt.execute_safe hl.library (ih k hk) ⟨some i, callers, loops⟩ ⟨p, hi, rfl⟩ rfl nofun p.body hbody

end StructuredText
