-- SUMMARY: Micro-steps do what the evaluation of a body by recursion does.
import StructuredText.Proofs.Access
import StructuredText.Proofs.Agreement
import StructuredText.Proofs.Exits

/-!
# Refinement

The micro-steps of a body agree with its traced evaluation, whatever the storage is and with whatever loops and callers
around: they settle on the same storage with the same result or diagnostic, and announce the statements that the evaluation
performs. There is one case for each node, and calls go by induction on the fuel.
-/

namespace StructuredText.BigStep

open Run

variable {env : Environment} {least : Nat} {ctx : Context} {loops : List LoopEntry}
variable {run : Context → Stmt → Tracing Completion}

/-- The cursor where the current instance runs with loops around. -/
def Context.cursor (ctx : Context) (loops : List LoopEntry) (pending : Option Transfer) : Cursor :=
  { current := some ctx.current, callers := ctx.callers, loops, pending }

theorem isActive_cursor (i : InstanceId) {pending : Option Transfer} :
    (ctx.cursor loops pending).isActive i = ctx.isActive i := by
  simp [Cursor.isActive, Context.isActive, Context.cursor]

/-- The transfer of control that a completion leaves to the nodes around. -/
def Completion.pending : Completion → Option Transfer
  | .normal => none
  | .exit => some .exit
  | .ret => some .ret

/-- An expression yields its result and leaves the cursor where it was. -/
def Yields (ctx : Context) (loops : List LoopEntry) (a r : Evaluated) (c : Cursor) : Prop :=
  r = a ∧ c = ctx.cursor loops none

/-- A statement ends with the loops around that it began with. -/
def Ends (ctx : Context) (loops : List LoopEntry) (k : Completion) (_ : Evaluated) (c : Cursor) :
    Prop :=
  c = ctx.cursor loops k.pending

/-- The bodies of the library are executed as they are evaluated. -/
def RunsBodies (env : Environment) (least : Nat) (run : Context → Stmt → Tracing Completion) : Prop :=
  ∀ ctx loops, ctx.env = env → ∀ pou ∈ env.library.pous,
    Refines env least (Ends ctx loops) (pou.body.execute env) (ctx.cursor loops none)
      (run ctx pou.body)

theorem lookup_refines (hctx : ctx.env = env) (info : NodeInfo) (path : VarPath)
    (indexes : List (Span × Value)) :
    Refines env least (Yields ctx loops) (Expr.lookup env info path indexes)
      (ctx.cursor loops none) (quietly (ctx.lookup info path indexes)) := by
  subst hctx
  unfold Expr.lookup Context.lookup
  cases path.root with
  | none => exact .fail _
  | some root =>
    cases path.fixed with
    | none =>
      refine .bindQuietly (.checked _) fun hops => .reads fun x hx => ?_
      rw [hx]
      exact .bindQuietly (.asking _ _) fun place => .bindQuietly (.storing _ _) fun value => .done ⟨rfl, rfl⟩
    | some hops =>
      refine .bindQuietly (.pure _) fun hops => .reads fun x hx => ?_
      rw [hx]
      exact .bindQuietly (.asking _ _) fun place => .bindQuietly (.storing _ _) fun value => .done ⟨rfl, rfl⟩

theorem copyInputs_performs {c : Cursor} (hctx : ctx.env = env) (site : CallSite)
    (args : List Evaluated) (i : InstanceId) :
    Performs (Expr.copyInputs env site args i) c (ctx.copyInputs site args i) := by
  subst hctx
  unfold Expr.copyInputs Context.copyInputs
  refine .bind (.asking _ _) fun pou => .bind (.forIn (fun b _ => .ite ?_ (.pure _)) _ _) fun _ => .pure _
  cases pou.vars[b.param]? with
  | none => exact .bind (.fail _) fun _ => .pure _
  | some param =>
    cases site.args[b.arg]? with
    | none => exact .bind (.fail _) fun _ => .pure _
    | some arg =>
      cases args[b.arg]? with
      | none => exact .bind (.fail _) fun _ => .pure _
      | some found => exact .bind (.storing _ _) fun _ => .pure _

theorem copyOutputs_performs {c : Cursor} (hctx : ctx.env = env) (site : CallSite)
    (args : List Evaluated) (i : InstanceId) :
    Performs (Expr.copyOutputs env site args i) c (ctx.copyOutputs site args i) := by
  subst hctx
  unfold Expr.copyOutputs Context.copyOutputs
  refine .bind (.forIn (fun b _ => .ite (.bind (.asking _ _) fun v => ?_) (.pure _)) _ _)
    fun _ => .pure _
  cases site.args[b.arg]? with
  | none => exact .bind (.fail _) fun _ => .pure _
  | some arg =>
    cases arg with
    | var info path indexes =>
      cases args[b.arg]?.bind (·.place?) with
      | none => exact .bind (.fail _) fun _ => .pure _
      | some place => exact .bind (.storing _ _) fun _ => .pure _
    | _ => exact .bind (.fail _) fun _ => .pure _

/-- A call returns the cursor to where it found it. -/
theorem collectResults_refines (hctx : ctx.env = env) (site : CallSite) (args : List Evaluated)
    (i : InstanceId) :
    Refines env least (Yields ctx loops) (Expr.collectResults env site args i)
      (ctx.cursor loops none) (quietly (ctx.collectResults site args i)) := by
  subst hctx
  unfold Expr.collectResults Context.collectResults
  refine .bindQuietly (.asking _ _) fun pou => .bindQuietly (copyOutputs_performs rfl _ _ _) fun _ => ?_
  cases pou.result? with
  | none => exact .done ⟨rfl, rfl⟩
  | some position => exact .bindQuietly (.asking _ _) fun value => .done ⟨rfl, rfl⟩

/-- Control returns to the instance that has called, with whatever loops it has around. -/
theorem leave_refines (hctx : ctx.env = env) (site : CallSite) (args : List Evaluated)
    (i : InstanceId) (k : Completion) :
    Refines env (least + 1) (Yields ctx loops) (Expr.leave site args i)
      ((ctx.call i).cursor loops k.pending) (quietly (ctx.collectResults site args i)) := by
  refine .onCursor (.paused rfl ?_)
  rw [microStep]
  exact .resumed_by (collectResults_refines hctx site args i)

theorem enter_refines (hctx : ctx.env = env) (hrun : RunsBodies env least run) (site : CallSite)
    (args : List Evaluated) (i : InstanceId) (isFunction : Bool) :
    Refines env (least + 1) (Yields ctx loops) (Expr.enter env site args i isFunction)
      (ctx.cursor loops none) (Tracing.enter ctx run site args i isFunction) := by
  subst hctx
  -- The callee runs with the loops of its callers around, and leaves them as they are.
  have body (pou : Pou) (hpou : pou ∈ ctx.env.library.pous) :
      Refines ctx.env (least + 1) (Yields ctx loops)
        (do onCursor (·.call i); pure (.paused [.start pou.body, .callee site args i]))
        (ctx.cursor loops none)
        (do let _ ← run (ctx.call i) pou.body; quietly (ctx.collectResults site args i)) := by
    refine .onCursor (.paused rfl (.start (hrun (ctx.call i) loops rfl pou hpou) fun k r c hc => .resumed_by ?_))
    rw [hc]
    exact (leave_refines rfl site args i k).mono (Nat.le_succ _)
  have fromPou : Refines ctx.env (least + 1) (Yields ctx loops)
      (do
        let pou ← Run.asking site.info.span (·.pouOf ctx.env.library i)
        Expr.copyInputs ctx.env site args i
        onCursor (·.call i)
        pure (.paused [.start pou.body, .callee site args i]))
      (ctx.cursor loops none)
      (do
        let pou ← quietly (asking site.info.span (·.pouOf ctx.env.library i))
        quietly (ctx.copyInputs site args i)
        let _ ← run (ctx.call i) pou.body
        quietly (ctx.collectResults site args i)) :=
    .bind_asking fun s pou hpou =>
      .bind (copyInputs_performs rfl site args i) fun _ => body pou (Storage.pou_mem hpou)
  unfold Expr.enter Tracing.enter
  refine .reads fun x hx => ?_
  rw [hx, isActive_cursor]
  refine Refines.ite (fun _ => .bind (.fail _) fun _ => ?_) fun _ => ?_
  all_goals exact .ite (fun _ => .bind (.storing _ _) fun _ => fromPou) fun _ => fromPou

theorem invoke_refines (hctx : ctx.env = env) (hrun : RunsBodies env least run) (site : CallSite)
    (args : List Evaluated) :
    Refines env (least + 1) (Yields ctx loops) (Expr.invoke env site args)
      (ctx.cursor loops none) (Tracing.invoke ctx run site args) := by
  unfold Expr.invoke Tracing.invoke
  cases site.callee with
  | none => exact .fail _
  | some callee =>
    cases callee with
    | standard f => exact .bind (.checked _) fun value => .done ⟨rfl, rfl⟩
    | function pou => exact .bind (.asking _ _) fun i => enter_refines hctx hrun site args i true
    | «instance» root =>
      subst hctx
      refine .reads fun x hx => ?_
      rw [hx]
      refine .bind (.asking _ _) fun place => .bind (.asking _ _) fun v => ?_
      cases v with
      | block ref =>
        obtain ⟨_, _ | i⟩ := ref
        · exact .fail _
        · exact enter_refines rfl hrun site args i false
      | _ => exact .fail _

mutual

theorem value_refines (hctx : ctx.env = env) (hrun : RunsBodies env least run) : (e : Expr) →
    Refines env (least + 1) (Yields ctx loops) (e.evaluate env) (ctx.cursor loops none)
      (Tracing.value ctx run e)
  | .literal _ v _ => by
    rw [Expr.evaluate, Tracing.value]
    exact .done ⟨rfl, rfl⟩
  | .var info path indexes => by
    rw [Expr.evaluate, Tracing.value]
    cases path.fixed with
    | some _ => exact lookup_refines hctx info path []
    | none =>
      exact valueOfAll_refines hctx hrun indexes [] (fun _ _ _ => rfl) fun values =>
        lookup_refines hctx info path _
  | .unary info op e => by
    rw [Expr.evaluate, Tracing.value]
    refine .andThen (value_refines hctx hrun e) (fun _ => rfl) ?_
    rintro _ a _ ⟨rfl, rfl⟩
    exact .bind (.checked _) fun value => .done ⟨rfl, rfl⟩
  | .binary info op l r => by
    rw [Expr.evaluate, Tracing.value]
    refine .andThen (value_refines hctx hrun l) (fun _ => rfl) ?_
    rintro _ a _ ⟨rfl, rfl⟩
    refine .andThen (value_refines hctx hrun r) (fun _ => rfl) ?_
    rintro _ b _ ⟨rfl, rfl⟩
    rw [← hctx]
    exact .bind (.checked _) fun value => .done ⟨rfl, rfl⟩
  | .call info name labels args callee bindings => by
    rw [Expr.evaluate, Tracing.value]
    exact valueOfAll_refines hctx hrun args [] (fun _ _ _ => rfl) fun values =>
      invoke_refines hctx hrun _ values

theorem valueOfAll_refines (hctx : ctx.env = env) (hrun : RunsBodies env least run) {β : Type}
    {post : β → Evaluated → Cursor → Prop}
    {frame : List Evaluated → List Expr → Frame} {next : List Evaluated → Run (Progress Evaluated)}
    {k : List Evaluated → Tracing β} : (es : List Expr) → (before : List Evaluated) →
    (∀ done rest r,
      resume env r (frame done rest) = Expr.evaluateAll env frame next (done ++ [r]) rest) →
    (∀ results, Refines env (least + 1) post (next results) (ctx.cursor loops none) (k results)) →
    Refines env (least + 1) post (Expr.evaluateAll env frame next before es)
      (ctx.cursor loops none) (do k (before ++ (← Tracing.valueOfAll ctx run es)))
  | [], before, _, hnext => by
    simpa [Expr.evaluateAll, Tracing.valueOfAll] using hnext before
  | e :: es, before, hframe, hnext => by
    rw [Expr.evaluateAll, Tracing.valueOfAll]
    simp only [bind_assoc, pure_bind]
    refine .andThen (value_refines hctx hrun e) (hframe before es) ?_
    rintro _ a _ ⟨rfl, rfl⟩
    have := valueOfAll_refines hctx hrun es (before ++ [a]) hframe hnext
    simpa using this

end

/-- The truth of a condition decides in the micro-step in which it is evaluated. -/
theorem truth_refines {α : Type} {frame : Frame} {post : α → Evaluated → Cursor → Prop}
    {next : Evaluated → Run (Progress Evaluated)} {m : Bool → Run (Progress Evaluated)}
    {z : Bool → Tracing α} {condition : Expr}
    (hcondition : Refines env least (Yields ctx loops) (condition.evaluate env)
      (ctx.cursor loops none) (Tracing.value ctx run condition))
    (hframe : ∀ r, resume env r frame = next r)
    (hnext : ∀ r, next r = (do m (← Stmt.truth condition r)))
    (h : ∀ b, Refines env least post (m b) (ctx.cursor loops none) (z b)) :
    Refines env least post (andThen (condition.evaluate env) frame next) (ctx.cursor loops none)
      (do z (← Tracing.holds ctx run condition)) := by
  rw [Tracing.holds]
  simp only [bind_assoc]
  refine .andThen hcondition hframe ?_
  rintro _ r _ ⟨rfl, rfl⟩
  rw [hnext]
  exact .bind (.checked _) h

-- ---------------------------------------------------------------------------
-- Loops
-- ---------------------------------------------------------------------------

theorem setControl_performs (hctx : ctx.env = env) {c : Cursor} (control : Expr) (place? : Option Place) (first : Int) :
    Performs (Stmt.setControl env control place? first) c (ctx.setControl control place? first) := by
  subst hctx
  unfold Stmt.setControl Context.setControl
  cases control with
  | var info path indexes =>
    cases place? with
    | none => exact .fail _
    | some place => exact .storing _ _
  | _ => exact .fail _

theorem startFor_performs (hctx : ctx.env = env) {c : Cursor} (loop : ForLoop)
    (control start stop : Evaluated) (step : Option Evaluated) :
    Performs (Stmt.startFor env loop ([control, start, stop] ++ step.toList)) c
      (ctx.startFor loop control start stop step) := by
  unfold Stmt.startFor Context.startFor
  simp only [List.cons_append, List.head?_cons, Option.bind_some]
  refine .bind (.checked _) fun first => .bind (.checked _) fun last => ?_
  have assigned (stride : Int) : Performs (do
      Stmt.setControl env loop.control control.place? first
      pure (Stmt.iterations first last stride)) c (do
      ctx.setControl loop.control control.place? first
      pure (Stmt.iterations first last stride)) :=
    .bind (setControl_performs hctx _ _ _) fun _ => .pure _
  cases loop.step with
  | none =>
    exact .bind (.pure _) fun stride => .ite (.bind (.fail _) fun _ => assigned stride)
      (assigned stride)
  | some e =>
    cases step with
    | none =>
      exact .bind (.checked _) fun stride => .ite (.bind (.fail _) fun _ => assigned stride)
        (assigned stride)
    | some r =>
      exact .bind (.checked _) fun stride => .ite (.bind (.fail _) fun _ => assigned stride)
        (assigned stride)

/-- The cursor in a loop of the current instance. -/
def Context.inLoop (ctx : Context) (info : NodeInfo) (loops : List LoopEntry) : List LoopEntry :=
  ⟨ctx.current, info.id⟩ :: loops

theorem enterLoop_refines {α : Type} {info : NodeInfo} {post : α → Evaluated → Cursor → Prop}
    {m : Unit → Run (Progress Evaluated)} {y : Tracing α}
    (h : Refines env least post (m ()) (ctx.cursor (ctx.inLoop info loops) none) y) :
    Refines env least post (Stmt.enterLoop info >>= m) (ctx.cursor loops none) y := fun s => h s

theorem leaveLoop_refines {info : NodeInfo} {k : Completion} :
    Refines env least (Ends ctx loops)
      (do Stmt.leaveLoop info; finish) (ctx.cursor (ctx.inLoop info loops) k.pending) (pure k) := by
  refine .onCursor (.done ?_)
  simp [Ends, Stmt.loopEntry?, Context.cursor, Context.inLoop, Cursor.leaveLoop]

/-- An iteration that ends normally is followed by what comes next, the others leave the loop. -/
theorem afterIteration_refines {info : NodeInfo} {m : Run (Progress Evaluated)}
    {again : Tracing Completion}
    (h : Refines env least (Ends ctx loops) m (ctx.cursor (ctx.inLoop info loops) none) again)
    (k : Completion) :
    Refines env least (Ends ctx loops) (Stmt.afterIteration info m)
      (ctx.cursor (ctx.inLoop info loops) k.pending) (Tracing.next again k) := by
  refine .reads fun x hx => ?_
  rw [hx]
  cases k with
  | normal => exact h
  | exit => exact .onCursor (leaveLoop_refines (k := .normal))
  | ret => exact leaveLoop_refines (k := .ret)

section

variable {info : NodeInfo} {body : Stmt} {y : Tracing Completion}
variable (hbody : ∀ loops, Refines env least (Ends ctx (ctx.inLoop info loops)) (body.execute env)
  (ctx.cursor (ctx.inLoop info loops) none) y)

include hbody

theorem afterFor_refines (n : Nat) (k : Completion) :
    Refines env least (Ends ctx loops) (Stmt.afterFor info (n + 1) body)
      (ctx.cursor (ctx.inLoop info loops) k.pending) (Tracing.next (Tracing.times y n) k) := by
  induction n generalizing k with
  | zero => exact afterIteration_refines (leaveLoop_refines (k := .normal)) k
  | succ n ih =>
    refine afterIteration_refines ?_ k
    rw [if_neg (by omega)]
    refine .mono (Nat.le_succ _) (.paused rfl (.start (hbody loops) fun k r c hc => .resumed_by ?_))
    rw [hc]
    simpa [resume] using ih k

theorem runFor_refines {loop : ForLoop} {results : List Evaluated} {count : Evaluating Int}
    (hinfo : loop.info = info) (hloop : loop.body = body)
    (hcount : Performs (Stmt.startFor env loop results) (ctx.cursor loops none) count) :
    Refines env least (Ends ctx loops) (Stmt.runFor env loop (body.execute env) results)
      (ctx.cursor loops none) (do Tracing.times y (← quietly count).toNat) := by
  subst hinfo hloop
  refine .bind hcount fun n => ?_
  by_cases hn : n ≤ 0
  · rw [if_pos hn, Int.toNat_of_nonpos hn]
    exact .done rfl
  · obtain ⟨m, rfl⟩ : ∃ m : Nat, n = m + 1 := ⟨(n - 1).toNat, by omega⟩
    rw [if_neg hn, show ((m : Int) + 1).toNat = m + 1 by omega]
    refine enterLoop_refines (.andThen (hbody loops) (fun _ => rfl) fun k r c hc => ?_)
    rw [hc]
    exact afterFor_refines hbody m k

variable {condition : Expr} (hcondition : ∀ loops,
  Refines env least (Yields ctx loops) (condition.evaluate env) (ctx.cursor loops none)
    (Tracing.value ctx run condition))

include hcondition

/-- Each iteration takes a micro-step, so a loop that is out of fuel has taken as many as its fuel. -/
theorem testWhile_refines {fuel : Nat} (hfuel : fuel ≤ least) (entered : Bool) :
    Refines env fuel (Ends ctx loops)
      (andThen (condition.evaluate env) (.whileTest info condition body entered)
        (Stmt.testWhile info condition body (body.execute env) entered))
      (ctx.cursor (if entered then ctx.inLoop info loops else loops) none)
      (Tracing.whileTrue (Tracing.holds ctx run condition) y fuel) := by
  induction fuel generalizing entered with
  | zero => exact .outOfFuel
  | succ fuel ih =>
    rw [Tracing.whileTrue]
    refine truth_refines ((hcondition _).mono hfuel) (fun _ => rfl) (fun _ => rfl) fun b => ?_
    -- The loop is entered when its condition is true for the first time.
    have iteration : Refines env (fuel + 1) (Ends ctx loops)
        (andThen (body.execute env) (.whileBody info condition body)
          fun _ => Stmt.afterWhile info condition body)
        (ctx.cursor (ctx.inLoop info loops) none)
        (do Tracing.next (Tracing.whileTrue (Tracing.holds ctx run condition) y fuel) (← y)) := by
      refine .andThen ((hbody loops).mono hfuel) (fun _ => rfl) fun k r c hc => ?_
      rw [hc]
      exact afterIteration_refines (.paused rfl (.resumed_by (ih (by omega) true))) k
    refine .ite (fun _ => ?_) fun _ => ?_
    · cases entered with
      | true => exact .bind (.pure ()) fun _ => iteration
      | false => exact enterLoop_refines iteration
    · cases entered with
      | true => exact leaveLoop_refines (k := .normal)
      | false => exact .done rfl

/-- The condition of a `REPEAT` loop is tested in the micro-step in which an iteration ends. -/
theorem repeatBody_refines {fuel : Nat} (hfuel : fuel ≤ least) :
    Refines env fuel (Ends ctx loops) (microStep env [.start body, .repeatBody info body condition])
      (ctx.cursor (ctx.inLoop info loops) none)
      (Tracing.untilTrue y (Tracing.holds ctx run condition) fuel) := by
  induction fuel with
  | zero => exact .outOfFuel
  | succ fuel ih =>
    rw [Tracing.untilTrue]
    refine .start ((hbody loops).mono hfuel) fun k r c hc => .resumed_by ?_
    rw [hc]
    refine afterIteration_refines ?_ k
    refine truth_refines ((hcondition _).mono hfuel) (fun _ => rfl) (fun _ => rfl) fun b => ?_
    refine .ite (fun _ => leaveLoop_refines (k := .normal)) fun _ => ?_
    exact .paused rfl (ih (by omega))

end

-- ---------------------------------------------------------------------------
-- Statements
-- ---------------------------------------------------------------------------

theorem assignTo_refines (hctx : ctx.env = env) (a : AssignTarget) (found : Evaluated) :
    Refines env least (Ends ctx loops) (Stmt.assignTo env a found) (ctx.cursor loops none)
      (do quietly (ctx.assign a.span a.target a.place? found.value); pure .normal) := by
  subst hctx
  obtain ⟨span, target, place?⟩ := a
  unfold Stmt.assignTo Context.assign
  cases target with
  | var info path indexes =>
    cases place? with
    | none => exact .fail _
    | some place => exact .bind (.storing _ _) fun _ => .done rfl
  | _ => exact .fail _

theorem requestExit_refines {info : NodeInfo}
    (hloops : loops.head?.map (·.instance) = some ctx.current) :
    Refines env least (Ends ctx loops) (Stmt.requestExit info) (ctx.cursor loops none)
      (pure .exit) := by
  refine .reads fun x hx => ?_
  rw [hx]
  simp only [Context.cursor, hloops, if_true]
  exact .onCursor (.done rfl)

mutual

theorem perform_refines (hctx : ctx.env = env) (hrun : RunsBodies env least run)
    {loops : List LoopEntry} {inLoop : Prop}
    (hloops : inLoop → loops.head?.map (·.instance) = some ctx.current) :
    (s : Stmt) → s.ExitsInLoops inLoop →
    Refines env (least + 1) (Ends ctx loops) (s.execute env) (ctx.cursor loops none)
      (Tracing.perform ctx run (least + 1) s)
  | .eval e, _ => by
    rw [Stmt.execute, Tracing.perform]
    exact (value_refines hctx hrun e).map fun _ _ _ h => h.2
  | .assign info target source, _ => by
    rw [Stmt.execute, Tracing.perform]
    refine .andThen (value_refines hctx hrun target) (fun _ => rfl) ?_
    rintro _ located _ ⟨rfl, rfl⟩
    refine .andThen (value_refines hctx hrun source) (fun _ => rfl) ?_
    rintro _ found _ ⟨rfl, rfl⟩
    exact assignTo_refines hctx _ found
  | .block _ statements, h => by
    rw [Stmt.execute, Tracing.perform]
    exact performAll_refines hctx hrun hloops statements h
  | .ifThen _ branches otherwise, ⟨hbranches, hotherwise⟩ => by
    rw [Stmt.execute, Tracing.perform]
    exact performBranches_refines hctx hrun hloops otherwise branches hbranches
      (performOption_refines hctx hrun hloops otherwise hotherwise)
  | .case _ selector arms otherwise, ⟨harms, hotherwise⟩ => by
    rw [Stmt.execute, Tracing.perform]
    refine .andThen (value_refines hctx hrun selector) (fun _ => rfl) ?_
    rintro _ r _ ⟨rfl, rfl⟩
    exact performArms_refines hctx hrun hloops selector.span r.value arms harms
      (performOption_refines hctx hrun hloops otherwise hotherwise)
  | .forLoop info control start stop step body, h => by
    rw [Stmt.execute, Tracing.perform]
    simp only [Stmt.ExitsInLoops] at h
    have hbody (loops : List LoopEntry) :
        Refines env (least + 1) (Ends ctx (ctx.inLoop info loops)) (body.execute env)
          (ctx.cursor (ctx.inLoop info loops) none) (Tracing.perform ctx run (least + 1) body) :=
      perform_refines hctx hrun (fun _ => rfl) body h
    cases step with
    | none =>
      simp only [Stmt.bounds, Option.toList, Expr.evaluateAll, List.append_nil, pure_bind]
      refine .andThen (value_refines hctx hrun control) (fun _ => rfl) ?_
      rintro _ located _ ⟨rfl, rfl⟩
      refine .andThen (value_refines hctx hrun start) (fun _ => rfl) ?_
      rintro _ first _ ⟨rfl, rfl⟩
      refine .andThen (value_refines hctx hrun stop) (fun _ => rfl) ?_
      rintro _ last _ ⟨rfl, rfl⟩
      exact runFor_refines hbody rfl rfl (startFor_performs hctx _ located first last none)
    | some e =>
      simp only [Stmt.bounds, Option.toList, Expr.evaluateAll, List.cons_append, List.nil_append,
        bind_map_left]
      refine .andThen (value_refines hctx hrun control) (fun _ => rfl) ?_
      rintro _ located _ ⟨rfl, rfl⟩
      refine .andThen (value_refines hctx hrun start) (fun _ => rfl) ?_
      rintro _ first _ ⟨rfl, rfl⟩
      refine .andThen (value_refines hctx hrun stop) (fun _ => rfl) ?_
      rintro _ last _ ⟨rfl, rfl⟩
      refine .andThen (value_refines hctx hrun e) (fun _ => rfl) ?_
      rintro _ stride _ ⟨rfl, rfl⟩
      exact runFor_refines hbody rfl rfl (startFor_performs hctx _ located first last (some stride))
  | .whileLoop info condition body, h => by
    rw [Stmt.execute, Tracing.perform]
    simp only [Stmt.ExitsInLoops] at h
    exact testWhile_refines (fun loops => perform_refines hctx hrun (fun _ => rfl) body h)
      (fun loops => value_refines hctx hrun condition) (Nat.le_refl _) false
  | .repeatLoop info body condition, h => by
    rw [Stmt.execute, Tracing.perform]
    simp only [Stmt.ExitsInLoops] at h
    refine enterLoop_refines (.congr (fun s => (microStep_start (fun _ => rfl) _).symm) ?_)
    exact repeatBody_refines (fun loops => perform_refines hctx hrun (fun _ => rfl) body h)
      (fun loops => value_refines hctx hrun condition) (Nat.le_refl _)
  | .exit info, h => by
    rw [Stmt.execute, Tracing.perform]
    exact requestExit_refines (hloops h)
  | .ret info, _ => by
    rw [Stmt.execute, Tracing.perform]
    exact .onCursor (.done rfl)

theorem performAll_refines (hctx : ctx.env = env) (hrun : RunsBodies env least run)
    {loops : List LoopEntry} {inLoop : Prop}
    (hloops : inLoop → loops.head?.map (·.instance) = some ctx.current) :
    (ss : List Stmt) → Stmt.AllExitInLoops inLoop ss →
    Refines env (least + 1) (Ends ctx loops) (Stmt.announce ss) (ctx.cursor loops none)
      (Tracing.performAll ctx run (least + 1) ss)
  | [], _ => by
    rw [Stmt.announce, Tracing.performAll]
    exact .done rfl
  | s :: rest, ⟨hs, hrest⟩ => by
    rw [Stmt.announce, Tracing.performAll]
    refine .mono (Nat.le_succ _) (.noted ?_)
    refine .start (perform_refines hctx hrun hloops s hs) fun k r c hc => .resumed_by ?_
    refine .reads fun x hx => ?_
    rw [hx, hc]
    cases k with
    | normal => exact performAll_refines hctx hrun hloops rest hrest
    | exit => exact .done rfl
    | ret => exact .done rfl

theorem performOption_refines (hctx : ctx.env = env) (hrun : RunsBodies env least run)
    {loops : List LoopEntry} {inLoop : Prop}
    (hloops : inLoop → loops.head?.map (·.instance) = some ctx.current) :
    (o : Option Stmt) → Stmt.OptionExitsInLoops inLoop o →
    Refines env (least + 1) (Ends ctx loops) (Stmt.executeOption env o) (ctx.cursor loops none)
      (Tracing.performOption ctx run (least + 1) o)
  | none, _ => by
    rw [Stmt.executeOption, Tracing.performOption]
    exact .done rfl
  | some s, h => by
    rw [Stmt.executeOption, Tracing.performOption]
    exact perform_refines hctx hrun hloops s h

theorem performBranches_refines (hctx : ctx.env = env) (hrun : RunsBodies env least run)
    {loops : List LoopEntry} {inLoop : Prop}
    (hloops : inLoop → loops.head?.map (·.instance) = some ctx.current) (otherwise : Option Stmt)
    {y : Tracing Completion} :
    (branches : List (Expr × Stmt)) → Stmt.BranchesExitInLoops inLoop branches →
    Refines env (least + 1) (Ends ctx loops) (Stmt.executeOption env otherwise)
      (ctx.cursor loops none) y →
    Refines env (least + 1) (Ends ctx loops)
      (Stmt.executeBranches env otherwise (Stmt.executeOption env otherwise) branches)
      (ctx.cursor loops none) (Tracing.performBranches ctx run (least + 1) y branches)
  | [], _, hy => by
    rw [Stmt.executeBranches, Tracing.performBranches]
    exact hy
  | (condition, s) :: rest, ⟨hs, hrest⟩, hy => by
    rw [Stmt.executeBranches, Tracing.performBranches]
    refine truth_refines (value_refines hctx hrun condition) (fun _ => rfl) (fun _ => rfl) fun b => ?_
    exact .ite (fun _ => perform_refines hctx hrun hloops s hs)
      fun _ => performBranches_refines hctx hrun hloops otherwise rest hrest hy

theorem performArms_refines (hctx : ctx.env = env) (hrun : RunsBodies env least run)
    {loops : List LoopEntry} {inLoop : Prop}
    (hloops : inLoop → loops.head?.map (·.instance) = some ctx.current) (span : Span) (v : Value)
    {m : Run (Progress Evaluated)} {y : Tracing Completion} :
    (arms : List (List CaseLabel × Stmt)) → Stmt.ArmsExitInLoops inLoop arms →
    Refines env (least + 1) (Ends ctx loops) m (ctx.cursor loops none) y →
    Refines env (least + 1) (Ends ctx loops) (Stmt.executeArms env span v m arms)
      (ctx.cursor loops none) (Tracing.performArms ctx run (least + 1) span v y arms)
  | [], _, hy => by
    rw [Stmt.executeArms, Tracing.performArms]
    exact hy
  | (labels, s) :: rest, ⟨hs, hrest⟩, hy => by
    rw [Stmt.executeArms, Tracing.performArms]
    refine .bind (.checked _) fun b => ?_
    exact .ite (fun _ => perform_refines hctx hrun hloops s hs)
      fun _ => performArms_refines hctx hrun hloops span v rest hrest hy

end

-- ---------------------------------------------------------------------------
-- Bodies
-- ---------------------------------------------------------------------------

/-- The induction on the fuel: a body that is called is evaluated with less of it. -/
theorem runsBodies_evaluate (hexits : ∀ pou ∈ env.library.pous, pou.body.ExitsInLoops False)
    (fuel : Nat) : RunsBodies env fuel (Tracing.evaluate fuel) := by
  induction fuel with
  | zero => exact fun _ _ _ _ _ => .outOfFuel
  | succ fuel ih =>
    intro ctx loops hctx pou hpou
    exact perform_refines hctx ih nofun pou.body (hexits pou hpou)

end StructuredText.BigStep
