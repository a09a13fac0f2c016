-- SUMMARY: Evaluating a body by recursion and noting each statement before it is performed.
import StructuredText.Proofs.BigStep

/-!
# Traced evaluation

The evaluation of a body by recursion, with a trace of the statements that it performs. Each statement of a block is noted
right before it is performed, with the variables and the direct memory as they are then. So the entries of a trace stand in
the order of execution: those of a called unit come after the statement with the call, and those of a loop come once for
each iteration. Without its trace the evaluation is the one without traces.
-/

namespace StructuredText.BigStep

variable {α β : Type}

-- ---------------------------------------------------------------------------
-- Traces
-- ---------------------------------------------------------------------------

/-- Statements in the order in which they are performed, each with the storage before it. -/
abbrev Trace := List (Span × Storage)

/-- A storage, and the statements that have been performed up to it. -/
structure Traced where
  storage : Storage
  trace : Trace

abbrev Tracing := EStateM Stop Traced

/-- A part of an evaluation that performs no statement. -/
def quietly (y : Evaluating α) : Tracing α := fun x =>
  match y x.storage with
  | .ok a s => .ok a ⟨s, x.trace⟩
  | .error e s => .error e ⟨s, x.trace⟩

/-- A statement is about to be performed. -/
def note (span : Span) : Tracing Unit := modify fun x => ⟨x.storage, x.trace ++ [(span, x.storage)]⟩

theorem quietly_bind (y : Evaluating α) (z : α → Evaluating β) :
    quietly (y >>= z) = quietly y >>= fun a => quietly (z a) := by
  funext x
  simp only [quietly, EStateM.bind_apply]
  cases y x.storage <;> rfl

namespace Tracing

variable (ctx : Context) (run : Context → Stmt → Tracing Completion)

-- ---------------------------------------------------------------------------
-- Calls
-- ---------------------------------------------------------------------------

def enter (site : CallSite) (args : List Evaluated) (i : InstanceId) (isFunction : Bool) : Tracing Evaluated := do
  let span := site.info.span
  if ctx.isActive i then
    quietly (fail (.of .notInvocable span s!"{site.name.text} is already executing"))
  if isFunction then
    quietly (storing span (Storage.resetFrame ctx.env.library i))
  let pou ← quietly (asking span (·.pouOf ctx.env.library i))
  quietly (ctx.copyInputs site args i)
  let _ ← run (ctx.call i) pou.body
  quietly (ctx.collectResults site args i)

def invoke (site : CallSite) (args : List Evaluated) : Tracing Evaluated := do
  let span := site.info.span
  match site.callee with
  | none => quietly (fail (.internal span s!"Call to {site.name.text} is not resolved"))
  | some (.standard f) => do
    let value ← quietly (checked (atSpan span (f.evaluate (args.map (·.value)))))
    pure { value }
  | some (.function pou) => do
    let i ← quietly (asking span (·.unitInstance pou))
    enter ctx run site args i true
  | some (.instance root) => do
    let place ← quietly (asking span (·.locate ctx.env.library (some ctx.current) root []))
    match ← quietly (asking span (·.value place)) with
    | .block ⟨_, some i⟩ => enter ctx run site args i false
    | _ => quietly (fail (.internal span s!"{site.name.text} is not bound to an instance"))

-- ---------------------------------------------------------------------------
-- Expressions
-- ---------------------------------------------------------------------------

mutual

def value : Expr → Tracing Evaluated
  | .literal _ value _ => pure { value }
  | .var info path indexes =>
    match path.fixed with
    | some _ => quietly (ctx.lookup info path [])
    | none => do
      let values ← valueOfAll indexes
      quietly (ctx.lookup info path ((indexes.map Expr.span).zip (values.map (·.value))))
  | .unary info op e => do
    let a ← value e
    let value ← quietly (checked (atSpan info.span (op.evaluate a.value)))
    pure { value }
  | .binary _ op l r => do
    let a ← value l
    let b ← value r
    let value ← quietly (checked
      ((op.evaluate a.value b.value ctx.env.epsilon).mapError (·.between l.span r.span)))
    pure { value }
  | .call info name _ args callee bindings => do
    let values ← valueOfAll args
    invoke ctx run { info, name, args, callee, bindings } values

def valueOfAll : List Expr → Tracing (List Evaluated)
  | [] => pure []
  | e :: es => do
    let a ← value e
    let rest ← valueOfAll es
    pure (a :: rest)

end

def holds (condition : Expr) : Tracing Bool := do
  let r ← value ctx run condition
  quietly (checked (atSpan condition.span r.value.toBool))

-- ---------------------------------------------------------------------------
-- Loops
-- ---------------------------------------------------------------------------

def next (again : Tracing Completion) : Completion → Tracing Completion
  | .normal => again
  | .exit => pure .normal
  | .ret => pure .ret

def times (body : Tracing Completion) : Nat → Tracing Completion
  | 0 => pure .normal
  | n + 1 => do next (times body n) (← body)

def whileTrue (condition : Tracing Bool) (body : Tracing Completion) : (fuel : Nat) → Tracing Completion
  | 0 => throw .outOfFuel
  | fuel + 1 => do
    if ← condition then next (whileTrue condition body fuel) (← body)
    else pure .normal

def untilTrue (body : Tracing Completion) (condition : Tracing Bool) : (fuel : Nat) → Tracing Completion
  | 0 => throw .outOfFuel
  | fuel + 1 => do
    let again : Tracing Completion := do
      if ← condition then pure .normal else untilTrue body condition fuel
    next again (← body)

-- ---------------------------------------------------------------------------
-- Statements
-- ---------------------------------------------------------------------------

mutual

def perform (fuel : Nat) : Stmt → Tracing Completion
  | .eval e => do
    let _ ← value ctx run e
    pure .normal
  | .assign info target source => do
    let located ← value ctx run target
    let found ← value ctx run source
    quietly (ctx.assign info.span target located.place? found.value)
    pure .normal
  | .block _ statements => performAll fuel statements
  | .ifThen _ branches otherwise => performBranches fuel (performOption fuel otherwise) branches
  | .case _ selector arms otherwise => do
    let r ← value ctx run selector
    performArms fuel selector.span r.value (performOption fuel otherwise) arms
  | .forLoop info control start stop step body => do
    let located ← value ctx run control
    let first ← value ctx run start
    let last ← value ctx run stop
    let stride ← match step with
      | some e => some <$> value ctx run e
      | none => pure none
    let count ← quietly (ctx.startFor { info, control, start, stop, step, body } located first last stride)
    times (perform fuel body) count.toNat
  | .whileLoop _ condition body => whileTrue (holds ctx run condition) (perform fuel body) fuel
  | .repeatLoop _ body condition => untilTrue (perform fuel body) (holds ctx run condition) fuel
  | .exit _ => pure .exit
  | .ret _ => pure .ret

/-- Performs statements in order up to the first one that does not end normally, and notes each of them before. -/
def performAll (fuel : Nat) : List Stmt → Tracing Completion
  | [] => pure .normal
  | s :: rest => do
    note s.span
    match ← perform fuel s with
    | .normal => performAll fuel rest
    | transfer => pure transfer

def performOption (fuel : Nat) : Option Stmt → Tracing Completion
  | none => pure .normal
  | some s => perform fuel s

def performBranches (fuel : Nat) (otherwise : Tracing Completion) : List (Expr × Stmt) → Tracing Completion
  | [] => otherwise
  | (condition, s) :: rest => do
    if ← holds ctx run condition then perform fuel s
    else performBranches fuel otherwise rest

def performArms (fuel : Nat) (span : Span) (v : Value) (otherwise : Tracing Completion) :
    List (List CaseLabel × Stmt) → Tracing Completion
  | [] => otherwise
  | (labels, s) :: rest => do
    if ← quietly (checked (atSpan span (Stmt.anyMatches v labels))) then perform fuel s
    else performArms fuel span v otherwise rest

end

/-- Evaluates a body with the same fuel as without a trace. -/
def evaluate : (fuel : Nat) → Context → Stmt → Tracing Completion
  | 0, _, _ => throw .outOfFuel
  | fuel + 1, ctx, s => perform ctx (evaluate fuel) (fuel + 1) s

end Tracing

-- ---------------------------------------------------------------------------
-- Without the trace
-- ---------------------------------------------------------------------------

/-- What an evaluation ends with, without the trace. -/
def untraced : EStateM.Result Stop Traced α → EStateM.Result Stop Storage α
  | .ok a x => .ok a x.storage
  | .error e x => .error e x.storage

/-- Without its trace the evaluation is the other one. -/
def Untraces (y : Tracing α) (z : Evaluating α) : Prop := ∀ x, untraced (y x) = z x.storage

namespace Untraces

theorem pure (a : α) : Untraces (Pure.pure a) (Pure.pure a) := fun _ => rfl

theorem quietly (z : Evaluating α) : Untraces (BigStep.quietly z) z := by
  intro x
  unfold BigStep.quietly
  cases z x.storage <;> rfl

theorem outOfFuel : Untraces (throw .outOfFuel : Tracing α) (throw .outOfFuel) := fun _ => rfl

theorem bind {y : Tracing α} {z : Evaluating α} {k : α → Tracing β} {l : α → Evaluating β} (h : Untraces y z)
    (hk : ∀ a, Untraces (k a) (l a)) : Untraces (y >>= k) (z >>= l) := by
  intro x
  have hx := h x
  simp only [EStateM.bind_apply]
  cases hy : y x with
  | ok a x' =>
    rw [hy] at hx
    rw [← hx]
    exact hk a x'
  | error e x' =>
    rw [hy] at hx
    rw [← hx]
    rfl

theorem map {y : Tracing α} {z : Evaluating α} (f : α → β) (h : Untraces y z) : Untraces (f <$> y) (f <$> z) := by
  rw [map_eq_pure_bind, map_eq_pure_bind]
  exact .bind h fun a => .pure _

theorem note {span : Span} {y : Tracing α} {z : Evaluating α} (h : Untraces y z) :
    Untraces (do BigStep.note span; y) z := fun x => h ⟨x.storage, x.trace ++ [(span, x.storage)]⟩

theorem ite {p : Prop} [Decidable p] {y y' : Tracing α} {z z' : Evaluating α} (h : Untraces y z) (h' : Untraces y' z') :
    Untraces (if p then y else y') (if p then z else z') := by
  split <;> assumption

end Untraces

namespace Tracing

variable {ctx : Context} {run : Context → Stmt → Tracing Completion} {run' : Context → Stmt → Evaluating Completion}

theorem enter_untraces (hrun : ∀ ctx s, Untraces (run ctx s) (run' ctx s)) (site : CallSite) (args : List Evaluated)
    (i : InstanceId) (isFunction : Bool) :
    Untraces (enter ctx run site args i isFunction) (ctx.enter run' site args i isFunction) := by
  have fromPou : Untraces
      (do
        let pou ← quietly (asking site.info.span (·.pouOf ctx.env.library i))
        quietly (ctx.copyInputs site args i)
        let _ ← run (ctx.call i) pou.body
        quietly (ctx.collectResults site args i))
      (do
        let pou ← asking site.info.span (·.pouOf ctx.env.library i)
        ctx.copyInputs site args i
        let _ ← run' (ctx.call i) pou.body
        ctx.collectResults site args i) :=
    .bind (.quietly _) fun pou => .bind (.quietly _) fun _ => .bind (hrun _ _) fun _ => .quietly _
  unfold enter Context.enter
  refine .ite (.bind (.quietly _) fun _ => ?_) ?_
  all_goals exact .ite (.bind (.quietly _) fun _ => fromPou) fromPou

theorem invoke_untraces (hrun : ∀ ctx s, Untraces (run ctx s) (run' ctx s)) (site : CallSite) (args : List Evaluated) :
    Untraces (invoke ctx run site args) (ctx.invoke run' site args) := by
  unfold invoke Context.invoke
  cases site.callee with
  | none => exact .quietly _
  | some callee =>
    cases callee with
    | standard f => exact .bind (.quietly _) fun _ => .pure _
    | function pou => exact .bind (.quietly _) fun i => enter_untraces hrun site args i true
    | «instance» root =>
      refine .bind (.quietly _) fun place => .bind (.quietly _) fun v => ?_
      cases v with
      | block ref =>
        obtain ⟨_, _ | i⟩ := ref
        · exact .quietly _
        · exact enter_untraces hrun site args i false
      | _ => exact .quietly _

mutual

theorem value_untraces (hrun : ∀ ctx s, Untraces (run ctx s) (run' ctx s)) : (e : Expr) →
    Untraces (value ctx run e) (ctx.value run' e)
  | .literal _ v _ => by
    rw [value, Context.value]
    exact .pure _
  | .var info path indexes => by
    rw [value, Context.value]
    cases path.fixed with
    | some _ => exact .quietly _
    | none => exact .bind (valueOfAll_untraces hrun indexes) fun _ => .quietly _
  | .unary info op e => by
    rw [value, Context.value]
    exact .bind (value_untraces hrun e) fun _ => .bind (.quietly _) fun _ => .pure _
  | .binary info op l r => by
    rw [value, Context.value]
    exact .bind (value_untraces hrun l) fun _ => .bind (value_untraces hrun r) fun _ => .bind (.quietly _) fun _ => .pure _
  | .call info name labels args callee bindings => by
    rw [value, Context.value]
    exact .bind (valueOfAll_untraces hrun args) fun values => invoke_untraces hrun _ values

theorem valueOfAll_untraces (hrun : ∀ ctx s, Untraces (run ctx s) (run' ctx s)) : (es : List Expr) →
    Untraces (valueOfAll ctx run es) (ctx.valueOfAll run' es)
  | [] => by
    rw [valueOfAll, Context.valueOfAll]
    exact .pure _
  | e :: es => by
    rw [valueOfAll, Context.valueOfAll]
    exact .bind (value_untraces hrun e) fun _ => .bind (valueOfAll_untraces hrun es) fun _ => .pure _

end

theorem holds_untraces (hrun : ∀ ctx s, Untraces (run ctx s) (run' ctx s)) (condition : Expr) :
    Untraces (holds ctx run condition) (ctx.holds run' condition) :=
  .bind (value_untraces hrun condition) fun _ => .quietly _

theorem next_untraces {again : Tracing Completion} {again' : Evaluating Completion} (h : Untraces again again')
    (k : Completion) : Untraces (next again k) (Context.next again' k) := by
  cases k with
  | normal => exact h
  | exit => exact .pure _
  | ret => exact .pure _

section

variable {body : Tracing Completion} {body' : Evaluating Completion} (hbody : Untraces body body')

include hbody

theorem times_untraces (n : Nat) : Untraces (times body n) (Context.times body' n) := by
  induction n with
  | zero => exact .pure _
  | succ n ih => exact .bind hbody (next_untraces ih)

variable {condition : Tracing Bool} {condition' : Evaluating Bool} (hcondition : Untraces condition condition')

include hcondition

theorem whileTrue_untraces (fuel : Nat) :
    Untraces (whileTrue condition body fuel) (Context.whileTrue condition' body' fuel) := by
  induction fuel with
  | zero => exact .outOfFuel
  | succ fuel ih => exact .bind hcondition fun b => .ite (.bind hbody (next_untraces ih)) (.pure _)

theorem untilTrue_untraces (fuel : Nat) :
    Untraces (untilTrue body condition fuel) (Context.untilTrue body' condition' fuel) := by
  induction fuel with
  | zero => exact .outOfFuel
  | succ fuel ih => exact .bind hbody (next_untraces (.bind hcondition fun b => .ite (.pure _) ih))

end

mutual

theorem perform_untraces (hrun : ∀ ctx s, Untraces (run ctx s) (run' ctx s)) (fuel : Nat) : (s : Stmt) →
    Untraces (perform ctx run fuel s) (ctx.perform run' fuel s)
  | .eval e => by
    rw [perform, Context.perform]
    exact .bind (value_untraces hrun e) fun _ => .pure _
  | .assign info target source => by
    rw [perform, Context.perform]
    exact .bind (value_untraces hrun target) fun _ => .bind (value_untraces hrun source) fun _ =>
      .bind (.quietly _) fun _ => .pure _
  | .block _ statements => by
    rw [perform, Context.perform]
    exact performAll_untraces hrun fuel statements
  | .ifThen _ branches otherwise => by
    rw [perform, Context.perform]
    exact performBranches_untraces hrun fuel (performOption_untraces hrun fuel otherwise) branches
  | .case _ selector arms otherwise => by
    rw [perform, Context.perform]
    exact .bind (value_untraces hrun selector) fun r =>
      performArms_untraces hrun fuel selector.span r.value (performOption_untraces hrun fuel otherwise) arms
  | .forLoop info control start stop step body => by
    rw [perform, Context.perform]
    have hbody := perform_untraces hrun fuel body
    refine .bind (value_untraces hrun control) fun _ => .bind (value_untraces hrun start) fun _ =>
      .bind (value_untraces hrun stop) fun _ => ?_
    cases step with
    | none => exact .bind (.pure _) fun _ => .bind (.quietly _) fun count => times_untraces hbody _
    | some e =>
      exact .bind (.map some (value_untraces hrun e)) fun _ => .bind (.quietly _) fun count => times_untraces hbody _
  | .whileLoop _ condition body => by
    rw [perform, Context.perform]
    exact whileTrue_untraces (perform_untraces hrun fuel body) (holds_untraces hrun condition) fuel
  | .repeatLoop _ body condition => by
    rw [perform, Context.perform]
    exact untilTrue_untraces (perform_untraces hrun fuel body) (holds_untraces hrun condition) fuel
  | .exit _ => by
    rw [perform, Context.perform]
    exact .pure _
  | .ret _ => by
    rw [perform, Context.perform]
    exact .pure _

theorem performAll_untraces (hrun : ∀ ctx s, Untraces (run ctx s) (run' ctx s)) (fuel : Nat) : (ss : List Stmt) →
    Untraces (performAll ctx run fuel ss) (ctx.performAll run' fuel ss)
  | [] => by
    rw [performAll, Context.performAll]
    exact .pure _
  | s :: rest => by
    rw [performAll, Context.performAll]
    refine .note (.bind (perform_untraces hrun fuel s) fun k => ?_)
    cases k with
    | normal => exact performAll_untraces hrun fuel rest
    | exit => exact .pure _
    | ret => exact .pure _

theorem performOption_untraces (hrun : ∀ ctx s, Untraces (run ctx s) (run' ctx s)) (fuel : Nat) : (o : Option Stmt) →
    Untraces (performOption ctx run fuel o) (ctx.performOption run' fuel o)
  | none => by
    rw [performOption, Context.performOption]
    exact .pure _
  | some s => by
    rw [performOption, Context.performOption]
    exact perform_untraces hrun fuel s

theorem performBranches_untraces (hrun : ∀ ctx s, Untraces (run ctx s) (run' ctx s)) (fuel : Nat)
    {otherwise : Tracing Completion} {otherwise' : Evaluating Completion} (h : Untraces otherwise otherwise') :
    (branches : List (Expr × Stmt)) →
    Untraces (performBranches ctx run fuel otherwise branches) (ctx.performBranches run' fuel otherwise' branches)
  | [] => by
    rw [performBranches, Context.performBranches]
    exact h
  | (condition, s) :: rest => by
    rw [performBranches, Context.performBranches]
    exact .bind (holds_untraces hrun condition) fun _ =>
      .ite (perform_untraces hrun fuel s) (performBranches_untraces hrun fuel h rest)

theorem performArms_untraces (hrun : ∀ ctx s, Untraces (run ctx s) (run' ctx s)) (fuel : Nat) (span : Span) (v : Value)
    {otherwise : Tracing Completion} {otherwise' : Evaluating Completion} (h : Untraces otherwise otherwise') :
    (arms : List (List CaseLabel × Stmt)) →
    Untraces (performArms ctx run fuel span v otherwise arms) (ctx.performArms run' fuel span v otherwise' arms)
  | [] => by
    rw [performArms, Context.performArms]
    exact h
  | (labels, s) :: rest => by
    rw [performArms, Context.performArms]
    exact .bind (.quietly _) fun _ => .ite (perform_untraces hrun fuel s) (performArms_untraces hrun fuel span v h rest)

end

/-- The trace is all that is added. -/
theorem evaluate_untraces (fuel : Nat) (ctx : Context) (s : Stmt) :
    Untraces (evaluate fuel ctx s) (BigStep.evaluate fuel ctx s) := by
  induction fuel generalizing ctx s with
  | zero => exact .outOfFuel
  | succ fuel ih => exact perform_untraces ih (fuel + 1) s

end Tracing

end StructuredText.BigStep
