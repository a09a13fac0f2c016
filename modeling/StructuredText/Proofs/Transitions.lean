-- SUMMARY: A micro-step is a bounded number of transitions, none of which goes through a loop or a list by itself.
import Mathlib.Algebra.GroupWithZero.Nat
import StructuredText.Proofs.Settling

/-!
# Transitions

A micro-step enters the nodes of a body one after the other. A transition enters one node, or resumes one frame with
the result that it waits for; it is not recursive, so that nothing can be repeated inside of it. What is left to do in
the micro-step has a weight, which every transition makes smaller: the weight of a list does not count its statements,
and that of a frame behind the body of a loop does not count the body, because the micro-step ends before either is
entered. So a micro-step ends after no more transitions than the weight of its frames.
-/

namespace StructuredText

/-- What a transition starts from. -/
inductive Focus where
  | expr (e : Expr)
  | stmt (s : Stmt)
  /-- The innermost frame waits for the result. -/
  | result (r : Evaluated)

/-- What a transition comes to, in front of the frames that wait. -/
inductive Moved where
  | next (focus : Focus) (inner : List Frame)
  /-- The micro-step ends. -/
  | paused (inner : List Frame)

namespace Run

-- ---------------------------------------------------------------------------
-- Transitions
-- ---------------------------------------------------------------------------

/-- A computation that enters no node. -/
def settled (x : Run (Progress Evaluated)) : Run Moved := do
  match ← x with
  | .done r => pure (.next (.result r) [])
  | .paused inner => pure (.paused inner)

/-- Enters the next one of expressions that are evaluated in order. -/
def enterNext (frame : List Evaluated → List Expr → Frame) (next : List Evaluated → Run Moved)
    (before : List Evaluated) : List Expr → Run Moved
  | [] => next before
  | e :: rest => pure (.next (.expr e) [frame before rest])

def enterExpr (env : Environment) : Expr → Run Moved
  | .literal _ value _ => pure (.next (.result { value }) [])
  | .var info path indexes =>
    match path.fixed with
    | some _ => settled (Expr.lookup env info path [])
    | none =>
      enterNext (fun before rest => .index info path before indexes rest)
        (fun values => settled (Expr.lookupAt env info path indexes values)) [] indexes
  | .unary info op e => pure (.next (.expr e) [.operand info op])
  | .binary _ op l r => pure (.next (.expr l) [.left op l r])
  | .call info name _ args callee bindings =>
    let site : CallSite := { info, name, args, callee, bindings }
    enterNext (.arg site) (fun values => settled (Expr.invoke env site values)) [] args

def enterOption : Option Stmt → Run Moved
  | none => settled finish
  | some s => pure (.next (.stmt s) [])

def enterBranches (otherwise : Option Stmt) : List (Expr × Stmt) → Run Moved
  | [] => enterOption otherwise
  | (condition, s) :: rest =>
    pure (.next (.expr condition) [.condition condition s rest otherwise])

/-- Enters the first arm that has a label for the value. No node is entered to find it. -/
def enterArm (span : Span) (v : Value) (otherwise : Option Stmt) :
    List (List CaseLabel × Stmt) → Run Moved
  | [] => enterOption otherwise
  | (labels, s) :: rest => do
    if ← ofExcept (atSpan span (Stmt.anyMatches v labels)) then pure (.next (.stmt s) [])
    else enterArm span v otherwise rest

/-- Enters the body of a `FOR` loop whose bounds are evaluated. -/
def enterFor (env : Environment) (loop : ForLoop) (results : List Evaluated) : Run Moved := do
  let count ← Stmt.startFor env loop results
  if count ≤ 0 then settled finish
  else do
    Stmt.enterLoop loop.info
    pure (.next (.stmt loop.body) [.forBody loop.info count loop.body])

def enterStmt (env : Environment) : Stmt → Run Moved
  | .eval e => pure (.next (.expr e) [])
  | .assign info target value => pure (.next (.expr target) [.target info target value])
  | .block _ statements => settled (Stmt.announce statements)
  | .ifThen _ branches otherwise => enterBranches otherwise branches
  | .case _ selector arms otherwise =>
    pure (.next (.expr selector) [.selector selector arms otherwise])
  | .forLoop info control start stop step body =>
    let loop : ForLoop := { info, control, start, stop, step, body }
    enterNext (.bound loop) (enterFor env loop) [] (Stmt.bounds loop)
  | .whileLoop info condition body =>
    pure (.next (.expr condition) [.whileTest info condition body false])
  | .repeatLoop info body condition => do
    Stmt.enterLoop info
    pure (.next (.stmt body) [.repeatBody info body condition])
  | .exit info => settled (Stmt.requestExit info)
  | .ret _ => settled do
    onCursor (·.request .ret)
    finish

/-- Enters the body of a `WHILE` loop whose condition holds, or else ends the loop. -/
def enterWhile (info : NodeInfo) (condition : Expr) (body : Stmt) (entered : Bool) (r : Evaluated) :
    Run Moved := do
  if ← Stmt.truth condition r then
    if !entered then Stmt.enterLoop info
    pure (.next (.stmt body) [.whileBody info condition body])
  else
    if entered then Stmt.leaveLoop info
    settled finish

/-- Enters the condition of a `REPEAT` loop after its body, unless a transfer of control is requested. -/
def enterUntil (info : NodeInfo) (body : Stmt) (condition : Expr) : Run Moved := do
  match (← get).cursor.pending with
  | none => pure (.next (.expr condition) [.repeatTest info body condition])
  | some _ => settled (Stmt.afterIteration info finish)

/-- Resumes a frame with the result that it waits for. -/
def enterFrame (env : Environment) (r : Evaluated) : Frame → Run Moved
  | .index info path before indexes rest =>
    enterNext (fun done more => .index info path done indexes more)
      (fun values => settled (Expr.lookupAt env info path indexes values)) (before ++ [r]) rest
  | .operand info op => settled (Expr.applyUnary info op r)
  | .left op left right => pure (.next (.expr right) [.right op left right r.value])
  | .right op left right value => settled (Expr.applyBinary env op left right value r)
  | .arg site before rest =>
    enterNext (.arg site) (fun values => settled (Expr.invoke env site values)) (before ++ [r]) rest
  | .callee site args i => settled (Expr.leave site args i)
  | .results site args i => settled (Expr.collectResults env site args i)
  | .start s => pure (.next (.stmt s) [])
  | .rest statements => settled (Stmt.continueBlock statements)
  | .target info target value =>
    pure (.next (.expr value) [.value ⟨info.span, target, r.place?⟩])
  | .value target => settled (Stmt.assignTo env target r)
  | .condition condition body rest otherwise => do
    if ← Stmt.truth condition r then pure (.next (.stmt body) [])
    else enterBranches otherwise rest
  | .selector selector arms otherwise => enterArm selector.span r.value otherwise arms
  | .bound loop before rest => enterNext (.bound loop) (enterFor env loop) (before ++ [r]) rest
  | .forBody info remaining body => settled (Stmt.afterFor info remaining body)
  | .whileTest info condition body entered => enterWhile info condition body entered r
  | .whileBody info condition body => settled (Stmt.afterWhile info condition body)
  | .whileAgain info condition body =>
    pure (.next (.expr condition) [.whileTest info condition body true])
  | .repeatBody info body condition => enterUntil info body condition
  | .repeatTest info body condition => settled (Stmt.testRepeat info body condition r)

/-- A transition from a focus, in front of frames that wait. With no frame to take a result, it is the last one. -/
def transition (env : Environment) : Focus → List Frame → Run (Progress Evaluated ⊕ Focus × List Frame)
  | .result r, [] => pure (.inl (.done r))
  | .expr e, outer => behind outer (enterExpr env e)
  | .stmt s, outer => behind outer (enterStmt env s)
  | .result r, frame :: outer => behind outer (enterFrame env r frame)
where
  behind (outer : List Frame) (x : Run Moved) : Run (Progress Evaluated ⊕ Focus × List Frame) := do
    match ← x with
    | .next focus inner => pure (.inr (focus, inner ++ outer))
    | .paused inner => pure (.inl (.paused (inner ++ outer)))

/-- Transitions up to the end of the micro-step, which has to come within a number of them. -/
def transitions (env : Environment) : (limit : Nat) → Focus → List Frame → Run (Option (Progress Evaluated))
  | 0, _, _ => pure none
  | limit + 1, focus, frames => do
    match ← transition env focus frames with
    | .inl p => pure (some p)
    | .inr (focus, frames) => transitions env limit focus frames

-- ---------------------------------------------------------------------------
-- The micro-step that transitions make up
-- ---------------------------------------------------------------------------

/-- What a micro-step that has come to a focus ends with. -/
def rest (env : Environment) : Focus → List Frame → Execution → Stepped
  | .expr e, outer, x => follow env outer (e.evaluate env x)
  | .stmt s, outer, x => follow env outer (s.execute env x)
  | .result r, outer, x => resumeAll env outer r x

/-- What a micro-step ends with after a transition. -/
def afterMoved (env : Environment) : EStateM.Result Diagnostic Execution Moved → Stepped
  | .ok (.next focus inner) x => rest env focus inner x
  | .ok (.paused inner) x => .ok (.paused inner) x
  | .error d x => .error d x

/-- What comes after a transition is what the computation goes on with. -/
def Moves (env : Environment) (m : Run Moved) (k : Run (Progress Evaluated)) : Prop :=
  ∀ x, k x = afterMoved env (m x)

open Expr Stmt

variable {env : Environment}

namespace Moves

variable {k k' : Run (Progress Evaluated)} {m m' : Run Moved} {α : Type}

theorem settled (k : Run (Progress Evaluated)) : Moves env (settled k) k := by
  intro x
  simp only [Run.settled, EStateM.bind_apply]
  rcases k x with ⟨r | inner, x⟩ | ⟨d, x⟩ <;> rfl

theorem expr (e : Expr) {frame : Frame} {next : Evaluated → Run (Progress Evaluated)}
    (hframe : ∀ r, resume env r frame = next r) :
    Moves env (pure (.next (.expr e) [frame])) (andThen (e.evaluate env) frame next) :=
  fun x => andThen_apply hframe (e.evaluate env) x

theorem stmt (s : Stmt) {frame : Frame} {next : Evaluated → Run (Progress Evaluated)}
    (hframe : ∀ r, resume env r frame = next r) :
    Moves env (pure (.next (.stmt s) [frame])) (andThen (s.execute env) frame next) :=
  fun x => andThen_apply hframe (s.execute env) x

theorem last (focus : Focus) (h : ∀ x, k x = rest env focus [] x) : Moves env (pure (.next focus [])) k := h

theorem bind {n : Run α} {f : α → Run Moved} {g : α → Run (Progress Evaluated)}
    (h : ∀ a, Moves env (f a) (g a)) : Moves env (n >>= f) (n >>= g) := by
  intro x
  simp only [EStateM.bind_apply]
  rcases n x with ⟨a, x⟩ | ⟨d, x⟩
  · exact h a x
  · rfl

theorem ite {p : Prop} [Decidable p] (h : p → Moves env m k) (h' : ¬ p → Moves env m' k') :
    Moves env (if p then m else m') (if p then k else k') := by
  split
  · exact h ‹_›
  · exact h' ‹_›

end Moves

theorem rest_expr (e : Expr) (x : Execution) : e.evaluate env x = rest env (.expr e) [] x :=
  (follow_nil _).symm

theorem rest_result (frames : List Frame) (x : Execution) : rest env (.result {}) frames x = microStep env frames x :=
  rfl

theorem rest_stmt (s : Stmt) (x : Execution) : s.execute env x = rest env (.stmt s) [] x :=
  (follow_nil _).symm

theorem moves_enterNext {frame : List Evaluated → List Expr → Frame} {next : List Evaluated → Run Moved}
    {goOn : List Evaluated → Run (Progress Evaluated)} (hnext : ∀ values, Moves env (next values) (goOn values))
    (hframe : ∀ before rest r, resume env r (frame before rest) = evaluateAll env frame goOn (before ++ [r]) rest)
    (before : List Evaluated) (es : List Expr) :
    Moves env (enterNext frame next before es) (evaluateAll env frame goOn before es) := by
  cases es with
  | nil =>
    rw [evaluateAll]
    exact hnext before
  | cons e rest =>
    rw [evaluateAll]
    exact .expr e (hframe before rest)

theorem moves_enterExpr (e : Expr) : Moves env (enterExpr env e) (e.evaluate env) := by
  cases e with
  | literal info v type =>
    rw [evaluate]
    exact .last _ fun _ => rfl
  | var info path indexes =>
    rw [evaluate, enterExpr]
    cases path.fixed with
    | some hops => exact .settled _
    | none => exact moves_enterNext (fun _ => .settled _) (fun _ _ _ => rfl) [] indexes
  | unary info op e =>
    rw [evaluate]
    exact .expr e fun _ => rfl
  | binary info op l r =>
    rw [evaluate]
    exact .expr l fun _ => rfl
  | call info name labels args callee bindings =>
    rw [evaluate]
    exact moves_enterNext (fun _ => .settled _) (fun _ _ _ => rfl) [] args

theorem moves_enterOption (otherwise : Option Stmt) :
    Moves env (enterOption otherwise) (executeOption env otherwise) := by
  cases otherwise with
  | none =>
    rw [executeOption]
    exact .settled _
  | some s =>
    rw [executeOption]
    exact .last _ (rest_stmt s)

theorem moves_enterBranches (otherwise : Option Stmt) (branches : List (Expr × Stmt)) :
    Moves env (enterBranches otherwise branches)
      (executeBranches env otherwise (executeOption env otherwise) branches) := by
  cases branches with
  | nil =>
    rw [executeBranches]
    exact moves_enterOption otherwise
  | cons branch rest =>
    rw [executeBranches]
    exact .expr _ fun _ => rfl

theorem moves_enterArm (span : Span) (v : Value) (otherwise : Option Stmt)
    (arms : List (List CaseLabel × Stmt)) :
    Moves env (enterArm span v otherwise arms)
      (executeArms env span v (executeOption env otherwise) arms) := by
  induction arms with
  | nil =>
    rw [executeArms]
    exact moves_enterOption otherwise
  | cons arm rest ih =>
    rw [executeArms]
    exact .bind fun matched => .ite (fun _ => .last _ (rest_stmt arm.2)) fun _ => ih

theorem moves_enterFor (loop : ForLoop) (results : List Evaluated) :
    Moves env (enterFor env loop results) (runFor env loop (loop.body.execute env) results) := by
  refine .bind fun count => .ite (fun _ => .settled _) fun _ => .bind fun _ => ?_
  exact .stmt loop.body fun _ => rfl

theorem moves_enterWhile (info : NodeInfo) (condition : Expr) (body : Stmt) (entered : Bool) (r : Evaluated) :
    Moves env (enterWhile info condition body entered r)
      (testWhile info condition body (body.execute env) entered r) := by
  refine .bind fun holds => .ite (fun _ => ?_) fun _ => ?_
  · exact .ite (fun _ => .bind fun _ => .stmt body fun _ => rfl) fun _ => .stmt body fun _ => rfl
  · exact .ite (fun _ => .bind fun _ => .settled _) fun _ => .settled _

theorem moves_enterUntil (info : NodeInfo) (body : Stmt) (condition : Expr) :
    Moves env (enterUntil info body condition) (afterRepeat env info body condition) := by
  intro x
  cases hpending : x.cursor.pending with
  | none =>
    simp only [afterRepeat, afterIteration, enterUntil, EStateM.bind_apply, EStateM.get_apply, hpending]
    exact Moves.expr condition (fun _ => rfl) x
  | some transfer =>
    simp only [afterRepeat, afterIteration, enterUntil, EStateM.bind_apply, EStateM.get_apply, hpending]
    rw [← Moves.settled]
    cases transfer <;> simp only [EStateM.bind_apply, EStateM.get_apply, hpending]

theorem moves_enterStmt (s : Stmt) : Moves env (enterStmt env s) (s.execute env) := by
  cases s with
  | eval e =>
    rw [execute]
    exact .last _ (rest_expr e)
  | assign info target value =>
    rw [execute]
    exact .expr target fun _ => rfl
  | block info statements =>
    rw [execute]
    exact .settled _
  | ifThen info branches otherwise =>
    rw [execute]
    exact moves_enterBranches otherwise branches
  | case info selector arms otherwise =>
    rw [execute]
    exact .expr selector fun _ => rfl
  | forLoop info control start stop step body =>
    rw [execute]
    exact moves_enterNext (moves_enterFor _) (fun _ _ _ => rfl) [] _
  | whileLoop info condition body =>
    rw [execute]
    exact .expr condition fun _ => rfl
  | repeatLoop info body condition =>
    rw [execute]
    exact .bind fun _ => .stmt body fun _ => rfl
  | exit info =>
    rw [execute]
    exact .settled _
  | ret info =>
    rw [execute]
    exact .settled _

theorem moves_enterFrame (r : Evaluated) (frame : Frame) : Moves env (enterFrame env r frame) (resume env r frame) := by
  cases frame with
  | index info path before indexes rest =>
    exact moves_enterNext (fun _ => .settled _) (fun _ _ _ => rfl) _ rest
  | arg site before rest => exact moves_enterNext (fun _ => .settled _) (fun _ _ _ => rfl) _ rest
  | bound loop before rest => exact moves_enterNext (moves_enterFor loop) (fun _ _ _ => rfl) _ rest
  | left op left right => exact .expr right fun _ => rfl
  | start s => exact .last _ (rest_stmt s)
  | target info target value => exact .expr value fun _ => rfl
  | condition condition body rest otherwise =>
    exact .bind fun holds => .ite (fun _ => .last _ (rest_stmt body)) fun _ => moves_enterBranches otherwise rest
  | selector selector arms otherwise => exact moves_enterArm _ _ otherwise arms
  | whileTest info condition body entered => exact moves_enterWhile info condition body entered r
  | whileAgain info condition body => exact .expr condition fun _ => rfl
  | repeatBody info body condition => exact moves_enterUntil info body condition
  | operand | right | callee | results | rest | value | forBody | whileBody | repeatTest => exact .settled _

-- ---------------------------------------------------------------------------
-- Weights
-- ---------------------------------------------------------------------------

end Run

mutual

/-- A bound on the transitions that evaluate an expression, up to where its result is taken. -/
def Expr.weight : Expr → Nat
  | .literal .. => 1
  | .var _ _ indexes => weightOfAll indexes + 1
  | .unary _ _ e => e.weight + 2
  | .binary _ _ l r => l.weight + r.weight + 3
  | .call _ _ _ args _ _ => weightOfAll args + 1

def Expr.weightOfAll : List Expr → Nat
  | [] => 0
  | e :: es => e.weight + 1 + weightOfAll es

end

mutual

/--
A bound on the transitions from a statement to the end of the micro-step or of the statement. The statements of a list
do not count, since none of them is entered before the micro-step has ended.
-/
def Stmt.weight : Stmt → Nat
  | .eval e => e.weight + 1
  | .assign _ target value => target.weight + value.weight + 3
  | .block .. => 1
  | .ifThen _ branches otherwise => weightOfBranches branches + weightOfOption otherwise + 1
  | .case _ selector arms otherwise =>
    selector.weight + weightOfArms arms + weightOfOption otherwise + 2
  | .forLoop _ control start stop step body =>
    Expr.weightOfAll ([control, start, stop] ++ step.toList) + body.weight + 3
  | .whileLoop _ condition body => condition.weight + body.weight + 3
  | .repeatLoop _ body condition => body.weight + condition.weight + 3
  | .exit _ | .ret _ => 1

def Stmt.weightOfOption : Option Stmt → Nat
  | none => 0
  | some s => s.weight

def Stmt.weightOfBranches : List (Expr × Stmt) → Nat
  | [] => 0
  | (condition, s) :: rest => condition.weight + s.weight + 1 + weightOfBranches rest

def Stmt.weightOfArms : List (List CaseLabel × Stmt) → Nat
  | [] => 0
  | (_, s) :: rest => s.weight + weightOfArms rest

end

/--
A bound on the transitions that a frame goes on with. A frame behind the body of a loop does not count the body, since
the micro-step ends before the body is entered again.
-/
def Frame.weight : Frame → Nat
  | .index _ _ _ _ more | .arg _ _ more => Expr.weightOfAll more + 1
  | .left _ _ second => second.weight + 2
  | .start s => s.weight + 1
  | .target _ _ source => source.weight + 2
  | .condition _ body more otherwise =>
    body.weight + Stmt.weightOfBranches more + Stmt.weightOfOption otherwise + 1
  | .selector _ arms otherwise => Stmt.weightOfArms arms + Stmt.weightOfOption otherwise + 1
  | .bound loop _ more => Expr.weightOfAll more + loop.body.weight + 2
  | .whileTest _ _ body _ => body.weight + 2
  | .whileAgain _ test body => test.weight + body.weight + 3
  | .repeatBody _ _ test => test.weight + 2
  | .operand .. | .right .. | .callee .. | .results .. | .rest _ | .value _ | .forBody .. | .whileBody ..
  | .repeatTest .. => 1

def Focus.weight : Focus → Nat
  | .expr e => e.weight
  | .stmt s => s.weight
  | .result _ => 0

/-- A bound on the transitions that resume frames one after the other. -/
def Frame.weightOfAll (frames : List Frame) : Nat := (frames.map weight).sum

namespace Run

/-- A transition comes to something lighter than a bound. -/
def Lightens (bound : Nat) (m : Run Moved) : Prop :=
  ∀ x focus inner x', m x = .ok (.next focus inner) x' → focus.weight + Frame.weightOfAll inner < bound

namespace Lightens

variable {bound : Nat} {α : Type} {m m' : Run Moved}

theorem next {focus : Focus} {inner : List Frame} (h : focus.weight + Frame.weightOfAll inner < bound) :
    Lightens bound (pure (.next focus inner)) := by
  rintro x _ _ _ ⟨⟩
  exact h

theorem settled (k : Run (Progress Evaluated)) (h : 0 < bound) : Lightens bound (settled k) := by
  intro x focus inner x' hmoved
  simp only [Run.settled, EStateM.bind_apply] at hmoved
  rcases hk : k x with ⟨r | frames, y⟩ | ⟨d, y⟩ <;> rw [hk] at hmoved <;> cases hmoved
  exact h

theorem bind {n : Run α} {f : α → Run Moved} (h : ∀ a, Lightens bound (f a)) : Lightens bound (n >>= f) := by
  intro x focus inner x' hmoved
  simp only [EStateM.bind_apply] at hmoved
  rcases hn : n x with ⟨a, y⟩ | ⟨d, y⟩ <;> rw [hn] at hmoved
  · exact h a y focus inner x' hmoved
  · cases hmoved

theorem ite {p : Prop} [Decidable p] (h : Lightens bound m) (h' : Lightens bound m') :
    Lightens bound (if p then m else m') := by
  split <;> assumption

theorem mono {smaller : Nat} (h : Lightens smaller m) (hle : smaller ≤ bound) : Lightens bound m :=
  fun x focus inner x' hmoved => Nat.lt_of_lt_of_le (h x focus inner x' hmoved) hle

end Lightens

@[simp] theorem weightOfAll_nil : Frame.weightOfAll [] = 0 := rfl

@[simp] theorem weightOfAll_cons (frame : Frame) (frames : List Frame) :
    Frame.weightOfAll (frame :: frames) = frame.weight + Frame.weightOfAll frames := by
  simp [Frame.weightOfAll]

@[simp] theorem weightOfAll_append (inner outer : List Frame) :
    Frame.weightOfAll (inner ++ outer) = Frame.weightOfAll inner + Frame.weightOfAll outer := by
  simp [Frame.weightOfAll]

theorem enterNext_lightens {bound : Nat} {frame : List Evaluated → List Expr → Frame}
    {next : List Evaluated → Run Moved} {before : List Evaluated} {es : List Expr}
    (hnext : es = [] → ∀ values, Lightens bound (next values))
    (hframe : ∀ e rest, es = e :: rest → e.weight + (frame before rest).weight < bound) :
    Lightens bound (enterNext frame next before es) := by
  cases es with
  | nil => exact hnext rfl before
  | cons e rest => exact .next (by simpa [Focus.weight] using hframe e rest rfl)

theorem enterExpr_lightens (e : Expr) : Lightens e.weight (enterExpr env e) := by
  cases e with
  | literal info v type => exact .next (by simp [Focus.weight, Expr.weight])
  | var info path indexes =>
    rw [enterExpr]
    split
    · exact .settled _ (by simp [Expr.weight])
    · refine enterNext_lightens (fun _ _ => .settled _ (by simp [Expr.weight])) fun e rest heq => ?_
      subst heq
      simp [Expr.weight, Expr.weightOfAll, Frame.weight]
      omega
  | unary info op e => exact .next (by simp [Focus.weight, Expr.weight, Frame.weight])
  | binary info op l r =>
    refine .next ?_
    simp [Focus.weight, Expr.weight, Frame.weight]
    omega
  | call info name labels args callee bindings =>
    refine enterNext_lightens (fun _ _ => .settled _ (by simp [Expr.weight])) fun e rest heq => ?_
    subst heq
    simp [Expr.weight, Expr.weightOfAll, Frame.weight]
    omega

theorem enterOption_lightens (otherwise : Option Stmt) :
    Lightens (Stmt.weightOfOption otherwise + 1) (enterOption otherwise) := by
  cases otherwise with
  | none => exact .settled _ (Nat.succ_pos _)
  | some s => exact .next (by simp [Focus.weight, Stmt.weightOfOption])

theorem enterBranches_lightens (otherwise : Option Stmt) (branches : List (Expr × Stmt)) :
    Lightens (Stmt.weightOfBranches branches + Stmt.weightOfOption otherwise + 1)
      (enterBranches otherwise branches) := by
  cases branches with
  | nil => exact (enterOption_lightens otherwise).mono (by simp [Stmt.weightOfBranches])
  | cons branch rest =>
    refine .next ?_
    simp [Focus.weight, Stmt.weightOfBranches, Frame.weight]
    omega

theorem enterArm_lightens (span : Span) (v : Value) (otherwise : Option Stmt)
    (arms : List (List CaseLabel × Stmt)) :
    Lightens (Stmt.weightOfArms arms + Stmt.weightOfOption otherwise + 1) (enterArm span v otherwise arms) := by
  induction arms with
  | nil => exact (enterOption_lightens otherwise).mono (by simp [Stmt.weightOfArms])
  | cons arm rest ih =>
    refine .bind fun matched => .ite (.next ?_) (ih.mono ?_)
    · simp only [Focus.weight, Stmt.weightOfArms, weightOfAll_nil]
      omega
    · simp only [Stmt.weightOfArms]
      omega

theorem enterFor_lightens (loop : ForLoop) (results : List Evaluated) :
    Lightens (loop.body.weight + 2) (enterFor env loop results) := by
  refine .bind fun count => .ite (.settled _ (by omega)) (.bind fun _ => .next ?_)
  simp [Focus.weight, Frame.weight]

theorem enterWhile_lightens (info : NodeInfo) (condition : Expr) (body : Stmt) (entered : Bool) (r : Evaluated) :
    Lightens (body.weight + 2) (enterWhile info condition body entered r) := by
  have hbody : Lightens (body.weight + 2) (pure (.next (.stmt body) [.whileBody info condition body])) :=
    .next (by simp [Focus.weight, Frame.weight])
  refine .bind fun holds => .ite (.ite (.bind fun _ => hbody) hbody) (.ite (.bind fun _ => ?_) ?_)
  all_goals exact .settled _ (by omega)

theorem enterUntil_lightens (info : NodeInfo) (body : Stmt) (condition : Expr) :
    Lightens (condition.weight + 2) (enterUntil info body condition) := by
  refine .bind fun x => ?_
  split
  · exact .next (by simp [Focus.weight, Frame.weight])
  · exact .settled _ (by omega)

theorem enterStmt_lightens (s : Stmt) : Lightens s.weight (enterStmt env s) := by
  cases s with
  | eval e => exact .next (by simp [Focus.weight, Stmt.weight])
  | assign info target value =>
    refine .next ?_
    simp [Focus.weight, Stmt.weight, Frame.weight]
    omega
  | block info statements => exact .settled _ (by simp [Stmt.weight])
  | ifThen info branches otherwise => exact enterBranches_lightens otherwise branches
  | case info selector arms otherwise =>
    refine .next ?_
    simp [Focus.weight, Stmt.weight, Frame.weight]
    omega
  | forLoop info control start stop step body =>
    rw [enterStmt]
    refine enterNext_lightens (fun h => by simp [Stmt.bounds] at h) fun e rest heq => ?_
    simp only [Stmt.weight, Frame.weight]
    rw [show [control, start, stop] ++ step.toList = e :: rest from heq, Expr.weightOfAll]
    omega
  | whileLoop info condition body =>
    refine .next ?_
    simp [Focus.weight, Stmt.weight, Frame.weight]
    omega
  | repeatLoop info body condition =>
    refine .bind fun _ => .next ?_
    simp [Focus.weight, Stmt.weight, Frame.weight]
    omega
  | exit info => exact .settled _ (by simp [Stmt.weight])
  | ret info => exact .settled _ (by simp [Stmt.weight])

theorem enterFrame_lightens (r : Evaluated) (frame : Frame) : Lightens frame.weight (enterFrame env r frame) := by
  cases frame with
  | index info path before indexes rest | arg site before rest =>
    rw [enterFrame]
    refine enterNext_lightens (fun _ _ => .settled _ (by simp [Frame.weight])) fun e rest heq => ?_
    subst heq
    simp [Frame.weight, Expr.weightOfAll]
    omega
  | bound loop before rest =>
    refine enterNext_lightens (fun _ values => (enterFor_lightens loop values).mono ?_) fun e rest heq => ?_
    · simp only [Frame.weight]
      omega
    · subst heq
      simp [Frame.weight, Expr.weightOfAll]
      omega
  | left op left right => exact .next (by simp [Focus.weight, Frame.weight])
  | start s => exact .next (by simp [Focus.weight, Frame.weight])
  | target info target value => exact .next (by simp [Focus.weight, Frame.weight])
  | condition condition body rest otherwise =>
    refine .bind fun holds => .ite (.next ?_) ((enterBranches_lightens otherwise rest).mono ?_)
    · simp [Focus.weight, Frame.weight]
      omega
    · simp only [Frame.weight]
      omega
  | selector selector arms otherwise => exact enterArm_lightens _ _ otherwise arms
  | whileTest info condition body entered => exact enterWhile_lightens info condition body entered r
  | whileAgain info condition body =>
    refine .next ?_
    simp [Focus.weight, Frame.weight]
    omega
  | repeatBody info body condition => exact enterUntil_lightens info body condition
  | operand | right | callee | results | rest | value | forBody | whileBody | repeatTest =>
    exact .settled _ (by simp [Frame.weight])

-- ---------------------------------------------------------------------------
-- The end of a micro-step
-- ---------------------------------------------------------------------------

variable {focus focus' : Focus} {frames frames' : List Frame} {x x' : Execution}

/-- A transition makes what is left to do in the micro-step lighter. -/
theorem transition_lightens (h : transition env focus frames x = .ok (.inr (focus', frames')) x') :
    focus'.weight + Frame.weightOfAll frames' < focus.weight + Frame.weightOfAll frames := by
  have behind {bound : Nat} {m : Run Moved} {outer : List Frame} (hm : Lightens bound m)
      (h : transition.behind outer m x = .ok (.inr (focus', frames')) x') :
      focus'.weight + Frame.weightOfAll frames' < bound + Frame.weightOfAll outer := by
    simp only [transition.behind, EStateM.bind_apply] at h
    rcases hmoved : m x with ⟨focus | inner, y⟩ | ⟨d, y⟩ <;> rw [hmoved] at h <;> cases h
    have := hm x _ _ _ hmoved
    simp only [weightOfAll_append]
    omega
  cases focus with
  | expr e => exact behind (enterExpr_lightens e) h
  | stmt s => exact behind (enterStmt_lightens s) h
  | result r =>
    cases frames with
    | nil => cases h
    | cons frame outer => simpa [Focus.weight] using behind (enterFrame_lightens r frame) h

/-- What a micro-step ends with does not change by a transition. -/
theorem rest_eq_transition (focus : Focus) (frames : List Frame) (x : Execution) :
    rest env focus frames x = match transition env focus frames x with
      | .ok (.inl p) x' => .ok p x'
      | .ok (.inr (focus', frames')) x' => rest env focus' frames' x'
      | .error d x' => .error d x' := by
  have behind {m : Run Moved} {k : Run (Progress Evaluated)} (outer : List Frame) (hm : Moves env m k) :
      follow env outer (k x) = match transition.behind outer m x with
        | .ok (.inl p) x' => .ok p x'
        | .ok (.inr (focus', frames')) x' => rest env focus' frames' x'
        | .error d x' => .error d x' := by
    rw [hm x]
    simp only [transition.behind, EStateM.bind_apply]
    rcases m x with ⟨focus | inner, y⟩ | ⟨d, y⟩
    · cases focus with
      | expr e => exact (follow_append _ outer _).symm
      | stmt s => exact (follow_append _ outer _).symm
      | result r => exact (resumeAll_append _ outer r y).symm
    · rfl
    · rfl
  cases focus with
  | expr e => exact behind frames (moves_enterExpr e)
  | stmt s => exact behind frames (moves_enterStmt s)
  | result r =>
    cases frames with
    | nil => rfl
    | cons frame outer =>
      rw [rest, resumeAll_cons]
      exact behind outer (moves_enterFrame r frame)

/-- What every transition keeps up to the last one holds of what the micro-step ends with. -/
theorem rest_of_transition {P : Focus → List Frame → Execution → Prop} {Q : Stepped → Prop}
    (h : ∀ focus frames x, P focus frames x → match transition env focus frames x with
      | .ok (.inl p) x' => Q (.ok p x')
      | .ok (.inr (focus', frames')) x' => P focus' frames' x'
      | .error d x' => Q (.error d x'))
    (hstart : P focus frames x) : Q (rest env focus frames x) := by
  -- The induction is on what is left to do in the micro-step, which every transition makes lighter.
  generalize hbound : focus.weight + Frame.weightOfAll frames = bound
  induction bound using Nat.strongRecOn generalizing focus frames x with
  | ind bound ih =>
    have hstep := h focus frames x hstart
    rw [rest_eq_transition]
    rcases htransition : transition env focus frames x with ⟨p | ⟨focus', frames'⟩, x'⟩ | ⟨d, x'⟩ <;>
      rw [htransition] at hstep
    · exact hstep
    · exact ih _ (hbound ▸ transition_lightens htransition) hstep rfl
    · exact hstep

/-- The result of an operation as one of several ways to end. -/
def asEnded : Stepped → EStateM.Result Diagnostic Execution (Option (Progress Evaluated))
  | .ok p x => .ok (some p) x
  | .error d x => .error d x

/-- Transitions come to the end of the micro-step if they may be more than what is left weighs. -/
theorem transitions_eq_rest {limit : Nat} (h : focus.weight + Frame.weightOfAll frames < limit) :
    transitions env limit focus frames x = asEnded (rest env focus frames x) := by
  induction limit generalizing focus frames x with
  | zero => omega
  | succ limit ih =>
    rw [rest_eq_transition, transitions, EStateM.bind_apply]
    rcases htransition : transition env focus frames x with ⟨p | ⟨focus', frames'⟩, x'⟩ | ⟨d, x'⟩
    · rfl
    · have hlighter := transition_lightens htransition
      exact ih (by omega)
    · rfl

/-- A micro-step ends after no more transitions than its frames weigh, and the one that takes the last result. -/
theorem microStep_eq_transitions (frames : List Frame) (x : Execution) :
    transitions env (Frame.weightOfAll frames + 1) (.result {}) frames x = asEnded (microStep env frames x) :=
  transitions_eq_rest (by simp [Focus.weight])

end Run

end StructuredText
