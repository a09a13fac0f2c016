-- SUMMARY: What reading, writing and resetting variables keep of the storage, every execution keeps.
import StructuredText.Execution.Resume
import StructuredText.Proofs.Access

/-!
# What executions keep

An execution changes the storage only by reading a variable, which may take its value from direct memory, by
assigning to one, and by resetting the variables of a function. A relation between storages that these three
keep is kept by every micro-step.
-/

namespace StructuredText

/-- A relation that holds between a storage and what reading and writing make of it. -/
structure Kept (l : Library) (R : Storage → Storage → Prop) : Prop where
  refl (s : Storage) : R s s
  trans {s t u : Storage} (h : R s t) (h' : R t u) : R s u
  load (p : Place) (s : Storage) : R s (Storage.load l p s).state
  store (p : Place) (type : Option TypeId) (storage : StorageClass) (name : String) (v : Value)
    (s : Storage) : R s (Storage.store l p type storage name v s).state
  resetFrame (i : InstanceId) (s : Storage) : R s (Storage.resetFrame l i s).state

/-- The storage before an execution is related to the one after it, however it ends. -/
def Keeps {α : Type} (R : Storage → Storage → Prop) (m : Run α) : Prop :=
  ∀ x, R x.storage (m x).state.storage

variable {env : Environment} {R : Storage → Storage → Prop} {α β : Type}

namespace Keeps

theorem reads {f : Execution → Run β} (hf : ∀ x, Keeps R (f x)) : Keeps R (get >>= f) :=
  fun x => hf x x

theorem storing {span : Span} {op : Storing α} (h : ∀ s, R s (op s).state) :
    Keeps R (Run.storing span op) := by
  intro x
  have h := h x.storage
  simp only [Run.storing]
  rcases hx : op x.storage with ⟨a, s⟩ | ⟨e, s⟩ <;> rw [hx] at h <;> exact h

theorem ite {p : Prop} [Decidable p] {m m' : Run α} (hm : Keeps R m) (hm' : Keeps R m') :
    Keeps R (if p then m else m') := by
  split <;> assumption

end Keeps

variable (hR : Kept env.library R)

include hR

namespace Kept

theorem pure (a : α) : Keeps R (Pure.pure a) := fun x => hR.refl x.storage

theorem throw (d : Diagnostic) : Keeps R (throw d : Run α) := fun x => hR.refl x.storage

theorem checked (e : Except Diagnostic α) : Keeps R (ofExcept e : Run α) := by
  cases e
  · exact hR.throw _
  · exact hR.pure _

theorem bind {m : Run α} {f : α → Run β} (hm : Keeps R m) (hf : ∀ a, Keeps R (f a)) :
    Keeps R (m >>= f) := by
  intro x
  have h := hm x
  simp only [EStateM.bind_apply]
  rcases hx : m x with ⟨a, x'⟩ | ⟨d, x'⟩ <;> rw [hx] at h
  · exact hR.trans h (hf a x')
  · exact h

theorem onCursor (f : Cursor → Cursor) : Keeps R (Run.onCursor f) := fun x => hR.refl x.storage

theorem asking (span : Span) (q : Storage → Except ValueError α) : Keeps R (Run.asking span q) :=
  Keeps.reads fun _ => hR.checked _

theorem forIn {ι : Type} {m : ι → β → Run (ForInStep β)} (h : ∀ i b, Keeps R (m i b))
    (is : List ι) (b : β) : Keeps R (ForIn.forIn is b m) := by
  induction is generalizing b with
  | nil => exact hR.pure b
  | cons i is ih =>
    rw [List.forIn_cons]
    refine hR.bind (h i b) fun step => ?_
    cases step with
    | done b => exact hR.pure b
    | yield b => exact ih b

theorem andThen {m : Run (Progress α)} {frame : Frame} {next : α → Run (Progress β)}
    (hm : Keeps R m) (hnext : ∀ a, Keeps R (next a)) : Keeps R (Run.andThen m frame next) := by
  refine hR.bind hm fun p => ?_
  cases p with
  | done a => exact hnext a
  | paused frames => exact hR.pure _

end Kept

-- ---------------------------------------------------------------------------
-- Expressions
-- ---------------------------------------------------------------------------

namespace Expr

theorem lookup_keeps (info : NodeInfo) (path : VarPath) (indexes : List (Span × Value)) :
    Keeps R (lookup env info path indexes) := by
  unfold lookup
  cases path.root with
  | none => exact hR.throw _
  | some root =>
    cases path.fixed with
    | none =>
      exact hR.bind (hR.checked _) fun hops => Keeps.reads fun x => hR.bind (hR.asking _ _) fun place =>
        hR.bind (Keeps.storing (hR.load place)) fun v => hR.pure _
    | some hops =>
      exact hR.bind (hR.pure _) fun hops => Keeps.reads fun x => hR.bind (hR.asking _ _) fun place =>
        hR.bind (Keeps.storing (hR.load place)) fun v => hR.pure _

theorem copyInputs_keeps (site : CallSite) (args : List Evaluated) (i : InstanceId) :
    Keeps R (copyInputs env site args i) := by
  refine hR.bind (hR.asking _ _) fun pou => hR.bind (hR.forIn (fun b _ => Keeps.ite ?_ (hR.pure _)) _ _)
    fun _ => hR.pure _
  split
  · exact hR.bind (Keeps.storing (hR.store _ _ _ _ _)) fun _ => hR.pure _
  · exact hR.bind (hR.throw _) fun _ => hR.pure _

theorem copyOutputs_keeps (site : CallSite) (args : List Evaluated) (i : InstanceId) :
    Keeps R (copyOutputs env site args i) := by
  refine hR.bind (hR.forIn (fun b _ => Keeps.ite (hR.bind (hR.asking _ _) fun v => ?_) (hR.pure _)) _ _)
    fun _ => hR.pure _
  split
  · split
    · exact hR.bind (Keeps.storing (hR.store _ _ _ _ _)) fun _ => hR.pure _
    · exact hR.bind (hR.throw _) fun _ => hR.pure _
  · exact hR.bind (hR.throw _) fun _ => hR.pure _
  · exact hR.bind (hR.throw _) fun _ => hR.pure _

theorem enter_keeps (site : CallSite) (args : List Evaluated) (i : InstanceId) (isFunction : Bool) :
    Keeps R (enter env site args i isFunction) := by
  have entered : Keeps R (do
      let pou ← Run.asking site.info.span (·.pouOf env.library i)
      copyInputs env site args i
      Run.onCursor (·.call i)
      pure (Progress.paused [.start pou.body, .callee site args i]) : Run (Progress Evaluated)) :=
    hR.bind (hR.asking _ _) fun pou => hR.bind (copyInputs_keeps hR site args i) fun _ =>
      hR.bind (hR.onCursor _) fun _ => hR.pure _
  refine Keeps.reads fun x => Keeps.ite (hR.bind (hR.throw _) fun _ => ?_) ?_
  all_goals exact Keeps.ite (hR.bind (Keeps.storing (hR.resetFrame i)) fun _ => entered) entered

theorem invoke_keeps (site : CallSite) (args : List Evaluated) :
    Keeps R (invoke env site args) := by
  unfold invoke
  split
  · exact hR.throw _
  · exact hR.bind (hR.checked _) fun _ => hR.pure _
  · exact hR.bind (hR.asking _ _) fun i => enter_keeps hR site args i true
  · refine Keeps.reads fun x => hR.bind (hR.asking _ _) fun place => hR.bind (hR.asking _ _) fun v => ?_
    split
    · exact enter_keeps hR site args _ false
    · exact hR.throw _

theorem collectResults_keeps (site : CallSite) (args : List Evaluated) (i : InstanceId) :
    Keeps R (collectResults env site args i) := by
  refine hR.bind (hR.asking _ _) fun pou => hR.bind (copyOutputs_keeps hR site args i) fun _ => ?_
  split
  · exact hR.bind (hR.asking _ _) fun _ => hR.pure _
  · exact hR.pure _

theorem applyBinary_keeps (op : BinaryOp) (left right : Expr) (a : Value) (b : Evaluated) :
    Keeps R (applyBinary env op left right a b) := hR.bind (hR.checked _) fun _ => hR.pure _

theorem applyUnary_keeps (info : NodeInfo) (op : UnaryOp) (r : Evaluated) :
    Keeps R (applyUnary info op r) := hR.bind (hR.checked _) fun _ => hR.pure _

mutual

theorem evaluate_keeps : (e : Expr) → Keeps R (e.evaluate env)
  | .literal _ v _ => by
    rw [evaluate]
    exact hR.pure _
  | .var info path indexes => by
    rw [evaluate]
    split
    · exact lookup_keeps hR info path []
    · exact evaluateAll_keeps indexes [] fun values => lookup_keeps hR info path _
  | .unary info op e => by
    rw [evaluate]
    exact hR.andThen (evaluate_keeps e) fun a => applyUnary_keeps hR info op a
  | .binary info op l r => by
    rw [evaluate]
    exact hR.andThen (evaluate_keeps l) fun a => hR.andThen (evaluate_keeps r) fun b =>
      applyBinary_keeps hR op l r a.value b
  | .call info name labels args callee bindings => by
    rw [evaluate]
    exact evaluateAll_keeps args [] fun values => invoke_keeps hR _ values

theorem evaluateAll_keeps {frame : List Evaluated → List Expr → Frame}
    {next : List Evaluated → Run (Progress Evaluated)} :
    (es : List Expr) → (before : List Evaluated) → (∀ values, Keeps R (next values)) →
    Keeps R (evaluateAll env frame next before es)
  | [], before, hnext => by
    rw [evaluateAll]
    exact hnext before
  | e :: es, before, hnext => by
    rw [evaluateAll]
    exact hR.andThen (evaluate_keeps e) fun a => evaluateAll_keeps es (before ++ [a]) hnext

end

end Expr

-- ---------------------------------------------------------------------------
-- Statements
-- ---------------------------------------------------------------------------

namespace Stmt

open Run Expr

theorem truth_keeps (condition : Expr) (r : Evaluated) : Keeps R (truth condition r) := hR.checked _

theorem finish_keeps : Keeps R finish := hR.pure _

theorem announce_keeps (statements : List Stmt) : Keeps R (announce statements) := by
  cases statements with
  | nil => exact finish_keeps hR
  | cons s rest => exact hR.bind (hR.onCursor _) fun _ => hR.pure _

theorem continueBlock_keeps (rest : List Stmt) : Keeps R (continueBlock rest) := by
  refine Keeps.reads fun x => ?_
  split
  · exact announce_keeps hR rest
  · exact finish_keeps hR

theorem assignTo_keeps (a : AssignTarget) (r : Evaluated) : Keeps R (assignTo env a r) := by
  unfold assignTo
  split
  · exact hR.bind (Keeps.storing (hR.store _ _ _ _ _)) fun _ => hR.pure _
  · exact hR.throw _
  · exact hR.throw _

theorem assignValue_keeps (info : NodeInfo) (target value : Expr) (located : Evaluated) :
    Keeps R (assignValue env info target value located) :=
  hR.andThen (evaluate_keeps hR value) fun r => assignTo_keeps hR _ r

theorem enterLoop_keeps (info : NodeInfo) : Keeps R (enterLoop info) := by
  refine Keeps.reads fun x => ?_
  split
  · exact hR.onCursor _
  · exact hR.throw _

theorem leaveLoop_keeps (info : NodeInfo) : Keeps R (leaveLoop info) := hR.onCursor _

theorem afterIteration_keeps (info : NodeInfo) {next : Run (Progress Evaluated)}
    (h : Keeps R next) : Keeps R (afterIteration info next) := by
  refine Keeps.reads fun x => ?_
  split
  · exact h
  · exact hR.bind (hR.onCursor _) fun _ => hR.bind (leaveLoop_keeps hR info) fun _ => finish_keeps hR
  · exact hR.bind (leaveLoop_keeps hR info) fun _ => finish_keeps hR

theorem setControl_keeps (control : Expr) (place? : Option Place) (start : Int) :
    Keeps R (setControl env control place? start) := by
  unfold setControl
  split
  · exact Keeps.storing (hR.store _ _ _ _ _)
  · exact hR.throw _
  · exact hR.throw _

theorem startFor_keeps (loop : ForLoop) (results : List Evaluated) :
    Keeps R (startFor env loop results) := by
  have assigned (first last stride : Int) : Keeps R (do
      setControl env loop.control (results.head?.bind (·.place?)) first
      pure (iterations first last stride)) :=
    hR.bind (setControl_keeps hR _ _ _) fun _ => hR.pure _
  refine hR.bind (hR.checked _) fun first => hR.bind (hR.checked _) fun last => ?_
  cases loop.step with
  | none =>
    exact hR.bind (hR.pure _) fun stride =>
      Keeps.ite (hR.bind (hR.throw _) fun _ => assigned first last stride) (assigned first last stride)
  | some e =>
    exact hR.bind (hR.checked _) fun stride =>
      Keeps.ite (hR.bind (hR.throw _) fun _ => assigned first last stride) (assigned first last stride)

theorem afterFor_keeps (info : NodeInfo) (remaining : Int) (body : Stmt) :
    Keeps R (afterFor info remaining body) :=
  afterIteration_keeps hR info <|
    Keeps.ite (hR.bind (leaveLoop_keeps hR info) fun _ => finish_keeps hR) (hR.pure _)

theorem runFor_keeps (loop : ForLoop) {body : Run (Progress Evaluated)} (h : Keeps R body)
    (results : List Evaluated) : Keeps R (runFor env loop body results) :=
  hR.bind (startFor_keeps hR loop results) fun count => Keeps.ite (finish_keeps hR) <|
    hR.bind (enterLoop_keeps hR loop.info) fun _ =>
      hR.andThen h fun _ => afterFor_keeps hR loop.info count loop.body

theorem afterWhile_keeps (info : NodeInfo) (condition : Expr) (body : Stmt) :
    Keeps R (afterWhile info condition body) := afterIteration_keeps hR info (hR.pure _)

theorem testWhile_keeps (info : NodeInfo) (condition : Expr) (body : Stmt)
    {run : Run (Progress Evaluated)} (h : Keeps R run) (entered : Bool) (r : Evaluated) :
    Keeps R (testWhile info condition body run entered r) := by
  have iteration : Keeps R (andThen run (.whileBody info condition body)
      fun _ => afterWhile info condition body) :=
    hR.andThen h fun _ => afterWhile_keeps hR info condition body
  refine hR.bind (truth_keeps hR condition r) fun _ => Keeps.ite ?_ ?_
  · exact Keeps.ite (hR.bind (enterLoop_keeps hR info) fun _ => iteration) iteration
  · exact Keeps.ite (hR.bind (leaveLoop_keeps hR info) fun _ => finish_keeps hR) (finish_keeps hR)

theorem testRepeat_keeps (info : NodeInfo) (body : Stmt) (condition : Expr) (r : Evaluated) :
    Keeps R (testRepeat info body condition r) :=
  hR.bind (truth_keeps hR condition r) fun _ => Keeps.ite
    (hR.bind (leaveLoop_keeps hR info) fun _ => finish_keeps hR) (hR.pure _)

theorem afterRepeat_keeps (info : NodeInfo) (body : Stmt) (condition : Expr) :
    Keeps R (afterRepeat env info body condition) :=
  afterIteration_keeps hR info <|
    hR.andThen (evaluate_keeps hR condition) fun r => testRepeat_keeps hR info body condition r

theorem requestExit_keeps (info : NodeInfo) : Keeps R (requestExit info) := by
  refine Keeps.reads fun ⟨storage, ⟨current, callers, loops, pending, pause⟩⟩ => ?_
  cases current with
  | none => exact hR.throw _
  | some i => exact Keeps.ite (hR.bind (hR.onCursor _) fun _ => finish_keeps hR) (hR.throw _)

mutual

theorem execute_keeps : (s : Stmt) → Keeps R (s.execute env)
  | .eval e => by
    rw [execute]
    exact evaluate_keeps hR e
  | .assign info target value => by
    rw [execute]
    exact hR.andThen (evaluate_keeps hR target) fun r => assignValue_keeps hR info target value r
  | .block _ statements => by
    rw [execute]
    exact announce_keeps hR statements
  | .ifThen _ branches otherwise => by
    rw [execute]
    exact executeBranches_keeps otherwise (executeOption_keeps otherwise) branches
  | .case _ selector arms otherwise => by
    rw [execute]
    exact hR.andThen (evaluate_keeps hR selector) fun r =>
      executeArms_keeps selector.span r.value (executeOption_keeps otherwise) arms
  | .forLoop info control start stop step body => by
    rw [execute]
    exact evaluateAll_keeps hR _ [] fun results => runFor_keeps hR _ (execute_keeps body) results
  | .whileLoop info condition body => by
    rw [execute]
    exact hR.andThen (evaluate_keeps hR condition) fun r =>
      testWhile_keeps hR info condition body (execute_keeps body) false r
  | .repeatLoop info body condition => by
    rw [execute]
    exact hR.bind (enterLoop_keeps hR info) fun _ => hR.andThen (execute_keeps body) fun _ =>
      afterRepeat_keeps hR info body condition
  | .exit info => by
    rw [execute]
    exact requestExit_keeps hR info
  | .ret _ => by
    rw [execute]
    exact hR.bind (hR.onCursor _) fun _ => finish_keeps hR

theorem executeOption_keeps : (o : Option Stmt) → Keeps R (executeOption env o)
  | none => by
    rw [executeOption]
    exact finish_keeps hR
  | some s => by
    rw [executeOption]
    exact execute_keeps s

theorem executeBranches_keeps (otherwise : Option Stmt) {run : Run (Progress Evaluated)}
    (h : Keeps R run) : (branches : List (Expr × Stmt)) →
    Keeps R (executeBranches env otherwise run branches)
  | [] => by
    rw [executeBranches]
    exact h
  | (condition, s) :: rest => by
    rw [executeBranches]
    exact hR.andThen (evaluate_keeps hR condition) fun r =>
      hR.bind (truth_keeps hR condition r) fun _ =>
        Keeps.ite (execute_keeps s) (executeBranches_keeps otherwise h rest)

theorem executeArms_keeps (span : Span) (v : Value) {run : Run (Progress Evaluated)}
    (h : Keeps R run) : (arms : List (List CaseLabel × Stmt)) →
    Keeps R (executeArms env span v run arms)
  | [] => by
    rw [executeArms]
    exact h
  | (labels, s) :: rest => by
    rw [executeArms]
    exact hR.bind (hR.checked _) fun _ =>
      Keeps.ite (execute_keeps s) (executeArms_keeps span v h rest)

end

end Stmt

-- ---------------------------------------------------------------------------
-- Micro-steps
-- ---------------------------------------------------------------------------

namespace Run

open Expr Stmt

theorem resume_keeps (r : Evaluated) (frame : Frame) : Keeps R (resume env r frame) := by
  cases frame with
  | index info path before indexes rest =>
    exact evaluateAll_keeps hR rest _ fun values => lookup_keeps hR info path _
  | operand info op => exact applyUnary_keeps hR info op r
  | left op left right =>
    exact hR.andThen (evaluate_keeps hR right) fun b => applyBinary_keeps hR op left right r.value b
  | right op left right value => exact applyBinary_keeps hR op left right value r
  | arg site before rest =>
    exact evaluateAll_keeps hR rest _ fun values => invoke_keeps hR site values
  | callee site args i => exact hR.bind (hR.onCursor _) fun _ => hR.pure _
  | results site args i => exact collectResults_keeps hR site args i
  | start s => exact execute_keeps hR s
  | rest statements => exact continueBlock_keeps hR statements
  | target info target value => exact assignValue_keeps hR info target value r
  | value target => exact assignTo_keeps hR target r
  | condition condition body rest otherwise =>
    exact hR.bind (truth_keeps hR condition r) fun _ => Keeps.ite (execute_keeps hR body)
      (executeBranches_keeps hR otherwise (executeOption_keeps hR otherwise) rest)
  | selector selector arms otherwise =>
    exact executeArms_keeps hR selector.span r.value (executeOption_keeps hR otherwise) arms
  | bound loop before rest =>
    exact evaluateAll_keeps hR rest _ fun results =>
      runFor_keeps hR loop (execute_keeps hR loop.body) results
  | forBody info remaining body => exact afterFor_keeps hR info remaining body
  | whileTest info condition body entered =>
    exact testWhile_keeps hR info condition body (execute_keeps hR body) entered r
  | whileBody info condition body => exact afterWhile_keeps hR info condition body
  | whileAgain info condition body =>
    exact hR.andThen (evaluate_keeps hR condition) fun r =>
      testWhile_keeps hR info condition body (execute_keeps hR body) true r
  | repeatBody info body condition => exact afterRepeat_keeps hR info body condition
  | repeatTest info body condition => exact testRepeat_keeps hR info body condition r

theorem resumeAll_keeps (frames : List Frame) (r : Evaluated) : Keeps R (resumeAll env frames r) := by
  induction frames generalizing r with
  | nil => exact hR.pure _
  | cons frame outer ih =>
    rw [resumeAll]
    refine hR.bind (resume_keeps hR r frame) fun p => ?_
    cases p with
    | done r => exact ih r
    | paused inner => exact hR.pure _

theorem microStep_keeps (frames : List Frame) : Keeps R (microStep env frames) :=
  resumeAll_keeps hR frames {}

end Run

-- ---------------------------------------------------------------------------
-- Units
-- ---------------------------------------------------------------------------

namespace Storage

omit hR

/-- Which instances belong to the units does not change. -/
theorem units_kept (l : Library) : Kept l fun s s' => s'.units = s.units where
  refl _ := rfl
  trans h h' := h'.trans h
  load p s := by
    obtain h | ⟨_, _, v, -, -, -, h⟩ := load_state l p s <;> simp [h]
  store p type storage name v s := by
    obtain h | ⟨_, _, -, -, _, h⟩ := store_state l p type storage name v s <;> simp [h]
  resetFrame i s := by
    obtain h | ⟨_, _, -, -, h⟩ := resetFrame_state l i s <;> simp [h]

end Storage

end StructuredText
