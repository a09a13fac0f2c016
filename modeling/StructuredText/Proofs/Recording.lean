-- SUMMARY: Every diagnostic that an interpreter returns is recorded, once and in order.
import StructuredText.Proofs.Stepping

/-!
# Recorded diagnostics

What an interpreter is asked for either succeeds, and then nothing is recorded, or it ends with diagnostics, and these
are recorded as they are returned. Each exit records what it ends with. The parts between the exits record nothing by
themselves, however they end, so that an operation is the same as one that records once, when it has ended.
-/

namespace StructuredText

/-- Problems of two kinds are fatal. -/
theorem Diagnostic.isFatal_iff {d : Diagnostic} :
    d.isFatal = true ↔ d.problem.kind = .internal ∨ d.problem.kind = .memory := by
  unfold Diagnostic.isFatal Problem.isFatal
  cases d.problem.kind <;> simp [ProblemKind.isFatal]

namespace Interpreter

variable {ε ε' α β : Type}

-- ---------------------------------------------------------------------------
-- Parts of operations
-- ---------------------------------------------------------------------------

/-- The computation records nothing, whether it fails or not. -/
def Quiet (x : Interpreting ε α) : Prop := ∀ t, (x t).state.issues = t.issues

namespace Quiet

protected theorem pure (a : α) : Quiet (pure a : Interpreting ε α) := fun _ => rfl

protected theorem throw (e : ε) : Quiet (throw e : Interpreting ε α) := fun _ => rfl

protected theorem get : Quiet (get : Interpreting ε Interpreter) := fun _ => rfl

protected theorem modify {f : Interpreter → Interpreter} (h : ∀ t, (f t).issues = t.issues) :
    Quiet (modify f : Interpreting ε PUnit) := h

protected theorem modifyGet {f : Interpreter → α × Interpreter} (h : ∀ t, (f t).2.issues = t.issues) :
    Quiet (modifyGet f : Interpreting ε α) := h

protected theorem ofExcept (x : Except ε α) : Quiet (ofExcept x : Interpreting ε α) := by
  intro t
  cases x <;> rfl

protected theorem bind {x : Interpreting ε α} {f : α → Interpreting ε β} (hx : Quiet x) (hf : ∀ a, Quiet (f a)) :
    Quiet (x >>= f) := by
  intro t
  have hstate := hx t
  rw [EStateM.bind_apply]
  cases h : x t with
  | ok a u =>
    rw [h] at hstate
    exact (hf a u).trans hstate
  | error e u => rwa [h] at hstate

protected theorem adaptExcept {x : Interpreting ε α} (f : ε → ε') (hx : Quiet x) : Quiet (x.adaptExcept f) := by
  intro t
  have hstate := hx t
  rw [EStateM.adaptExcept_apply]
  cases h : x t <;> rwa [h] at hstate

end Quiet

theorem renew_quiet (l : Library) : Quiet (renew l) := by
  refine .bind .get fun t => .bind (.modify fun _ => rfl) fun _ => .bind (.ofExcept _) fun s => ?_
  exact .modify fun _ => rfl

theorem prime_quiet (l : Library) (program : Nat) : Quiet (prime l program) := by
  refine .bind .get fun t => .bind (.ofExcept _) fun i => ?_
  exact .modify fun _ => rfl

theorem readyQuietly_quiet : Quiet readyQuietly := by
  refine .bind .get fun t => .bind .get fun u => ?_
  split
  · exact .throw _
  · exact .throw _
  · exact .pure _

theorem advanceTo_quiet (l : Library) (stops : Nat → Bool) (limit : Nat) : Quiet (advanceTo l stops limit) := by
  induction limit with
  | zero => exact .bind .get fun t => .throw _
  | succ limit ih =>
    refine .bind (.modify fun _ => rfl) fun _ => .bind (fun t => (advance_sameProgram l t).issues) fun a => ?_
    split
    · exact ih
    · exact .pure _
    · refine .bind .get fun t => ?_
      split
      · exact .pure _
      · exact ih

/-- A cycle that is abandoned has failed once, also when its program cannot be entered again. -/
theorem orAbandon_quiet (l : Library) (program : Nat) {x : Interpreting Diagnostic α} (hx : Quiet x) :
    Quiet (orAbandon l program x) := by
  intro t
  have hstate := hx t
  simp only [orAbandon]
  cases h : x t with
  | ok a u => rwa [h] at hstate
  | error d u =>
    rw [h] at hstate
    have hprimed := (prime_quiet l program u).trans hstate
    cases hprime : prime l program u <;> simpa [hprime] using hprimed

-- ---------------------------------------------------------------------------
-- Operations
-- ---------------------------------------------------------------------------

/-- What the computation fails with is all that it records. -/
def Records (diagnostics : ε → List Diagnostic) (x : Interpreting ε α) : Prop :=
  ∀ t, match x t with
    | .ok _ u => u.issues = t.issues
    | .error e u => u.issues = t.issues ++ diagnostics e

namespace Records

variable {diagnostics : ε → List Diagnostic} {x : Interpreting ε α}

theorem of_recording (hx : Quiet x) : Records diagnostics (recording diagnostics x) := by
  intro t
  have hstate := hx t
  unfold recording
  cases h : x t with
  | ok a u => rwa [h] at hstate
  | error e u =>
    rw [h, EStateM.Result.state_error] at hstate
    simp only [hstate]

/-- What is done with the result of an operation does not record and cannot fail. -/
theorem then_pure (f : α → β) (hx : Records diagnostics x) : Records diagnostics (x >>= fun a => pure (f a)) := by
  intro t
  have hstate := hx t
  rw [EStateM.bind_apply]
  cases h : x t <;> rwa [h] at hstate

theorem adaptExcept {x : Interpreting Diagnostic α} (hx : Records ([·]) x) :
    Records id (x.adaptExcept ([·])) := by
  intro t
  have hstate := hx t
  rw [EStateM.adaptExcept_apply]
  cases h : x t <;> rwa [h] at hstate

end Records

theorem link_records (units : List CompilationUnit) : Records id (Interpreter.link units) := by
  rw [link_eq_recording]
  refine .of_recording (.bind (.modify fun _ => rfl) fun _ => .bind .get fun t => .bind (.ofExcept _) fun l => ?_)
  refine .bind (.adaptExcept _ (renew_quiet l)) fun _ => ?_
  exact .modify fun _ => rfl

theorem start_records (name : Ident) : Records ([·]) (start name) := by
  rw [start_eq_recording]
  refine .of_recording (.bind .get fun t => ?_)
  split
  · exact .throw _
  · split
    · exact .throw _
    · refine .bind (renew_quiet _) fun _ => .bind (prime_quiet _ _) fun _ => ?_
      exact .modify fun _ => rfl

theorem proceed_records (stops : (start depth : Nat) → Bool) : Records ([·]) (proceed stops) := by
  rw [proceed_eq_recording]
  refine .of_recording (.bind readyQuietly_quiet fun (l, program) => orAbandon_quiet l program ?_)
  refine .bind (.modifyGet fun _ => rfl) fun t => .bind (advanceTo_quiet l _ _) fun pause => .bind .get fun u => ?_
  split
  · exact .bind (prime_quiet l program) fun _ => .pure _
  · exact .bind (.pure _) fun _ => .pure _

theorem Driver.call_records (driver : Driver) : Records ([·]) driver.call := by
  cases driver with
  | step kind => exact (proceed_records kind.stops).then_pure _
  | runCycle => exact ((proceed_records _).then_pure _).then_pure _

/-- Neither the preparation of a query nor what it executes records anything. -/
theorem query_records (q : Query) : Records id (query q) := by
  rw [query_eq_recording]
  refine .of_recording (.bind .get fun t => ?_)
  split
  · exact .throw _
  · refine .bind .get fun t => .bind (.ofExcept _) fun q => .bind .get fun u => ?_
    simp only
    split
    · exact .bind (.modify fun _ => rfl) fun _ => .pure _
    · exact .bind (.modify fun _ => rfl) fun _ => .throw _

-- ---------------------------------------------------------------------------
-- Requests
-- ---------------------------------------------------------------------------

/-- Everything that an interpreter can be asked for. -/
inductive Request where
  | link (units : List CompilationUnit)
  | start (name : Ident)
  /-- Goes on with the cycle, to its end or by a step of some kind. -/
  | proceed (driver : Driver)
  | query (q : Query)
  /-- Sets direct memory from outside. -/
  | setMemory (memory : DirectMemory)

namespace Request

def perform : Request → Interpreting (List Diagnostic) Unit
  | .link units => Interpreter.link units
  | .start name => (Interpreter.start name).adaptExcept ([·])
  | .proceed driver => do
    let _ ← driver.call.adaptExcept ([·])
  | .query q => do
    let _ ← Interpreter.query q
  | .setMemory memory => modify (·.setMemory memory)

theorem perform_records (r : Request) : Records id r.perform := by
  cases r with
  | link units => exact link_records units
  | start name => exact (start_records name).adaptExcept
  | proceed driver => exact (driver.call_records.adaptExcept).then_pure _
  | query q => exact (query_records q).then_pure _
  | setMemory memory => exact fun _ => rfl

/-- The diagnostics that a request returns, and the interpreter after it. -/
def answer (r : Request) (t : Interpreter) : List Diagnostic × Interpreter :=
  match r.perform t with
  | .ok _ u => ([], u)
  | .error ds u => (ds, u)

theorem issues_answer (r : Request) (t : Interpreter) :
    (r.answer t).2.issues.toList = t.issues.toList ++ (r.answer t).1 := by
  have h := perform_records r t
  unfold answer
  cases hr : r.perform t <;> rw [hr] at h <;> simp [h]

/-- The diagnostics that each request returns, whether or not those before it have failed. -/
def answerAll : List Request → Interpreter → List (List Diagnostic) × Interpreter
  | [], t => ([], t)
  | r :: rest, t =>
    let (ds, u) := r.answer t
    let (later, v) := answerAll rest u
    (ds :: later, v)

/-- All that is returned is added to the issues, in the order of the requests. -/
theorem issues_answerAll (requests : List Request) (t : Interpreter) :
    (answerAll requests t).2.issues.toList = t.issues.toList ++ (answerAll requests t).1.flatten := by
  induction requests generalizing t with
  | nil => simp [answerAll]
  | cons r rest ih =>
    calc (answerAll rest (r.answer t).2).2.issues.toList
      _ = (r.answer t).2.issues.toList ++ (answerAll rest (r.answer t).2).1.flatten := ih _
      _ = t.issues.toList ++ ((r.answer t).1 ++ (answerAll rest (r.answer t).2).1.flatten) := by
        rw [issues_answer, List.append_assoc]

end Request

theorem isFatal_iff {t : Interpreter} : t.isFatal = true ↔ ∃ d ∈ t.issues.toList, d.isFatal = true := by
  rw [isFatal, ← Array.any_toList, List.any_eq_true]

/--
From a new interpreter on, the issues are what the requests have returned, in their order and each diagnostic as often
as it was returned. The interpreter is fatal when one of them reports that an invariant is broken or that storage cannot
be provided, and it remains so.
-/
theorem issues_are_returned (options : Options) (requests more : List Request) :
    let first := Request.answerAll requests (.new options)
    let later := Request.answerAll more first.2
    first.2.issues.toList = first.1.flatten ∧
      (first.2.isFatal = true ↔ ∃ d ∈ first.1.flatten, d.problem.kind = .internal ∨ d.problem.kind = .memory) ∧
      (first.2.isFatal = true → later.2.isFatal = true) := by
  intro first later
  have hfirst : first.2.issues.toList = first.1.flatten := Request.issues_answerAll requests (.new options)
  have hlater : later.2.issues.toList = first.2.issues.toList ++ later.1.flatten := Request.issues_answerAll more first.2
  refine ⟨hfirst, ?_, fun h => ?_⟩
  · simp only [isFatal_iff, hfirst, Diagnostic.isFatal_iff]
  · obtain ⟨d, hd, hfatal⟩ := isFatal_iff.mp h
    refine isFatal_iff.mpr ⟨d, ?_, hfatal⟩
    rw [hlater]
    exact List.mem_append_left _ hd

end Interpreter

end StructuredText
