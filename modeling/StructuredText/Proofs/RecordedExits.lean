-- SUMMARY: Recording diagnostics at each exit of an operation is recording what the operation ends with.
import StructuredText.Interpreter
import StructuredText.Proofs.Computation

/-!
# Recorded exits

Each operation of the interpreter records the diagnostics where it fails. The same operation without records, followed
by one record of what it fails with, ends in the same way. So what is shown about the operation without its records
carries over.
-/

namespace StructuredText.Interpreter

variable {ε α β : Type}

-- ---------------------------------------------------------------------------
-- One record at the end
-- ---------------------------------------------------------------------------

/-- Records the diagnostics that an operation ends with. -/
def recording (diagnostics : ε → List Diagnostic) (x : Interpreting ε α) : Interpreting ε α :=
  fun t =>
    match x t with
    | .ok a t => .ok a t
    | .error e t => .error e { t with issues := t.issues ++ diagnostics e }

variable {diagnostics : ε → List Diagnostic}

theorem recording_throw (d : Diagnostic) : recording ([·]) (throw d : Interpreting Diagnostic α) = refuse d := by
  funext t
  simp [recording, refuse]

theorem recording_bind (x : Interpreting ε α) (f : α → Interpreting ε β) :
    recording diagnostics (x >>= f) = (recording diagnostics x >>= fun a => recording diagnostics (f a)) := by
  funext t
  simp only [recording, EStateM.bind_apply]
  cases x t <;> rfl

theorem recording_get : recording diagnostics (get : Interpreting ε Interpreter) = get := rfl

theorem recording_modify (f : Interpreter → Interpreter) :
    recording diagnostics (modify f : Interpreting ε PUnit) = modify f := rfl

/-- A failure is recorded where it is refused. -/
theorem recording_eq_tryCatch (x : Interpreting Diagnostic α) : recording ([·]) x = tryCatch x refuse := by
  funext t
  rw [EStateM.tryCatch_apply]
  unfold recording
  cases x t with
  | ok a u => rfl
  | error d u => simp [refuse]

theorem recording_eq_tryCatchAll (x : Interpreting (List Diagnostic) α) : recording id x = tryCatch x refuseAll := by
  funext t
  rw [EStateM.tryCatch_apply]
  unfold recording
  cases x t <;> rfl

theorem recording_adaptExcept (x : Interpreting Diagnostic α) :
    recording id (x.adaptExcept fun d => [d]) = (tryCatch x refuse).adaptExcept fun d => [d] := by
  rw [← recording_eq_tryCatch]
  funext t
  simp only [recording, EStateM.adaptExcept_apply]
  cases x t <;> rfl

-- ---------------------------------------------------------------------------
-- Operations without records
-- ---------------------------------------------------------------------------

def linkQuietly (units : List CompilationUnit) : Interpreting (List Diagnostic) Unit := do
  modify fun t =>
    { t with
      library? := none, program? := none, frames := []
      execution := ⟨t.execution.storage, .idle⟩ }
  let l ← ofExcept (StructuredText.link units (← get).options)
  (renew l).adaptExcept fun d => [d]
  modify ({ · with library? := some l })

theorem link_eq_recording (units : List CompilationUnit) : link units = recording id (linkQuietly units) := by
  unfold link linkQuietly
  rw [recording_bind, recording_modify]
  congr 1
  funext _
  rw [recording_bind, recording_get]
  congr 1
  funext t
  cases StructuredText.link units t.options with
  | error ds => rfl
  | ok l =>
    change _ = recording id (((renew l).adaptExcept fun d => [d]) >>= fun _ => _)
    rw [recording_bind, recording_adaptExcept]
    rfl

def startQuietly (name : Ident) : Interpreting Diagnostic Unit := do
  match (← get).library? with
  | none => throw (misuse .notLinked "Link before starting")
  | some l =>
    match l.program? name with
    | none => throw (.of .unresolvedProgram name.span s!"{name.text} is not a program")
    | some program =>
      renew l
      prime l program
      modify ({ · with program? := some program })

theorem start_eq_recording (name : Ident) : start name = recording ([·]) (startQuietly name) := by
  unfold start startQuietly
  rw [recording_bind, recording_get]
  congr 1
  funext t
  cases t.library? with
  | none => exact (recording_throw _).symm
  | some l =>
    cases hname : l.program? name with
    | none => simp only [hname, recording_throw]
    | some program =>
      simp only [hname]
      rw [recording_bind, recording_eq_tryCatch]
      congr 1
      funext _
      rw [recording_bind, recording_eq_tryCatch]
      rfl

/-- The library and the program that runs. -/
def readyQuietly : Interpreting Diagnostic (Library × Nat) := do
  match (← get).library?, (← get).program? with
  | none, _ => throw (misuse .notLinked "Nothing is linked")
  | _, none => throw (misuse .notStarted "Start a program first")
  | some l, some program => pure (l, program)

theorem ready_eq_recording : ready = recording ([·]) readyQuietly := by
  funext t
  unfold ready readyQuietly recording
  simp only [EStateM.bind_apply, EStateM.get_apply]
  cases t.library? <;> cases t.program? <;> simp [refuse]

/-- Abandons a cycle that fails. -/
def orAbandon (l : Library) (program : Nat) (x : Interpreting Diagnostic α) :
    Interpreting Diagnostic α := fun t =>
  match x t with
  | .ok a t => .ok a t
  | .error d t =>
    match prime l program t with
    | .ok _ t => .error d t
    | .error _ t => .error d { t with steps := 0 }

theorem tryCatch_fail (l : Library) (program : Nat) (x : Interpreting Diagnostic α) :
    tryCatch x (fail l program) = recording ([·]) (orAbandon l program x) := by
  funext t
  rw [EStateM.tryCatch_apply]
  unfold recording orAbandon fail
  cases x t with
  | ok a u => rfl
  | error d u =>
    simp only [EStateM.bind_apply, EStateM.tryCatch_apply]
    cases prime l program u <;> simp [refuse]

def proceedQuietly (stops : (start depth : Nat) → Bool) : Interpreting Diagnostic (Pause × Nat) := do
  let (l, program) ← readyQuietly
  orAbandon l program do
    let t ← modifyGet fun t => ((t.execution.cursor.depth, t.options.maxMicroSteps - t.steps), t)
    let pause ← advanceTo l (stops t.1) t.2
    let steps := (← get).steps
    if pause = .complete then prime l program
    pure (pause, steps)

theorem proceed_eq_recording (stops : (start depth : Nat) → Bool) :
    proceed stops = recording ([·]) (proceedQuietly stops) := by
  unfold proceed proceedQuietly
  rw [recording_bind, ready_eq_recording]
  congr 1
  funext (l, program)
  exact tryCatch_fail l program _

theorem query_eq_recording (q : Query) : query q = recording id (evaluateQuery q) :=
  (recording_eq_tryCatchAll (evaluateQuery q)).symm

end StructuredText.Interpreter
