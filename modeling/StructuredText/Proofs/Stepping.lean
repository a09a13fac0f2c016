-- SUMMARY: Going on with a cycle in steps ends as the uninterrupted cycle does.
import StructuredText.Proofs.RecordedExits
import StructuredText.Source

/-!
# Stepping through a cycle

A cycle may be continued by single steps of any kind and by running it to its end. Whatever the calls are,
the first one that is not paused ends with the interpreter, the outcome and the number of micro-steps that
a single run of the cycle ends with. The reason is that a call only decides which pauses it accepts: what
is left of the cycle after an accepted pause is what the uninterrupted run would go on with, and the
micro-steps that are already counted are taken off the limit.
-/

namespace StructuredText.Interpreter

-- ---------------------------------------------------------------------------
-- What a micro-step keeps
-- ---------------------------------------------------------------------------

/-- Both interpreters are in the same program, under the same options and with the same issues. -/
structure SameProgram (t t' : Interpreter) : Prop where
  options : t'.options = t.options
  library : t'.library? = t.library?
  program : t'.program? = t.program?
  issues : t'.issues = t.issues

theorem SameProgram.refl (t : Interpreter) : SameProgram t t := ⟨rfl, rfl, rfl, rfl⟩

theorem SameProgram.trans {t u v : Interpreter} (h : SameProgram t u) (h' : SameProgram u v) :
    SameProgram t v :=
  ⟨h'.options.trans h.options, h'.library.trans h.library, h'.program.trans h.program,
    h'.issues.trans h.issues⟩

/-- What a micro-step of the cycle does to the interpreter. -/
theorem advance_eq (l : Library) (t : Interpreter) :
    advance l t =
      match Run.microStep ⟨l, t.options.realEpsilon⟩ t.frames t.execution with
      | .error d x => .error d { t with execution := x }
      | .ok (.done _) x =>
        .ok (.pause .complete)
          { t with execution := ⟨x.storage, x.cursor.clearPending⟩, frames := [] }
      | .ok (.paused frames) x =>
        .ok (match x.cursor.pause with
          | some statement => .pause (.at statement)
          | none => .progress)
          { t with execution := ⟨x.storage, x.cursor.clearPause⟩, frames } := by
  unfold advance
  simp only [EStateM.bind_apply, EStateM.modifyGet_apply]
  rcases Run.microStep ⟨l, t.options.realEpsilon⟩ t.frames t.execution with
    ⟨_ | frames, x⟩ | ⟨d, x⟩
  · rfl
  · cases h : x.cursor.pause <;> simp [h]
  · rfl

theorem advance_sameProgram (l : Library) (t : Interpreter) :
    SameProgram t (advance l t).state := by
  rw [advance_eq]
  split <;> exact ⟨rfl, rfl, rfl, rfl⟩

theorem advance_steps (l : Library) (t : Interpreter) :
    (advance l t).state.steps = t.steps := by
  rw [advance_eq]
  split <;> rfl

-- ---------------------------------------------------------------------------
-- Pauses
-- ---------------------------------------------------------------------------

/-- No pause is accepted. -/
def never : Nat → Bool := fun _ => false

/-- A cycle with a micro-step counted. -/
def counting (t : Interpreter) : Interpreter := { t with steps := t.steps + 1 }

theorem advanceTo_succ (l : Library) (stops : Nat → Bool) (limit : Nat) (t : Interpreter) :
    advanceTo l stops (limit + 1) t =
      match advance l t.counting with
      | .error d u => .error d u
      | .ok .progress u => advanceTo l stops limit u
      | .ok (.pause .complete) u => .ok .complete u
      | .ok (.pause (.at s)) u =>
        if stops u.execution.cursor.depth then .ok (.at s) u else advanceTo l stops limit u := by
  rw [advanceTo]
  simp only [EStateM.bind_apply, EStateM.modify_apply, counting]
  rcases advance l { t with steps := t.steps + 1 } with ⟨_ | _ | _, u⟩ | ⟨d, u⟩
  · rfl
  · simp only [EStateM.bind_apply, EStateM.get_apply]
    split <;> rfl
  · rfl
  · rfl

/--
After an accepted pause the rest of the cycle is what the uninterrupted run goes on with. The micro-steps up
to the pause are counted and taken off the limit.
-/
theorem advanceTo_at {l : Library} {stops : Nat → Bool} {limit : Nat} {t u : Interpreter}
    {s : Span} (h : advanceTo l stops limit t = .ok (.at s) u) :
    SameProgram t u ∧ t.steps < u.steps ∧
      advanceTo l never limit t = advanceTo l never (limit - (u.steps - t.steps)) u := by
  induction limit generalizing t with
  | zero => cases h
  | succ limit ih =>
    have hsame := advance_sameProgram l t.counting
    have hsteps := advance_steps l t.counting
    rw [advanceTo_succ] at h ⊢
    have later {v : Interpreter} (hv : advanceTo l stops limit v = .ok (.at s) u)
        (hsame : SameProgram t.counting v) (hsteps : v.steps = t.steps + 1) :
        SameProgram t u ∧ t.steps < u.steps ∧
          advanceTo l never limit v = advanceTo l never (limit + 1 - (u.steps - t.steps)) u := by
      obtain ⟨hsame', hle, heq⟩ := ih hv
      refine ⟨.trans ⟨hsame.1, hsame.2, hsame.3, hsame.4⟩ hsame', by omega, ?_⟩
      rw [heq]
      congr 1
      omega
    cases hadv : advance l t.counting with
    | error d v => rw [hadv] at h; cases h
    | ok a v =>
      rw [hadv] at h hsame hsteps
      cases a with
      | progress => exact later h hsame hsteps
      | pause p =>
        cases p with
        | complete => cases h
        | «at» s' =>
          simp only at h ⊢
          split at h
          · cases h
            have : u.steps = t.steps + 1 := hsteps
            refine ⟨⟨hsame.1, hsame.2, hsame.3, hsame.4⟩, by omega, ?_⟩
            simp [never, this]
          · exact later h hsame hsteps

/-- Without an accepted pause it does not matter which pauses would be accepted. -/
theorem advanceTo_end {l : Library} {stops : Nat → Bool} {limit : Nat} {t : Interpreter}
    (h : ∀ s u, advanceTo l stops limit t ≠ .ok (.at s) u) :
    advanceTo l stops limit t = advanceTo l never limit t := by
  induction limit generalizing t with
  | zero => rfl
  | succ limit ih =>
    rw [advanceTo_succ] at h
    rw [advanceTo_succ, advanceTo_succ]
    cases hadv : advance l t.counting with
    | error d v => rfl
    | ok a v =>
      rw [hadv] at h
      cases a with
      | progress => exact ih h
      | pause p =>
        cases p with
        | complete => rfl
        | «at» s =>
          simp only at h ⊢
          split at h
          · exact absurd rfl (h s v)
          · next hstops => simp only [hstops, never]; exact ih h

/-- A run of the cycle does not stop at a pause. -/
theorem advanceTo_never (l : Library) (limit : Nat) (t : Interpreter) {s : Span}
    {u : Interpreter} : advanceTo l never limit t ≠ .ok (.at s) u := by
  induction limit generalizing t with
  | zero => nofun
  | succ limit ih =>
    rw [advanceTo_succ]
    rcases advance l t.counting with ⟨_ | _ | _, v⟩ | ⟨e, v⟩
    · exact ih v
    · exact ih v
    · nofun
    · nofun

-- ---------------------------------------------------------------------------
-- Calls
-- ---------------------------------------------------------------------------

/-- A call that goes on with the cycle. -/
inductive Driver where
  | step (kind : StepKind)
  | runCycle
  deriving DecidableEq, Repr

namespace Driver

/-- The pauses at which the call stops. -/
def stops : Driver → (start depth : Nat) → Bool
  | .step kind => kind.stops
  | .runCycle => fun _ _ => false

/-- Performs the call. -/
def call : Driver → Interpreting Diagnostic Pause
  | .step kind => Interpreter.step kind
  | .runCycle => do
    let _ ← Interpreter.runCycle
    pure .complete

/-- What the micro-steps of the call end with, before its outcome is recorded. -/
def advanced (d : Driver) (l : Library) (t : Interpreter) :
    EStateM.Result Diagnostic Interpreter Pause :=
  advanceTo l (d.stops t.execution.cursor.depth) (t.options.maxMicroSteps - t.steps) t

/-- The micro-steps that are counted for the cycle when the call ends. -/
def counted (d : Driver) (t : Interpreter) : Nat :=
  match t.library?, t.program? with
  | some l, some _ => (d.advanced l t).state.steps
  | _, _ => t.steps

end Driver

theorem recording_eq_ok {ε α : Type} {f : ε → List Diagnostic} {x : Interpreting ε α}
    {t u : Interpreter} {a : α} : recording f x t = .ok a u ↔ x t = .ok a u := by
  unfold recording
  split <;> simp_all

theorem orAbandon_eq_ok {α : Type} {l : Library} {program : Nat} {x : Interpreting Diagnostic α}
    {t u : Interpreter} {a : α} : orAbandon l program x t = .ok a u ↔ x t = .ok a u := by
  unfold orAbandon
  split
  · simp_all
  · split <;> simp_all

/-- What a call ends with after its last micro-step. A pause leaves the cycle open. -/
def conclude (l : Library) (program : Nat) (r : EStateM.Result Diagnostic Interpreter Pause) :
    EStateM.Result Diagnostic Interpreter (Pause × Nat) :=
  recording ([·]) (orAbandon l program fun _ =>
    match r with
    | .ok .complete u =>
      (do prime l program; pure (Pause.complete, u.steps) : Interpreting Diagnostic (Pause × Nat)) u
    | .ok (.at s) u => .ok (.at s, u.steps) u
    | .error d u => .error d u) r.state

theorem proceed_eq {l : Library} {program : Nat} {t : Interpreter} (hl : t.library? = some l)
    (hp : t.program? = some program) (d : Driver) :
    proceed d.stops t = conclude l program (d.advanced l t) := by
  have hready : readyQuietly t = .ok (l, program) t := by simp [readyQuietly, hl, hp]
  rw [proceed_eq_recording]
  simp only [proceedQuietly, conclude, recording, EStateM.bind_apply, hready, orAbandon,
    EStateM.modifyGet_apply, Driver.advanced]
  rcases advanceTo l (d.stops t.execution.cursor.depth) (t.options.maxMicroSteps - t.steps) t with
    ⟨_ | _, u⟩ | ⟨e, u⟩
  · simp
  · simp
  · rfl

/-- Only a pause ends a call with a pause. -/
theorem eq_of_conclude_at {l : Library} {program n : Nat} {s : Span} {u : Interpreter}
    {r : EStateM.Result Diagnostic Interpreter Pause}
    (h : conclude l program r = .ok (.at s, n) u) : r = .ok (.at s) u := by
  replace h := orAbandon_eq_ok.mp (recording_eq_ok.mp h)
  rcases r with ⟨_ | _, v⟩ | ⟨e, v⟩
  · cases h
    rfl
  · simp only [EStateM.bind_apply] at h
    split at h <;> cases h
  · cases h

/-- A call that does not fail returns the number of micro-steps that it has counted. -/
theorem steps_of_conclude {l : Library} {program n : Nat} {p : Pause} {u : Interpreter}
    {r : EStateM.Result Diagnostic Interpreter Pause} (h : conclude l program r = .ok (p, n) u) :
    r.state.steps = n := by
  replace h := orAbandon_eq_ok.mp (recording_eq_ok.mp h)
  rcases r with ⟨_ | _, v⟩ | ⟨e, v⟩
  · cases h
    rfl
  · simp only [EStateM.bind_apply] at h
    split at h <;> cases h
    rfl
  · cases h

/-- A call performs its micro-steps and records how they end. -/
theorem Driver.call_eq {l : Library} {program : Nat} {t : Interpreter} (d : Driver)
    (hl : t.library? = some l) (hp : t.program? = some program) :
    d.call t = match conclude l program (d.advanced l t) with
      | .ok r u => .ok r.1 u
      | .error e u => .error e u := by
  cases d with
  | step kind =>
    simp only [Driver.call, Interpreter.step, EStateM.bind_apply]
    rw [show proceed kind.stops = proceed (Driver.step kind).stops from rfl, proceed_eq hl hp]
    cases conclude l program ((Driver.step kind).advanced l t) <;> rfl
  | runCycle =>
    simp only [Driver.call, Interpreter.runCycle, EStateM.bind_apply]
    rw [show proceed (fun _ _ => false) = proceed Driver.runCycle.stops from rfl, proceed_eq hl hp]
    cases h : conclude l program (Driver.runCycle.advanced l t) with
    | error e u => rfl
    | ok r u =>
      obtain ⟨_ | _, n⟩ := r
      · exact absurd (eq_of_conclude_at h) (advanceTo_never _ _ _)
      · rfl

/-- A call that is ready to go on and ends with a pause leaves the cycle where the pause is. -/
theorem Driver.advanced_of_call {l : Library} {program : Nat} {t u : Interpreter} {d : Driver}
    {s : Span} (hl : t.library? = some l) (hp : t.program? = some program)
    (h : d.call t = .ok (.at s) u) : d.advanced l t = .ok (.at s) u := by
  rw [d.call_eq hl hp] at h
  split at h
  · next r v hr =>
    obtain ⟨p, n⟩ := r
    cases h
    exact eq_of_conclude_at hr
  · cases h

/-- No call goes on without a library and a program, and each says so in the same way. -/
theorem Driver.call_of_not_ready {t : Interpreter} (h : t.library? = none ∨ t.program? = none) :
    ∃ e, ∀ d : Driver, d.call t = .error e { t with issues := t.issues ++ [e] } := by
  have hready : ∃ e, readyQuietly t = .error e t := by
    unfold readyQuietly
    rcases h with h | h <;> cases hl : t.library? <;> simp_all
  obtain ⟨e, hready⟩ := hready
  have hproceed (stops) : proceed stops t = .error e { t with issues := t.issues ++ [e] } := by
    simp [proceed_eq_recording, proceedQuietly, recording, hready]
  refine ⟨e, fun d => ?_⟩
  cases d <;> simp [Driver.call, Interpreter.step, Interpreter.runCycle, hproceed]

/-- Only a call that is ready to go on pauses. -/
theorem Driver.ready_of_call_at {t u : Interpreter} {d : Driver} {s : Span}
    (h : d.call t = .ok (.at s) u) :
    ∃ l program, t.library? = some l ∧ t.program? = some program := by
  have pauses (hv : t.library? = none ∨ t.program? = none) : False := by
    obtain ⟨e, he⟩ := Driver.call_of_not_ready hv
    cases (he d).symm.trans h
  cases hl : t.library? with
  | none => exact (pauses (.inl hl)).elim
  | some l =>
    cases hp : t.program? with
    | none => exact (pauses (.inr hp)).elim
    | some program => exact ⟨l, program, rfl, rfl⟩

-- ---------------------------------------------------------------------------
-- Sequences of calls
-- ---------------------------------------------------------------------------

/-- Performs calls in order up to the first one that does not pause. -/
def drive (d : Driver) : List Driver → Interpreting Diagnostic Pause
  | [] => d.call
  | next :: rest => do
    match ← d.call with
    | .complete => pure .complete
    | .at _ => drive next rest

/-- The micro-steps that are counted for the cycle when the last of the calls ends. -/
def countedAll (d : Driver) : List Driver → Interpreter → Nat
  | [], t => d.counted t
  | next :: rest, t =>
    match d.call t with
    | .ok (.at _) u => countedAll next rest u
    | _ => d.counted t

/-- Running the cycle goes on after a pause as it would have gone on without it. -/
theorem Driver.runCycle_of_at {t u : Interpreter} {d : Driver} {s : Span}
    (h : d.call t = .ok (.at s) u) :
    Driver.runCycle.call u = Driver.runCycle.call t ∧
      Driver.runCycle.counted u = Driver.runCycle.counted t := by
  obtain ⟨l, program, hl, hp⟩ := Driver.ready_of_call_at h
  obtain ⟨hsame, hle, heq⟩ := advanceTo_at (Driver.advanced_of_call hl hp h)
  have hadvanced : Driver.runCycle.advanced l u = Driver.runCycle.advanced l t := by
    refine .trans ?_ heq.symm
    rw [Driver.advanced, hsame.options]
    congr 1
    omega
  simp only [Driver.call_eq _ hl hp, Driver.call_eq _ (hsame.library.trans hl)
    (hsame.program.trans hp), Driver.counted, hsame.library, hsame.program, hl, hp, hadvanced,
    and_self]

/-- A call that does not pause ends as a run of the cycle does. -/
theorem Driver.ends_as_runCycle {t : Interpreter} {d : Driver}
    (h : ∀ s u, d.call t ≠ .ok (.at s) u) :
    d.call t = Driver.runCycle.call t ∧ d.counted t = Driver.runCycle.counted t := by
  have same (hn : t.library? = none ∨ t.program? = none) : d.call t = Driver.runCycle.call t := by
    obtain ⟨e, he⟩ := Driver.call_of_not_ready hn
    rw [he, he]
  cases hl : t.library? with
  | none => exact ⟨same (.inl hl), by simp [Driver.counted, hl]⟩
  | some l =>
    cases hp : t.program? with
    | none => exact ⟨same (.inr hp), by simp [Driver.counted, hp]⟩
    | some program =>
      have hend : d.advanced l t = Driver.runCycle.advanced l t := by
        refine advanceTo_end fun s u hs => h s u ?_
        rw [d.call_eq hl hp, Driver.advanced, hs]
        rfl
      simp only [d.call_eq hl hp, Driver.call_eq _ hl hp, Driver.counted, hl, hp, hend, and_self]

/--
Single steps do not change what a cycle comes to. Calls of any kind in any order, up to the first one that
does not pause, leave the interpreter, the outcome and the count of micro-steps that a single run leaves.
-/
theorem drive_eq_runCycle {d : Driver} {ds : List Driver} {t : Interpreter}
    (h : ∀ s u, drive d ds t ≠ .ok (.at s) u) :
    drive d ds t = Driver.runCycle.call t ∧ countedAll d ds t = Driver.runCycle.counted t := by
  induction ds generalizing d t with
  | nil => exact Driver.ends_as_runCycle h
  | cons next rest ih =>
    simp only [drive, countedAll, EStateM.bind_apply] at h ⊢
    cases hcall : d.call t with
    | error e u =>
      have hends := Driver.ends_as_runCycle fun s v hs => by cases hcall.symm.trans hs
      rwa [hcall] at hends
    | ok p u =>
      cases p with
      | complete =>
        have hends := Driver.ends_as_runCycle fun s v hs => by cases hcall.symm.trans hs
        rwa [hcall] at hends
      | «at» s =>
        rw [hcall] at h
        obtain ⟨hdrive, hcounted⟩ := ih h
        obtain ⟨hrun, hcount⟩ := Driver.runCycle_of_at hcall
        exact ⟨hdrive.trans hrun, hcounted.trans hcount⟩

/-- The count of micro-steps is the number that a run of the cycle returns. -/
theorem runCycle_counted {t u : Interpreter} {n : Nat} (h : runCycle t = .ok n u) :
    Driver.runCycle.counted t = n := by
  have hproceed : ∃ p, proceed Driver.runCycle.stops t = .ok (p, n) u := by
    simp only [runCycle, EStateM.bind_apply] at h
    split at h
    · next r v hr =>
      cases h
      exact ⟨r.1, hr⟩
    · cases h
  obtain ⟨p, hproceed⟩ := hproceed
  obtain ⟨l, program, hl, hp⟩ : ∃ l program, t.library? = some l ∧ t.program? = some program := by
    cases hl : t.library? <;> cases hp : t.program? <;>
      simp_all [proceed_eq_recording, proceedQuietly, recording, readyQuietly]
  rw [proceed_eq hl hp] at hproceed
  simpa only [Driver.counted, hl, hp] using steps_of_conclude hproceed

/-- Links a source and starts one of its programs. -/
def startOn (source program : String) : Interpreting (List Diagnostic) Unit := do
  let unit ← ofExcept (parseUnit source .anonymous)
  Interpreter.link [unit]
  (Interpreter.start { text := program }).adaptExcept ([·])

/-- An interpreter that has started a program of a source. -/
def startedOn (source program : String) : Interpreter := (startOn source program {}).state

/-- The cycle has come to its end. -/
def isComplete : EStateM.Result Diagnostic Interpreter Pause → Bool
  | .ok .complete _ => true
  | _ => false

/-- A counting loop is stepped into, stepped over and run to its end. -/
theorem drive_eq_runCycle_counting_loop :
    let t := startedOn
      "PROGRAM P VAR i : INT; END_VAR WHILE i < 3 DO i := i + 1; END_WHILE; END_PROGRAM" "P"
    let calls : List Driver := [.step .into, .step .over, .step .into, .runCycle]
    isComplete (drive (.step .over) calls t) = true ∧
      drive (.step .over) calls t = Driver.runCycle.call t ∧
      countedAll (.step .over) calls t = Driver.runCycle.counted t := by
  intro t calls
  have complete : isComplete (drive (.step .over) calls t) = true := by decide +kernel
  refine ⟨complete, drive_eq_runCycle fun s u h => ?_⟩
  rw [h] at complete
  cases complete

end StructuredText.Interpreter
