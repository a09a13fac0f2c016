-- SUMMARY: What the micro-steps of a cycle keep holds of the cycle in progress throughout a session.
import StructuredText.Proofs.CallStack

/-!
# Invariants of cycles

Whatever an interpreter is asked for, the cycle in progress is at the beginning of the program, or micro-steps have led
from there to where it is paused. In between nothing but the values of variables may have changed. So a property of the
cycle that holds at the beginning, that micro-steps keep and that does not depend on values holds after every call.
-/

namespace StructuredText.Interpreter

open Run

/-- Execution neither creates instances nor removes any, and each stays one of its unit. -/
theorem advance_instances (l : Library) (t : Interpreter) :
    SameInstances t.execution.storage (advance l t).state.execution.storage := by
  have hsame : Keeps _ (Run.microStep ⟨l, t.options.realEpsilon⟩ t.frames) :=
    Run.microStep_keeps (instances_kept l) t.frames
  replace hsame := hsame t.execution
  rw [advance_eq]
  rcases hstep : Run.microStep ⟨l, t.options.realEpsilon⟩ t.frames t.execution with ⟨_ | frames, x⟩ | ⟨d, x⟩ <;>
    rw [hstep] at hsame <;> exact hsame

/-- What holds at the beginning of the cycles of an instance, and stays with every micro-step that succeeds. -/
structure CycleInvariant (y : Layout) (I : InstanceId → Interpreter → Prop) : Prop where
  begins {t : Interpreter} {program : Nat} {pou : Pou} {i : InstanceId} (ht : Intact y t)
    (hat : AtStart y.library t program pou i) : I i t
  advances {t u : Interpreter} {i : InstanceId} {a : Advance} (ht : I i t)
    (h : advance y.library t.counting = .ok a u) : I i u
  /-- It does not depend on the values of variables, nor on the recorded diagnostics. -/
  withStorage {t : Interpreter} {i : InstanceId} {s : Storage} (ht : I i t) (hs : SameInstances t.execution.storage s)
    (issues : Array Diagnostic) : I i { t with execution := ⟨s, t.execution.cursor⟩, issues }

theorem CycleInvariant.and {y : Layout} {I J : InstanceId → Interpreter → Prop} (hI : CycleInvariant y I)
    (hJ : CycleInvariant y J) : CycleInvariant y fun i t => I i t ∧ J i t where
  begins ht hat := ⟨hI.begins ht hat, hJ.begins ht hat⟩
  advances ht h := ⟨hI.advances ht.1 h, hJ.advances ht.2 h⟩
  withStorage ht hs issues := ⟨hI.withStorage ht.1 hs issues, hJ.withStorage ht.2 hs issues⟩

/-- The cycles of a program that is started have the property. -/
def InCycle (I : InstanceId → Interpreter → Prop) (t : Interpreter) : Prop :=
  ∀ program, t.program? = some program → ∃ i, I i t

variable {y : Layout} {I : InstanceId → Interpreter → Prop} {t u : Interpreter} {i : InstanceId}

namespace CycleInvariant

theorem goesOn (hI : CycleInvariant y I) (ht : I i t) {stops : Nat → Bool} {n : Nat}
    (h : GoesOn y.library stops n t u) : I i u := by
  induction h with
  | start => exact ht
  | progress h _ ih => exact ih (hI.advances ht h)
  | pass h _ _ ih => exact ih (hI.advances ht h)

/-- Micro-steps that have succeeded lead to where a call pauses. -/
theorem paused (hI : CycleInvariant y I) (ht : I i t) {d : Driver} {s : Span}
    (h : d.advanced y.library t = .ok (.at s) u) : I i u := by
  obtain ⟨n, v, hgoesOn, ⟨-, hlimit⟩ | ⟨-, r, hend, hlast⟩⟩ := d.advanced_eq y.library t
  · rw [hlimit] at h
    cases h
  · rw [hlast] at h
    subst h
    cases hend with
    | paused hadvance _ => exact hI.advances (hI.goesOn ht hgoesOn) hadvance

theorem betweenCycles (hI : CycleInvariant y I) (hu : Intact y u) (hready : Ready y.library u)
    (hbetween : u.BetweenCycles) : u.InCycle I := fun program hstarted => by
  obtain ⟨pou, i, hat⟩ := hready.atStart hbetween program hstarted
  exact ⟨i, hI.begins hu hat⟩

end CycleInvariant

-- ---------------------------------------------------------------------------
-- Sessions
-- ---------------------------------------------------------------------------

/-- A start that fails changes nothing, but for the recorded diagnostics. -/
theorem start_state (hy : Executable y) (ht : Intact y t) (name : Ident) :
    (∃ u, start name t = .ok () u) ∨ ∃ d issues, start name t = .error d { t with issues } := by
  rw [start_eq_recording]
  unfold startQuietly recording
  simp only [EStateM.bind_apply, EStateM.get_apply, ht.library]
  cases hname : y.library.program? name with
  | none => exact .inr ⟨_, _, by rw [← ht.library]; rfl⟩
  | some program =>
    obtain ⟨u, hrenew, -, hu⟩ := renew_serves hy ht.toServes
    obtain ⟨v, hprime, -⟩ := prime_serves hy (isProgram_of_program? hname) hu
    simp only [EStateM.bind_apply, hrenew, hprime, EStateM.modify_apply]
    exact .inl ⟨_, rfl⟩

namespace InCycle

theorem withStorage (hI : CycleInvariant y I) (ht : t.InCycle I) {s : Storage}
    (hs : SameInstances t.execution.storage s) (issues : Array Diagnostic) :
    InCycle I { t with execution := ⟨s, t.execution.cursor⟩, issues } := fun program hstarted => by
  obtain ⟨i, hi⟩ := ht program hstarted
  exact ⟨i, hI.withStorage hi hs issues⟩

theorem call (hI : CycleInvariant y I) (hy : Executable y) (ht : Intact y t) (hready : Ready y.library t)
    (hcycle : t.InCycle I) (d : Driver) : (d.call t).state.InCycle I := by
  have hintact : Intact y (d.call t).state := by
    have hcall := call_intact hy ht d
    cases hresult : d.call t <;> rw [hresult] at hcall <;> exact hcall.1
  cases hstarted : t.program? with
  | none =>
    obtain ⟨e, he⟩ := Driver.call_of_not_ready (.inr hstarted)
    rw [he]
    exact hcycle.withStorage hI rfl _
  | some program =>
    obtain ⟨hready', hbetween⟩ := hready.call hstarted d
    by_cases hpaused : ∃ s u, d.call t = .ok (.at s) u
    · obtain ⟨s, u, hpaused⟩ := hpaused
      obtain ⟨i, hi⟩ := hcycle program hstarted
      rw [hpaused]
      exact fun _ _ => ⟨i, hI.paused hi (Driver.advanced_of_call ht.library hstarted hpaused)⟩
    · exact hI.betweenCycles hintact hready' (hbetween.mpr fun s u h => hpaused ⟨s, u, h⟩)

theorem perform (hI : CycleInvariant y I) (hy : Executable y) (ht : Intact y t) (hready : Ready y.library t)
    (hcycle : t.InCycle I) (c : Call) : (c.perform t).state.InCycle I := by
  cases c with
  | start name =>
    have hintact := start_intact hy ht name
    have hready' := hready.start name
    simp only [Call.perform, EStateM.adaptExcept_apply]
    obtain ⟨u, hu⟩ | ⟨d, issues, hfailed⟩ := start_state hy ht name
    · rw [hu] at hintact hready' ⊢
      obtain ⟨program, pou, i, s, -, -, -, rfl⟩ := exists_of_start ht.library hu
      exact hI.betweenCycles hintact.1 hready' rfl
    · rw [hfailed]
      exact hcycle.withStorage hI rfl issues
  | proceed d =>
    have hcall := hcycle.call hI hy ht hready d
    simp only [Call.perform, EStateM.bind_apply, EStateM.adaptExcept_apply]
    cases h : d.call t <;> rwa [h] at hcall
  | query text q hq =>
    obtain ⟨s, issues, hsame, hquery⟩ := query_state (instances_kept y.library) ht.library q
    have hstate : (Interpreter.query q t).state.InCycle I := by
      rw [hquery]
      exact hcycle.withStorage hI hsame issues
    simp only [Call.perform, EStateM.bind_apply]
    cases h : Interpreter.query q t <;> rwa [h] at hstate
  | setMemory memory =>
    exact hcycle.withStorage hI (s := { t.execution.storage with memory }) rfl t.issues

/-- After every call of a session the cycle in progress has the property. -/
theorem performAll (hI : CycleInvariant y I) (hy : Executable y) (ht : Intact y t) (hready : Ready y.library t)
    (hcycle : t.InCycle I) (calls : List Call) : (Call.performAll calls t).2.InCycle I := by
  induction calls generalizing t with
  | nil => exact hcycle
  | cons c rest ih =>
    have hintact := perform_intact hy ht c
    have hready' := hready.perform c
    have hcycle' := hcycle.perform hI hy ht hready c
    rw [Call.performAll]
    rcases hc : c.perform t with ⟨_, u⟩ | ⟨ds, u⟩ <;> rw [hc] at hintact hready' hcycle'
    · exact ih hintact.1 hready' hcycle'
    · exact ih hintact.1 hready' hcycle'

end InCycle

-- ---------------------------------------------------------------------------
-- Before a program is started
-- ---------------------------------------------------------------------------

theorem program_of_prime {l : Library} {program : Nat} (h : prime l program t = .ok () u) :
    u.program? = t.program? := by
  simp only [prime, EStateM.bind_apply, EStateM.get_apply, EStateM.ofExcept_apply, EStateM.modify_apply] at h
  cases hunit : atSpan .builtin (t.execution.storage.unitInstance program) <;> rw [hunit] at h <;> cases h
  rfl

/-- A program that is started stays so, however the call ends. -/
theorem Ready.call_program {l : Library} {program : Nat} (ht : Ready l t) (hprogram : t.program? = some program)
    (d : Driver) : (d.call t).state.program? = some program := by
  have hsame : SameProgram t (d.advanced l t).state := advanceTo_sameProgram _ _ t
  have hunits : (d.advanced l t).state.execution.storage.units = t.execution.storage.units := advanceTo_units _ _ t
  obtain ⟨v, hprime, -⟩ := (ht.toHoused.of_units hsame.library hsame.program hunits).prime (hsame.program.trans hprogram)
  have hv := (program_of_prime hprime).trans (hsame.program.trans hprogram)
  rw [d.call_eq ht.library hprogram]
  rcases hadvanced : d.advanced l t with ⟨_ | _, u⟩ | ⟨e, u⟩ <;> rw [hadvanced] at hsame hprime
  · exact hsame.program.trans hprogram
  · rw [EStateM.Result.state_ok] at hprime
    rw [conclude_complete hprime]
    exact hv
  · rw [EStateM.Result.state_error] at hprime
    rw [conclude_failed hprime]
    exact hv

theorem perform_notStarted (hy : Executable y) (ht : Intact y t) (hready : Ready y.library t) (c : Call)
    (h : (c.perform t).state.program? = none) :
    t.program? = none ∧ (c.perform t).state.execution.cursor = t.execution.cursor := by
  cases c with
  | start name =>
    simp only [Call.perform, EStateM.adaptExcept_apply] at h ⊢
    obtain ⟨u, hu⟩ | ⟨d, issues, hfailed⟩ := start_state hy ht name
    · obtain ⟨program, pou, i, s, -, -, -, rfl⟩ := exists_of_start ht.library hu
      rw [hu] at h
      cases h
    · rw [hfailed] at h ⊢
      exact ⟨h, rfl⟩
  | proceed d =>
    have hcall : (d.call t).state.program? = none →
        t.program? = none ∧ (d.call t).state.execution.cursor = t.execution.cursor := fun hnone => by
      cases hstarted : t.program? with
      | none =>
        obtain ⟨e, he⟩ := Driver.call_of_not_ready (.inr hstarted)
        exact ⟨rfl, by rw [he]; rfl⟩
      | some program => cases hnone.symm.trans (hready.call_program hstarted d)
    simp only [Call.perform, EStateM.bind_apply, EStateM.adaptExcept_apply] at h ⊢
    cases hd : d.call t <;> rw [hd] at hcall h <;> exact hcall h
  | query text q hq =>
    obtain ⟨s, issues, -, hquery⟩ := query_state (instances_kept y.library) ht.library q
    have hstate : (Interpreter.query q t).state.program? = none →
        t.program? = none ∧ (Interpreter.query q t).state.execution.cursor = t.execution.cursor := by
      rw [hquery]
      exact fun hnone => ⟨hnone, rfl⟩
    simp only [Call.perform, EStateM.bind_apply] at h ⊢
    cases hq : Interpreter.query q t <;> rw [hq] at hstate h <;> exact hstate h
  | setMemory memory => exact ⟨h, rfl⟩

/-- Nothing is in progress as long as no program is started. -/
theorem performAll_notStarted (hy : Executable y) (ht : Intact y t) (hready : Ready y.library t) (calls : List Call)
    (h : (Call.performAll calls t).2.program? = none) :
    t.program? = none ∧ (Call.performAll calls t).2.execution.cursor = t.execution.cursor := by
  induction calls generalizing t with
  | nil => exact ⟨h, rfl⟩
  | cons c rest ih =>
    have hintact := perform_intact hy ht c
    have hready' := hready.perform c
    have hfirst := perform_notStarted hy ht hready c
    rw [Call.performAll] at h ⊢
    rcases hc : c.perform t with ⟨_, u⟩ | ⟨ds, u⟩ <;> rw [hc] at hintact hready' hfirst h
    all_goals
      obtain ⟨hnone, hcursor⟩ := ih hintact.1 hready' h
      obtain ⟨ht, hcursor'⟩ := hfirst hnone
      exact ⟨ht, hcursor.trans hcursor'⟩

theorem program_of_link {units : List CompilationUnit} (h : Interpreter.link units t = .ok () u) :
    u.program? = none := by
  obtain ⟨l, s, -, -, rfl⟩ := exists_of_link h
  rfl

/-- Nothing is started when units have just been linked. -/
theorem inCycle_of_link {units : List CompilationUnit} (h : Interpreter.link units t = .ok () u) : u.InCycle I :=
  fun program hstarted => by
    rw [program_of_link h] at hstarted
    cases hstarted

end StructuredText.Interpreter
