-- SUMMARY: A cycle leaves what the evaluation of the program's body by recursion leaves.
import StructuredText.Proofs.Keeps
import StructuredText.Proofs.Refinement
import StructuredText.Proofs.Stepping

/-!
# Cycles as evaluations

A cycle is a number of micro-steps, each of which enters the program anew from the frames that are left. Yet
what it leaves is what an evaluation leaves that knows no micro-steps: the same variables and the same direct
memory, or the same diagnostic with them as they were when it came up. And what its micro-steps announce are
the statements that the evaluation performs.
-/

namespace StructuredText

namespace Interpreter

open BigStep

-- ---------------------------------------------------------------------------
-- Iterated micro-steps
-- ---------------------------------------------------------------------------

/-- The number of micro-steps after which a cycle is complete or fails, and what it ends with. -/
inductive Advances (l : Library) :
    Interpreter → Nat → EStateM.Result Diagnostic Interpreter Pause → Prop
  | complete {t u} (h : advance l t.counting = .ok (.pause .complete) u) :
    Advances l t 1 (.ok .complete u)
  | failed {t u d} (h : advance l t.counting = .error d u) : Advances l t 1 (.error d u)
  | more {t u a n r} (h : advance l t.counting = .ok a u) (ha : a ≠ .pause .complete)
    (hrest : Advances l u n r) : Advances l t (n + 1) r

variable {l : Library} {t : Interpreter} {n : Nat}
variable {r : EStateM.Result Diagnostic Interpreter Pause}

/-- A limit that is not less than the number of micro-steps makes no difference. -/
theorem advanceTo_of_advances (h : Advances l t n r) {limit : Nat} (hn : n ≤ limit) :
    advanceTo l never limit t = r := by
  induction h generalizing limit with
  | complete h | failed h =>
    obtain ⟨limit, rfl⟩ : ∃ k, limit = k + 1 := ⟨limit - 1, by omega⟩
    rw [advanceTo_succ, h]
  | @more t u a n r h ha hrest ih =>
    obtain ⟨limit, rfl⟩ : ∃ k, limit = k + 1 := ⟨limit - 1, by omega⟩
    rw [advanceTo_succ, h]
    rcases a with _ | _ | _
    · exact ih (by omega)
    · exact ih (by omega)
    · exact absurd rfl ha

theorem advance_units (l : Library) (t : Interpreter) :
    (advance l t).state.execution.storage.units = t.execution.storage.units := by
  have h : Keeps _ (Run.microStep ⟨l, t.options.realEpsilon⟩ t.frames) :=
    Run.microStep_keeps (Storage.units_kept l) t.frames
  replace h := h t.execution
  rw [advance_eq]
  rcases hx : Run.microStep ⟨l, t.options.realEpsilon⟩ t.frames t.execution with
    ⟨_ | _, x⟩ | ⟨d, x⟩ <;> rw [hx] at h <;> exact h

/-- What counting and micro-steps keep is kept up to an accepted pause. -/
theorem advanceTo_keeps {R : Interpreter → Interpreter → Prop} (hrefl : ∀ t, R t t)
    (htrans : ∀ {t u v}, R t u → R u v → R t v) (hcounting : ∀ t : Interpreter, R t t.counting)
    (hadvance : ∀ t, R t (advance l t).state) (stops : Nat → Bool) (limit : Nat) (t : Interpreter) :
    R t (advanceTo l stops limit t).state := by
  induction limit generalizing t with
  | zero => exact hrefl t
  | succ limit ih =>
    have hstep := htrans (hcounting t) (hadvance t.counting)
    rw [advanceTo_succ]
    rcases ht : advance l t.counting with ⟨_ | _ | _, u⟩ | ⟨d, u⟩ <;> rw [ht] at hstep
    · exact htrans hstep (ih u)
    · dsimp only
      split
      · exact hstep
      · exact htrans hstep (ih u)
    · exact hstep
    · exact hstep

theorem advanceTo_sameProgram (stops : Nat → Bool) (limit : Nat) (t : Interpreter) :
    SameProgram t (advanceTo l stops limit t).state :=
  advanceTo_keeps .refl .trans (fun _ => ⟨rfl, rfl, rfl, rfl⟩) (advance_sameProgram l) stops limit t

theorem advanceTo_units (stops : Nat → Bool) (limit : Nat) (t : Interpreter) :
    (advanceTo l stops limit t).state.execution.storage.units = t.execution.storage.units :=
  advanceTo_keeps (R := fun t u => u.execution.storage.units = t.execution.storage.units) (fun _ => rfl)
    (fun h h' => h'.trans h) (fun _ => rfl) (advance_units l) stops limit t

-- ---------------------------------------------------------------------------
-- Passing
-- ---------------------------------------------------------------------------

/-- Where an interpreter executes. -/
def environment (l : Library) (t : Interpreter) : Environment := ⟨l, t.options.realEpsilon⟩

/-- What the next micro-step ends with. -/
def upcoming (l : Library) (t : Interpreter) : Run.Stepped := Run.microStep (environment l t) t.frames t.execution

theorem advance_counting (l : Library) (t : Interpreter) :
    advance l t.counting =
      match upcoming l t with
      | .error d x => .error d { t.counting with execution := x }
      | .ok (.done _) x =>
        .ok (.pause .complete)
          { t.counting with execution := ⟨x.storage, x.cursor.clearPending⟩, frames := [] }
      | .ok (.paused frames) x =>
        .ok (match x.cursor.pause with
          | some statement => .pause (.at statement)
          | none => .progress)
          { t.counting with execution := Run.resumed x, frames } := advance_eq l t.counting

/-- The statement that an advance announces, with the storage there. -/
def Advance.announced : Advance → Storage → Trace
  | .pause (.at s), storage => [(s, storage)]
  | _, _ => []

/-- An advance that does not end the cycle passes one announcement at most. -/
theorem passes_of_advance {u : Interpreter} {a : Advance} (h : advance l t.counting = .ok a u)
    (ha : a ≠ .pause .complete) :
    Run.Passes (environment l t) (upcoming l t) 1 (a.announced u.execution.storage) (upcoming l u) := by
  rw [advance_counting] at h
  rcases hx : upcoming l t with ⟨_ | frames, x⟩ | ⟨d, x⟩ <;> rw [hx] at h
  · cases h
    exact absurd rfl ha
  · have hone : Run.Passes (environment l t) (.ok (.paused frames) x) 1 (Run.announced x)
        (Run.microStep (environment l t) frames (Run.resumed x)) := .one
    rw [Run.announced] at hone
    cases hpause : x.cursor.pause <;> simp only [hpause] at h hone <;> cases h <;> exact hone
  · cases h

/-- The outcomes are the same, and so are the variables and the direct memory. -/
def SameOutcome (r : EStateM.Result Diagnostic Interpreter Pause) : Run.Stepped → Prop
  | .ok (.done _) x => ∃ u, r = .ok .complete u ∧ u.execution.storage = x.storage
  | .ok (.paused _) _ => False
  | .error d x => ∃ u, r = .error d u ∧ u.execution.storage = x.storage

theorem SameOutcome.final {q : Run.Stepped} (h : SameOutcome r q) : Run.Final q := by
  rcases q with ⟨_ | _, x⟩ | ⟨d, x⟩
  · trivial
  · exact h.elim
  · trivial

theorem sameOutcome_of_complete {u : Interpreter} (h : advance l t.counting = .ok (.pause .complete) u) :
    SameOutcome (.ok .complete u) (upcoming l t) := by
  rw [advance_counting] at h
  rcases hx : upcoming l t with ⟨_ | frames, x⟩ | ⟨d, x⟩ <;> rw [hx] at h
  · cases h
    exact ⟨_, rfl, rfl⟩
  · simp only at h
    split at h <;> cases h
  · cases h

theorem sameOutcome_of_error {u : Interpreter} {d : Diagnostic} (h : advance l t.counting = .error d u) :
    SameOutcome (.error d u) (upcoming l t) := by
  rw [advance_counting] at h
  rcases hx : upcoming l t with ⟨_ | frames, x⟩ | ⟨d, x⟩ <;> rw [hx] at h <;> cases h
  exact ⟨_, rfl, rfl⟩

theorem environment_of_advance {u : Interpreter} {a : Advance} (h : advance l t.counting = .ok a u) :
    environment l u = environment l t := by
  have hsame := advance_sameProgram l t.counting
  rw [h] at hsame
  exact congrArg (fun options => Environment.mk l options.realEpsilon) hsame.options

theorem passes_of_advances (h : Advances l t n r) :
    ∃ k notes q, n = k + 1 ∧ Run.Passes (environment l t) (upcoming l t) k notes q ∧ SameOutcome r q := by
  induction h with
  | complete h => exact ⟨0, [], _, rfl, .refl, sameOutcome_of_complete h⟩
  | failed h => exact ⟨0, [], _, rfl, .refl, sameOutcome_of_error h⟩
  | @more t u a n r h ha _ ih =>
    obtain ⟨k, notes, q, rfl, hpasses, hr⟩ := ih
    rw [environment_of_advance h] at hpasses
    exact ⟨1 + k, _, q, by omega, (passes_of_advance h ha).trans hpasses, hr⟩

-- ---------------------------------------------------------------------------
-- Cycles
-- ---------------------------------------------------------------------------

/-- The program that runs is at the beginning of a cycle, in its instance. -/
structure AtStart (l : Library) (t : Interpreter) (program : Nat) (pou : Pou) (i : InstanceId) :
    Prop where
  library : t.library? = some l
  started : t.program? = some program
  declared : l.pous[program]? = some pou
  unit : t.execution.storage.unitInstance program = .ok i
  cursor : t.execution.cursor = .primed i
  frames : t.frames = [.start pou.body]
  steps : t.steps = 0

/-- A call ends as an evaluation does, with the same variables and the same direct memory. -/
def EndsAs {α : Type} (r : EStateM.Result Diagnostic Interpreter α) :
    EStateM.Result Stop Storage Completion → Prop
  | .ok _ s => ∃ a u, r = .ok a u ∧ u.execution.storage = s
  | .error (.failed d) s => ∃ u, r = .error d u ∧ u.execution.storage = s
  | .error .outOfFuel _ => False

/-- The evaluation of the body of a unit, in its instance. -/
def evaluateUnit (l : Library) (t : Interpreter) (pou : Pou) (i : InstanceId) (fuel : Nat) :
    EStateM.Result Stop Storage Completion :=
  evaluate fuel ⟨⟨l, t.options.realEpsilon⟩, i, []⟩ pou.body t.execution.storage

/-- The evaluation of the body of a unit, in its instance, with the statements that it performs. -/
def traceUnit (l : Library) (t : Interpreter) (pou : Pou) (i : InstanceId) (fuel : Nat) :
    EStateM.Result Stop Traced Completion :=
  Tracing.evaluate fuel ⟨environment l t, i, []⟩ pou.body ⟨t.execution.storage, []⟩

theorem untraced_traceUnit (l : Library) (t : Interpreter) (pou : Pou) (i : InstanceId) (fuel : Nat) :
    untraced (traceUnit l t pou i fuel) = evaluateUnit l t pou i fuel :=
  Tracing.evaluate_untraces fuel _ _ _

section

variable {program : Nat} {pou : Pou} {i : InstanceId} (hexits : ∀ pou ∈ l.pous, pou.body.ExitsInLoops False)
variable (hstart : AtStart l t program pou i)

include hexits hstart

theorem agrees_traceUnit (fuel : Nat) :
    Agrees (environment l t) fuel (BigStep.Ends ⟨environment l t, i, []⟩ []) (upcoming l t) []
      (traceUnit l t pou i fuel) := by
  have hbodies : RunsBodies (environment l t) fuel (Tracing.evaluate fuel) := runsBodies_evaluate hexits fuel
  have hcursor : t.execution = ⟨t.execution.storage, Context.cursor ⟨environment l t, i, []⟩ [] none⟩ :=
    congrArg (Execution.mk t.execution.storage) hstart.cursor
  rw [upcoming, hstart.frames, Run.microStep, Run.resumeAll_singleton, hcursor]
  exact hbodies _ [] rfl pou (List.mem_of_getElem? hstart.declared) t.execution.storage []

/-- Micro-steps that end end as the evaluation does, and announce what it performs. -/
theorem endsAs_of_passes {k : Nat} {notes : Trace} {q : Run.Stepped}
    (h : Run.Passes (environment l t) (upcoming l t) k notes q) (hr : SameOutcome r q) {fuel : Nat} (hfuel : k < fuel) :
    EndsAs r (evaluateUnit l t pou i fuel) ∧ (traceUnit l t pou i fuel).state.trace = notes := by
  have hagrees := agrees_traceUnit hexits hstart fuel
  rw [← untraced_traceUnit]
  rcases hy : traceUnit l t pou i fuel with ⟨c, x⟩ | ⟨d | _, x⟩ <;> rw [hy] at hagrees
  · obtain ⟨m, notes', a, c', hm, htrace, -⟩ := hagrees
    obtain ⟨-, rfl, rfl⟩ := h.unique hr.final hm trivial
    obtain ⟨u, rfl, hu⟩ := hr
    exact ⟨⟨_, u, rfl, hu⟩, htrace⟩
  · obtain ⟨m, notes', c', hm, htrace⟩ := hagrees
    obtain ⟨-, rfl, rfl⟩ := h.unique hr.final hm trivial
    obtain ⟨u, rfl, hu⟩ := hr
    exact ⟨⟨u, rfl, hu⟩, htrace⟩
  · obtain ⟨m, notes', q', hm, -, hle⟩ := hagrees
    have := (h.to_final hr.final hm).1
    omega

theorem advances_endsAs (h : Advances l t n r) {fuel : Nat} (hfuel : n ≤ fuel) :
    EndsAs r (evaluateUnit l t pou i fuel) := by
  obtain ⟨k, notes, q, rfl, hpasses, hr⟩ := passes_of_advances h
  exact (endsAs_of_passes hexits hstart hpasses hr hfuel).1

end

theorem prime_eq {program : Nat} {i : InstanceId} {pou : Pou}
    (hunit : t.execution.storage.unitInstance program = .ok i)
    (hpou : l.pous[program]? = some pou) :
    prime l program t = .ok () { t with
      execution := ⟨t.execution.storage, .primed i⟩, frames := [.start pou.body], steps := 0 } := by
  simp [prime, hunit, hpou, atSpan, Except.mapError]

/-- After the last micro-step of a cycle the next one is prepared. -/
theorem conclude_complete {program : Nat} {u v : Interpreter} (h : prime l program u = .ok () v) :
    conclude l program (.ok .complete u) = .ok (.complete, u.steps) v := by
  simp only [conclude, recording, orAbandon, EStateM.bind_apply, h]
  rfl

/-- A cycle that fails is abandoned, and its diagnostic is recorded. -/
theorem conclude_failed {program : Nat} {d : Diagnostic} {u v : Interpreter} (h : prime l program u = .ok () v) :
    conclude l program (.error d u) = .error d { v with issues := v.issues ++ [d] } := by
  simp only [conclude, recording, orAbandon, h]

/-- A storage that is renewed is a new one for the library. -/
theorem storage_of_renew {u : Interpreter} (h : renew l t = .ok () u) :
    ∃ s, Storage.ofLibrary l t.memory = .ok s ∧ u = { t with execution := ⟨s, t.execution.cursor⟩ } := by
  simp only [renew, EStateM.bind_apply, EStateM.get_apply, EStateM.modify_apply, EStateM.ofExcept_apply] at h
  cases hstorage : Storage.ofLibrary l t.memory with
  | error e => simp [hstorage, atSpan, Except.mapError] at h
  | ok s =>
    simp only [hstorage, atSpan, Except.mapError] at h
    cases h
    exact ⟨s, rfl, rfl⟩

/-- After linking, the storage is a new one for the library, and nothing has started. -/
theorem exists_of_link {units : List CompilationUnit} {u : Interpreter}
    (h : Interpreter.link units t = .ok () u) :
    ∃ l s, StructuredText.link units t.options = .ok l ∧ Storage.ofLibrary l t.memory = .ok s ∧
      u = { t with library? := some l, program? := none, frames := [], execution := ⟨s, .idle⟩ } := by
  rw [link_eq_recording] at h
  replace h := recording_eq_ok.mp h
  simp only [linkQuietly, EStateM.bind_apply, EStateM.modify_apply, EStateM.get_apply, EStateM.ofExcept_apply] at h
  cases hlink : StructuredText.link units t.options with
  | error ds => simp [hlink] at h
  | ok l =>
    simp only [hlink, EStateM.adaptExcept_apply] at h
    split at h
    · next _ v hrenew =>
      cases h
      split at hrenew
      · next _ w hrenew' =>
        cases hrenew
        obtain ⟨s, hs, rfl⟩ := storage_of_renew hrenew'
        exact ⟨l, s, rfl, hs, rfl⟩
      · cases hrenew
    · cases h

theorem pou_of_program {name : Ident} {program : Nat} (h : l.program? name = some program) :
    ∃ pou, l.pous[program]? = some pou := by
  simp only [Library.program?, bind, Option.bind_eq_some_iff] at h
  obtain ⟨position, -, pou, hpou, h⟩ := h
  split at h
  · cases h
    exact ⟨pou, hpou⟩
  · cases h

/-- A program that has just started is at its beginning, on a new storage. -/
theorem exists_of_start {name : Ident} {u : Interpreter} (hl : t.library? = some l) (h : start name t = .ok () u) :
    ∃ program pou i s, l.pous[program]? = some pou ∧ Storage.ofLibrary l t.memory = .ok s ∧
      s.unitInstance program = .ok i ∧ u = { t with
        execution := ⟨s, .primed i⟩, frames := [.start pou.body], program? := some program, steps := 0 } := by
  rw [start_eq_recording] at h
  replace h := recording_eq_ok.mp h
  simp only [startQuietly, EStateM.bind_apply, EStateM.get_apply, hl] at h
  cases hname : l.program? name with
  | none => simp [hname] at h
  | some program =>
    obtain ⟨pou, hpou⟩ := pou_of_program hname
    simp only [hname, EStateM.bind_apply, EStateM.modify_apply] at h
    cases hrenew : renew l t with
    | error d v => simp [hrenew] at h
    | ok _ v =>
      obtain ⟨s, hs, rfl⟩ := storage_of_renew hrenew
      simp only [hrenew] at h
      cases hunit : s.unitInstance program with
      | error e => simp [prime, hunit, atSpan, Except.mapError] at h
      | ok i =>
        rw [prime_eq hunit hpou] at h
        cases h
        exact ⟨program, pou, i, s, hpou, hs, hunit, rfl⟩

/-- A program that has started is at the beginning of a cycle. -/
theorem atStart_of_start {name : Ident} {u : Interpreter} (hl : t.library? = some l)
    (h : start name t = .ok () u) : ∃ program pou i, AtStart l u program pou i := by
  obtain ⟨program, pou, i, s, hpou, -, hunit, rfl⟩ := exists_of_start hl h
  exact ⟨program, pou, i, hl, rfl, hpou, hunit, rfl, rfl, rfl⟩

/-- What a source has been linked to is started. -/
theorem exists_of_startOn {source program : String} {u : Interpreter}
    (h : startOn source program t = .ok () u) :
    ∃ units l v, StructuredText.link units t.options = .ok l ∧ v.library? = some l ∧
      start { text := program } v = .ok () u := by
  simp only [startOn, EStateM.bind_apply, EStateM.ofExcept_apply, EStateM.adaptExcept_apply] at h
  cases hparse : parseUnit source .anonymous with
  | error ds => simp [hparse] at h
  | ok unit =>
    simp only [hparse] at h
    cases hlink : Interpreter.link [unit] t with
    | error ds v => simp [hlink] at h
    | ok _ v =>
      simp only [hlink] at h
      obtain ⟨l, s, hl, -, hv⟩ := exists_of_link hlink
      cases hstart : start { text := program } v with
      | error d w => simp [hstart] at h
      | ok _ w =>
        simp only [hstart] at h
        cases h
        exact ⟨[unit], l, v, hl, by rw [hv], hstart⟩

/-- A call whose micro-steps have not paused is at the beginning of the next cycle, with their outcome. -/
theorem conclude_of_ended {program : Nat} {pou : Pou} {i : InstanceId} (hstart : AtStart l t program pou i)
    (hsame : SameProgram t r.state) (hunits : r.state.execution.storage.units = t.execution.storage.units)
    (hends : ∀ s u, r ≠ .ok (.at s) u) :
    ∃ w, AtStart l w program pou i ∧ w.execution.storage = r.state.execution.storage ∧
      ((∃ u, r = .ok .complete u ∧ conclude l program r = .ok (.complete, u.steps) w) ∨
        ∃ d u, r = .error d u ∧ conclude l program r = .error d w) := by
  have hl := hsame.library.trans hstart.library
  have hp := hsame.program.trans hstart.started
  have hunit : r.state.execution.storage.unitInstance program = .ok i := by
    rw [← hstart.unit, Storage.unitInstance, hunits, Storage.unitInstance]
  have hprime := prime_eq hunit hstart.declared
  rcases r with ⟨_ | _, v⟩ | ⟨d, v⟩
  · exact absurd rfl (hends _ v)
  · simp only [EStateM.Result.state_ok] at hl hp hunit hprime
    exact ⟨{ v with execution := ⟨v.execution.storage, .primed i⟩, frames := [.start pou.body], steps := 0 },
      ⟨hl, hp, hstart.declared, hunit, rfl, rfl, rfl⟩, rfl, .inl ⟨v, rfl, conclude_complete hprime⟩⟩
  · simp only [EStateM.Result.state_error] at hl hp hunit hprime
    exact ⟨{ v with
        execution := ⟨v.execution.storage, .primed i⟩, frames := [.start pou.body], steps := 0,
        issues := v.issues ++ [d] },
      ⟨hl, hp, hstart.declared, hunit, rfl, rfl, rfl⟩, rfl, .inr ⟨d, v, rfl, conclude_failed hprime⟩⟩

/-- Running a cycle concludes the micro-steps that are performed, and does not tell their number. -/
theorem runCycle_eq {program : Nat} {pou : Pou} {i : InstanceId} (hstart : AtStart l t program pou i) :
    runCycle t = match conclude l program (Driver.runCycle.advanced l t) with
      | .ok a u => .ok a.2 u
      | .error d u => .error d u := by
  simp only [runCycle, EStateM.bind_apply]
  rw [show proceed (fun _ _ => false) = proceed Driver.runCycle.stops from rfl, proceed_eq hstart.library hstart.started]
  cases conclude l program (Driver.runCycle.advanced l t) <;> rfl

/-- A run of the cycle ends as its micro-steps do, at the beginning of the next cycle. -/
theorem runCycle_endsAs {program : Nat} {pou : Pou} {i : InstanceId}
    (hstart : AtStart l t program pou i) (h : Advances l t n r)
    (hn : n ≤ t.options.maxMicroSteps) {e : EStateM.Result Stop Storage Completion}
    (he : EndsAs r e) : EndsAs (runCycle t) e := by
  obtain ⟨w, -, hstorage, hconclude⟩ := conclude_of_ended hstart (advanceTo_sameProgram _ _ t) (advanceTo_units _ _ t)
    fun _ _ => advanceTo_never l (t.options.maxMicroSteps - t.steps) t
  have hadvanced : advanceTo l never (t.options.maxMicroSteps - t.steps) t = r :=
    advanceTo_of_advances h (by rw [hstart.steps]; omega)
  rw [hadvanced] at hstorage hconclude
  have hrun := runCycle_eq hstart
  rw [show Driver.runCycle.advanced l t = r from hadvanced] at hrun
  rcases e with ⟨c, s⟩ | ⟨d | _, s⟩
  · obtain ⟨p, u, rfl, hu⟩ := he
    obtain ⟨v, hv, hconclude⟩ | ⟨d, v, hv, -⟩ := hconclude
    · rw [hrun, hconclude]
      exact ⟨v.steps, w, rfl, hstorage.trans hu⟩
    · cases hv
  · obtain ⟨u, rfl, hu⟩ := he
    obtain ⟨v, hv, -⟩ | ⟨d, v, hv, hconclude⟩ := hconclude
    · cases hv
    · cases hv
      rw [hrun, hconclude]
      exact ⟨w, rfl, hstorage.trans hu⟩
  · exact he

/--
A cycle that stays within the limit of micro-steps ends as the evaluation of the program's body does, with
enough fuel. Its micro-steps and the call that runs them agree on that.
-/
theorem runCycle_refines {units : List CompilationUnit} {options : Options} {program : Nat}
    {pou : Pou} {i : InstanceId} (hlink : StructuredText.link units options = .ok l)
    (hstart : AtStart l t program pou i) (h : Advances l t n r)
    (hn : n ≤ t.options.maxMicroSteps) :
    ∃ enough, ∀ fuel ≥ enough,
      EndsAs r (evaluateUnit l t pou i fuel) ∧
        EndsAs (runCycle t) (evaluateUnit l t pou i fuel) := by
  refine ⟨n, fun fuel hfuel => ?_⟩
  have hends := advances_endsAs (fun _ hp => exitsInLoops_of_link hlink hp) hstart h hfuel
  exact ⟨hends, runCycle_endsAs hstart h hn hends⟩

end Interpreter

end StructuredText
