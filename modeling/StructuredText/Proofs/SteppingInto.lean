-- SUMMARY: Stepping into a program pauses once before each statement that it performs.
import StructuredText.Proofs.Limits

/-!
# Stepping into a cycle

A program that is only stepped into pauses before each statement that a cycle performs, in the order in which they are
performed: the statements of units that are called come after the one with the call, and those of a loop come once for
each iteration. Where it pauses, the variables and the direct memory are as the evaluation has them right before the
statement. So all that is performed before has had its effect, and nothing of the statement itself has.
-/

namespace StructuredText.Interpreter

open BigStep

variable {l : Library} {t u v : Interpreter} {notes notes' : Trace}

-- ---------------------------------------------------------------------------
-- Parts of a cycle
-- ---------------------------------------------------------------------------

/-- The micro-steps that are counted from one interpreter to another one of the same cycle pass the announcements. -/
structure Leads (l : Library) (t : Interpreter) (notes : Trace) (u : Interpreter) : Prop where
  same : SameProgram t u
  units : u.execution.storage.units = t.execution.storage.units
  counted : t.steps ≤ u.steps
  passes : Run.Passes (environment l t) (upcoming l t) (u.steps - t.steps) notes (upcoming l u)

namespace Leads

theorem refl (l : Library) (t : Interpreter) : Leads l t [] t :=
  ⟨.refl t, rfl, Nat.le_refl _, by rw [Nat.sub_self]; exact .refl⟩

theorem environment_eq (h : Leads l t notes u) : environment l u = environment l t :=
  congrArg (fun options : Options => Environment.mk l options.realEpsilon) h.same.options

theorem trans (h : Leads l t notes u) (h' : Leads l u notes' v) : Leads l t (notes ++ notes') v := by
  refine ⟨h.same.trans h'.same, h'.units.trans h.units, Nat.le_trans h.counted h'.counted, ?_⟩
  have hcount : v.steps - t.steps = (u.steps - t.steps) + (v.steps - u.steps) := by
    have := h.counted
    have := h'.counted
    omega
  rw [hcount]
  exact h.passes.trans (h.environment_eq ▸ h'.passes)

theorem of_advance {a : Advance} (h : advance l t.counting = .ok a u) (ha : a ≠ .pause .complete) :
    Leads l t (a.announced u.execution.storage) u ∧ u.steps = t.steps + 1 := by
  have hsame := advance_sameProgram l t.counting
  have hunits := advance_units l t.counting
  have hsteps : (advance l t.counting).state.steps = t.steps + 1 := advance_steps l t.counting
  rw [h] at hsame hunits hsteps
  simp only [EStateM.Result.state_ok] at hsame hunits hsteps
  refine ⟨⟨⟨hsame.1, hsame.2, hsame.3, hsame.4⟩, hunits, by omega, ?_⟩, hsteps⟩
  rw [hsteps, Nat.add_sub_cancel_left]
  exact passes_of_advance h ha

/-- What a step into a cycle goes on with announces nothing. -/
theorem of_goesOn {stops : Nat → Bool} (hstops : ∀ depth, stops depth = true) {n : Nat} (h : GoesOn l stops n t u) :
    Leads l t [] u := by
  induction h with
  | start => exact .refl l _
  | progress h _ ih => exact (of_advance h nofun).1.trans ih
  | pass _ hpass _ _ => cases (hstops _).symm.trans hpass

end Leads

-- ---------------------------------------------------------------------------
-- Stepping into a cycle
-- ---------------------------------------------------------------------------

/-- Steps into a program that pause, with the statement and the storage at each pause. -/
inductive StepsInto (t : Interpreter) : Trace → Interpreter → Prop
  | refl : StepsInto t [] t
  | step {pauses : Trace} {u v : Interpreter} {s : Span} (h : StepsInto t pauses u) (hstep : step .into u = .ok (.at s) v) :
    StepsInto t (pauses ++ [(s, v.execution.storage)]) v

/-- A program that has started begins a cycle, and so it does when a step into it does not pause. -/
inductive BeginsCycle (started : Interpreter) : Interpreter → Prop
  | start : BeginsCycle started started
  | next {t u : Interpreter} {pauses : Trace} (h : BeginsCycle started t) (hsteps : StepsInto t pauses u)
    (hends : ∀ s v, step .into u ≠ .ok (.at s) v) : BeginsCycle started (step .into u).state

/-- A cycle is cut off: it goes on beyond the limit of micro-steps, and these make the announcements. -/
def IsCutOff (l : Library) (t : Interpreter) (notes : Trace) (r : EStateM.Result Diagnostic Interpreter Pause) : Prop :=
  (∃ u, r = .error t.limitExceeded u) ∧
    ∃ q, Run.Passes (environment l t) (upcoming l t) t.options.maxMicroSteps notes q

/-- A cycle ends within the limit of micro-steps, and these make the announcements. -/
def EndsCycle (l : Library) (t : Interpreter) (notes : Trace) (r : EStateM.Result Diagnostic Interpreter Pause) : Prop :=
  ∃ k < t.options.maxMicroSteps, ∃ q, Run.Passes (environment l t) (upcoming l t) k notes q ∧ SameOutcome r q

theorem exists_of_sameResult_error {d : Diagnostic} {r : EStateM.Result Diagnostic Interpreter Pause}
    (h : SameResult (.error d t) r) : ∃ w, r = .error d w := by
  rcases r with ⟨p, w⟩ | ⟨e, w⟩
  · exact h.elim
  · obtain rfl : d = e := h
    exact ⟨w, rfl⟩

/-- It does not matter with which interpreter a call ends, except for its storage. -/
theorem SameOutcome.congr {r r' : EStateM.Result Diagnostic Interpreter Pause} {q : Run.Stepped} (h : SameOutcome r q)
    (hresult : SameResult r r') (hstorage : r'.state.execution.storage = r.state.execution.storage) :
    SameOutcome r' q := by
  rcases q with ⟨_ | _, x⟩ | ⟨d, x⟩
  · obtain ⟨u, rfl, hu⟩ := h
    rcases r' with ⟨p, v⟩ | ⟨e, v⟩
    · obtain rfl : .complete = p := hresult
      exact ⟨v, rfl, hstorage.trans hu⟩
    · exact hresult.elim
  · exact h.elim
  · obtain ⟨u, rfl, hu⟩ := h
    rcases r' with ⟨p, v⟩ | ⟨e, v⟩
    · exact hresult.elim
    · obtain rfl : d = e := hresult
      exact ⟨v, rfl, hstorage.trans hu⟩

section

variable {program : Nat} {pou : Pou} {i : InstanceId}

/-- A call whose micro-steps do not come to a pause has their result and storage, and the next cycle begins. -/
theorem Driver.call_ended (d : Driver) (hstart : AtStart l t program pou i) (h : Leads l t notes u)
    {r : EStateM.Result Diagnostic Interpreter Pause} (hr : d.advanced l u = r) (hends : ∀ s v, r ≠ .ok (.at s) v) :
    (∀ s v, d.call u ≠ .ok (.at s) v) ∧ AtStart l (d.call u).state program pou i ∧ SameResult r (d.call u) ∧
      (d.call u).state.execution.storage = r.state.execution.storage := by
  have hcall := d.call_eq (h.same.library.trans hstart.library) (h.same.program.trans hstart.started)
  have hsame : SameProgram u (d.advanced l u).state := advanceTo_sameProgram _ _ u
  have hunits : (d.advanced l u).state.execution.storage.units = u.execution.storage.units := advanceTo_units _ _ u
  rw [hr] at hcall hsame hunits
  obtain ⟨w, hw, hstorage, hconclude⟩ :=
    conclude_of_ended hstart (h.same.trans hsame) (hunits.trans h.units) hends
  obtain ⟨z, rfl, hconclude⟩ | ⟨e, z, rfl, hconclude⟩ := hconclude <;> rw [hconclude] at hcall <;> rw [hcall]
  · exact ⟨fun _ _ => by rintro ⟨⟩, hw, rfl, hstorage⟩
  · exact ⟨fun _ _ => by rintro ⟨⟩, hw, rfl, hstorage⟩

/-- A step into a cycle goes on to the next announcement, or the cycle is over. -/
theorem step_into_cases (hstart : AtStart l t program pou i) (h : Leads l t notes u)
    (hle : u.steps ≤ t.options.maxMicroSteps) :
    (∃ s v, step .into u = .ok (.at s) v ∧ Leads l t (notes ++ [(s, v.execution.storage)]) v ∧
        v.steps ≤ t.options.maxMicroSteps) ∨
      (∀ s v, step .into u ≠ .ok (.at s) v) ∧ AtStart l (step .into u).state program pou i ∧
        (EndsCycle l t notes (step .into u) ∨ IsCutOff l t notes (step .into u)) := by
  have hlimit : u.options.maxMicroSteps = t.options.maxMicroSteps := congrArg Options.maxMicroSteps h.same.options
  have hsteps := hstart.steps
  obtain ⟨n, v, hgoesOn, hend⟩ := (Driver.step .into).advanced_eq l u
  have hcount := hgoesOn.sameProgram.1
  have hleads : Leads l t notes v := List.append_nil notes ▸ h.trans (.of_goesOn (fun _ => rfl) hgoesOn)
  obtain ⟨hn, hadvanced⟩ | ⟨hn, r, hend, hadvanced⟩ := hend
  · obtain ⟨hends, hat, hresult, -⟩ := (Driver.step .into).call_ended hstart h hadvanced fun _ _ => by rintro ⟨⟩
    have hall : v.steps - t.steps = t.options.maxMicroSteps := by omega
    have hfailed : ∃ w, step .into u = .error t.limitExceeded w := by
      rw [limitExceeded, h.same.options] at hresult
      exact exists_of_sameResult_error hresult
    exact .inr ⟨hends, hat, .inr ⟨hfailed, _, hall ▸ hleads.passes⟩⟩
  · have hlt : v.steps - t.steps < t.options.maxMicroSteps := by omega
    cases hend with
    | @paused s z hadvance _ =>
      obtain ⟨hnext, hone⟩ := Leads.of_advance hadvance (by rintro ⟨⟩)
      have hcall : step .into u = .ok (.at s) z := by
        have hcall := (Driver.step .into).call_eq (h.same.library.trans hstart.library)
          (h.same.program.trans hstart.started)
        rwa [hadvanced] at hcall
      exact .inl ⟨s, z, hcall, hleads.trans hnext, by omega⟩
    | complete hadvance =>
      obtain ⟨hends, hat, hresult, hstorage⟩ :=
        (Driver.step .into).call_ended hstart h hadvanced fun _ _ => by rintro ⟨⟩
      exact .inr ⟨hends, hat, .inl ⟨_, hlt, _, hleads.passes,
        (sameOutcome_of_complete hadvance).congr hresult hstorage⟩⟩
    | failed hadvance =>
      obtain ⟨hends, hat, hresult, hstorage⟩ :=
        (Driver.step .into).call_ended hstart h hadvanced fun _ _ => by rintro ⟨⟩
      exact .inr ⟨hends, hat, .inl ⟨_, hlt, _, hleads.passes,
        (sameOutcome_of_error hadvance).congr hresult hstorage⟩⟩

theorem leads_of_stepsInto (hstart : AtStart l t program pou i) {pauses : Trace} (h : StepsInto t pauses u) :
    Leads l t pauses u ∧ u.steps ≤ t.options.maxMicroSteps := by
  induction h with
  | refl => exact ⟨.refl l t, by rw [hstart.steps]; exact Nat.zero_le _⟩
  | @step pauses u v s h hstep ih =>
    obtain ⟨s', v', hstep', hleads, hle⟩ | ⟨hends, -⟩ := step_into_cases hstart ih.1 ih.2
    · cases hstep.symm.trans hstep'
      exact ⟨hleads, hle⟩
    · exact absurd hstep (hends s v)

/-- A cycle begins at the beginning of the program that has started. -/
theorem atStart_of_beginsCycle {started : Interpreter} (hstart : AtStart l started program pou i)
    (h : BeginsCycle started t) : AtStart l t program pou i := by
  induction h with
  | start => exact hstart
  | next _ hsteps hends ih =>
    obtain ⟨hleads, hle⟩ := leads_of_stepsInto ih hsteps
    obtain ⟨s, v, hstep, -⟩ | ⟨-, hat, -⟩ := step_into_cases ih hleads hle
    · exact absurd hstep (hends s v)
    · exact hat

/-- What is announced first is what the evaluation performs first. -/
theorem prefix_traceUnit (hexits : ∀ pou ∈ l.pous, pou.body.ExitsInLoops False) (hstart : AtStart l t program pou i)
    {k : Nat} {q : Run.Stepped} (h : Run.Passes (environment l t) (upcoming l t) k notes q) {fuel : Nat} (hk : k ≤ fuel) :
    notes <+: (traceUnit l t pou i fuel).state.trace := by
  have hagrees := agrees_traceUnit hexits hstart fuel
  rcases hy : traceUnit l t pou i fuel with ⟨c, x⟩ | ⟨d | _, x⟩ <;> rw [hy] at hagrees
  · obtain ⟨m, notes', a, c', hm, htrace, -⟩ := hagrees
    obtain ⟨-, rest, -, rfl⟩ := hm.to_final trivial h
    exact ⟨rest, htrace.symm⟩
  · obtain ⟨m, notes', c', hm, htrace⟩ := hagrees
    obtain ⟨-, rest, -, rfl⟩ := hm.to_final trivial h
    exact ⟨rest, htrace.symm⟩
  · obtain ⟨m, notes', q', hm, htrace, hle⟩ := hagrees
    obtain ⟨rest, -, rfl⟩ := h.split hm (by omega)
    exact ⟨rest, htrace.symm⟩

end

/--
A program that is only stepped into pauses once before each statement that it performs. In each of its cycles, the pauses
so far are the first statements that the evaluation of the body performs, in the same order, and each pause has the
variables and the direct memory of the evaluation right before the statement. When a step does not pause, the cycle is
over: either it ends as the evaluation does, and all statements of the evaluation have been announced, or it is cut off,
and all announcements of the micro-steps within the limit have been pauses.
-/
theorem stepsInto_announces {units : List CompilationUnit} {options : Options}
    (hlink : StructuredText.link units options = .ok l) (hl : t.library? = some l) {name : Ident} {started : Interpreter}
    (hstart : start name t = .ok () started) {cycle : Interpreter} (hcycle : BeginsCycle started cycle) :
    ∃ program pou i, AtStart l cycle program pou i ∧
      ∀ pauses u, StepsInto cycle pauses u → ∀ fuel ≥ cycle.options.maxMicroSteps,
        pauses <+: (traceUnit l cycle pou i fuel).state.trace ∧
          ((∃ s v, step .into u = .ok (.at s) v) ∨
            (EndsAs (step .into u) (evaluateUnit l cycle pou i fuel) ∧
              pauses = (traceUnit l cycle pou i fuel).state.trace) ∨
            IsCutOff l cycle pauses (step .into u)) := by
  obtain ⟨program, pou, i, hat⟩ := atStart_of_start hl hstart
  have hat := atStart_of_beginsCycle hat hcycle
  have hexits (pou : Pou) (hpou : pou ∈ l.pous) : pou.body.ExitsInLoops False := exitsInLoops_of_link hlink hpou
  refine ⟨program, pou, i, hat, fun pauses u hsteps fuel hfuel => ?_⟩
  obtain ⟨hleads, hle⟩ := leads_of_stepsInto hat hsteps
  refine ⟨prefix_traceUnit hexits hat hleads.passes (by omega), ?_⟩
  obtain ⟨s, v, hstep, -⟩ | ⟨-, -, ⟨k, hk, q, hpasses, hr⟩ | hcut⟩ := step_into_cases hat hleads hle
  · exact .inl ⟨s, v, hstep⟩
  · obtain ⟨hends, htrace⟩ := endsAs_of_passes hexits hat hpasses hr (Nat.lt_of_lt_of_le hk hfuel)
    exact .inr (.inl ⟨hends, htrace.symm⟩)
  · exact .inr (.inr hcut)

/-- The pauses of a number of steps into a program, up to the first step that does not pause. -/
def pausesInto : Nat → Trace × Interpreter → Trace × Interpreter
  | 0, reached => reached
  | n + 1, (pauses, t) =>
    match step .into t with
    | .ok (.at s) u => pausesInto n (pauses ++ [(s, u.execution.storage)], u)
    | _ => (pauses, t)

theorem stepsInto_pausesInto {pauses : Trace} (n : Nat) (h : StepsInto t pauses u) :
    StepsInto t (pausesInto n (pauses, u)).1 (pausesInto n (pauses, u)).2 := by
  induction n generalizing pauses u with
  | zero => exact h
  | succ n ih =>
    rw [pausesInto]
    split
    · next s v hstep => exact ih (h.step hstep)
    · exact h

/-- A block that a `RETURN` leaves in its second call is called in a loop that an `EXIT` leaves. -/
def announcedSource : String :=
  "FUNCTION_BLOCK FB VAR n : INT; END_VAR n := n + 1; IF n > 1 THEN RETURN; END_IF; n := n; END_FUNCTION_BLOCK " ++
    "PROGRAM P VAR f : FB; END_VAR WHILE TRUE DO f(); IF f.n > 1 THEN EXIT; END_IF; END_WHILE; END_PROGRAM"

/-- Where the statements start in the text, in the order in which they are performed. -/
def announcedStarts : List Nat := [138, 152, 39, 51, 81, 157, 152, 39, 51, 65, 157, 173]

theorem stepsInto_announces_transfers :
    let started := startedOn announcedSource "P"
    ∃ units l t pauses u, StructuredText.link units {} = .ok l ∧ t.library? = some l ∧
      start { text := "P" } t = .ok () started ∧ StepsInto started pauses u ∧
      pauses.map (·.1.start) = announcedStarts ∧
      ∃ program pou i, AtStart l started program pou i ∧ ∀ fuel ≥ started.options.maxMicroSteps,
        EndsAs (step .into u) (evaluateUnit l started pou i fuel) ∧
          pauses = (traceUnit l started pou i fuel).state.trace := by
  intro started
  have hrun : (startOn announcedSource "P" {}).isOk = true ∧
      (pausesInto 20 ([], started)).1.map (·.1.start) = announcedStarts ∧
      isComplete (step .into (pausesInto 20 ([], started)).2) = true := by
    have hchars : announcedSource.toList = _ := toList_append_eq String.toList_ofList String.toList_ofList
    rw [show started = (startOn announcedSource "P" {}).state from rfl, startOn, parseUnit, tokenize_of_toList hchars]
    decide +kernel
  obtain ⟨hok, hstarts, hcomplete⟩ := hrun
  obtain ⟨units, l, t, hlink, hl, hstart⟩ := exists_of_startOn (EStateM.Result.eq_ok_of_isOk hok)
  have hsteps := stepsInto_pausesInto 20 (.refl (t := started))
  refine ⟨units, l, t, _, _, hlink, hl, hstart, hsteps, hstarts, ?_⟩
  obtain ⟨program, pou, i, hat, hall⟩ := stepsInto_announces hlink hl hstart .start
  refine ⟨program, pou, i, hat, fun fuel hfuel => ?_⟩
  obtain ⟨-, ⟨s, v, hpause⟩ | hends | ⟨⟨v, hcut⟩, -⟩⟩ := hall _ _ hsteps fuel hfuel
  · rw [hpause] at hcomplete
    cases hcomplete
  · exact hends
  · rw [hcut] at hcomplete
    cases hcomplete

end StructuredText.Interpreter
