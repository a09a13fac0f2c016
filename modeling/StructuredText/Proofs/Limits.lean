-- SUMMARY: A call that goes on with a cycle ends within the limit of micro-steps, each of which ends by itself.
import StructuredText.Proofs.FreshCycle
import StructuredText.Proofs.Transitions

/-!
# Limits

A micro-step always ends, since its transitions are bounded by what is left to do. A call that goes on with a cycle
performs micro-steps until one of them fails, completes the cycle or comes to a pause that the call accepts. If none
does before the limit of the cycle is reached, the call fails for that reason, however long the program would go on.
-/

namespace StructuredText

-- ---------------------------------------------------------------------------
-- Where a micro-step has to end
-- ---------------------------------------------------------------------------

/-- A list that comes to one of its statements, or a loop that has executed its body. -/
inductive Yields : Focus → List Frame → Prop
  | block {info statements outer} : Yields (.stmt (.block info statements)) outer
  | statement {r statements outer} : Yields (.result r) (.rest statements :: outer)
  | forBody {r info remaining body outer} : Yields (.result r) (.forBody info remaining body :: outer)
  | whileBody {r info condition body outer} : Yields (.result r) (.whileBody info condition body :: outer)
  | repeatBody {r info body condition outer} : Yields (.result r) (.repeatBody info body condition :: outer)
  | repeatTest {r info body condition outer} : Yields (.result r) (.repeatTest info body condition :: outer)

namespace Run

variable {env : Environment} {x x' : Execution}

theorem settled_ne_stmt {k : Run (Progress Evaluated)} {outer frames : List Frame} {s : Stmt} :
    transition.behind outer (settled k) x ≠ .ok (.inr (.stmt s, frames)) x' := by
  simp only [transition.behind, settled, EStateM.bind_apply]
  rcases k x with ⟨r | inner, y⟩ | ⟨d, y⟩ <;> rintro ⟨⟩

/-- No statement is entered there: the micro-step ends first, but for the condition of a `REPEAT` loop. -/
theorem transition_ne_stmt {focus : Focus} {frames frames' : List Frame} {s : Stmt}
    (h : Yields focus frames) : transition env focus frames x ≠ .ok (.inr (.stmt s, frames')) x' := by
  cases h with
  | block | statement | forBody | whileBody | repeatTest => exact settled_ne_stmt
  | @repeatBody r info body condition outer =>
    simp only [transition, transition.behind, enterFrame, enterUntil, EStateM.bind_apply, EStateM.get_apply]
    cases x.cursor.pending with
    | none => rintro ⟨⟩
    | some transfer => exact settled_ne_stmt

end Run

namespace Interpreter

-- ---------------------------------------------------------------------------
-- The micro-steps of a call
-- ---------------------------------------------------------------------------

/-- What a micro-step that has ended makes of the interpreter. -/
def stepped (t : Interpreter) : Run.Stepped → EStateM.Result Diagnostic Interpreter Advance
  | .error d x => .error d { t with execution := x }
  | .ok (.done _) x =>
    .ok (.pause .complete) { t with execution := ⟨x.storage, x.cursor.clearPending⟩, frames := [] }
  | .ok (.paused frames) x =>
    .ok (match x.cursor.pause with
      | some statement => .pause (.at statement)
      | none => .progress) { t with execution := ⟨x.storage, x.cursor.clearPause⟩, frames }

/-- A micro-step of a cycle ends after no more transitions than what is left to do in it weighs. -/
theorem advance_eq_transitions (l : Library) (t : Interpreter) :
    ∃ p, Run.transitions ⟨l, t.options.realEpsilon⟩ (Frame.weightOfAll t.frames + 1) (.result {}) t.frames
        t.execution = Run.asEnded p ∧ advance l t = t.stepped p :=
  ⟨_, Run.microStep_eq_transitions t.frames t.execution, advance_eq l t⟩

/-- A number of micro-steps lead from one interpreter to another, and a call does not end with any of them. -/
inductive GoesOn (l : Library) (stops : Nat → Bool) : Nat → Interpreter → Interpreter → Prop
  | start {t} : GoesOn l stops 0 t t
  | progress {t u v n} (h : advance l t.counting = .ok .progress u) (hrest : GoesOn l stops n u v) :
    GoesOn l stops (n + 1) t v
  | pass {t u v n s} (h : advance l t.counting = .ok (.pause (.at s)) u)
    (hpass : stops u.execution.cursor.depth = false) (hrest : GoesOn l stops n u v) : GoesOn l stops (n + 1) t v

/-- The next micro-step is one that a call ends with. -/
inductive EndsNext (l : Library) (stops : Nat → Bool) (t : Interpreter) :
    EStateM.Result Diagnostic Interpreter Pause → Prop
  | failed {d u} (h : advance l t.counting = .error d u) : EndsNext l stops t (.error d u)
  | complete {u} (h : advance l t.counting = .ok (.pause .complete) u) : EndsNext l stops t (.ok .complete u)
  | paused {s u} (h : advance l t.counting = .ok (.pause (.at s)) u)
    (hstops : stops u.execution.cursor.depth = true) : EndsNext l stops t (.ok (.at s) u)

variable {l : Library} {stops : Nat → Bool} {t u v : Interpreter} {n : Nat}

theorem advanceTo_of_goesOn (h : GoesOn l stops n t u) (limit : Nat) :
    advanceTo l stops (n + limit) t = advanceTo l stops limit u := by
  induction h with
  | start => rw [Nat.zero_add]
  | progress h hrest ih => rw [Nat.add_right_comm, advanceTo_succ, h, ← ih]
  | pass h hpass hrest ih =>
    rw [Nat.add_right_comm, advanceTo_succ, h, ← ih]
    simp only [hpass, Bool.false_eq_true, if_false]

theorem advanceTo_of_endsNext {r : EStateM.Result Diagnostic Interpreter Pause} (h : EndsNext l stops t r)
    (limit : Nat) : advanceTo l stops (limit + 1) t = r := by
  cases h with
  | failed h | complete h => rw [advanceTo_succ, h]
  | paused h hstops =>
    rw [advanceTo_succ, h]
    simp only [hstops, if_true]

/-- A call that is not over within a number of micro-steps goes on for as long. -/
theorem exists_goesOn (l : Library) (stops : Nat → Bool) (limit : Nat) (t : Interpreter) :
    ∃ n u, n ≤ limit ∧ GoesOn l stops n t u ∧ (n = limit ∨ n < limit ∧ ∃ r, EndsNext l stops u r) := by
  induction limit generalizing t with
  | zero => exact ⟨0, t, Nat.le_refl 0, .start, .inl rfl⟩
  | succ limit ih =>
    have ends {r} (h : EndsNext l stops t r) :
        ∃ n u, n ≤ limit + 1 ∧ GoesOn l stops n t u ∧
          (n = limit + 1 ∨ n < limit + 1 ∧ ∃ r, EndsNext l stops u r) :=
      ⟨0, t, Nat.zero_le _, .start, .inr ⟨Nat.succ_pos limit, r, h⟩⟩
    have goesOn {u} (hstep : ∀ {n v}, GoesOn l stops n u v → GoesOn l stops (n + 1) t v) :
        ∃ n u, n ≤ limit + 1 ∧ GoesOn l stops n t u ∧
          (n = limit + 1 ∨ n < limit + 1 ∧ ∃ r, EndsNext l stops u r) := by
      obtain ⟨n, v, hn, hgoesOn, hend⟩ := ih u
      refine ⟨n + 1, v, Nat.succ_le_succ hn, hstep hgoesOn, ?_⟩
      obtain hlast | ⟨hlt, hend⟩ := hend
      · exact .inl (congrArg (· + 1) hlast)
      · exact .inr ⟨Nat.succ_lt_succ hlt, hend⟩
    rcases hadvance : advance l t.counting with ⟨_ | s | _, u⟩ | ⟨d, u⟩
    · exact goesOn (.progress hadvance)
    · cases hstops : stops u.execution.cursor.depth with
      | true => exact ends (.paused hadvance hstops)
      | false => exact goesOn (.pass hadvance hstops)
    · exact ends (.complete hadvance)
    · exact ends (.failed hadvance)

/-- Every micro-step is counted, and nothing else about the program changes. -/
theorem GoesOn.sameProgram (h : GoesOn l stops n t u) : u.steps = t.steps + n ∧ SameProgram t u := by
  induction h with
  | start => exact ⟨rfl, .refl _⟩
  | @progress t u v n h _ ih | @pass t u v n s h _ _ ih =>
    have hsteps := advance_steps l t.counting
    have hsame := advance_sameProgram l t.counting
    rw [h] at hsteps hsame
    simp only [EStateM.Result.state_ok, counting] at hsteps
    refine ⟨by omega, .trans ⟨hsame.1, hsame.2, hsame.3, hsame.4⟩ ih.2⟩

-- ---------------------------------------------------------------------------
-- The end of a call
-- ---------------------------------------------------------------------------

/-- Both results are the same error, or the same value. -/
def SameResult {ε σ α : Type} : EStateM.Result ε σ α → EStateM.Result ε σ α → Prop
  | .ok a _, .ok b _ => a = b
  | .error d _, .error e _ => d = e
  | _, _ => False

/-- What the micro-steps of a call end with is the result of the call. -/
theorem Housed.call_result (ht : Housed l t) {program : Nat} (hprogram : t.program? = some program) (d : Driver) :
    SameResult (d.advanced l t) (d.call t) := by
  have hsame : SameProgram t (d.advanced l t).state := advanceTo_sameProgram _ _ t
  have hunits : (d.advanced l t).state.execution.storage.units = t.execution.storage.units := advanceTo_units _ _ t
  have hhoused : Housed l (d.advanced l t).state := ht.of_units hsame.library hsame.program hunits
  obtain ⟨v, hprime, -⟩ := hhoused.prime (hsame.program.trans hprogram)
  rw [d.call_eq ht.library hprogram]
  rcases hadvanced : d.advanced l t with ⟨_ | _, u⟩ | ⟨e, u⟩ <;> rw [hadvanced] at hprime
  · exact rfl
  · rw [EStateM.Result.state_ok] at hprime
    rw [conclude_complete hprime]
    exact rfl
  · rw [EStateM.Result.state_error] at hprime
    rw [conclude_failed hprime]
    exact rfl

/-- The error of a cycle that is not over when it has reached its limit. -/
def limitExceeded (t : Interpreter) : Diagnostic :=
  misuse .stepLimitExceeded s!"Cycle did not finish within {t.options.maxMicroSteps} micro-steps"

/-- A call performs micro-steps up to one that it ends with, or else as many as are left of the limit. -/
theorem Driver.advanced_eq (d : Driver) (l : Library) (t : Interpreter) :
    ∃ n u, GoesOn l (d.stops t.execution.cursor.depth) n t u ∧
      (n = t.options.maxMicroSteps - t.steps ∧ d.advanced l t = .error t.limitExceeded u ∨
        n < t.options.maxMicroSteps - t.steps ∧
          ∃ r, EndsNext l (d.stops t.execution.cursor.depth) u r ∧ d.advanced l t = r) := by
  obtain ⟨n, u, hn, hgoesOn, hend⟩ :=
    exists_goesOn l (d.stops t.execution.cursor.depth) (t.options.maxMicroSteps - t.steps) t
  refine ⟨n, u, hgoesOn, ?_⟩
  have hadvanced := advanceTo_of_goesOn hgoesOn
  obtain hlast | ⟨hlt, r, hend⟩ := hend
  · refine .inl ⟨hlast, ?_⟩
    rw [Driver.advanced, ← hlast, ← Nat.add_zero n, hadvanced, limitExceeded,
      ← hgoesOn.sameProgram.2.options]
    rfl
  · refine .inr ⟨hlt, r, hend, ?_⟩
    obtain ⟨k, hk⟩ : ∃ k, t.options.maxMicroSteps - t.steps = n + (k + 1) :=
      ⟨t.options.maxMicroSteps - t.steps - n - 1, by omega⟩
    rw [Driver.advanced, hk, hadvanced, advanceTo_of_endsNext hend]

theorem EndsNext.steps {r : EStateM.Result Diagnostic Interpreter Pause} (h : EndsNext l stops t r) :
    r.state.steps = t.steps + 1 := by
  have hsteps := advance_steps l t.counting
  cases h with
  | failed h | complete h | paused h =>
    rw [h] at hsteps
    exact hsteps

/-- An error of the micro-steps is the error of the call. -/
theorem conclude_error (l : Library) (program : Nat) (d : Diagnostic) (u : Interpreter) :
    ∃ v, conclude l program (.error d u) = .error d v := by
  simp only [conclude, recording, orAbandon]
  cases prime l program u <;> exact ⟨_, rfl⟩

/-- The number of micro-steps that is reported for a cycle counts those before the call, too. -/
theorem runCycle_within_limit {program : Nat} (hl : t.library? = some l) (hprogram : t.program? = some program)
    (h : runCycle t = .ok n u) : n ≤ t.options.maxMicroSteps := by
  simp only [runCycle, EStateM.bind_apply] at h
  rw [show proceed (fun _ _ => false) = proceed Driver.runCycle.stops from rfl, proceed_eq hl hprogram] at h
  obtain ⟨k, w, hgoesOn, ⟨-, hadvanced⟩ | ⟨hlt, r, hend, hadvanced⟩⟩ := Driver.runCycle.advanced_eq l t
  · obtain ⟨v, hfailed⟩ := conclude_error l program t.limitExceeded w
    simp [hadvanced, hfailed] at h
  · cases hconclude : conclude l program (Driver.runCycle.advanced l t) with
    | error e w => simp [hconclude] at h
    | ok reported w =>
      simp only [hconclude] at h
      cases h
      have hcounted := steps_of_conclude hconclude
      rw [hadvanced, hend.steps, hgoesOn.sameProgram.1] at hcounted
      omega

/--
A call that goes on with a cycle always ends. Take any interpreter that has linked units and started a program, whatever
it has been asked for since then, and any limit of micro-steps. A micro-step of it ends after no more transitions than
what is left to do in it weighs, of which none enters a statement of a list or the body of a loop that has just been
executed. The call performs no more micro-steps than are left of the limit: it ends with the first one that fails,
completes the cycle or comes to a pause that it accepts, and it fails when there is none of them. A number of micro-steps
that is reported for a cycle does not exceed the limit.
-/
theorem call_within_limit {units : List CompilationUnit} {linked : Interpreter}
    (hlink : Interpreter.link units t = .ok () linked) (calls : List Call) {program : Nat}
    (hstarted : (Call.performAll calls linked).2.program? = some program) (d : Driver) :
    let reached := (Call.performAll calls linked).2
    let left := reached.options.maxMicroSteps - reached.steps
    let stops := d.stops reached.execution.cursor.depth
    ∃ l, reached.library? = some l ∧
      (∀ u : Interpreter, ∃ p, advance l u = u.stepped p ∧
        Run.transitions ⟨l, u.options.realEpsilon⟩ (Frame.weightOfAll u.frames + 1) (.result {}) u.frames u.execution =
          Run.asEnded p) ∧
      (∀ env focus frames x s frames' x', Yields focus frames →
        Run.transition env focus frames x ≠ .ok (.inr (.stmt s, frames')) x') ∧
      (∃ n u, GoesOn l stops n reached u ∧
        (n = left ∧ SameResult (.error u.limitExceeded u) (d.call reached) ∨
          n < left ∧ ∃ r, EndsNext l stops u r ∧ SameResult r (d.call reached))) ∧
      (∀ u, GoesOn l stops left reached u → SameResult (.error u.limitExceeded u) (d.call reached)) ∧
      ∀ n u, runCycle reached = .ok n u → n ≤ reached.options.maxMicroSteps := by
  intro reached left stops
  obtain ⟨l, hlinked⟩ := ready_of_link hlink
  have hready : Ready l reached := hlinked.performAll calls
  have hresult := hready.toHoused.call_result hstarted d
  have hlimit {n u} (h : GoesOn l stops n reached u) : u.limitExceeded = reached.limitExceeded := by
    rw [limitExceeded, h.sameProgram.2.options, limitExceeded]
  refine ⟨l, hready.library, fun u => ?_, fun _ _ _ _ _ _ _ => Run.transition_ne_stmt, ?_, fun u h => ?_, ?_⟩
  · obtain ⟨p, htransitions, hadvance⟩ := advance_eq_transitions l u
    exact ⟨p, hadvance, htransitions⟩
  · obtain ⟨n, u, hgoesOn, ⟨hn, hadvanced⟩ | ⟨hn, r, hend, hadvanced⟩⟩ := d.advanced_eq l reached
    · rw [hadvanced, ← hlimit hgoesOn] at hresult
      exact ⟨n, u, hgoesOn, .inl ⟨hn, hresult⟩⟩
    · rw [hadvanced] at hresult
      exact ⟨n, u, hgoesOn, .inr ⟨hn, r, hend, hresult⟩⟩
  · have hadvanced : d.advanced l reached = .error u.limitExceeded u := advanceTo_of_goesOn h 0
    rw [hadvanced] at hresult
    exact hresult
  · intro n u
    exact runCycle_within_limit hready.library hstarted

/-- A loop without end, in the body of another one. -/
def endlessSource : String :=
  "PROGRAM P VAR i : INT; END_VAR REPEAT i := 0; WHILE TRUE DO i := 1; END_WHILE; UNTIL FALSE END_REPEAT; END_PROGRAM"

/-- A step before the run. -/
def endlessCalls : List Call := [.start { text := "P" }, .proceed (.step .into)]

theorem call_within_limit_endless :
    ∃ unit linked, parseUnit endlessSource .anonymous = .ok unit ∧
      Interpreter.link [unit] { options := { maxMicroSteps := 9 } } = .ok () linked ∧
      let reached := (Call.performAll endlessCalls linked).2
      (Call.performAll (endlessCalls ++ [.proceed .runCycle]) linked).1.map (·.problem) = [.stepLimitExceeded] ∧
        reached.program? = some 0 ∧ reached.options.maxMicroSteps - reached.steps = 8 ∧
        ∃ l n u, reached.library? = some l ∧ GoesOn l (Driver.runCycle.stops 0) n reached u ∧
          (n = 8 ∧ SameResult (.error u.limitExceeded u) (Driver.runCycle.call reached) ∨
            n < 8 ∧ ∃ r, EndsNext l (Driver.runCycle.stops 0) u r ∧ SameResult r (Driver.runCycle.call reached)) := by
  have hrun :
      let linked := linkOn endlessSource { options := { maxMicroSteps := 9 } }
      let reached := (Call.performAll endlessCalls linked.state).2
      linked.isOk = true ∧
        (Call.performAll (endlessCalls ++ [.proceed .runCycle]) linked.state).1.map (·.problem) =
          [.stepLimitExceeded] ∧
        reached.program? = some 0 ∧ reached.options.maxMicroSteps - reached.steps = 8 := by
    have hchars : endlessSource.toList = _ := String.toList_ofList
    rw [linkOn, parseUnit, tokenize_of_toList hchars]
    decide +kernel
  obtain ⟨hlinked, hproblems, hstarted, hleft⟩ := hrun
  obtain ⟨unit, hparse, hlink⟩ := parsed_of_linkOn (EStateM.Result.eq_ok_of_isOk hlinked)
  obtain ⟨l, hl, -, -, ⟨n, u, hgoesOn, hend⟩, -⟩ := call_within_limit hlink endlessCalls hstarted .runCycle
  rw [hleft] at hend
  exact ⟨unit, _, hparse, hlink, hproblems, hstarted, hleft, l, n, u, hl, hgoesOn, hend⟩

end Interpreter

end StructuredText
