-- SUMMARY: A cycle runs as it would on a machine that is built anew with the same variables.
import StructuredText.Proofs.Session

/-!
# Cycles start fresh

A cycle that is paused, completed or abandoned leaves positions in loops, waiting callers and requests to leave a loop
behind. None of them reaches the next cycle. Between two cycles an interpreter differs from one that has just started
the same program only in its storage and in the diagnostics that it has recorded, and the recorded diagnostics have no
influence on what it does.
-/

namespace StructuredText.Interpreter

-- ---------------------------------------------------------------------------
-- Recorded diagnostics
-- ---------------------------------------------------------------------------

/-- The interpreters differ at most in the diagnostics that they have recorded. -/
def SameButIssues (t u : Interpreter) : Prop := ∃ issues, u = { t with issues }

/-- Operations end in the same way, and with interpreters that differ at most in their recorded diagnostics. -/
def EndsAlike {ε α : Type} : EStateM.Result ε Interpreter α → EStateM.Result ε Interpreter α → Prop
  | .ok a t, .ok b u => a = b ∧ SameButIssues t u
  | .error d t, .error e u => d = e ∧ SameButIssues t u
  | _, _ => False

variable {l : Library} {t u : Interpreter} {ε α β : Type}

theorem SameButIssues.refl (t : Interpreter) : SameButIssues t t := ⟨t.issues, rfl⟩

theorem EndsAlike.state {r r' : EStateM.Result ε Interpreter α} (h : EndsAlike r r') :
    SameButIssues r.state r'.state := by
  cases r <;> cases r' <;> first | exact h.2 | exact h.elim

/-- What comes after operations that end alike ends alike. -/
theorem EndsAlike.bind {x : Interpreting ε α} {f : α → Interpreting ε β} (hx : EndsAlike (x t) (x u))
    (hf : ∀ a {t u}, SameButIssues t u → EndsAlike (f a t) (f a u)) : EndsAlike ((x >>= f) t) ((x >>= f) u) := by
  simp only [EStateM.bind_apply]
  cases ht : x t <;> cases hu : x u <;> rw [ht, hu] at hx
  · obtain ⟨rfl, h⟩ := hx
    exact hf _ h
  · exact hx.elim
  · exact hx.elim
  · exact hx

theorem EndsAlike.recording {diagnostics : ε → List Diagnostic} {x y : Interpreting ε α}
    (h : EndsAlike (x t) (y u)) : EndsAlike (recording diagnostics x t) (recording diagnostics y u) := by
  unfold Interpreter.recording
  cases ht : x t <;> cases hu : y u <;> rw [ht, hu] at h
  · exact h
  · exact h.elim
  · exact h.elim
  · obtain ⟨rfl, issues, rfl⟩ := h
    exact ⟨rfl, _, rfl⟩

theorem prime_alike (program : Nat) (h : SameButIssues t u) : EndsAlike (prime l program t) (prime l program u) := by
  obtain ⟨issues, rfl⟩ := h
  simp only [prime, EStateM.bind_apply, EStateM.get_apply, EStateM.ofExcept_apply, EStateM.modify_apply]
  cases atSpan .builtin (t.execution.storage.unitInstance program) with
  | ok i => exact ⟨rfl, issues, rfl⟩
  | error d => exact ⟨rfl, issues, rfl⟩

theorem advance_alike (h : SameButIssues t u) : EndsAlike (advance l t) (advance l u) := by
  obtain ⟨issues, rfl⟩ := h
  rw [advance_eq, advance_eq]
  rcases Run.microStep ⟨l, t.options.realEpsilon⟩ t.frames t.execution with ⟨_ | frames, x⟩ | ⟨d, x⟩ <;>
    exact ⟨rfl, issues, rfl⟩

theorem SameButIssues.counting (h : SameButIssues t u) : SameButIssues t.counting u.counting := by
  obtain ⟨issues, rfl⟩ := h
  exact ⟨issues, rfl⟩

theorem advanceTo_alike (stops : Nat → Bool) (limit : Nat) (h : SameButIssues t u) :
    EndsAlike (advanceTo l stops limit t) (advanceTo l stops limit u) := by
  induction limit generalizing t u with
  | zero =>
    obtain ⟨issues, rfl⟩ := h
    exact ⟨rfl, issues, rfl⟩
  | succ limit ih =>
    have hadvance := advance_alike (l := l) h.counting
    rw [advanceTo_succ, advanceTo_succ]
    rcases ht : advance l t.counting with ⟨a, t'⟩ | ⟨d, t'⟩ <;>
      rcases hu : advance l u.counting with ⟨b, u'⟩ | ⟨e, u'⟩ <;> rw [ht, hu] at hadvance
    · obtain ⟨rfl, h'⟩ := hadvance
      rcases a with _ | _ | _
      · exact ih h'
      · have hdepth : u'.execution.cursor.depth = t'.execution.cursor.depth := by
          obtain ⟨issues, rfl⟩ := h'
          rfl
        dsimp only
        rw [hdepth]
        split
        · exact ⟨rfl, h'⟩
        · exact ih h'
      · exact ⟨rfl, h'⟩
    · exact hadvance.elim
    · exact hadvance.elim
    · exact hadvance

theorem orAbandon_alike {program : Nat} {x y : Interpreting Diagnostic α} (h : EndsAlike (x t) (y u)) :
    EndsAlike (orAbandon l program x t) (orAbandon l program y u) := by
  unfold orAbandon
  rcases ht : x t with ⟨a, t'⟩ | ⟨d, t'⟩ <;> rcases hu : y u with ⟨b, u'⟩ | ⟨e, u'⟩ <;> rw [ht, hu] at h
  · exact h
  · exact h.elim
  · exact h.elim
  · obtain ⟨rfl, h⟩ := h
    have hprime := prime_alike (l := l) program h
    dsimp only
    cases ht' : prime l program t' <;> cases hu' : prime l program u' <;> rw [ht', hu'] at hprime
    · exact ⟨rfl, hprime.2⟩
    · exact hprime.elim
    · exact hprime.elim
    · obtain ⟨-, issues, rfl⟩ := hprime
      exact ⟨rfl, issues, rfl⟩

theorem readyQuietly_alike (h : SameButIssues t u) : EndsAlike (readyQuietly t) (readyQuietly u) := by
  obtain ⟨issues, rfl⟩ := h
  unfold readyQuietly
  simp only [EStateM.bind_apply, EStateM.get_apply]
  rcases t with ⟨_, _ | _, _, _, _ | _⟩ <;> exact ⟨rfl, issues, rfl⟩

theorem proceed_alike (stops : (start depth : Nat) → Bool) (h : SameButIssues t u) :
    EndsAlike (proceed stops t) (proceed stops u) := by
  rw [proceed_eq_recording]
  refine .recording (.bind (readyQuietly_alike h) fun (l, program) _ _ h => orAbandon_alike ?_)
  refine .bind (β := Pause × Nat) ?_ fun limits _ _ h =>
    .bind (advanceTo_alike (stops limits.1) limits.2 h) fun pause t u h => ?_
  · obtain ⟨issues, rfl⟩ := h
    exact ⟨rfl, issues, rfl⟩
  · have hsteps : u.steps = t.steps := by
      obtain ⟨issues, rfl⟩ := h
      rfl
    simp only [EStateM.bind_apply, EStateM.get_apply, hsteps]
    cases pause with
    | «at» s => exact ⟨rfl, h⟩
    | complete => exact .bind (prime_alike program h) fun _ _ _ h => ⟨rfl, h⟩

theorem Driver.call_alike (d : Driver) (h : SameButIssues t u) : EndsAlike (d.call t) (d.call u) := by
  cases d with
  | step kind => exact .bind (proceed_alike kind.stops h) fun _ _ _ h => ⟨rfl, h⟩
  | runCycle =>
    exact .bind (.bind (proceed_alike _ h) fun _ _ _ h => ⟨rfl, h⟩) fun _ _ _ h => ⟨rfl, h⟩

theorem Driver.counted_alike (d : Driver) (h : SameButIssues t u) : d.counted u = d.counted t := by
  have hadvanced (l : Library) : (d.advanced l u).state.steps = (d.advanced l t).state.steps := by
    have hu : d.advanced l u =
        advanceTo l (d.stops t.execution.cursor.depth) (t.options.maxMicroSteps - t.steps) u := by
      obtain ⟨issues, rfl⟩ := h
      rfl
    obtain ⟨issues, hissues⟩ := (advanceTo_alike (l := l) _ _ h).state
    rw [hu, hissues]
    rfl
  have hsame : u.library? = t.library? ∧ u.program? = t.program? ∧ u.steps = t.steps := by
    obtain ⟨issues, rfl⟩ := h
    exact ⟨rfl, rfl, rfl⟩
  simp only [Driver.counted, hsame, hadvanced]

-- ---------------------------------------------------------------------------
-- Outcomes
-- ---------------------------------------------------------------------------

/-- What a call that goes on with a cycle shows: how it ends, and the micro-steps that are counted for the cycle then. -/
structure Outcome where
  result : Except Diagnostic Pause
  counted : Nat

/-- Calls in order, whether they pause, complete a cycle or fail: what each of them shows, and what is left. -/
def outcomes : List Driver → Interpreter → List Outcome × Interpreter
  | [], t => ([], t)
  | d :: rest, t =>
    let (result, u) : Except Diagnostic Pause × Interpreter :=
      match d.call t with
      | .ok p u => (.ok p, u)
      | .error e u => (.error e, u)
    let (later, v) := outcomes rest u
    (⟨result, d.counted t⟩ :: later, v)

/-- Recorded diagnostics have no influence on what is shown. -/
theorem outcomes_alike (ds : List Driver) (h : SameButIssues t u) :
    (outcomes ds u).1 = (outcomes ds t).1 ∧ SameButIssues (outcomes ds t).2 (outcomes ds u).2 := by
  induction ds generalizing t u with
  | nil => exact ⟨rfl, h⟩
  | cons d rest ih =>
    have hcall := d.call_alike h
    rw [outcomes, outcomes, d.counted_alike h]
    cases ht : d.call t <;> cases hu : d.call u <;> rw [ht, hu] at hcall
    · obtain ⟨rfl, h'⟩ := hcall
      obtain ⟨hrest, hlast⟩ := ih h'
      exact ⟨by simp only [hrest], hlast⟩
    · exact hcall.elim
    · exact hcall.elim
    · obtain ⟨rfl, h'⟩ := hcall
      obtain ⟨hrest, hlast⟩ := ih h'
      exact ⟨by simp only [hrest], hlast⟩

-- ---------------------------------------------------------------------------
-- Between two cycles
-- ---------------------------------------------------------------------------

/-- No cycle is in progress: no micro-step is counted for the cycle that comes next. -/
def BetweenCycles (t : Interpreter) : Prop := t.steps = 0

/-- The units have the instances of a new storage of the library, and what has started is a program of it. -/
structure Housed (l : Library) (t : Interpreter) : Prop where
  library : t.library? = some l
  units : ∃ memory s, Storage.ofLibrary l memory = .ok s ∧ t.execution.storage.units = s.units
  started : ∀ program, t.program? = some program → (∃ name, l.program? name = some program) ∧
    ∃ pou i, l.pous[program]? = some pou ∧ t.execution.storage.unitInstance program = .ok i

/-- A program that is between two cycles is at its beginning. -/
structure Ready (l : Library) (t : Interpreter) : Prop extends Housed l t where
  atStart : t.BetweenCycles → ∀ program, t.program? = some program → ∃ pou i, AtStart l t program pou i

theorem unitInstance_of_units {s s' : Storage} (h : s'.units = s.units) (program : Nat) :
    s'.unitInstance program = s.unitInstance program := by
  rw [Storage.unitInstance, h, Storage.unitInstance]

/-- Executions of the same program keep this, as they do not change which instances belong to the units. -/
theorem Housed.of_units (ht : Housed l t) (hlibrary : u.library? = t.library?) (hprogram : u.program? = t.program?)
    (hunits : u.execution.storage.units = t.execution.storage.units) : Housed l u := by
  obtain ⟨memory, s, hs, hunits'⟩ := ht.units
  refine ⟨hlibrary.trans ht.library, ⟨memory, s, hs, hunits.trans hunits'⟩, fun program hstarted => ?_⟩
  rw [hprogram] at hstarted
  rw [unitInstance_of_units hunits]
  exact ht.started program hstarted

/-- The storage may change, as long as the instances of the units are the same, and diagnostics may be recorded. -/
theorem Ready.withStorage (ht : Ready l t) {s : Storage} (hs : s.units = t.execution.storage.units)
    (issues : Array Diagnostic) : Ready l { t with execution := ⟨s, t.execution.cursor⟩, issues } := by
  refine ⟨ht.toHoused.of_units rfl rfl hs, fun hbetween program hprogram => ?_⟩
  obtain ⟨pou, i, hlibrary, hstarted, hdeclared, hunit, hcursor, hframes, hsteps⟩ := ht.atStart hbetween program hprogram
  exact ⟨pou, i, hlibrary, hstarted, hdeclared, (unitInstance_of_units hs program).trans hunit, hcursor, hframes, hsteps⟩

theorem Ready.recording {diagnostics : ε → List Diagnostic} {x : Interpreting ε α} (h : Ready l (x t).state) :
    Ready l (recording diagnostics x t).state := by
  unfold Interpreter.recording
  cases hx : x t with
  | ok a u => rwa [hx] at h
  | error e u =>
    rw [hx] at h
    exact h.withStorage rfl _

/-- A program of the library is primed wherever its cycle has come to. -/
theorem Housed.prime (ht : Housed l t) {program : Nat} (hprogram : t.program? = some program) :
    ∃ u, prime l program t = .ok () u ∧ Ready l u ∧ u.BetweenCycles := by
  obtain ⟨hname, pou, i, hpou, hi⟩ := ht.started program hprogram
  refine ⟨_, prime_eq hi hpou, ⟨ht.of_units rfl rfl rfl, fun _ program' hprogram' => ?_⟩, rfl⟩
  cases hprogram.symm.trans hprogram'
  exact ⟨pou, i, ht.library, hprogram, hpou, hi, rfl, rfl, rfl⟩

/--
After a call that has completed or abandoned the cycle, the program is at its beginning again. After one that has
paused, it is not.
-/
theorem Ready.call (ht : Ready l t) {program : Nat} (hprogram : t.program? = some program) (d : Driver) :
    Ready l (d.call t).state ∧ ((d.call t).state.BetweenCycles ↔ ∀ s u, d.call t ≠ .ok (.at s) u) := by
  have hsame : SameProgram t (d.advanced l t).state := advanceTo_sameProgram _ _ t
  have hunits : (d.advanced l t).state.execution.storage.units = t.execution.storage.units := advanceTo_units _ _ t
  have hhoused : Housed l (d.advanced l t).state := ht.toHoused.of_units hsame.library hsame.program hunits
  obtain ⟨v, hprime, hready, hbetween⟩ := hhoused.prime (hsame.program.trans hprogram)
  rw [d.call_eq ht.library hprogram]
  rcases hadvanced : d.advanced l t with ⟨_ | _, u⟩ | ⟨e, u⟩ <;> rw [hadvanced] at hhoused hprime
  · -- The cycle is in progress, since the micro-step that has paused is counted.
    obtain ⟨-, hsteps, -⟩ := advanceTo_at hadvanced
    have hprogress : ¬ u.BetweenCycles := Nat.ne_of_gt (Nat.zero_lt_of_lt hsteps)
    refine ⟨⟨hhoused, fun h => absurd h hprogress⟩, fun h => absurd h hprogress, fun h => absurd rfl (h _ _)⟩
  · rw [EStateM.Result.state_ok] at hprime
    rw [conclude_complete hprime]
    exact ⟨hready, fun _ _ _ => by rintro ⟨⟩, fun _ => hbetween⟩
  · rw [EStateM.Result.state_error] at hprime
    rw [conclude_failed hprime]
    exact ⟨hready.withStorage rfl _, fun _ _ _ => by rintro ⟨⟩, fun _ => hbetween⟩

-- ---------------------------------------------------------------------------
-- Sessions
-- ---------------------------------------------------------------------------

theorem Housed.renew (ht : Housed l t) :
    ∃ s : Storage, s.units = t.execution.storage.units ∧
      renew l t = .ok () { t with execution := ⟨s, t.execution.cursor⟩ } := by
  obtain ⟨memory, s, hs, hunits⟩ := ht.units
  have hstorage : atSpan .builtin (Storage.ofLibrary l t.memory) = .ok { s with memory := t.memory } :=
    atSpan_eq_ok.mpr (ofLibrary_memory hs t.memory)
  simp only [Interpreter.renew, EStateM.bind_apply, EStateM.get_apply, EStateM.modify_apply, EStateM.ofExcept_apply,
    hstorage]
  exact ⟨{ s with memory := t.memory }, hunits.symm, rfl⟩

/-- A program that has an instance starts at its beginning, on a new storage. -/
theorem Housed.start (ht : Housed l t) {name : Ident} {program : Nat} {pou : Pou} {i : InstanceId}
    (hname : l.program? name = some program) (hpou : l.pous[program]? = some pou)
    (hunit : t.execution.storage.unitInstance program = .ok i) :
    ∃ s, s.units = t.execution.storage.units ∧ start name t = .ok () { t with
      execution := ⟨s, .primed i⟩, frames := [.start pou.body], program? := some program, steps := 0 } := by
  obtain ⟨s, hs, hrenew⟩ := ht.renew
  rw [start_eq_recording]
  refine ⟨s, hs, recording_eq_ok.mpr ?_⟩
  have hprime := prime_eq (t := { t with execution := ⟨s, t.execution.cursor⟩ })
    ((unitInstance_of_units hs program).trans hunit) hpou
  simp only [startQuietly, EStateM.bind_apply, EStateM.get_apply, ht.library, hname, EStateM.modify_apply] at hrenew hprime ⊢
  rw [hrenew]
  simp only [hprime]

/-- A start leaves a program at its beginning, unless it fails, which leaves the cycle in progress where it is. -/
theorem Ready.start (ht : Ready l t) (name : Ident) : Ready l (start name t).state := by
  cases hname : l.program? name with
  | none =>
    rw [start_eq_recording]
    refine .recording ?_
    simp only [startQuietly, EStateM.bind_apply, EStateM.get_apply, ht.library, hname]
    exact ht
  | some program =>
    obtain ⟨pou, hpou⟩ := pou_of_program hname
    cases hunit : t.execution.storage.unitInstance program with
    | error e =>
      obtain ⟨s, hs, hrenew⟩ := ht.toHoused.renew
      have hprime : prime l program { t with execution := ⟨s, t.execution.cursor⟩ } =
          .error (e.at .builtin) { t with execution := ⟨s, t.execution.cursor⟩ } := by
        simp [Interpreter.prime, unitInstance_of_units hs, hunit, atSpan, Except.mapError]
      rw [start_eq_recording]
      refine .recording ?_
      simp only [startQuietly, EStateM.bind_apply, EStateM.get_apply, ht.library, hname]
      rw [hrenew]
      dsimp only
      rw [hprime]
      exact ht.withStorage hs t.issues
    | ok i =>
      obtain ⟨s, hs, hstart⟩ := ht.toHoused.start hname hpou hunit
      obtain ⟨memory, s', hs', hunits⟩ := ht.units
      have hunit' : s.unitInstance program = .ok i := (unitInstance_of_units hs program).trans hunit
      rw [hstart]
      refine ⟨⟨ht.library, ⟨memory, s', hs', hs.trans hunits⟩, fun _ hprogram => ?_⟩, fun _ _ hprogram => ?_⟩
      · cases hprogram
        exact ⟨⟨name, hname⟩, pou, i, hpou, hunit'⟩
      · cases hprogram
        exact ⟨pou, i, ht.library, rfl, hpou, hunit', rfl, rfl, rfl⟩

theorem runWithin_keeps {env : Environment} {R : Storage → Storage → Prop} (hR : Kept env.library R) (limit : Nat)
    (frames : List Frame) : Keeps R (runWithin env limit frames) := by
  induction limit generalizing frames with
  | zero => exact hR.pure none
  | succ limit ih =>
    refine hR.bind (Run.microStep_keeps hR frames) fun a => ?_
    cases a with
    | done r => exact hR.pure (some r)
    | paused frames => exact ih frames

theorem answer_keeps {env : Environment} {R : Storage → Storage → Prop} (hR : Kept env.library R) (limit : Nat)
    (q : Stmt) : Keeps R (answer env limit q) := by
  refine hR.bind (runWithin_keeps hR limit _) fun r => ?_
  cases r with
  | none => exact hR.throw _
  | some r =>
    dsimp only
    split
    · exact hR.bind (hR.asking _ _) fun v => hR.asking _ _
    · exact hR.bind (hR.throw _) fun v => hR.asking _ _
    · exact hR.bind (hR.pure _) fun v => hR.asking _ _

/-- A query changes at most the storage, by reading and writing variables, and the recorded diagnostics. -/
theorem query_state {R : Storage → Storage → Prop} (hR : Kept l R) (hl : t.library? = some l) (q : Query) :
    ∃ s issues, R t.execution.storage s ∧
      (query q t).state = { t with execution := ⟨s, t.execution.cursor⟩, issues } := by
  obtain ⟨options, _, ⟨storage, cursor⟩, frames, program?, steps, issues⟩ := t
  obtain rfl : _ = some l := hl
  rw [query_eq_recording]
  simp only [evaluateQuery, Interpreter.recording, EStateM.bind_apply, EStateM.get_apply, EStateM.ofExcept_apply]
  cases prepareQuery l options.realEpsilon q with
  | error ds => exact ⟨storage, _, hR.refl storage, rfl⟩
  | ok prepared =>
    have hkept : Keeps R (answer ⟨l, options.realEpsilon⟩ options.maxMicroSteps prepared) := answer_keeps hR _ prepared
    replace hkept := hkept ⟨storage, .idle⟩
    dsimp only
    generalize answer ⟨l, options.realEpsilon⟩ options.maxMicroSteps prepared ⟨storage, .idle⟩ = result at hkept ⊢
    rcases result with ⟨shown, x⟩ | ⟨d, x⟩ <;> exact ⟨x.storage, _, hkept, rfl⟩

theorem Ready.query (ht : Ready l t) (q : Query) : Ready l (query q t).state := by
  obtain ⟨s, issues, hunits, hquery⟩ := query_state (Storage.units_kept l) ht.library q
  rw [hquery]
  exact ht.withStorage hunits issues

theorem Ready.perform (ht : Ready l t) (c : Call) : Ready l (c.perform t).state := by
  cases c with
  | start name =>
    have hstart := ht.start name
    simp only [Call.perform, EStateM.adaptExcept_apply]
    cases h : Interpreter.start name t <;> rwa [h] at hstart
  | proceed driver =>
    have hcall : Ready l (driver.call t).state := by
      cases hprogram : t.program? with
      | none =>
        obtain ⟨e, he⟩ := Driver.call_of_not_ready (.inr hprogram)
        rw [he]
        exact ht.withStorage rfl _
      | some program => exact (ht.call hprogram driver).1
    simp only [Call.perform, EStateM.bind_apply, EStateM.adaptExcept_apply]
    cases h : driver.call t <;> rwa [h] at hcall
  | query text q hq =>
    have hquery := ht.query q
    simp only [Call.perform, EStateM.bind_apply]
    cases h : Interpreter.query q t <;> rwa [h] at hquery
  | setMemory memory => exact ht.withStorage (s := { t.execution.storage with memory }) rfl t.issues

theorem Ready.performAll (ht : Ready l t) (calls : List Call) : Ready l (Call.performAll calls t).2 := by
  induction calls generalizing t with
  | nil => exact ht
  | cons c rest ih =>
    have hperform := ht.perform c
    rw [Call.performAll]
    rcases hc : c.perform t with ⟨_, u⟩ | ⟨ds, u⟩ <;> rw [hc] at hperform <;> exact ih hperform

theorem ready_of_link {units : List CompilationUnit} (h : Interpreter.link units t = .ok () u) : ∃ l, Ready l u := by
  obtain ⟨l, s, -, hs, rfl⟩ := exists_of_link h
  exact ⟨l, ⟨rfl, ⟨_, s, hs, rfl⟩, nofun⟩, fun _ => nofun⟩

/-- At the beginning of a cycle only the storage and the recorded diagnostics are not determined. -/
theorem AtStart.eq {program : Nat} {pou : Pou} {i : InstanceId} (h : AtStart l t program pou i) :
    t = { t with
      library? := some l, execution := ⟨t.execution.storage, .primed i⟩, frames := [.start pou.body]
      program? := some program, steps := 0 } := by
  obtain ⟨options, library?, ⟨storage, cursor⟩, frames, program?, steps, issues⟩ := t
  obtain ⟨rfl, rfl, -, -, rfl, rfl, rfl⟩ := h
  rfl

/--
What has just started a program is, but for its storage, options and recorded diagnostics, any interpreter that is at
the beginning of the program.
-/
theorem Ready.eq_of_start (ht : Ready l t) (hbetween : t.BetweenCycles) {program : Nat}
    (hstarted : t.program? = some program) {other : Interpreter} (hlibrary : other.library? = t.library?) {name : Ident}
    (h : Interpreter.start name other = .ok () u) (hprogram : u.program? = some program) :
    ∃ s, Storage.ofLibrary l other.memory = .ok s ∧ s.units = t.execution.storage.units ∧
      u = { t with
        options := other.options, execution := ⟨s, t.execution.cursor⟩, issues := other.issues } := by
  obtain ⟨pou, i, hat⟩ := ht.atStart hbetween program hstarted
  obtain ⟨memory, s, hs, hunits⟩ := ht.units
  obtain ⟨program', pou', i', s', hpou', hs', hunit', rfl⟩ := exists_of_start (hlibrary.trans ht.library) h
  cases hprogram
  obtain rfl : pou' = pou := Option.some.inj (hpou'.symm.trans hat.declared)
  -- Both have created their storage from the same library, so the program has the same instance in both.
  have hsame : s'.units = t.execution.storage.units := by
    cases (ofLibrary_memory hs other.memory).symm.trans hs'
    exact hunits.symm
  have hi : i' = i := by
    rw [unitInstance_of_units hsame, hat.unit] at hunit'
    exact (Except.ok.inj hunit').symm
  refine ⟨s', hs', hsame, ?_⟩
  rw [hat.eq, hi, hlibrary, hat.library]

/-- The interpreter with the variables and the direct memory of another one. -/
def holding (t : Interpreter) (s : Storage) : Interpreter := { t with execution := ⟨s, t.execution.cursor⟩ }

end StructuredText.Interpreter
