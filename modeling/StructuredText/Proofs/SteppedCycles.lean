-- SUMMARY: A cycle of the controller leaves what the evaluation of the body leaves, and starts fresh.
import StructuredText.Proofs.FreshCycle
import StructuredText.Proofs.MirroredCalls

/-!
# Stepped cycles

Each micro-step of the controller enters the body of the running instance again from its root and finds its way by the
states of the nodes. A whole cycle leaves what an evaluation leaves that keeps no state. And what a cycle that is paused,
completed or abandoned leaves in the nodes, their results and the places that they have found, does not reach the next
one: it runs as it would on a machine that is built anew with the same variables.
-/

namespace StructuredText.Controller

open Interpreter (Driver Outcome)

/-- The number of micro-steps after which a cycle is complete or fails, and what it ends with. -/
inductive Advances (l : Library) (program : Nat) : Controller → Nat → EStateM.Result Diagnostic Controller Pause → Prop
  | complete {c c'} (h : advance l program c = .ok (.pause .complete) c') : Advances l program c 1 (.ok .complete c')
  | failed {c c' d} (h : advance l program c = .error d c') : Advances l program c 1 (.error d c')
  | more {c c' a n r} (h : advance l program c = .ok a c') (ha : a ≠ .pause .complete) (hrest : Advances l program c' n r) :
    Advances l program c (n + 1) r

variable {l : Library} {c c' : Controller} {t : Interpreter} {program : Nat} {pou : Pou} {i : InstanceId} {n : Nat}
  {r : EStateM.Result Diagnostic Controller Pause}

-- ---------------------------------------------------------------------------
-- The beginning of a cycle
-- ---------------------------------------------------------------------------

/-- The program that runs is at the beginning of a cycle, in its instance. Every instance is at the start of its body. -/
structure AtStart (l : Library) (c : Controller) (program : Nat) (pou : Pou) (i : InstanceId) : Prop where
  library : c.library? = some l
  started : c.program? = some program
  home : Home l c.machine.storage program pou i
  cursor : c.cursor = .primed i
  steps : c.steps = 0
  embodied : c.machine.Embodied l
  rests : ∀ j, c.machine.Rests l j

theorem AtStart.inStep (h : AtStart l c program pou i) : InStep l program pou i c (c.framed [.start pou.body]) := by
  refine .of_runs h.library h.started h.home ?_ (h.steps ▸ Nat.zero_le _)
  rw [h.cursor]
  exact Machine.runs_primed h.embodied h.rests h.home.body

theorem AtStart.framed (h : AtStart l c program pou i) :
    Interpreter.AtStart l (c.framed [.start pou.body]) program pou i :=
  ⟨h.library, h.started, h.home.declared, h.home.unit, h.cursor, rfl, h.steps⟩

/-- The controller is at the beginning where the interpreter is. -/
theorem InStep.atStart (h : InStep l program pou i c t) (ht : Interpreter.AtStart l t program pou i) :
    AtStart l c program pou i := by
  have hcursor : c.cursor = .primed i := (congrArg (·.execution.cursor) h.eq).symm.trans ht.cursor
  have hruns := h.runs
  rw [hcursor, ht.frames] at hruns
  exact ⟨h.library, h.started, h.home, hcursor, h.steps.symm.trans ht.steps, hruns.embodied, hruns.rests h.home.body⟩

/-- No cycle is in progress: no micro-step is counted for the cycle that comes next. -/
def BetweenCycles (c : Controller) : Prop := c.steps = 0

theorem InStep.between_iff (h : InStep l program pou i c t) : c.BetweenCycles ↔ t.BetweenCycles := by
  rw [BetweenCycles, Interpreter.BetweenCycles, h.steps]

/-- Between two cycles the program is at its beginning. -/
theorem Mirrors.atStart {y : Layout} (h : Mirrors y c t) (ht : Interpreter.Ready y.library t)
    (hstarted : c.program? = some program) (hbetween : c.BetweenCycles) : ∃ pou i, AtStart y.library c program pou i := by
  obtain ⟨pou, i, hin⟩ := h.cycle program hstarted
  obtain ⟨pou', i', hat⟩ := ht.atStart (hin.between_iff.mp hbetween) program (h.started.trans hstarted)
  cases hat.declared.symm.trans hin.home.declared
  obtain rfl : i' = i := Except.ok.inj ((h.storage ▸ hat.unit).symm.trans hin.home.unit)
  exact ⟨pou, i', hin.atStart hat⟩

/-- What calls have led to from linked units. -/
theorem ready_of_replies {units : List CompilationUnit} (hunits : ∀ u ∈ units, u.Built) {linked : Controller}
    (hlink : link units c = .ok () linked) (calls : List Interpreter.Call) :
    ∃ y t, StructuredText.link units c.options = .ok y.library ∧ Interpreter.Executable y ∧ y.library.Steppable ∧
      Mirrors y (replies calls linked).2 t ∧ Interpreter.Ready y.library t := by
  obtain ⟨y, hlibrary, hy, hl, hlinked⟩ := mirrors_of_link hunits hlink
  obtain ⟨-, hmirrors⟩ := replies_mirrored hy hl hlinked calls
  obtain ⟨l, hready⟩ := Interpreter.ready_of_link (framed_link hlink).1
  replace hready := hready.performAll calls
  rw [Interpreter.Call.performAll_eq_replies] at hready
  obtain rfl : y.library = l := Option.some.inj (hmirrors.intact.library.symm.trans hready.library)
  exact ⟨y, _, hlibrary, hy, hl, hmirrors, hready⟩

/-- Whatever it has been asked for, a controller between two cycles of a program is at the beginning of the program. -/
theorem atStart_of_replies {units : List CompilationUnit} (hunits : ∀ u ∈ units, u.Built) {linked : Controller}
    (hlink : link units c = .ok () linked) (calls : List Interpreter.Call)
    (hstarted : (replies calls linked).2.program? = some program) (hbetween : (replies calls linked).2.BetweenCycles) :
    ∃ l pou i, StructuredText.link units c.options = .ok l ∧ AtStart l (replies calls linked).2 program pou i := by
  obtain ⟨y, t, hlibrary, -, -, hmirrors, hready⟩ := ready_of_replies hunits hlink calls
  obtain ⟨pou, i, hat⟩ := hmirrors.atStart hready hstarted hbetween
  exact ⟨y.library, pou, i, hlibrary, hat⟩

-- ---------------------------------------------------------------------------
-- Iterated micro-steps
-- ---------------------------------------------------------------------------

/-- Both hold the same variables and the same direct memory. -/
def SameStorage (c : Controller) (t : Interpreter) : Prop := t.execution.storage = c.machine.storage

theorem InStep.sameStorage (h : InStep l program pou i c t) : SameStorage c t :=
  congrArg (fun t : Interpreter => t.execution.storage) h.eq

theorem Completed.sameStorage (h : Completed l program pou i c t) : SameStorage c t :=
  congrArg (fun t : Interpreter => t.execution.storage) h.eq

theorem Failed.sameStorage (h : Failed l program pou i c t) : SameStorage c t :=
  congrArg (fun t : Interpreter => t.execution.storage) h.eq

/-- The micro-steps of a cycle are those of the interpreter. -/
theorem advances_mirrored (hl : l.Steppable) (h : InStep l program pou i c t) (hadvances : Advances l program c n r)
    (hlimit : c.steps + n ≤ c.options.maxMicroSteps) :
    ∃ r', Interpreter.Advances l t n r' ∧ EndTogether (fun _ => SameStorage) SameStorage r r' := by
  induction hadvances generalizing t with
  | @complete c c' hadvance =>
    have htogether := advance_together hl h hlimit
    rw [hadvance] at htogether
    generalize hr : Interpreter.advance l t.counting = r' at htogether
    cases htogether with
    | going ha => exact absurd rfl ha
    | complete _ h' => exact ⟨_, .complete hr, rfl, h'.sameStorage⟩
  | @failed c c' d hadvance =>
    have htogether := advance_together hl h hlimit
    rw [hadvance] at htogether
    generalize hr : Interpreter.advance l t.counting = r' at htogether
    cases htogether with
    | failed h' => exact ⟨_, .failed hr, rfl, h'.sameStorage⟩
  | @more c c' a n r hadvance ha _ ih =>
    have htogether := advance_together hl h (by omega)
    rw [hadvance] at htogether
    generalize hr : Interpreter.advance l t.counting = r' at htogether
    cases htogether with
    | going _ h' =>
      obtain ⟨hsteps, hoptions⟩ := h.counted hr h'
      obtain ⟨r', hrest, hend⟩ := ih h' (by rw [hsteps, hoptions]; omega)
      exact ⟨r', .more hr ha hrest, hend⟩
    | complete hfinal => exact absurd hfinal ha

-- ---------------------------------------------------------------------------
-- Cycles as evaluations
-- ---------------------------------------------------------------------------

/-- A call ends as an evaluation does, with the same variables and the same direct memory. -/
def EndsAs {α : Type} (r : EStateM.Result Diagnostic Controller α) :
    EStateM.Result BigStep.Stop Storage BigStep.Completion → Prop
  | .ok _ s => ∃ a c, r = .ok a c ∧ c.machine.storage = s
  | .error (.failed d) s => ∃ c, r = .error d c ∧ c.machine.storage = s
  | .error .outOfFuel _ => False

/-- The evaluation of the body of a unit, in its instance. -/
def evaluateUnit (l : Library) (c : Controller) (pou : Pou) (i : InstanceId) (fuel : Nat) :
    EStateM.Result BigStep.Stop Storage BigStep.Completion :=
  BigStep.evaluate fuel ⟨⟨l, c.options.realEpsilon⟩, i, []⟩ pou.body c.machine.storage

theorem EndsAs.of_together {α : Type} {r : EStateM.Result Diagnostic Controller α}
    {r' : EStateM.Result Diagnostic Interpreter α} {e : EStateM.Result BigStep.Stop Storage BigStep.Completion}
    (h : EndTogether (fun _ => SameStorage) SameStorage r r') (he : Interpreter.EndsAs r' e) : EndsAs r e := by
  rcases e with ⟨completion, s⟩ | ⟨d | _, s⟩
  · obtain ⟨a, u, rfl, hu⟩ := he
    rcases r with ⟨a', c⟩ | ⟨d, c⟩
    · exact ⟨a', c, rfl, h.2.symm.trans hu⟩
    · exact h.elim
  · obtain ⟨u, rfl, hu⟩ := he
    rcases r with ⟨a', c⟩ | ⟨d', c⟩
    · exact h.elim
    · obtain ⟨rfl, hsame⟩ := h
      exact ⟨c, rfl, hsame.symm.trans hu⟩
  · exact he

theorem runCycle_together (hl : l.Steppable) (h : InStep l program pou i c t) :
    EndTogether (fun _ => InStep l program pou i) (InStep l program pou i) (runCycle c) (Interpreter.runCycle t) :=
  EndTogether.bind (proceed_together hl h .runCycle) fun _ _ _ h => ⟨rfl, h⟩

/-- Units as they are built are linked to a library whose bodies can be stepped. -/
theorem steppable_of_link {units : List CompilationUnit} {options : Options} (hunits : ∀ u ∈ units, u.Built)
    (hlink : StructuredText.link units options = .ok l) : l.Steppable :=
  ⟨(resolved_of_link (fun u hu => (hunits u hu).toFresh) hlink).2, distinct_of_link hunits hlink⟩

/--
A cycle that stays within the limit of micro-steps ends as the evaluation of the program's body does, with enough fuel.
Each micro-step is one step of the root of the running body, and the nodes keep where the next one goes on. The
micro-steps and the call that runs them agree on that.
-/
theorem runCycle_evaluates {units : List CompilationUnit} {options : Options} (hunits : ∀ u ∈ units, u.Built)
    (hlink : StructuredText.link units options = .ok l) (hstart : AtStart l c program pou i)
    (h : Advances l program c n r) (hn : n ≤ c.options.maxMicroSteps) :
    ∃ enough, ∀ fuel ≥ enough,
      EndsAs r (evaluateUnit l c pou i fuel) ∧ EndsAs (runCycle c) (evaluateUnit l c pou i fuel) := by
  have hl := steppable_of_link hunits hlink
  obtain ⟨r', hadvances, hend⟩ := advances_mirrored hl hstart.inStep h (by rwa [hstart.steps, Nat.zero_add])
  have hrun := (runCycle_together hl hstart.inStep).mono (fun _ _ _ => InStep.sameStorage) fun _ _ => InStep.sameStorage
  obtain ⟨enough, hends⟩ := Interpreter.runCycle_refines hlink hstart.framed hadvances hn
  exact ⟨enough, fun fuel hfuel => ⟨.of_together hend (hends fuel hfuel).1, .of_together hrun (hends fuel hfuel).2⟩⟩

/-- A cycle that is run to its end is complete after some micro-steps. -/
theorem advances_of_advanceTo {limit : Nat} (h : advanceTo l program Interpreter.never limit c = .ok .complete c') :
    ∃ n ≤ limit, Advances l program c n (.ok .complete c') := by
  induction limit generalizing c with
  | zero => cases h
  | succ limit ih =>
    rw [advanceTo_succ] at h
    rcases hadvance : advance l program c with ⟨_ | _ | _, c₁⟩ | ⟨d, c₁⟩ <;> rw [hadvance] at h
    · obtain ⟨n, hn, hadvances⟩ := ih h
      exact ⟨n + 1, Nat.succ_le_succ hn, .more hadvance (by rintro ⟨⟩) hadvances⟩
    · obtain ⟨n, hn, hadvances⟩ := ih h
      exact ⟨n + 1, Nat.succ_le_succ hn, .more hadvance (by rintro ⟨⟩) hadvances⟩
    · cases h
      exact ⟨1, Nat.succ_le_succ (Nat.zero_le _), .complete hadvance⟩
    · cases h

/-- The cycle is over. -/
def isComplete : EStateM.Result Diagnostic Controller Pause → Bool
  | .ok .complete _ => true
  | _ => false

theorem eq_ok_of_isComplete {r : EStateM.Result Diagnostic Controller Pause} (h : isComplete r = true) :
    ∃ c, r = .ok .complete c := by
  unfold isComplete at h
  split at h
  · exact ⟨_, rfl⟩
  · cases h

/-- A function that a `RETURN` leaves is called in a loop that an `EXIT` leaves. -/
def transfersSource : String :=
  "FUNCTION F : INT RETURN; END_FUNCTION PROGRAM P VAR i : INT; END_VAR " ++
    "FOR i := 1 TO 3 DO IF F() < i THEN EXIT; END_IF; END_FOR; END_PROGRAM"

theorem runCycle_evaluates_transfers :
    ∃ unit l c pou i n c', parseUnit transfersSource .anonymous = .ok unit ∧
      StructuredText.link [unit] {} = .ok l ∧ AtStart l c 1 pou i ∧ Advances l 1 c n (.ok .complete c') ∧
      n ≤ c.options.maxMicroSteps ∧
      ∃ enough, ∀ fuel ≥ enough,
        EndsAs (.ok Pause.complete c') (evaluateUnit l c pou i fuel) ∧
          EndsAs (runCycle c) (evaluateUnit l c pou i fuel) := by
  have hrun :
      let linked := linkOn transfersSource {}
      let c := (replies [.start { text := "P" }] linked.state).2
      linked.isOk = true ∧ c.program? = some 1 ∧ c.steps = 0 ∧ c.options.maxMicroSteps = 1000000 ∧
        c.library?.any (fun l => isComplete (advanceTo l 1 Interpreter.never 100 c)) = true := by
    have hchars : transfersSource.toList = _ := toList_append_eq String.toList_ofList String.toList_ofList
    rw [linkOn, parseUnit, tokenize_of_toList hchars]
    decide +kernel
  obtain ⟨hlinked, hstarted, hbetween, hlimit, hcomplete⟩ := hrun
  obtain ⟨unit, hparse, hlink⟩ := parsed_of_linkOn (EStateM.Result.eq_ok_of_isOk hlinked)
  have hunits : ∀ u ∈ [unit], u.Built := List.forall_mem_singleton.mpr (built_of_parseUnit hparse)
  obtain ⟨l, pou, i, hl, hat⟩ := atStart_of_replies hunits hlink _ hstarted hbetween
  rw [hat.library, Option.any_some] at hcomplete
  obtain ⟨c', hadvance⟩ := eq_ok_of_isComplete hcomplete
  obtain ⟨n, hn, hadvances⟩ := advances_of_advanceTo hadvance
  have hle : n ≤ (replies [.start { text := "P" }] (linkOn transfersSource {}).state).2.options.maxMicroSteps := by
    rw [hlimit]
    exact Nat.le_trans hn (by decide)
  exact ⟨unit, l, _, pou, i, n, c', hparse, hl, hat, hadvances, hle,
    runCycle_evaluates hunits hl hat hadvances hle⟩

-- ---------------------------------------------------------------------------
-- Outcomes
-- ---------------------------------------------------------------------------

/-- Performs a call that goes on with a cycle. -/
def drive : Driver → Controlling Diagnostic Pause
  | .step kind => step kind
  | .runCycle => do
    let _ ← runCycle
    pure .complete

/--
The micro-steps that have been performed in the cycle when the call ends. One beyond the limit is counted, but it is
refused.
-/
def performed (d : Driver) (c : Controller) : Nat :=
  match c.library?, c.program? with
  | some l, some program =>
    let ended := advanceTo l program (d.stops c.cursor.depth) (c.options.maxMicroSteps - c.steps + 1) c
    min ended.state.steps c.options.maxMicroSteps
  | _, _ => c.steps

/-- Calls in order, whether they pause, complete a cycle or fail: what each of them shows, and what is left. -/
def outcomes : List Driver → Controller → List Outcome × Controller
  | [], c => ([], c)
  | d :: rest, c =>
    let (result, c') : Except Diagnostic Pause × Controller :=
      match drive d c with
      | .ok p c' => (.ok p, c')
      | .error e c' => (.error e, c')
    let (later, last) := outcomes rest c'
    (⟨result, performed d c⟩ :: later, last)

/-- The interpreter has counted the micro-steps that the controller has performed. -/
theorem Together.steps {α : Type} {final : α → Prop} {r : EStateM.Result Diagnostic Controller α}
    {r' : EStateM.Result Diagnostic Interpreter α} (h : Together l program pou i final r r') :
    min r.state.steps r'.state.options.maxMicroSteps = r'.state.steps := by
  cases h with
  | going _ h =>
    rw [EStateM.Result.state_ok, EStateM.Result.state_ok, h.options, h.steps]
    exact Nat.min_eq_left h.limit
  | complete _ h =>
    rw [EStateM.Result.state_ok, EStateM.Result.state_ok, h.eq]
    exact Nat.min_eq_left h.next.limit
  | failed h =>
    rw [EStateM.Result.state_error, EStateM.Result.state_error, h.eq]
    rfl

section

variable (hl : l.Steppable) (h : InStep l program pou i c t)

include hl h

theorem drive_together (d : Driver) :
    EndTogether (fun _ => InStep l program pou i) (InStep l program pou i) (drive d c) (d.call t) := by
  cases d with
  | step kind => exact EndTogether.bind (proceed_together hl h (.step kind)) fun _ _ _ h => ⟨rfl, h⟩
  | runCycle => exact EndTogether.bind (runCycle_together hl h) fun _ _ _ h => ⟨rfl, h⟩

/-- As many micro-steps are performed as the interpreter counts. -/
theorem performed_eq (d : Driver) : performed d c = d.counted t := by
  have hlibrary : t.library? = some l := (congrArg (fun t : Interpreter => t.library?) h.eq).trans h.library
  have hprogram : t.program? = some program := (congrArg (fun t : Interpreter => t.program?) h.eq).trans h.started
  have hdepth : t.execution.cursor.depth = c.cursor.depth :=
    congrArg (fun t : Interpreter => t.execution.cursor.depth) h.eq
  have htogether := advanceTo_together hl (d.stops c.cursor.depth) _ h (Nat.add_sub_cancel' h.limit)
  have hsame := Interpreter.advanceTo_sameProgram (l := l) (d.stops c.cursor.depth) (c.options.maxMicroSteps - c.steps) t
  simp only [performed, h.library, h.started, Driver.counted, hlibrary, hprogram, Driver.advanced, hdepth, h.options,
    h.steps]
  generalize advanceTo l program (d.stops c.cursor.depth) (c.options.maxMicroSteps - c.steps + 1) c = r at htogether ⊢
  generalize Interpreter.advanceTo l (d.stops c.cursor.depth) (c.options.maxMicroSteps - c.steps) t = r'
    at htogether hsame ⊢
  rw [← htogether.steps, hsame.options, h.options]

theorem outcomes_mirrored (ds : List Driver) :
    (outcomes ds c).1 = (Interpreter.outcomes ds t).1 ∧
      InStep l program pou i (outcomes ds c).2 (Interpreter.outcomes ds t).2 := by
  induction ds generalizing c t with
  | nil => exact ⟨rfl, h⟩
  | cons d rest ih =>
    have hdrive := drive_together hl h d
    rw [outcomes, Interpreter.outcomes, performed_eq hl h d]
    obtain ⟨p, c', t', hr, hr', h'⟩ | ⟨e, c', t', hr, hr', h'⟩ := hdrive.ok_or_error <;> rw [hr, hr']
    · obtain ⟨hrest, hlast⟩ := ih h'
      exact ⟨by simp only [hrest], hlast⟩
    · obtain ⟨hrest, hlast⟩ := ih h'
      exact ⟨by simp only [hrest], hlast⟩

end

-- ---------------------------------------------------------------------------
-- Fresh machines
-- ---------------------------------------------------------------------------

/-- The controllers differ at most in what the nodes of their bodies keep, and in the diagnostics they have recorded. -/
def SameButBodies (c c' : Controller) : Prop :=
  ∃ bodies issues, c' = { c with machine := ⟨c.machine.storage, bodies⟩, issues }

theorem sameButBodies_of_framed {frames frames' : List Frame}
    (h : Interpreter.SameButIssues (c.framed frames) (c'.framed frames')) : SameButBodies c c' := by
  obtain ⟨issues, h⟩ := h
  obtain ⟨options, library?, ⟨storage, bodies⟩, cursor, program?, steps, issues'⟩ := c'
  cases h
  exact ⟨bodies, _, rfl⟩

/-- Controllers at the beginning of the same program go on alike with the same variables, whatever their nodes keep. -/
theorem outcomes_alike (hl : l.Steppable) (h : AtStart l c program pou i) (h' : AtStart l c' program pou i)
    (hoptions : c'.options = c.options) (hstorage : c'.machine.storage = c.machine.storage) (ds : List Driver) :
    (outcomes ds c').1 = (outcomes ds c).1 ∧ SameButBodies (outcomes ds c).2 (outcomes ds c').2 := by
  have hsame : Interpreter.SameButIssues (c.framed [.start pou.body]) (c'.framed [.start pou.body]) := by
    refine ⟨c'.issues, ?_⟩
    simp only [Controller.framed, hoptions, hstorage, h.library, h'.library, h.cursor, h'.cursor, h.started, h'.started,
      h.steps, h'.steps]
  obtain ⟨hleft, hend⟩ := outcomes_mirrored hl h.inStep ds
  obtain ⟨hright, hend'⟩ := outcomes_mirrored hl h'.inStep ds
  obtain ⟨houtcomes, hlast⟩ := Interpreter.outcomes_alike ds hsame
  refine ⟨hright.trans (houtcomes.trans hleft.symm), ?_⟩
  rw [hend.eq, hend'.eq] at hlast
  exact sameButBodies_of_framed hlast

/-- A new machine that is given variables is at the beginning of the program. -/
theorem atStart_begun {s s' : Storage} (hl : l.Steppable) (hlibrary : c.library? = some l)
    (h : Home l s program pou i) (hinstances : Run.SameInstances s s') (hunits : s'.units = s.units) :
    AtStart l ((c.begun l s program i).holding s') program pou i where
  library := hlibrary
  started := rfl
  home := h.kept hinstances hunits
  cursor := rfl
  steps := rfl
  embodied := (Machine.embodied_ofStorage hl s).holding hinstances
  rests j := (Machine.rests_ofStorage hl s j).holding hinstances

/-- A controller between two cycles goes on as one that has just started its program with the same variables. -/
theorem outcomes_begun {y : Layout} (hy : Interpreter.Executable y) (hl : y.library.Steppable) (h : Mirrors y c t)
    (ht : Interpreter.Ready y.library t) (hstarted : c.program? = some program) (hbetween : c.BetweenCycles) {name : Ident}
    {other fresh : Controller} (hlibrary : other.library? = some y.library) (hoptions : other.options = c.options)
    (hfresh : start name other = .ok () fresh) (hprogram : fresh.program? = some program) (ds : List Driver) :
    (outcomes ds (fresh.holding c.machine.storage)).1 = (outcomes ds c).1 ∧
      SameButBodies (outcomes ds c).2 (outcomes ds (fresh.holding c.machine.storage)).2 := by
  obtain ⟨pou, i, hat⟩ := h.atStart ht hstarted hbetween
  obtain ⟨s, hs, hsound⟩ := exists_storage hy other.memory
  -- Both machines were built for the same library, so that their units have the same instances.
  have hunits : c.machine.storage.units = s.units := by
    obtain ⟨memory, s', hs', hunits⟩ := ht.units
    cases (ofLibrary_memory hs' other.memory).symm.trans hs
    rw [← h.storage, hunits]
  have hinstances : Run.SameInstances s c.machine.storage := h.sound.instances.trans hsound.instances.symm
  cases hname : y.library.program? name with
  | none => simp [start, hlibrary, hname, refuse] at hfresh
  | some program' =>
    obtain ⟨pou', i', hhome⟩ := exists_home hsound (Interpreter.isProgram_of_program? hname)
    cases (start_eq hlibrary hname hs hhome.unit).symm.trans hfresh
    cases hprogram
    cases hhome.declared.symm.trans hat.home.declared
    have hunit := (Interpreter.unitInstance_of_units hunits program).trans hhome.unit
    obtain rfl : i = i' := Except.ok.inj (hat.home.unit.symm.trans hunit)
    exact outcomes_alike hl hat (atStart_begun hl hlibrary hhome hinstances hunits) hoptions rfl ds

/--
Every cycle starts fresh. Take any controller that has linked units and started a program, whatever it has been asked for
since then. A call that goes on with the cycle leaves it between two cycles unless it pauses, be it that the cycle is
complete or that it is abandoned. The same program can be started anew, which builds a new machine. Between two cycles,
the controller goes on as any controller does that has just started the program and is given the same variables and direct
memory: calls that go on with the cycle, and with those after it, pause at the same places, perform as many micro-steps,
and fail with the same diagnostics. In the end the variables, the direct memory and the cursor are the same, so that what
earlier cycles have left in the nodes has had no influence.
-/
theorem outcomes_of_new_machine {units : List CompilationUnit} (hunits : ∀ u ∈ units, u.Built) {linked : Controller}
    (hlink : link units c = .ok () linked) (calls : List Interpreter.Call)
    (hstarted : (replies calls linked).2.program? = some program) :
    let reached := (replies calls linked).2
    (∀ d : Driver, (drive d reached).state.BetweenCycles ↔ ∀ s c', drive d reached ≠ .ok (.at s) c') ∧
      (∃ name fresh, start name reached = .ok () fresh ∧ fresh.program? = some program ∧ fresh.BetweenCycles) ∧
      (reached.BetweenCycles → ∀ name other fresh,
        other.library? = reached.library? → other.options = reached.options →
        start name other = .ok () fresh → fresh.program? = some program →
        ∀ ds : List Driver,
          (outcomes ds (fresh.holding reached.machine.storage)).1 = (outcomes ds reached).1 ∧
            SameButBodies (outcomes ds reached).2 (outcomes ds (fresh.holding reached.machine.storage)).2) := by
  intro reached
  obtain ⟨y, t, -, hy, hl, hmirrors, hready⟩ := ready_of_replies hunits hlink calls
  obtain ⟨pou, i, hin⟩ := hmirrors.cycle program hstarted
  have hstarted' : t.program? = some program := hmirrors.started.trans hstarted
  refine ⟨fun d => ?_, ?_, ?_⟩
  · have hdrive := drive_together hl hin d
    have hcall := (hready.call hstarted' d).2
    obtain ⟨p, c', t', hr, hr', h'⟩ | ⟨e, c', t', hr, hr', h'⟩ := hdrive.ok_or_error <;>
      rw [hr'] at hcall <;> rw [hr]
    · simpa [h'.between_iff] using hcall
    · simpa [h'.between_iff] using hcall
  · obtain ⟨⟨name, hname⟩, -⟩ := hready.started program hstarted'
    obtain ⟨s, hs, hsound⟩ := exists_storage hy reached.memory
    obtain ⟨pou', i', hhome⟩ := exists_home hsound (Interpreter.isProgram_of_program? hname)
    exact ⟨name, _, start_eq hmirrors.library hname hs hhome.unit, rfl, rfl⟩
  · intro hbetween name other fresh hlibrary hoptions hfresh hprogram ds
    replace hlibrary := hlibrary.trans hmirrors.library
    exact outcomes_begun hy hl hmirrors hready hstarted hbetween hlibrary hoptions hfresh hprogram ds

/-- A function is called in a loop of a block that is called in a loop. -/
def nestedLoopsSource : String :=
  "FUNCTION F : INT VAR_INPUT i : INT; END_VAR F := i + 1; END_FUNCTION " ++
    "FUNCTION_BLOCK FB VAR n : INT; END_VAR WHILE n < 3 DO n := F(n); END_WHILE; END_FUNCTION_BLOCK " ++
    "PROGRAM P VAR f : FB; i : INT; END_VAR FOR i := 1 TO 2 DO f(); END_FOR; END_PROGRAM"

/-- The limit of micro-steps is reached in the first cycle, in the function. -/
def nestedLoopsCalls : List Interpreter.Call := [.start { text := "P" }, .proceed (.step .into), .proceed .runCycle]

theorem outcomes_of_new_machine_nested_loops :
    ∃ unit linked fresh, parseUnit nestedLoopsSource .anonymous = .ok unit ∧
      link [unit] { options := { maxMicroSteps := 7 } } = .ok () linked ∧
      let (ended, reached) := replies nestedLoopsCalls linked
      (ended.flatMap Interpreter.Call.failures).map (·.problem) = [.stepLimitExceeded] ∧
        reached.program? = some 2 ∧ reached.BetweenCycles ∧
        start { text := "P" } reached = .ok () fresh ∧ fresh.program? = some 2 ∧
        (outcomes [.step .into, .runCycle] (fresh.holding reached.machine.storage)).1 =
            (outcomes [.step .into, .runCycle] reached).1 ∧
          SameButBodies (outcomes [.step .into, .runCycle] reached).2
            (outcomes [.step .into, .runCycle] (fresh.holding reached.machine.storage)).2 := by
  have hrun :
      let linked := linkOn nestedLoopsSource { options := { maxMicroSteps := 7 } }
      let reached := (replies nestedLoopsCalls linked.state).2
      linked.isOk = true ∧
        ((replies nestedLoopsCalls linked.state).1.flatMap Interpreter.Call.failures).map (·.problem) =
          [.stepLimitExceeded] ∧
        reached.program? = some 2 ∧ reached.steps = 0 ∧ (start { text := "P" } reached).isOk = true ∧
        (start { text := "P" } reached).state.program? = some 2 := by
    have hchars : nestedLoopsSource.toList = _ :=
      toList_append_eq (toList_append_eq String.toList_ofList String.toList_ofList) String.toList_ofList
    rw [linkOn, parseUnit, tokenize_of_toList hchars]
    decide +kernel
  obtain ⟨hlinked, hproblems, hstarted, hbetween, hstart, hprogram⟩ := hrun
  obtain ⟨unit, hparse, hlink⟩ := parsed_of_linkOn (EStateM.Result.eq_ok_of_isOk hlinked)
  have hfresh := EStateM.Result.eq_ok_of_isOk hstart
  obtain ⟨-, -, hsame⟩ := outcomes_of_new_machine (List.forall_mem_singleton.mpr (built_of_parseUnit hparse)) hlink
    nestedLoopsCalls hstarted
  replace hsame := hsame hbetween _ _ _ rfl rfl hfresh hprogram [.step .into, .runCycle]
  -- What was computed is not computed again.
  generalize (linkOn nestedLoopsSource { options := { maxMicroSteps := 7 } }).state = linked at *
  refine ⟨unit, linked, (start { text := "P" } (replies nestedLoopsCalls linked).2).state, hparse, hlink, ?_⟩
  generalize replies nestedLoopsCalls linked = answered at *
  obtain ⟨ended, reached⟩ := answered
  exact ⟨hproblems, hstarted, hbetween, hfresh, hprogram, hsame⟩

end StructuredText.Controller
