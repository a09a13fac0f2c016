-- SUMMARY: A cycle of the controller, node by node, mirrors one of the interpreter, frame by frame.
import StructuredText.Machine.Controller
import StructuredText.Proofs.Alike
import StructuredText.Proofs.Cycle
import StructuredText.Proofs.Standing

/-!
# Mirrored cycles

The controller steps the body of the running instance from its root, and the interpreter resumes the frames that are left.
While a cycle is in progress both have the same storage and the same cursor, and the bodies stand for the frames. Each
micro-step leads to such a point again, completes the cycle in both, or fails in both with the same diagnostic.
-/

namespace StructuredText

open Run Arena Node

namespace Machine

variable {l : Library} {m : Machine} {i : InstanceId} {pou : Pou} {b : Arena}

theorem Has.takeBody (h : m.Has l i pou b) :
    m.takeBody i = .ok (b, { m with bodies := m.bodies.setIfInBounds i none }) := by
  rw [Machine.takeBody, h.body]

theorem putBody_taken {s : Storage} : putBody i b ⟨s, m.bodies.setIfInBounds i none⟩ = m.stepped s i b := by
  rw [putBody, stepped]
  simp

end Machine

namespace Controller

variable {l : Library} {c : Controller} {i : InstanceId} {pou : Pou} {b : Arena} {program : Nat}

/-- The controller after the body of an instance has been stepped, with the cursor where it goes on. -/
def stepped (c : Controller) (i : InstanceId) (s : Node.Stepping Unit) (cursor : Cursor) : Controller where
  options := c.options
  library? := c.library?
  machine := c.machine.stepped s.execution.storage i s.arena
  cursor
  program? := c.program?
  steps := c.steps + 1
  issues := c.issues

/-- A micro-step of the root of the body of the running instance. -/
theorem advance_eq (hlimit : c.steps < c.options.maxMicroSteps) (hi : c.cursor.current = some i)
    (hb : c.machine.Has l i pou b) {root : NodeId} (hroot : b.root = some root) :
    advance l program c =
      match Arena.step ⟨⟨l, c.options.realEpsilon⟩, some i⟩ (b.nodes.size + 1) root
        ⟨(), b, ⟨c.machine.storage, c.cursor⟩⟩ with
      | .ok .inProgress s =>
        .ok (match s.execution.cursor.pause with
          | some statement => Interpreter.Advance.pause (.at statement)
          | none => .progress)
          (c.stepped i s s.execution.cursor.clearPause)
      | .ok .finished s =>
        match s.execution.cursor.callers with
        | [] => (do prime program; pure (Interpreter.Advance.pause .complete))
          (c.stepped i s s.execution.cursor.clearPending)
        | caller :: callers => .ok .progress (c.stepped i s (Machine.returned s.execution.cursor caller callers))
      | .error d s => .error d (c.stepped i s s.execution.cursor) := by
  have hnot : ¬ c.steps + 1 > c.options.maxMicroSteps := by omega
  have htake : atSpan .builtin (c.machine.takeBody i) =
      .ok (b, { c.machine with bodies := c.machine.bodies.setIfInBounds i none }) := by
    rw [hb.takeBody]
    rfl
  have hput (s : Node.Stepping Unit) :
      Machine.putBody i s.arena ⟨s.execution.storage, c.machine.bodies.setIfInBounds i none⟩ =
        c.machine.stepped s.execution.storage i s.arena := Machine.putBody_taken
  simp only [advance, EStateM.bind_apply, EStateM.modify_apply, EStateM.get_apply, if_neg hnot, EStateM.pure_apply, hi,
    takeBody, htake, EStateM.ofExcept_apply, stepRoot, hroot]
  rcases Arena.step ⟨⟨l, c.options.realEpsilon⟩, some i⟩ (b.nodes.size + 1) root
    ⟨(), b, ⟨c.machine.storage, c.cursor⟩⟩ with ⟨_ | _, s⟩ | ⟨d, s⟩ <;> simp only [hput, stepped]
  · simp only [EStateM.bind_apply, EStateM.get_apply, EStateM.modify_apply, Cursor.return?, Cursor.clearPending]
    cases s.execution.cursor.callers <;> rfl
  · simp only [EStateM.bind_apply, EStateM.get_apply, EStateM.modify_apply]
    cases s.execution.cursor.pause <;> rfl

/-- The interpreter where the controller is, with what is left to do in the cycle as frames. -/
def framed (c : Controller) (frames : List Frame) : Interpreter where
  options := c.options
  library? := c.library?
  execution := ⟨c.machine.storage, c.cursor⟩
  frames
  program? := c.program?
  steps := c.steps
  issues := c.issues

/-- The program has an instance, in which its body runs. -/
structure Home (l : Library) (s : Storage) (program : Nat) (pou : Pou) (i : InstanceId) : Prop where
  declared : l.pous[program]? = some pou
  unit : s.unitInstance program = .ok i
  body : s.pouOf l i = .ok pou

theorem Home.kept {s s' : Storage} (h : Home l s program pou i) (hinstances : SameInstances s s')
    (hunits : s'.units = s.units) : Home l s' program pou i :=
  ⟨h.declared, (Interpreter.unitInstance_of_units hunits program).trans h.unit, (hinstances.pouOf l i).trans h.body⟩

/-- The controller and the interpreter are at the same point of the same cycle. -/
structure InStep (l : Library) (program : Nat) (pou : Pou) (i : InstanceId) (c : Controller) (t : Interpreter) :
    Prop where
  library : c.library? = some l
  started : c.program? = some program
  home : Home l c.machine.storage program pou i
  runs : c.machine.Runs l c.cursor t.frames
  limit : c.steps ≤ c.options.maxMicroSteps
  eq : t = c.framed t.frames

/-- The controller and the interpreter have completed the same cycle. The interpreter has not gone on to the next one. -/
structure Completed (l : Library) (program : Nat) (pou : Pou) (i : InstanceId) (c : Controller) (t : Interpreter) :
    Prop where
  next : InStep l program pou i c (c.framed [.start pou.body])
  cursor : c.cursor = .primed i
  eq : t = { c with cursor := t.execution.cursor }.framed t.frames

/-- The same cycle has failed in the controller and in the interpreter. A micro-step too many is not performed. -/
structure Failed (l : Library) (program : Nat) (pou : Pou) (i : InstanceId) (c : Controller) (t : Interpreter) :
    Prop where
  library : c.library? = some l
  started : c.program? = some program
  home : Home l c.machine.storage program pou i
  embodied : c.machine.Embodied l
  eq : t = { c with steps := min c.steps c.options.maxMicroSteps }.framed t.frames

/-- Both end in the same way. A result that completes the cycle is final. -/
inductive Together (l : Library) (program : Nat) (pou : Pou) (i : InstanceId) {α : Type} (final : α → Prop) :
    EStateM.Result Diagnostic Controller α → EStateM.Result Diagnostic Interpreter α → Prop
  | going {a c t} (ha : ¬ final a) (h : InStep l program pou i c t) : Together l program pou i final (.ok a c) (.ok a t)
  | complete {a c t} (ha : final a) (h : Completed l program pou i c t) :
    Together l program pou i final (.ok a c) (.ok a t)
  | failed {d c t} (h : Failed l program pou i c t) : Together l program pou i final (.error d c) (.error d t)

variable {frames : List Frame} {t : Interpreter}

theorem prime_eq (h : Home l c.machine.storage program pou i) :
    prime program c = .ok () { c with cursor := .primed i } := by
  simp [prime, h.unit, atSpan, Except.mapError]

theorem InStep.of_runs (hlibrary : c.library? = some l) (hstarted : c.program? = some program)
    (hhome : Home l c.machine.storage program pou i) (hruns : c.machine.Runs l c.cursor frames)
    (hlimit : c.steps ≤ c.options.maxMicroSteps) : InStep l program pou i c (c.framed frames) :=
  ⟨hlibrary, hstarted, hhome, hruns, hlimit, rfl⟩

/-- A micro-step. -/
theorem advance_together (hl : l.Steppable) (h : InStep l program pou i c t)
    (hlimit : c.steps < c.options.maxMicroSteps) :
    Together l program pou i (· = .pause .complete) (advance l program c) (Interpreter.advance l t.counting) := by
  obtain ⟨hlibrary, hstarted, hhome, hruns, -, ht⟩ := h
  generalize t.frames = frames at hruns ht
  subst ht
  obtain ⟨j, p, b, hj, hb, hfills, hfills', hinstances, hproceeds⟩ :=
    hruns.step ⟨l, c.options.realEpsilon⟩ hl
  have hkeeps : Keeps (fun s s' => s'.units = s.units) (microStep ⟨l, c.options.realEpsilon⟩ frames) :=
    microStep_keeps (Storage.units_kept l) frames
  have hunits := hkeeps ⟨c.machine.storage, c.cursor⟩
  rw [advance_eq hlimit hj hb hfills.root, Interpreter.advance_eq]
  simp only [framed, Interpreter.counting]
  have hmin : min (c.steps + 1) c.options.maxMicroSteps = c.steps + 1 := Nat.min_eq_left hlimit
  dsimp only at hfills' hinstances hproceeds
  generalize Arena.step ⟨⟨l, c.options.realEpsilon⟩, some j⟩ (b.nodes.size + 1) p.body.nodeId
    ⟨(), b, ⟨c.machine.storage, c.cursor⟩⟩ = r at hfills' hinstances hproceeds ⊢
  generalize microStep ⟨l, c.options.realEpsilon⟩ frames ⟨c.machine.storage, c.cursor⟩ = q at hproceeds hunits ⊢
  rcases r with ⟨_ | _, ⟨_, b', x⟩⟩ | ⟨d, ⟨_, b', x⟩⟩
  · have hembodied : (c.machine.stepped x.storage j b').Embodied l := hruns.embodied.stepped hinstances hb hfills'
    simp only [Machine.Proceeds] at hproceeds
    cases hcallers : x.cursor.callers with
    | nil =>
      simp only [hcallers] at hproceeds ⊢
      obtain ⟨⟨a, rfl⟩, hrests⟩ := hproceeds
      have hhome' : Home l x.storage program pou i := hhome.kept hinstances hunits
      have hnext := InStep.of_runs (c := c.stepped j ⟨(), b', x⟩ (.primed i)) hlibrary hstarted hhome'
        (Machine.runs_primed hembodied hrests hhome'.body) hlimit
      simp only [EStateM.bind_apply, EStateM.pure_apply, prime_eq (c := c.stepped j ⟨(), b', x⟩ _) hhome']
      exact .complete rfl ⟨hnext, rfl, rfl⟩
    | cons caller callers =>
      simp only [hcallers] at hproceeds ⊢
      obtain ⟨frames', rfl, hruns'⟩ := hproceeds
      have hpause : x.cursor.pause = none := hruns'.pause
      have hnext := InStep.of_runs (c := c.stepped j ⟨(), b', x⟩ (Machine.returned x.cursor caller callers))
        hlibrary hstarted (hhome.kept hinstances hunits) hruns' hlimit
      have hgoing : Together l program pou i (· = Interpreter.Advance.pause .complete) _ _ :=
        .going (a := .progress) (by rintro ⟨⟩) hnext
      simp only [hpause]
      convert hgoing using 2
      simp [framed, Cursor.clearPause, hpause, stepped, Machine.stepped]
  · obtain ⟨frames', rfl, hruns'⟩ := hproceeds
    have hnext := InStep.of_runs (c := c.stepped j ⟨(), b', x⟩ x.cursor.clearPause)
      hlibrary hstarted (hhome.kept hinstances hunits) hruns' hlimit
    refine .going ?_ hnext
    cases x.cursor.pause <;> rintro ⟨⟩
  · obtain rfl := hproceeds
    refine .failed ⟨hlibrary, hstarted, hhome.kept hinstances hunits, hruns.embodied.stepped hinstances hb hfills', ?_⟩
    simp only [framed, stepped, hmin]
    rfl

theorem advanceTo_succ (stops : Nat → Bool) (limit : Nat) (c : Controller) :
    advanceTo l program stops (limit + 1) c =
      match advance l program c with
      | .error d u => .error d u
      | .ok .progress u => advanceTo l program stops limit u
      | .ok (.pause .complete) u => .ok .complete u
      | .ok (.pause (.at s)) u => if stops u.cursor.depth then .ok (.at s) u else advanceTo l program stops limit u := by
  rw [advanceTo]
  simp only [EStateM.bind_apply]
  rcases advance l program c with ⟨_ | _ | _, u⟩ | ⟨d, u⟩
  · rfl
  · simp only [EStateM.bind_apply, EStateM.get_apply]
    split <;> rfl
  · rfl
  · rfl

/-- A micro-step too many. -/
theorem advance_of_limit (h : c.options.maxMicroSteps ≤ c.steps) :
    advance l program c = .error (Interpreter.misuse .stepLimitExceeded
      s!"Cycle did not finish within {c.options.maxMicroSteps} micro-steps") { c with steps := c.steps + 1 } := by
  simp only [advance, EStateM.bind_apply, EStateM.modify_apply, EStateM.get_apply, if_pos (Nat.lt_succ_of_le h),
    EStateM.throw_apply]

theorem InStep.steps (h : InStep l program pou i c t) : t.steps = c.steps := congrArg (·.steps) h.eq

theorem InStep.options (h : InStep l program pou i c t) : t.options = c.options := congrArg (·.options) h.eq

/-- A micro-step that does not end the cycle is counted by both. -/
theorem InStep.counted {a : Interpreter.Advance} {c' : Controller} {u : Interpreter} (h : InStep l program pou i c t)
    (hadvance : Interpreter.advance l t.counting = .ok a u) (h' : InStep l program pou i c' u) :
    c'.steps = c.steps + 1 ∧ c'.options = c.options := by
  have hsame := Interpreter.advance_sameProgram l t.counting
  have hsteps := Interpreter.advance_steps l t.counting
  rw [hadvance] at hsame hsteps
  exact ⟨h'.steps.symm.trans (hsteps.trans (congrArg (· + 1) h.steps)),
    h'.options.symm.trans (hsame.options.trans h.options)⟩

/-- The micro-steps up to an accepted pause. -/
theorem advanceTo_together (hl : l.Steppable) (stops : Nat → Bool) (limit : Nat) (h : InStep l program pou i c t)
    (hlimit : c.steps + limit = c.options.maxMicroSteps) :
    Together l program pou i (· = .complete) (advanceTo l program stops (limit + 1) c)
      (Interpreter.advanceTo l stops limit t) := by
  induction limit generalizing c t with
  | zero =>
    rw [advanceTo_succ, advance_of_limit (Nat.le_of_eq hlimit.symm)]
    simp only [Interpreter.advanceTo, EStateM.bind_apply, EStateM.get_apply, EStateM.throw_apply, h.options]
    have hmin : min (c.steps + 1) c.options.maxMicroSteps = c.steps := by omega
    refine .failed ⟨h.library, h.started, h.home, h.runs.embodied, ?_⟩
    simp only [hmin]
    exact h.eq
  | succ limit ih =>
    have hadvance := advance_together hl h (by omega)
    rw [advanceTo_succ, Interpreter.advanceTo_succ]
    generalize advance l program c = r at hadvance ⊢
    generalize hr : Interpreter.advance l t.counting = r' at hadvance ⊢
    cases hadvance with
    | @going a c' u ha h' =>
      obtain ⟨hsteps, hoptions⟩ := h.counted hr h'
      have hlater := ih h' (by rw [hsteps, hoptions]; omega)
      rcases a with _ | s | _
      · exact hlater
      · have hdepth : u.execution.cursor.depth = c'.cursor.depth := congrArg (·.execution.cursor.depth) h'.eq
        dsimp only
        rw [hdepth]
        split
        · exact .going (by rintro ⟨⟩) h'
        · exact hlater
      · exact absurd rfl ha
    | complete ha h' =>
      subst ha
      exact .complete rfl h'
    | failed h' => exact .failed h'

theorem Completed.steps (h : Completed l program pou i c t) : t.steps = c.steps :=
  congrArg (fun t : Interpreter => t.steps) h.eq

/-- The interpreter goes on to the next cycle where the controller does. -/
theorem Completed.primed (h : Completed l program pou i c t) :
    Interpreter.prime l program t = .ok () ({ c with steps := 0 }.framed [.start pou.body]) := by
  have hstorage : t.execution.storage = c.machine.storage := congrArg (fun t : Interpreter => t.execution.storage) h.eq
  rw [Interpreter.prime_eq (hstorage ▸ h.next.home.unit) h.next.home.declared, h.eq]
  simp only [framed, h.cursor]

/-- What comes after the micro-steps of a call. -/
theorem proceed_eq (hlibrary : c.library? = some l) (hprogram : c.program? = some program)
    (stops : (start depth : Nat) → Bool) :
    proceed stops c =
      match advanceTo l program (stops c.cursor.depth) (c.options.maxMicroSteps - c.steps + 1) c with
      | .ok pause u => .ok (pause, u.steps) (if pause = .complete then { u with steps := 0 } else u)
      | .error d u => fail program d u := by
  simp only [proceed, ready, EStateM.bind_apply, EStateM.get_apply, hlibrary, hprogram, EStateM.pure_apply,
    EStateM.tryCatch_apply]
  rcases advanceTo l program (stops c.cursor.depth) (c.options.maxMicroSteps - c.steps + 1) c with
    ⟨_ | _, u⟩ | ⟨d, u⟩ <;> rfl

/-- A cycle that fails is rewound. -/
theorem fail_eq (h : Home l c.machine.storage program pou i) (d : Diagnostic) :
    (fail program d c : EStateM.Result Diagnostic Controller (Pause × Nat)) = .error d { c with
      machine := c.machine.resetBodies, cursor := .primed i, steps := 0, issues := c.issues.push d } := by
  have hprime := prime_eq (c := { c with machine := c.machine.resetBodies, steps := 0 }) h
  simp only [fail, EStateM.bind_apply, EStateM.modify_apply, EStateM.tryCatch_apply, hprime, refuse, EStateM.throw_apply]

/-- Going on with a cycle. -/
theorem proceed_together (hl : l.Steppable) (h : InStep l program pou i c t) (d : Interpreter.Driver) :
    EndTogether (fun _ => InStep l program pou i) (InStep l program pou i) (proceed d.stops c)
      (Interpreter.proceed d.stops t) := by
  have hlibrary' : t.library? = some l := (congrArg (·.library?) h.eq).trans h.library
  have hprogram' : t.program? = some program := (congrArg (·.program?) h.eq).trans h.started
  have hdepth : t.execution.cursor.depth = c.cursor.depth := congrArg (·.execution.cursor.depth) h.eq
  have htogether := advanceTo_together hl (d.stops c.cursor.depth) _ h (Nat.add_sub_cancel' h.limit)
  rw [proceed_eq h.library h.started, Interpreter.proceed_eq hlibrary' hprogram', Interpreter.Driver.advanced, hdepth,
    h.options, h.steps]
  generalize advanceTo l program (d.stops c.cursor.depth) (c.options.maxMicroSteps - c.steps + 1) c = r at htogether ⊢
  generalize Interpreter.advanceTo l (d.stops c.cursor.depth) (c.options.maxMicroSteps - c.steps) t = r'
    at htogether ⊢
  cases htogether with
  | @going p c' u ha h' =>
    cases p with
    | complete => exact absurd rfl ha
    | «at» s =>
      have hsteps : c'.steps = u.steps := h'.steps.symm
      simp only [hsteps]
      exact ⟨rfl, h'⟩
  | @complete p c' u ha h' =>
    subst ha
    rw [Interpreter.conclude_complete h'.primed, h'.steps]
    exact ⟨rfl, .of_runs h'.next.library h'.next.started h'.next.home h'.next.runs (Nat.zero_le _)⟩
  | @failed e c' u h' =>
    have hstorage : u.execution.storage = c'.machine.storage := congrArg (·.execution.storage) h'.eq
    have hprime := Interpreter.prime_eq (t := u) (hstorage ▸ h'.home.unit) h'.home.declared
    dsimp only
    rw [fail_eq h'.home, Interpreter.conclude_failed hprime, h'.eq]
    have hruns := Machine.runs_primed h'.embodied.reset (fun _ => h'.embodied.rests_reset) h'.home.body
    have hin := InStep.of_runs (c := { c' with
      machine := c'.machine.resetBodies, cursor := .primed i, steps := 0, issues := c'.issues.push e })
      h'.library h'.started h'.home hruns (Nat.zero_le _)
    refine ⟨rfl, ?_⟩
    convert hin using 1
    simp [framed, Machine.resetBodies]

end Controller

end StructuredText
