-- SUMMARY: Interpreters whose storages are alike go on with a cycle, and start programs, in the same way.
import StructuredText.Proofs.FreshCycle
import StructuredText.Proofs.ParallelStmt

/-!
# Pairs of interpreters

Two interpreters that differ only in their storages, which are alike up to functions that are not on the call stack,
advance to the same places. Between micro-steps they may rely on a function that has just finished, where no call ever
stops. At the end of a cycle, be it complete or abandoned, the stack is cut down to the program, and whatever the storages
disagree on has lost its influence.
-/

namespace StructuredText.Interpreter

variable {y : Layout} {extra : List InstanceId} {t t' : Interpreter}

-- ---------------------------------------------------------------------------
-- Two interpreters
-- ---------------------------------------------------------------------------

/-- The interpreters differ in their executions only, and there in no variables but those of functions. -/
structure Apart (y : Layout) (t t' : Interpreter) : Prop where
  library : t.library? = some y.library
  other : ∃ x', t' = { t with execution := x' }
  storages : Storage.Coupled y [] t.execution.storage t'.execution.storage

/-- The interpreters are at the same point, and differ in no variables of the given instances or of those on the stack. -/
structure Beside (y : Layout) (extra : List InstanceId) (t t' : Interpreter) : Prop where
  library : t.library? = some y.library
  other : ∃ s', t' = t.holding s'
  storages : Storage.Coupled y (extra ++ t.execution.cursor.chain.instances) t.execution.storage t'.execution.storage

theorem Beside.apart (h : Beside y extra t t') : Apart y t t' := by
  obtain ⟨s', rfl⟩ := h.other
  exact ⟨h.library, ⟨_, rfl⟩, h.storages.mono (List.nil_subset _)⟩

theorem Apart.sameProgram (h : Apart y t t') : SameProgram t t' := by
  obtain ⟨x', rfl⟩ := h.other
  exact ⟨rfl, rfl, rfl, rfl⟩

theorem Apart.steps (h : Apart y t t') : t'.steps = t.steps := by
  obtain ⟨x', rfl⟩ := h.other
  rfl

/-- The executions of the cycles in progress. -/
def cycles (y : Layout) (t : Interpreter) : Comparison := ⟨y, t.options.realEpsilon, [], True⟩

/-- What is left of the cycle is parallel, up to any number of pauses. -/
structure Ahead (y : Layout) (extra : List InstanceId) (t : Interpreter) : Prop where
  pause : t.execution.cursor.pause = none
  parallel : ∃ after, ∀ n, (cycles y t).Parallel n extra t.execution.cursor.chain after
    (Run.microStep (cycles y t).env t.frames) fun _ => True

/-- Nothing tells the interpreters apart, and a program that has started goes on in the same way. -/
structure Paired (y : Layout) (t t' : Interpreter) : Prop extends Beside y [] t t' where
  started : ∀ program, t.program? = some program → IsProgram y.library program ∧ Ahead y [] t

/-- Both record the same diagnostics. -/
theorem Paired.recorded (h : Paired y t t') (ds : List Diagnostic) :
    Paired y { t with issues := t.issues ++ ds } { t' with issues := t'.issues ++ ds } := by
  obtain ⟨s', rfl⟩ := h.other
  exact ⟨⟨h.library, ⟨s', rfl⟩, h.storages⟩, fun program hprogram =>
    ⟨(h.started program hprogram).1, ⟨(h.started program hprogram).2.pause, (h.started program hprogram).2.parallel⟩⟩⟩

/-- What one operation on both ends with is recorded. -/
theorem recording_together {ε α : Type} {diagnostics : ε → List Diagnostic} {x x' : Interpreting ε α}
    (h : EndTogether (fun _ => Paired y) (Paired y) (x t) (x' t')) :
    EndTogether (fun _ => Paired y) (Paired y) (recording diagnostics x t) (recording diagnostics x' t') := by
  unfold recording
  obtain ⟨a, u, u', hr, hr', hu⟩ | ⟨e, u, u', hr, hr', hu⟩ := h.ok_or_error <;> rw [hr, hr']
  · exact ⟨rfl, hu⟩
  · exact ⟨rfl, hu.recorded _⟩

-- ---------------------------------------------------------------------------
-- Going on with a cycle
-- ---------------------------------------------------------------------------

/-- Both interpreters go to the beginning of a program, whatever the storages have differed in. -/
theorem prime_together (hy : Executable y) {program : Nat} (hprogram : IsProgram y.library program)
    (h : Apart y t t') : ∃ u u', prime y.library program t = .ok () u ∧ prime y.library program t' = .ok () u' ∧
      SameProgram t u ∧ Beside y [] u u' ∧ Ahead y [] u := by
  obtain ⟨p, hp, hkind⟩ := hprogram
  obtain ⟨i, hunit, hi⟩ := h.storages.left.units program p hp (by rw [hkind]; nofun)
  have hunit' : t'.execution.storage.unitInstance program = .ok i := h.storages.alike.unitInstance program ▸ hunit
  have hlasting : y.Lasting i := ⟨p, ⟨program, hi, hp⟩, by rw [hkind]; nofun⟩
  obtain ⟨x', rfl⟩ := h.other
  refine ⟨_, _, prime_eq hunit hp, prime_eq hunit' hp, ⟨rfl, rfl, rfl, rfl⟩, ⟨h.library, ⟨_, rfl⟩, ?_⟩, rfl, ?_⟩
  · exact ⟨h.storages.left, h.storages.right, h.storages.alike.lasting hlasting⟩
  · refine ⟨⟨some i, []⟩, fun n => ?_⟩
    have hbodies : (cycles y t).BodiesParallel (n + 1) :=
      Comparison.bodiesParallel hy.resolved hy.linked trivial (n + 1)
    exact .resumed (hbodies n (Nat.lt_succ_self n) i p [] ⟨program, hi, hp⟩) fun _ _ => .finished trivial

/-- Where the interpreters are when a call stops. -/
def Stopped (y : Layout) : Pause → Interpreter → Interpreter → Prop
  | .at _, t, t' => Beside y [] t t' ∧ Ahead y [] t
  | .complete, t, t' => Apart y t t'

/-- Where the interpreters are after a micro-step. -/
def Advanced (y : Layout) : Advance → Interpreter → Interpreter → Prop
  | .progress, t, t' => ∃ extra, Beside y extra t t' ∧ Ahead y extra t
  | .pause p, t, t' => Stopped y p t t'

theorem advance_together (h : Beside y extra t t') (hahead : Ahead y extra t) :
    EndTogether (fun a u u' => SameProgram t u ∧ Advanced y a u u') (fun u u' => SameProgram t u ∧ Apart y u u')
      (advance y.library t) (advance y.library t') := by
  obtain ⟨s', rfl⟩ := h.other
  obtain ⟨after, hparallel⟩ := hahead.parallel
  have hstep (n : Nat) := hparallel n t.execution (t.holding s').execution
    ⟨rfl, rfl, hahead.pause, by rw [cycles, List.append_nil]; exact h.storages⟩
  have hsame {x : Execution} {frames : List Frame} : SameProgram t { t with execution := x, frames } :=
    ⟨rfl, rfl, rfl, rfl⟩
  rw [advance_eq, advance_eq]
  have stepped {p p' : Run.Stepped} (hp : Run.microStep (cycles y t).env t.frames t.execution = p)
      (hp' : Run.microStep (cycles y t).env t.frames (t.holding s').execution = p') :
      Run.microStep ⟨y.library, t.options.realEpsilon⟩ t.frames t.execution = p ∧
        Run.microStep ⟨y.library, (t.holding s').options.realEpsilon⟩ (t.holding s').frames
          (t.holding s').execution = p' := ⟨hp, hp'⟩
  obtain ⟨d, x, x', hx, hx', hend⟩ | ⟨r, x, x', hx, hx', -, hend⟩ | ⟨frames, x, x', hx, hx', hend⟩ := (hstep 0).cases
  · rw [(stepped hx hx').1, (stepped hx hx').2]
    exact ⟨rfl, hsame, h.library, ⟨_, rfl⟩, hend⟩
  · rw [(stepped hx hx').1, (stepped hx hx').2]
    refine ⟨rfl, hsame, h.library, ⟨_, rfl⟩, hend.storages.mono (List.nil_subset _)⟩
  · rw [(stepped hx hx').1, (stepped hx hx').2]
    have hbeside : Beside y (Frame.finished frames) { t with execution := ⟨x.storage, x.cursor.clearPause⟩, frames }
        { t.holding s' with execution := ⟨x'.storage, x'.cursor.clearPause⟩, frames } := by
      refine ⟨h.library, ⟨x'.storage, by rw [← hend.cursor]; rfl⟩, ?_⟩
      have hstorages := hend.storages
      rwa [cycles, List.append_nil] at hstorages
    have hnext : Ahead y (Frame.finished frames) { t with execution := ⟨x.storage, x.cursor.clearPause⟩, frames } := by
      refine ⟨rfl, after, fun n z z' hz => ?_⟩
      have hpaused := hstep (n + 1)
      rw [hx, hx'] at hpaused
      exact hpaused.next hz
    refine ⟨by rw [hend.cursor], hsame, ?_⟩
    cases hpause : x.cursor.pause with
    | none => exact ⟨_, hbeside, hnext⟩
    | some statement =>
      rw [hend.announced (by rw [hpause]; nofun)] at hbeside hnext
      exact ⟨hbeside, hnext⟩

theorem advanceTo_together (stops : Nat → Bool) (limit : Nat) (h : Beside y extra t t') (hahead : Ahead y extra t) :
    EndTogether (fun p u u' => SameProgram t u ∧ Stopped y p u u') (fun u u' => SameProgram t u ∧ Apart y u u')
      (advanceTo y.library stops limit t) (advanceTo y.library stops limit t') := by
  induction limit generalizing extra t t' with
  | zero =>
    have hapart := h.apart
    obtain ⟨s', rfl⟩ := h.other
    exact ⟨rfl, .refl t, hapart⟩
  | succ limit ih =>
    have hadvance : EndTogether (fun a u u' => SameProgram t.counting u ∧ Advanced y a u u')
        (fun u u' => SameProgram t.counting u ∧ Apart y u u') (advance y.library t.counting)
        (advance y.library t'.counting) := by
      obtain ⟨s', rfl⟩ := h.other
      exact advance_together ⟨h.library, ⟨s', rfl⟩, h.storages⟩ ⟨hahead.pause, hahead.parallel⟩
    have hcounted {v : Interpreter} (h : SameProgram t.counting v) : SameProgram t v := ⟨h.1, h.2, h.3, h.4⟩
    have later {extra : List InstanceId} {v v' : Interpreter} (hsame : SameProgram t v) (hv : Beside y extra v v')
        (hnext : Ahead y extra v) : EndTogether (fun p u u' => SameProgram t u ∧ Stopped y p u u')
          (fun u u' => SameProgram t u ∧ Apart y u u') (advanceTo y.library stops limit v)
          (advanceTo y.library stops limit v') :=
      (ih hv hnext).mono (fun _ _ _ hu => ⟨hsame.trans hu.1, hu.2⟩) fun _ _ hu => ⟨hsame.trans hu.1, hu.2⟩
    rw [advanceTo_succ, advanceTo_succ]
    obtain ⟨a, v, v', hr, hr', hsame, hv⟩ | ⟨d, v, v', hr, hr', hsame, hv⟩ := hadvance.ok_or_error <;> rw [hr, hr']
    · cases a with
      | progress =>
        obtain ⟨extra, hbeside, hnext⟩ := hv
        exact later (hcounted hsame) hbeside hnext
      | pause p =>
        cases p with
        | complete => exact ⟨rfl, hcounted hsame, hv⟩
        | «at» statement =>
          obtain ⟨s', hs'⟩ := hv.1.other
          have hdepth : v'.execution.cursor.depth = v.execution.cursor.depth := by rw [hs']; rfl
          dsimp only
          rw [hdepth]
          split
          · exact ⟨rfl, hcounted hsame, hv⟩
          · exact later (hcounted hsame) hv.1 hv.2
    · exact ⟨rfl, hcounted hsame, hv⟩

/-- At the end of a cycle both interpreters prepare the next one. -/
theorem conclude_together (hy : Executable y) {program : Nat} (hprogram : IsProgram y.library program)
    (hstarted : t.program? = some program) {r r' : EStateM.Result Diagnostic Interpreter Pause}
    (h : EndTogether (fun p u u' => SameProgram t u ∧ Stopped y p u u') (fun u u' => SameProgram t u ∧ Apart y u u')
      r r') :
    EndTogether (fun _ => Paired y) (Paired y) (conclude y.library program r) (conclude y.library program r') := by
  have paired {u u' : Interpreter} (hsame : SameProgram t u) (hu : Beside y [] u u') (hnext : Ahead y [] u) :
      Paired y u u' := by
    refine ⟨hu, fun program' hstarted' => ?_⟩
    cases (hsame.program.trans hstarted).symm.trans hstarted'
    exact ⟨hprogram, hnext⟩
  refine recording_together ?_
  obtain ⟨a, v, v', rfl, rfl, hsame, hv⟩ | ⟨d, v, v', rfl, rfl, hsame, hv⟩ := h.ok_or_error
  · cases a with
    | complete =>
      obtain ⟨u, u', hprime, hprime', hsame', hu, hnext⟩ := prime_together hy hprogram hv
      simp only [orAbandon, EStateM.bind_apply, hprime, hprime', hv.steps]
      exact ⟨rfl, paired (hsame.trans hsame') hu hnext⟩
    | «at» statement =>
      obtain ⟨hv, hnext⟩ := hv
      simp only [orAbandon, hv.apart.steps]
      exact ⟨rfl, paired hsame hv hnext⟩
  · obtain ⟨u, u', hprime, hprime', hsame', hu, hnext⟩ := prime_together hy hprogram hv
    simp only [orAbandon, hprime, hprime']
    exact ⟨rfl, paired (hsame.trans hsame') hu hnext⟩

theorem proceed_together (hy : Executable y) (h : Paired y t t') (driver : Driver) :
    EndTogether (fun _ => Paired y) (Paired y) (proceed driver.stops t) (proceed driver.stops t') := by
  have hsame := h.apart.sameProgram
  cases hstarted : t.program? with
  | none =>
    rw [proceed_eq_recording]
    refine recording_together ?_
    have hready {v : Interpreter} (hlibrary : v.library? = some y.library) (hnone : v.program? = none) :
        readyQuietly v = .error (misuse .notStarted "Start a program first") v := by
      simp only [readyQuietly, EStateM.bind_apply, EStateM.get_apply, hlibrary, hnone, EStateM.throw_apply]
    have hright := hready (hsame.library.trans h.library) (hsame.program.trans hstarted)
    simp only [proceedQuietly, EStateM.bind_apply, hready h.library hstarted, hright]
    exact ⟨rfl, h⟩
  | some program =>
    obtain ⟨hprogram, hahead⟩ := h.started program hstarted
    have hadvanced : EndTogether (fun p u u' => SameProgram t u ∧ Stopped y p u u')
        (fun u u' => SameProgram t u ∧ Apart y u u') (driver.advanced y.library t) (driver.advanced y.library t') := by
      obtain ⟨s', rfl⟩ := h.other
      exact advanceTo_together _ _ h.toBeside hahead
    rw [proceed_eq h.library hstarted, proceed_eq (hsame.library.trans h.library) (hsame.program.trans hstarted)]
    exact conclude_together hy hprogram hstarted hadvanced

-- ---------------------------------------------------------------------------
-- Starting
-- ---------------------------------------------------------------------------

/-- Both interpreters start with the same new storage. -/
theorem renew_together (hy : Executable y) (h : Apart y t t') : ∃ u u', renew y.library t = .ok () u ∧
    renew y.library t' = .ok () u' ∧ SameProgram t u ∧ Apart y u u' := by
  obtain ⟨u, hrenew, hsame, hu⟩ := renew_serves hy ⟨h.library, h.storages.left⟩
  obtain ⟨s, hs, rfl⟩ := storage_of_renew hrenew
  have hmemory : t'.memory = t.memory := h.storages.alike.memory.symm
  have hstorage : atSpan .builtin (Storage.ofLibrary y.library t'.memory) = .ok s :=
    hmemory ▸ atSpan_eq_ok.mpr hs
  obtain ⟨x', rfl⟩ := h.other
  refine ⟨_, _, hrenew, ?_, hsame, hu.library, ⟨⟨s, x'.cursor⟩, rfl⟩, hu.sound, hu.sound, .refl y [] s⟩
  simp only [renew, EStateM.bind_apply, EStateM.get_apply, EStateM.modify_apply, EStateM.ofExcept_apply, hstorage]
  rfl

theorem start_together (hy : Executable y) (h : Paired y t t') (name : Ident) :
    EndTogether (fun _ => Paired y) (Paired y) (start name t) (start name t') := by
  rw [start_eq_recording]
  refine recording_together ?_
  simp only [startQuietly, EStateM.bind_apply, EStateM.get_apply, h.library, h.apart.sameProgram.library.trans h.library]
  cases hname : y.library.program? name with
  | none => exact ⟨rfl, h⟩
  | some program =>
    have hprogram := isProgram_of_program? hname
    obtain ⟨u, u', hrenew, hrenew', -, hu⟩ := renew_together hy h.apart
    obtain ⟨v, v', hprime, hprime', -, hv, hnext⟩ := prime_together hy hprogram hu
    simp only [EStateM.bind_apply, hrenew, hrenew', hprime, hprime', EStateM.modify_apply]
    obtain ⟨s', rfl⟩ := hv.other
    refine ⟨rfl, ⟨hv.library, ⟨s', rfl⟩, hv.storages⟩, fun program' hstarted => ?_⟩
    cases hstarted
    exact ⟨hprogram, hnext.pause, hnext.parallel⟩

end StructuredText.Interpreter
