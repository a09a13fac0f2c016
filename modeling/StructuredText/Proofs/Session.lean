-- SUMMARY: Whatever an interpreter with a linked library is asked for, it ends with ordinary errors only.
import StructuredText.Proofs.Cycle
import StructuredText.Proofs.Instances
import StructuredText.Proofs.LinkedLibrary
import StructuredText.Proofs.Parsed
import StructuredText.Proofs.Queries

/-!
# Sessions

Once a library is linked, a program of it may be started, gone on with and queried in any order, and direct memory
may be set from outside. Between two calls the storage is sound, and what is left of the cycle is safe whatever happens
to the storage until then, as long as it stays sound. That is what the next call needs, be it one that goes on with the
cycle or one that changes variables in between.
-/

namespace StructuredText.Interpreter

open Reporting

-- ---------------------------------------------------------------------------
-- Calls
-- ---------------------------------------------------------------------------

/-- What an interpreter is asked for when a library is linked. -/
inductive Call where
  | start (name : Ident)
  /-- Goes on with the cycle. -/
  | proceed (driver : Driver)
  | query (text : String) (q : Query) (parsed : parseQuery text = .ok q)
  /-- Sets direct memory from outside. -/
  | setMemory (memory : DirectMemory)

namespace Call

def perform : Call → Interpreting (List Diagnostic) Unit
  | .start name => (Interpreter.start name).adaptExcept ([·])
  | .proceed driver => do
    let _ ← driver.call.adaptExcept ([·])
  | .query _ q _ => do
    let _ ← Interpreter.query q
  | .setMemory memory => modify (·.setMemory memory)

/-- The diagnostics that calls end with, each performed whether or not those before it have failed. -/
def performAll : List Call → Interpreter → List Diagnostic × Interpreter
  | [], t => ([], t)
  | c :: rest, t =>
    match c.perform t with
    | .ok _ u => performAll rest u
    | .error ds u =>
      let (later, v) := performAll rest u
      (ds ++ later, v)

end Call

-- ---------------------------------------------------------------------------
-- Between calls
-- ---------------------------------------------------------------------------

/-- What the calls of a session rely on: what is linked can be executed on the storage that it starts with. -/
structure Executable (y : Layout) : Prop where
  resolved : y.Resolved
  linked : y.library.BodiesLinked
  storage : ∃ memory s, Storage.ofLibrary y.library memory = .ok s ∧ s.Sound y

/-- The library is linked, and its variables hold values of their types. -/
structure Serves (y : Layout) (t : Interpreter) : Prop where
  library : t.library? = some y.library
  sound : t.execution.storage.Sound y

/-- What is left of the cycle is safe, up to any number of micro-steps. -/
def Resumable (y : Layout) (t : Interpreter) : Prop :=
  ∃ after, ∀ n, Run.Safe ⟨y.library, t.options.realEpsilon⟩ (Storage.Sound y) n t.execution.cursor.stack after
    (Run.microStep ⟨y.library, t.options.realEpsilon⟩ t.frames) fun _ => True

/-- The position is that of a program. -/
def IsProgram (l : Library) (program : Nat) : Prop := ∃ p, l.pous[program]? = some p ∧ p.kind = .program

/-- Nothing is broken between two calls: a program that has started can be gone on with. -/
structure Intact (y : Layout) (t : Interpreter) : Prop extends Serves y t where
  started : ∀ program, t.program? = some program → IsProgram y.library program ∧ Resumable y t

variable {y : Layout} {t u : Interpreter}

/-- The storage may change between calls. -/
theorem Intact.withStorage (ht : Intact y t) {s : Storage} (hs : s.Sound y) :
    Intact y { t with execution := ⟨s, t.execution.cursor⟩ } := ⟨⟨ht.library, hs⟩, ht.started⟩

theorem Intact.withIssues (ht : Intact y t) (issues : Array Diagnostic) : Intact y { t with issues } :=
  ⟨⟨ht.library, ht.sound⟩, ht.started⟩

theorem isProgram_of_program? {l : Library} {name : Ident} {program : Nat} (h : l.program? name = some program) :
    IsProgram l program := by
  obtain ⟨position, -, h⟩ := Option.bind_eq_some_iff.mp h
  obtain ⟨p, hp, h⟩ := Option.bind_eq_some_iff.mp h
  split at h
  · next hkind =>
    cases h
    exact ⟨p, hp, hkind⟩
  · cases h

-- ---------------------------------------------------------------------------
-- Going on with a cycle
-- ---------------------------------------------------------------------------

/-- At the beginning of a program everything is ahead. -/
theorem prime_serves (hy : Executable y) {program : Nat} (hprogram : IsProgram y.library program) (ht : Serves y t) :
    ∃ u, prime y.library program t = .ok () u ∧ SameProgram t u ∧ Serves y u ∧ Resumable y u := by
  obtain ⟨p, hp, hkind⟩ := hprogram
  obtain ⟨i, hunit, hi⟩ := ht.sound.units program p hp (by rw [hkind]; nofun)
  refine ⟨_, prime_eq hunit hp, ⟨rfl, rfl, rfl, rfl⟩, ⟨ht.library, ht.sound⟩, ⟨some i, [], []⟩, fun n => ?_⟩
  have hbodies : y.BodiesSafe t.options.realEpsilon (n + 1) := y.bodiesSafe hy.resolved hy.linked (n + 1)
  refine .resumed (hbodies n (Nat.lt_succ_self n) i p [] [] ⟨program, hi, hp⟩) fun _ _ => .finished trivial

/-- A micro-step pauses where the cycle can be gone on with, completes the cycle, or fails with an ordinary error. -/
theorem advance_serves (ht : Serves y t) (hrest : Resumable y t) :
    Ends (fun a u => Serves y u ∧ SameProgram t u ∧ (a ≠ .pause .complete → Resumable y u))
      (fun u => Serves y u ∧ SameProgram t u) (advance y.library t) := by
  obtain ⟨after, hsafe⟩ := hrest
  replace hsafe (n : Nat) := hsafe n t.execution ht.sound rfl
  rw [advance_eq]
  rcases hstep : Run.microStep ⟨y.library, t.options.realEpsilon⟩ t.frames t.execution with ⟨_ | frames, x⟩ | ⟨d, x⟩ <;>
    simp only [hstep] at hsafe ⊢
  · exact ⟨⟨ht.library, (hsafe 0).1⟩, ⟨rfl, rfl, rfl, rfl⟩, fun h => absurd rfl h⟩
  · refine ⟨⟨ht.library, (hsafe 0)⟩, ⟨rfl, rfl, rfl, rfl⟩, fun _ => ⟨after, fun n x' hx' hstack => ?_⟩⟩
    exact (hsafe (n + 1)).2 x' hx' hstack
  · exact ⟨⟨⟨ht.library, (hsafe 0).1⟩, ⟨rfl, rfl, rfl, rfl⟩⟩, (hsafe 0).2⟩

/-- So do the micro-steps up to a pause that is accepted. -/
theorem advanceTo_serves (stops : Nat → Bool) (limit : Nat) (ht : Serves y t) (hrest : Resumable y t) :
    Ends (fun pause u => Serves y u ∧ SameProgram t u ∧ (pause ≠ .complete → Resumable y u))
      (fun u => Serves y u ∧ SameProgram t u) (advanceTo y.library stops limit t) := by
  induction limit generalizing t with
  | zero => exact ⟨⟨ht, .refl t⟩, nofun⟩
  | succ limit ih =>
    have hadvance := advance_serves (t := t.counting) ⟨ht.library, ht.sound⟩ hrest
    have later {v : Interpreter} (hv : Serves y v) (hsame : SameProgram t v) (hrest : Resumable y v) :
        Ends (fun pause u => Serves y u ∧ SameProgram t u ∧ (pause ≠ .complete → Resumable y u))
          (fun u => Serves y u ∧ SameProgram t u) (advanceTo y.library stops limit v) :=
      (ih hv hrest).mono (fun _ _ ⟨hu, hsame', hnext⟩ => ⟨hu, hsame.trans hsame', hnext⟩)
        fun _ ⟨hu, hsame'⟩ => ⟨hu, hsame.trans hsame'⟩
    have hcounted {v : Interpreter} (h : SameProgram t.counting v) : SameProgram t v := ⟨h.1, h.2, h.3, h.4⟩
    rw [advanceTo_succ]
    generalize advance y.library t.counting = result at hadvance ⊢
    rcases result with ⟨a, v⟩ | ⟨d, v⟩
    · obtain ⟨hv, hsame, hnext⟩ := hadvance
      cases a with
      | progress => exact later hv (hcounted hsame) (hnext nofun)
      | pause p =>
        cases p with
        | complete => exact ⟨hv, hcounted hsame, fun h => absurd rfl h⟩
        | «at» statement =>
          dsimp only
          split
          · exact ⟨hv, hcounted hsame, fun _ => hnext nofun⟩
          · exact later hv (hcounted hsame) (hnext nofun)
    · exact ⟨⟨hadvance.1.1, hcounted hadvance.1.2⟩, hadvance.2⟩

-- ---------------------------------------------------------------------------
-- The end of a call
-- ---------------------------------------------------------------------------

/-- A call ends with nothing broken. It has recorded its errors, which are ordinary. -/
def EndsIntact {ε α : Type} (y : Layout) (issues : Array Diagnostic) (diagnostics : ε → List Diagnostic) :
    EStateM.Result ε Interpreter α → Prop
  | .ok _ u => Intact y u ∧ u.issues = issues
  | .error e u => Intact y u ∧ u.issues = issues ++ diagnostics e ∧ Ordinary (diagnostics e)

namespace EndsIntact

variable {ε α β : Type} {issues : Array Diagnostic} {diagnostics : ε → List Diagnostic} {x : Interpreting ε α}

theorem map {f : α → β} (h : EndsIntact y issues diagnostics (x t)) :
    EndsIntact y issues diagnostics ((do pure (f (← x))) t) := by
  simp only [EStateM.bind_apply]
  cases hx : x t <;> rwa [hx] at h

theorem adapt (h : EndsIntact y issues diagnostics (x t)) :
    EndsIntact y issues id (x.adaptExcept diagnostics t) := by
  rw [EStateM.adaptExcept_apply]
  cases hx : x t <;> rwa [hx] at h

/-- The errors are recorded at the end. -/
theorem recording (h : match x t with
      | .ok _ u => Intact y u ∧ u.issues = issues
      | .error e u => Intact y u ∧ u.issues = issues ∧ Ordinary (diagnostics e)) :
    EndsIntact y issues diagnostics (recording diagnostics x t) := by
  unfold Interpreter.recording
  cases hx : x t with
  | ok a u => rwa [hx] at h
  | error e u =>
    rw [hx] at h
    obtain ⟨hu, rfl, he⟩ := h
    exact ⟨hu.withIssues _, rfl, he⟩

end EndsIntact

theorem ordinary_singleton {d : Diagnostic} (h : Ordinary d) : Ordinary [d] := List.forall_mem_singleton.mpr h

/-- At the end of a cycle the next one is prepared, be it complete or abandoned. -/
theorem conclude_intact (hy : Executable y) {program : Nat} (ht : Intact y t) (hstarted : t.program? = some program)
    {r : EStateM.Result Diagnostic Interpreter Pause}
    (h : Ends (fun pause u => Serves y u ∧ SameProgram t u ∧ (pause ≠ .complete → Resumable y u))
      (fun u => Serves y u ∧ SameProgram t u) r) :
    EndsIntact y t.issues ([·]) (conclude y.library program r) := by
  obtain ⟨hprogram, -⟩ := ht.started program hstarted
  have started {u : Interpreter} (hu : Serves y u) (hsame : SameProgram t u) (hrest : Resumable y u) : Intact y u := by
    refine ⟨hu, fun program' hstarted' => ?_⟩
    cases (hsame.program.trans hstarted).symm.trans hstarted'
    exact ⟨hprogram, hrest⟩
  refine .recording ?_
  rcases r with ⟨_ | _, u⟩ | ⟨d, u⟩
  · obtain ⟨hu, hsame, hrest⟩ := h
    exact ⟨started hu hsame (hrest nofun), hsame.issues⟩
  · obtain ⟨hu, hsame, -⟩ := h
    obtain ⟨v, hprime, hsame', hv, hrest⟩ := prime_serves hy hprogram hu
    simp only [orAbandon, EStateM.bind_apply, hprime]
    exact ⟨started hv (hsame.trans hsame') hrest, (hsame.trans hsame').issues⟩
  · obtain ⟨⟨hu, hsame⟩, hd⟩ := h
    obtain ⟨v, hprime, hsame', hv, hrest⟩ := prime_serves hy hprogram hu
    simp only [orAbandon, hprime]
    exact ⟨started hv (hsame.trans hsame') hrest, (hsame.trans hsame').issues, ordinary_singleton hd⟩

-- ---------------------------------------------------------------------------
-- The calls of a session
-- ---------------------------------------------------------------------------

theorem proceed_intact (hy : Executable y) (ht : Intact y t) (driver : Driver) :
    EndsIntact y t.issues ([·]) (proceed driver.stops t) := by
  cases hstarted : t.program? with
  | none =>
    rw [proceed_eq_recording]
    refine .recording ?_
    simp only [proceedQuietly, EStateM.bind_apply, readyQuietly, EStateM.get_apply, ht.library, hstarted, EStateM.throw_apply]
    exact ⟨ht, trivial, ordinary_singleton (by rintro ⟨⟩)⟩
  | some program =>
    obtain ⟨-, hrest⟩ := ht.started program hstarted
    rw [proceed_eq ht.library hstarted]
    exact conclude_intact hy ht hstarted (advanceTo_serves _ _ ht.toServes hrest)

theorem call_intact (hy : Executable y) (ht : Intact y t) (driver : Driver) :
    EndsIntact y t.issues ([·]) (driver.call t) := by
  have hproceed := proceed_intact hy ht driver
  cases driver with
  | step kind => exact hproceed.map
  | runCycle => exact hproceed.map.map

/-- The storage is the one that the library starts with, but for the memory. -/
theorem renew_serves (hy : Executable y) (ht : Serves y t) :
    ∃ u, renew y.library t = .ok () u ∧ SameProgram t u ∧ Serves y u := by
  obtain ⟨memory, s, hs, hsound⟩ := hy.storage
  have hstorage : atSpan .builtin (Storage.ofLibrary y.library t.memory) = .ok { s with memory := t.memory } :=
    atSpan_eq_ok.mpr (ofLibrary_memory hs t.memory)
  simp only [renew, EStateM.bind_apply, EStateM.get_apply, EStateM.modify_apply, EStateM.ofExcept_apply, hstorage]
  exact ⟨_, rfl, ⟨rfl, rfl, rfl, rfl⟩, ⟨ht.library, hsound.withMemory _⟩⟩

theorem start_intact (hy : Executable y) (ht : Intact y t) (name : Ident) :
    EndsIntact y t.issues ([·]) (start name t) := by
  rw [start_eq_recording]
  refine .recording ?_
  simp only [startQuietly, EStateM.bind_apply, EStateM.get_apply, ht.library]
  cases hname : y.library.program? name with
  | none => exact ⟨ht, rfl, ordinary_singleton (by rintro ⟨⟩)⟩
  | some program =>
    have hprogram := isProgram_of_program? hname
    obtain ⟨u, hrenew, hsame, hu⟩ := renew_serves hy ht.toServes
    obtain ⟨v, hprime, hsame', hv, hrest⟩ := prime_serves hy hprogram hu
    simp only [EStateM.bind_apply, hrenew, hprime, EStateM.modify_apply]
    refine ⟨⟨⟨hv.library, hv.sound⟩, fun program' hstarted' => ?_⟩, (hsame.trans hsame').issues⟩
    cases hstarted'
    exact ⟨hprogram, hrest⟩

theorem query_intact (hy : Executable y) (ht : Intact y t) {text : String} {q : Query} (hq : parseQuery text = .ok q) :
    EndsIntact y t.issues id (query q t) := by
  rw [query_eq_recording]
  refine .recording ?_
  obtain ⟨hquery, hunlinked⟩ := unlinked_of_parseQuery hq
  have hprepare := prepareQuery_regular hy.resolved.library t.options.realEpsilon hquery hunlinked
  simp only [evaluateQuery, EStateM.bind_apply, EStateM.get_apply, ht.library, EStateM.ofExcept_apply]
  cases hprepared : prepareQuery y.library t.options.realEpsilon q with
  | error ds => exact ⟨ht, rfl, hprepare.of_error hprepared⟩
  | ok prepared =>
    obtain ⟨hquery', hwellFormed⟩ := hprepare.of_ok hprepared
    have hanswer := answer_safe t.options.realEpsilon hy.resolved hy.linked t.options.maxMicroSteps hquery' hwellFormed
      ht.sound
    dsimp only
    generalize answer ⟨y.library, t.options.realEpsilon⟩ t.options.maxMicroSteps prepared
      ⟨t.execution.storage, .idle⟩ = result at hanswer ⊢
    rcases result with ⟨shown, x⟩ | ⟨d, x⟩
    · exact ⟨ht.withStorage hanswer, rfl⟩
    · exact ⟨ht.withStorage hanswer.1, rfl, ordinary_singleton hanswer.2⟩

theorem perform_intact (hy : Executable y) (ht : Intact y t) (c : Call) :
    EndsIntact y t.issues id (c.perform t) := by
  cases c with
  | start name => exact (start_intact hy ht name).adapt
  | proceed driver => exact (call_intact hy ht driver).adapt.map
  | query text q hq => exact (query_intact hy ht hq).map
  | setMemory memory => exact ⟨ht.withStorage (ht.sound.withMemory memory), rfl⟩

/-- Calls one after the other end with nothing broken, and record the errors that they end with. -/
theorem performAll_intact (hy : Executable y) (ht : Intact y t) (calls : List Call) :
    Intact y (Call.performAll calls t).2 ∧
      (Call.performAll calls t).2.issues = t.issues ++ (Call.performAll calls t).1 ∧
        Ordinary (Call.performAll calls t).1 := by
  induction calls generalizing t with
  | nil => exact ⟨ht, Array.appendList_nil.symm, nofun⟩
  | cons c rest ih =>
    have hperform := perform_intact hy ht c
    rw [Call.performAll]
    generalize c.perform t = result at hperform ⊢
    rcases result with ⟨_, u⟩ | ⟨ds, u⟩
    · obtain ⟨hu, hissues⟩ := hperform
      rw [← hissues]
      exact ih hu
    · obtain ⟨hu, hissues, hds⟩ := hperform
      obtain ⟨hv, hissues', hlater⟩ := ih hu
      refine ⟨hv, ?_, List.forall_mem_append.mpr ⟨hds, hlater⟩⟩
      exact Array.ext' (by simp [hissues', hissues])

-- ---------------------------------------------------------------------------
-- Linking
-- ---------------------------------------------------------------------------

/-- What is linked of parsed sources can be executed. -/
theorem intact_of_link {units : List CompilationUnit} (hunits : ∀ u ∈ units, u.Fresh)
    (h : Interpreter.link units t = .ok () u) : ∃ y, Executable y ∧ Intact y u := by
  obtain ⟨l, s, hlink, hs, rfl⟩ := exists_of_link h
  obtain ⟨hl, hlinked⟩ := resolved_of_link hunits hlink
  obtain ⟨pous, hresolved, hsound⟩ := sound_of_ofLibrary hl hs
  exact ⟨⟨l, pous⟩, ⟨hresolved, hlinked, _, s, hs, hsound⟩, ⟨rfl, hsound⟩, nofun⟩

/-- Parses a source and links it. -/
def linkOn (source : String) : Interpreting (List Diagnostic) Unit := do
  let unit ← ofExcept (parseUnit source .anonymous)
  Interpreter.link [unit]

theorem parsed_of_linkOn {source : String} (h : linkOn source t = .ok () u) :
    ∃ unit, parseUnit source .anonymous = .ok unit ∧ Interpreter.link [unit] t = .ok () u := by
  simp only [linkOn, EStateM.bind_apply, EStateM.ofExcept_apply] at h
  cases hparse : parseUnit source .anonymous with
  | error ds => simp [hparse] at h
  | ok unit =>
    simp only [hparse] at h
    exact ⟨unit, rfl, h⟩

/-- The query in a text, if it is one. -/
def Call.ofText? (text : String) : Option Call :=
  match h : parseQuery text with
  | .ok q => some (.query text q h)
  | .error _ => none

end StructuredText.Interpreter
