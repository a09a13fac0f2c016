-- SUMMARY: Whatever it is asked for, the controller replies as the interpreter does.
import StructuredText.Proofs.History
import StructuredText.Proofs.Mirrored

/-!
# Mirrored calls

Between two calls the controller has the storage, the cursor and the recorded diagnostics of the interpreter, and if a
program has started, its bodies stand for the frames of the interpreter. Each call keeps this and has the same reply in
both. So what is shown of the replies of the interpreter is true of those of the controller.
-/

namespace StructuredText

open Run Node

namespace Controller

variable {y : Layout} {l : Library} {c c' : Controller} {t t' : Interpreter} {program : Nat} {pou : Pou} {i : InstanceId}
  {s : Storage} {q : Stmt}

-- ---------------------------------------------------------------------------
-- Between calls
-- ---------------------------------------------------------------------------

/-- The interpreter is where the controller is between two calls, and nothing is broken. -/
structure Mirrors (y : Layout) (c : Controller) (t : Interpreter) : Prop where
  intact : Interpreter.Intact y t
  eq : t = c.framed t.frames
  cycle : ∀ program, c.program? = some program → ∃ pou i, InStep y.library program pou i c t

namespace Mirrors

theorem library (h : Mirrors y c t) : c.library? = some y.library :=
  (congrArg (·.library?) h.eq).symm.trans h.intact.library

theorem started (h : Mirrors y c t) : t.program? = c.program? := congrArg (·.program?) h.eq

theorem storage (h : Mirrors y c t) : t.execution.storage = c.machine.storage := congrArg (·.execution.storage) h.eq

theorem issues (h : Mirrors y c t) : t.issues = c.issues := congrArg (·.issues) h.eq

theorem sound (h : Mirrors y c t) : c.machine.storage.Sound y := h.storage ▸ h.intact.sound

/-- While a program runs. -/
theorem of_inStep (h : InStep y.library program pou i c t) (ht : Interpreter.Intact y t) : Mirrors y c t := by
  refine ⟨ht, h.eq, fun program' hprogram => ?_⟩
  cases h.started.symm.trans hprogram
  exact ⟨pou, i, h⟩

end Mirrors

theorem InStep.withIssues (h : InStep l program pou i c t) (issues : Array Diagnostic) :
    InStep l program pou i { c with issues } { t with issues } :=
  ⟨h.library, h.started, h.home, h.runs, h.limit, congrArg (fun t : Interpreter => { t with issues }) h.eq⟩

theorem Mirrors.withIssues (h : Mirrors y c t) (issues : Array Diagnostic) :
    Mirrors y { c with issues } { t with issues } := by
  refine ⟨h.intact.withIssues issues, congrArg (fun t : Interpreter => { t with issues }) h.eq, fun program hprogram => ?_⟩
  obtain ⟨pou, i, hin⟩ := h.cycle program hprogram
  exact ⟨pou, i, hin.withIssues issues⟩

/-- The controller with the variables and the direct memory of another one. -/
def holding (c : Controller) (s : Storage) : Controller := { c with machine := c.machine.holding s }

theorem InStep.holding (h : InStep l program pou i c t) (hs : SameInstances c.machine.storage s)
    (hunits : s.units = c.machine.storage.units) : InStep l program pou i (c.holding s) (t.holding s) :=
  ⟨h.library, h.started, h.home.kept hs hunits, h.runs.holding hs, h.limit, congrArg (·.holding s) h.eq⟩

/-- The storage may change between calls. -/
theorem Mirrors.holding (h : Mirrors y c t) (hs : s.Sound y) (hunits : s.units = c.machine.storage.units) :
    Mirrors y (c.holding s) (t.holding s) := by
  refine ⟨h.intact.withStorage hs, congrArg (·.holding s) h.eq, fun program hprogram => ?_⟩
  obtain ⟨pou, i, hin⟩ := h.cycle program hprogram
  exact ⟨pou, i, hin.holding (hs.instances.trans h.sound.instances.symm) hunits⟩

section

variable {α : Type} {R : α → Controller → Interpreter → Prop}

/-- Both record what they refuse with. -/
theorem refuse_mirrored (h : Mirrors y c t) (d : Diagnostic) :
    EndTogether R (Mirrors y) (refuse d c) (Interpreter.refuse d t) := by
  simp only [refuse, Interpreter.refuse, EStateM.bind_apply, EStateM.modify_apply, EStateM.throw_apply, h.issues]
  exact ⟨rfl, h.withIssues _⟩

theorem refuseAll_mirrored (h : Mirrors y c t) (ds : List Diagnostic) :
    EndTogether R (Mirrors y) (refuseAll ds c) (Interpreter.refuseAll ds t) := by
  simp only [refuseAll, Interpreter.refuseAll, EStateM.bind_apply, EStateM.modify_apply, EStateM.throw_apply, h.issues]
  exact ⟨rfl, h.withIssues _⟩

end

-- ---------------------------------------------------------------------------
-- Going on with a cycle
-- ---------------------------------------------------------------------------

theorem intact_of_endsIntact {ε α : Type} {issues : Array Diagnostic} {diagnostics : ε → List Diagnostic}
    {r : EStateM.Result ε Interpreter α} (h : Interpreter.EndsIntact y issues diagnostics r) :
    Interpreter.Intact y r.state := by
  cases r <;> exact h.1

/-- Nothing is gone on with before a program has started. -/
theorem ready_mirrored (h : Mirrors y c t) (hprogram : c.program? = none) :
    EndTogether (fun _ _ _ => False) (Mirrors y) (ready c) (Interpreter.ready t) := by
  simp only [ready, Interpreter.ready, EStateM.bind_apply, EStateM.get_apply, h.library, h.intact.library, h.started,
    hprogram]
  exact refuse_mirrored h _

theorem proceed_mirrored (hy : Interpreter.Executable y) (hl : y.library.Steppable) (h : Mirrors y c t)
    (d : Interpreter.Driver) :
    EndTogether (fun _ => Mirrors y) (Mirrors y) (proceed d.stops c) (Interpreter.proceed d.stops t) := by
  cases hprogram : c.program? with
  | none => exact EndTogether.bind (ready_mirrored h hprogram) fun _ _ _ => False.elim
  | some program =>
    obtain ⟨pou, i, hin⟩ := h.cycle program hprogram
    have hintact := intact_of_endsIntact (Interpreter.proceed_intact hy h.intact d)
    have htogether := proceed_together hl hin d
    obtain ⟨p, c', t', hr, hr', hin'⟩ | ⟨e, c', t', hr, hr', hin'⟩ := htogether.ok_or_error <;>
      rw [hr'] at hintact <;> rw [hr, hr']
    · exact ⟨rfl, .of_inStep hin' hintact⟩
    · exact ⟨rfl, .of_inStep hin' hintact⟩

-- ---------------------------------------------------------------------------
-- Queries
-- ---------------------------------------------------------------------------

/-- A query calls no unit, and so it ends in its first micro-step. -/
theorem query_ends (hl : y.Resolved) (hquery : q.IsQuery) (hq : q.WellFormed (Expr.Linked y.library [] False) False)
    (hs : s.Sound y) (epsilon : Float) (frames : List Frame) (x : Execution) :
    microStep ⟨y.library, epsilon⟩ [.start q] ⟨s, .idle⟩ ≠ .ok (.paused frames) x := by
  intro hpaused
  have habreast : Abreast y [] Interpreter.unchained ⟨s, .idle⟩ ⟨s, .idle⟩ := ⟨rfl, rfl, rfl, hs, hs, .refl y _ s⟩
  have hparallel := Interpreter.query_parallel epsilon hl.library hquery hq 0 _ _ habreast
  obtain ⟨d, z, -, hz, -⟩ | ⟨r, z, -, hz, -⟩ | ⟨_, _, _, _, _, hhalts⟩ := hparallel.cases
  · cases hpaused.symm.trans hz
  · cases hpaused.symm.trans hz
  · exact hhalts.inUnit

/-- Both have the same execution. -/
abbrev SameExecution (s : Stepping Unit) (x : Execution) : Prop := s.execution = x

/-- What does not depend on the nodes ends in the same way without them. -/
theorem running_together {α : Type} (m : Run α) {b : Arena} {x : Execution} :
    EndTogether (fun _ => SameExecution) SameExecution (running m ⟨(), b, x⟩) (m x) := by
  rw [running_apply]
  cases m x <;> exact ⟨rfl, rfl⟩

/-- The node of a query has its span, and the kind of the query but for places. -/
theorem node_of_holds {b : Arena} (h : b.Holds q) :
    ∃ n, b.nodes[q.nodeId]? = some n ∧ n.kind.forget = q.nodeKind ∧ n.span = q.span := by
  rw [Arena.Holds, Stmt.cells_eq] at h
  obtain ⟨n, hn, hforget⟩ := h (q.info.cell q.nodeKind) (List.mem_append_right _ (List.mem_singleton_self _))
  obtain ⟨hkind, hspan, -⟩ := Node.mk.inj hforget
  exact ⟨n, hn, hkind, hspan⟩

/-- The body of a query is answered as the query is. -/
theorem answer_together {env : Environment} {b : Arena} {depth : Nat} {x : Execution} (hquery : q.IsQuery)
    (htracks : Tracks ⟨env, none⟩ depth q) (hb : b.Holds q) (hcurrent : x.cursor.current = none)
    (hends : ∀ frames x', microStep env [.start q] x ≠ .ok (.paused frames) x') (limit : Nat) :
    EndTogether (fun _ => SameExecution) SameExecution
      (answer ⟨env, none⟩ limit depth (some q.nodeId) ⟨(), b, x⟩) (Interpreter.answer env limit q x) := by
  cases limit with
  | zero => exact ⟨rfl, rfl⟩
  | succ limit =>
    have hmatches := htracks b [.start q] x (.start hb) hcurrent
    simp only [answer, stepWithin, Interpreter.answer, Interpreter.runWithin, EStateM.bind_apply]
    generalize Arena.step ⟨env, none⟩ depth q.nodeId ⟨(), b, x⟩ = r at hmatches ⊢
    generalize hp : microStep env [.start q] x = p at hmatches ⊢
    rcases p with ⟨a | frames, x'⟩ | ⟨d, x'⟩
    · obtain ⟨b', rfl, hholds, hshown, -⟩ := hmatches
      obtain ⟨n, hn, hkind, hspan⟩ := node_of_holds hholds
      have hnode : b'.node q.nodeId = .ok n := by rw [Arena.node, hn]
      simp only [EStateM.pure_apply, if_true]
      rw [asking_bind hnode, hspan]
      cases q with
      | eval e =>
        obtain ⟨n', hn', hresult, -⟩ := hshown
        cases hn.symm.trans hn'
        obtain ⟨kind, span, type?, storage, result⟩ := n
        obtain rfl : result = a.value := hresult
        cases kind <;> try exact running_together _
        cases e <;> cases hkind
      | assign info target value =>
        obtain ⟨kind, span, type?, storage, result⟩ := n
        replace hkind : kind = (Stmt.assign info target value).nodeKind := Kind.eq_of_forget hkind rfl
        subst hkind
        have hplace : (b'.reference? target.nodeId).bind (·.place?) = a.place? := hshown
        simp only [Stmt.nodeKind, EStateM.bind_apply, EStateM.get_apply, hplace]
        cases a.place? with
        | none => exact ⟨rfl, rfl⟩
        | some place =>
          refine EndTogether.bind (running_together _) fun v z z' hz => ?_
          obtain rfl : z.execution = z' := hz
          exact running_together _
      | _ => cases hquery
    · exact absurd hp (hends _ _)
    · obtain ⟨b', rfl⟩ := hmatches
      exact ⟨rfl, rfl⟩

/-- A query is answered in the same way, and leaves the same storage. -/
theorem query_mirrored (hy : Interpreter.Executable y) (h : Mirrors y c t) {text : String} {q : Query}
    (hq : parseQuery text = .ok q) :
    EndTogether (fun _ => Mirrors y) (Mirrors y) (query q c) (Interpreter.query q t) := by
  obtain ⟨hquery, hunlinked⟩ := unlinked_of_parseQuery hq
  have hprepare := Interpreter.prepareQuery_regular hy.resolved.library c.options.realEpsilon hquery hunlinked
  have hoptions : t.options = c.options := congrArg (·.options) h.eq
  simp only [query, evaluateQuery, Interpreter.query, Interpreter.evaluateQuery, EStateM.tryCatch_apply,
    EStateM.bind_apply, EStateM.get_apply, h.library, h.intact.library, EStateM.ofExcept_apply, hoptions]
  cases hprepared : Interpreter.prepareQuery y.library c.options.realEpsilon q with
  | error ds => exact refuseAll_mirrored h ds
  | ok prepared =>
    obtain ⟨hquery', hwellFormed⟩ := hprepare.of_ok hprepared
    have hdistinct := distinct_of_prepareQuery (distinct_of_parseQuery hq) hprepared
    have hfits := (Arena.fills_ofStmt hdistinct).fits hdistinct
    have htogether := answer_together (x := ⟨c.machine.storage, .idle⟩) hquery' (prepared.tracks hfits hwellFormed)
      (Arena.holds_ofStmt hdistinct) rfl (query_ends hy.resolved hquery' hwellFormed h.sound c.options.realEpsilon)
      c.options.maxMicroSteps
    have hsafe := Interpreter.answer_safe c.options.realEpsilon hy.resolved hy.linked c.options.maxMicroSteps hquery'
      hwellFormed h.sound
    have hkeeps : Keeps (fun s s' => s'.units = s.units)
        (Interpreter.answer ⟨y.library, c.options.realEpsilon⟩ c.options.maxMicroSteps prepared) :=
      Interpreter.answer_keeps (Storage.units_kept y.library) _ prepared
    have hunits := (hkeeps ⟨t.execution.storage, .idle⟩).trans (congrArg (·.units) h.storage)
    have hstart : (⟨c.machine.storage, .idle⟩ : Execution) = ⟨t.execution.storage, .idle⟩ := by rw [h.storage]
    rw [hstart] at hsafe
    nth_rewrite 2 [hstart] at htogether
    dsimp only
    rw [show (Arena.ofStmt prepared).root = some prepared.nodeId from rfl]
    obtain ⟨shown, ⟨_, _, x⟩, _, hr, hr', rfl⟩ | ⟨d, ⟨_, _, x⟩, _, hr, hr', rfl⟩ := htogether.ok_or_error <;>
      rw [hr'] at hsafe hunits <;> rw [hr, hr']
    · exact ⟨rfl, h.holding hsafe hunits⟩
    · exact refuseAll_mirrored (h.holding hsafe.1 hunits) [d]

-- ---------------------------------------------------------------------------
-- Starting
-- ---------------------------------------------------------------------------

theorem renew_eq (h : Storage.ofLibrary l t.memory = .ok s) :
    Interpreter.renew l t = .ok () { t with execution := ⟨s, t.execution.cursor⟩ } := by
  have hstorage : atSpan .builtin (Storage.ofLibrary l t.memory) = .ok s := atSpan_eq_ok.mpr h
  simp only [Interpreter.renew, EStateM.bind_apply, EStateM.get_apply, EStateM.modify_apply, EStateM.ofExcept_apply,
    hstorage]
  rfl

theorem build_eq (h : Storage.ofLibrary l c.memory = .ok s) : build l c = .ok (.ofStorage l s) (c.setMemory {}) := by
  have hmachine : atSpan .builtin (Machine.ofLibrary l c.memory) = .ok (.ofStorage l s) :=
    atSpan_eq_ok.mpr (Except.bind_eq_ok.mpr ⟨s, h, rfl⟩)
  simp only [build, EStateM.bind_apply, EStateM.get_apply, EStateM.modify_apply, EStateM.ofExcept_apply, hmachine]

/-- The controller at the beginning of a program, on a new machine. -/
def begun (c : Controller) (l : Library) (s : Storage) (program : Nat) (i : InstanceId) : Controller :=
  { c with machine := .ofStorage l s, cursor := .primed i, program? := some program, steps := 0 }

theorem start_eq {name : Ident} (hlibrary : c.library? = some l) (hname : l.program? name = some program)
    (hs : Storage.ofLibrary l c.memory = .ok s) (hunit : s.unitInstance program = .ok i) :
    start name c = .ok () (c.begun l s program i) := by
  have hunit' : atSpan .builtin (s.unitInstance program) = .ok i := atSpan_eq_ok.mpr hunit
  simp only [start, EStateM.bind_apply, EStateM.get_apply, hlibrary, hname, EStateM.tryCatch_apply, build_eq hs,
    Machine.ofStorage, EStateM.ofExcept_apply, hunit', EStateM.modify_apply]
  rfl

theorem inStep_begun (hl : l.Steppable) (hlibrary : c.library? = some l) (h : Home l s program pou i) :
    InStep l program pou i (c.begun l s program i) ((c.begun l s program i).framed [.start pou.body]) :=
  .of_runs hlibrary rfl h (Machine.runs_primed (Machine.embodied_ofStorage hl s) (Machine.rests_ofStorage hl s) h.body)
    (Nat.zero_le _)

/-- The instance of a program in a sound storage. -/
theorem exists_home (hs : s.Sound y) (h : Interpreter.IsProgram y.library program) :
    ∃ pou i, Home y.library s program pou i := by
  obtain ⟨pou, hpou, hkind⟩ := h
  obtain ⟨i, hunit, hi⟩ := hs.units program pou hpou (by rw [hkind]; rintro ⟨⟩)
  exact ⟨pou, i, hpou, hunit, hs.pouOf ⟨program, hi, hpou⟩⟩

/-- What the library starts with on the direct memory. -/
theorem exists_storage (hy : Interpreter.Executable y) (memory : DirectMemory) :
    ∃ s, Storage.ofLibrary y.library memory = .ok s ∧ s.Sound y := by
  obtain ⟨memory', s, hs, hsound⟩ := hy.storage
  exact ⟨_, ofLibrary_memory hs memory, hsound.withMemory memory⟩

theorem start_mirrored (hy : Interpreter.Executable y) (hl : y.library.Steppable) (h : Mirrors y c t) (name : Ident) :
    EndTogether (fun _ => Mirrors y) (Mirrors y) (start name c) (Interpreter.start name t) := by
  obtain ⟨frames, rfl⟩ : ∃ frames, t = c.framed frames := ⟨_, h.eq⟩
  have hintact := intact_of_endsIntact (Interpreter.start_intact hy h.intact name)
  cases hname : y.library.program? name with
  | none =>
    simp only [start, Interpreter.start, EStateM.bind_apply, EStateM.get_apply, h.library, h.intact.library, hname]
    exact refuse_mirrored h _
  | some program =>
    obtain ⟨s, hs, hsound⟩ := exists_storage hy c.memory
    obtain ⟨pou, i, hhome⟩ := exists_home hsound (Interpreter.isProgram_of_program? hname)
    have hrenew : Interpreter.renew y.library (c.framed frames) = .ok () ((c.holding s).framed frames) := renew_eq hs
    have hprime := Interpreter.prime_eq (t := (c.holding s).framed frames) hhome.unit hhome.declared
    have hstart : Interpreter.start name (c.framed frames) =
        .ok () ((c.begun y.library s program i).framed [.start pou.body]) := by
      simp only [Interpreter.start, EStateM.bind_apply, EStateM.get_apply, h.intact.library, hname,
        EStateM.tryCatch_apply, hrenew, hprime, EStateM.modify_apply]
      rfl
    rw [hstart] at hintact
    rw [start_eq h.library hname hs hhome.unit, hstart]
    exact ⟨rfl, .of_inStep (inStep_begun hl h.library hhome) hintact⟩

-- ---------------------------------------------------------------------------
-- Linking
-- ---------------------------------------------------------------------------

/-- The same units are linked, or refused with the same diagnostics. -/
theorem link_together (units : List CompilationUnit) (c : Controller) (frames : List Frame) :
    EndTogether (fun _ c' t' => t' = c'.framed [] ∧ c'.program? = none) (fun c' t' => t' = c'.framed []) (link units c)
      (Interpreter.link units (c.framed frames)) := by
  simp only [link, Interpreter.link, EStateM.bind_apply, EStateM.modify_apply, EStateM.get_apply]
  rw [show (c.framed frames).options = c.options from rfl]
  cases StructuredText.link units c.options with
  | error ds => exact ⟨rfl, rfl⟩
  | ok l =>
    simp only [build, Interpreter.renew, EStateM.bind_apply, EStateM.modify_apply, EStateM.get_apply,
      EStateM.ofExcept_apply, EStateM.tryCatch_apply, EStateM.adaptExcept_apply, memory, Interpreter.memory, framed,
      Machine.ofLibrary]
    cases Storage.ofLibrary l c.machine.storage.memory with
    | error e => exact ⟨rfl, rfl⟩
    | ok s => exact ⟨rfl, rfl, rfl⟩

/-- The interpreter links what the controller links. -/
theorem framed_link {units : List CompilationUnit} {linked : Controller} (h : link units c = .ok () linked) :
    Interpreter.link units (c.framed []) = .ok () (linked.framed []) ∧ linked.program? = none := by
  have htogether := link_together units c []
  rw [h] at htogether
  obtain ⟨_, _, _, hr, hr', rfl, hprogram⟩ | ⟨_, _, _, hr, -, -⟩ := htogether.ok_or_error
  · cases hr
    exact ⟨hr', hprogram⟩
  · cases hr

/-- The interpreter without a cycle is where a controller is that has linked units. -/
theorem mirrors_of_link {units : List CompilationUnit} {linked : Controller} (hunits : ∀ u ∈ units, u.Built)
    (h : link units c = .ok () linked) :
    ∃ y, StructuredText.link units c.options = .ok y.library ∧ Interpreter.Executable y ∧ y.library.Steppable ∧
      Mirrors y linked (linked.framed []) := by
  obtain ⟨hframed, hprogram⟩ := framed_link h
  obtain ⟨l, s, hl, -, hlinked⟩ := Interpreter.exists_of_link hframed
  obtain ⟨y, hy, hintact⟩ := Interpreter.intact_of_link (fun u hu => (hunits u hu).toFresh) hframed
  obtain rfl : y.library = l := Option.some.inj (hintact.library.symm.trans (congrArg (·.library?) hlinked))
  refine ⟨y, hl, hy, ⟨hy.linked, distinct_of_link hunits hl⟩, hintact, rfl, fun program hstarted => ?_⟩
  cases hprogram.symm.trans hstarted

-- ---------------------------------------------------------------------------
-- Calls
-- ---------------------------------------------------------------------------

/-- Performs the call for its reply. -/
def ask : Interpreter.Call → Controlling (List Diagnostic) Interpreter.Reply
  | .start name => do
    (start name).adaptExcept ([·])
    pure .done
  | .proceed driver => do
    let (pause, steps) ← (proceed driver.stops).adaptExcept ([·])
    pure (.stopped pause steps)
  | .query _ q _ => do
    let text ← query q
    pure (.shown text)
  | .setMemory memory => do
    modify (·.setMemory memory)
    pure .done

/-- The replies to calls, or the diagnostics that they fail with. Each is performed whatever has become of the others. -/
def replies : List Interpreter.Call → Controller →
    List (Except (List Diagnostic) Interpreter.Reply) × Controller
  | [], c => ([], c)
  | call :: rest, c =>
    match ask call c with
    | .ok reply c' =>
      let (later, last) := replies rest c'
      (.ok reply :: later, last)
    | .error ds c' =>
      let (later, last) := replies rest c'
      (.error ds :: later, last)

theorem ask_mirrored (hy : Interpreter.Executable y) (hl : y.library.Steppable) (h : Mirrors y c t)
    (call : Interpreter.Call) :
    EndTogether (fun _ => Mirrors y) (Mirrors y) (ask call c) (call.ask t) := by
  cases call with
  | start name => exact EndTogether.bind (.adaptExcept (start_mirrored hy hl h name)) fun _ _ _ hu => ⟨rfl, hu⟩
  | proceed driver =>
    exact EndTogether.bind (.adaptExcept (proceed_mirrored hy hl h driver)) fun _ _ _ hu => ⟨rfl, hu⟩
  | query text q hq => exact EndTogether.bind (query_mirrored hy h hq) fun _ _ _ hu => ⟨rfl, hu⟩
  | setMemory memory =>
    obtain ⟨frames, rfl⟩ : ∃ frames, t = c.framed frames := ⟨_, h.eq⟩
    exact ⟨rfl, h.holding (h.sound.withMemory memory) rfl⟩

/-- Whatever it is asked for, one call after the other, the controller replies as the interpreter does. -/
theorem replies_mirrored (hy : Interpreter.Executable y) (hl : y.library.Steppable) (h : Mirrors y c t)
    (calls : List Interpreter.Call) :
    (replies calls c).1 = (Interpreter.Call.replies calls t).1 ∧
      Mirrors y (replies calls c).2 (Interpreter.Call.replies calls t).2 := by
  induction calls generalizing c t with
  | nil => exact ⟨rfl, h⟩
  | cons call rest ih =>
    have hask := ask_mirrored hy hl h call
    rw [replies, Interpreter.Call.replies]
    obtain ⟨a, c', t', hr, hr', h'⟩ | ⟨ds, c', t', hr, hr', h'⟩ := hask.ok_or_error <;> rw [hr, hr']
    · exact ⟨congrArg (List.cons _) (ih h').1, (ih h').2⟩
    · exact ⟨congrArg (List.cons _) (ih h').1, (ih h').2⟩

/--
A linked program does not break an invariant of the controller. Take any units as they are built, link them, and then
start programs, go on with cycles, set direct memory and answer queries in any order, whether the calls fail or not. Every
diagnostic that one of the calls ends with is recorded, nothing else is, and none of these tells of a broken invariant:
every body is there when it is stepped and every node in it, every reference leads to a variable, and every `EXIT` finds
its loop.
-/
theorem replies_ordinary {units : List CompilationUnit} (hunits : ∀ u ∈ units, u.Built) {linked : Controller}
    (hlink : link units c = .ok () linked) (calls : List Interpreter.Call) :
    let diagnostics := (replies calls linked).1.flatMap Interpreter.Call.failures
    (replies calls linked).2.issues = linked.issues ++ diagnostics ∧
      ∀ d ∈ diagnostics, d.problem ≠ .internalInvariant := by
  obtain ⟨y, -, hy, hl, hmirrors⟩ := mirrors_of_link hunits hlink
  obtain ⟨hreplies, hend⟩ := replies_mirrored hy hl hmirrors calls
  obtain ⟨-, hissues, hordinary⟩ := Interpreter.performAll_intact hy hmirrors.intact calls
  rw [Interpreter.Call.performAll_eq_replies] at hissues hordinary
  rw [hreplies, ← hend.issues]
  exact ⟨hissues, hordinary⟩

/-- Parses a source and links it. -/
def linkOn (source : String) : Controlling (List Diagnostic) Unit := do
  let unit ← ofExcept (parseUnit source .anonymous)
  link [unit]

theorem parsed_of_linkOn {source : String} (h : linkOn source c = .ok () c') :
    ∃ unit, parseUnit source .anonymous = .ok unit ∧ link [unit] c = .ok () c' := by
  simp only [linkOn, EStateM.bind_apply, EStateM.ofExcept_apply] at h
  cases hparse : parseUnit source .anonymous with
  | error ds => simp [hparse] at h
  | ok unit =>
    simp only [hparse] at h
    exact ⟨unit, rfl, h⟩

/-- A block that is called in a loop divides by its input. -/
def divisionSource : String :=
  "FUNCTION_BLOCK FB VAR_INPUT i : INT; END_VAR VAR_OUTPUT o : INT; END_VAR o := 6 / i; END_FUNCTION_BLOCK " ++
    "PROGRAM P VAR f : FB; x : INT := 2; END_VAR " ++
    "WHILE TRUE DO f(i := x); x := x - 1; EXIT; END_WHILE; END_PROGRAM"

/-- The input is 0 in the third cycle, and in the last one it is what a query has set it to. -/
def divisionCalls : List Interpreter.Call :=
  [.start { text := "P" }, .proceed .runCycle, .proceed (.step .into), .proceed .runCycle, .proceed .runCycle] ++
    (Interpreter.Call.ofText? "P.x := 3").toList ++ (Interpreter.Call.ofText? "P.f").toList ++
      [.proceed .runCycle, .setMemory {}]

theorem replies_ordinary_division :
    ∃ unit linked, parseUnit divisionSource .anonymous = .ok unit ∧ link [unit] {} = .ok () linked ∧
      let diagnostics := (replies divisionCalls linked).1.flatMap Interpreter.Call.failures
      diagnostics.map (·.problem) = [.divisionByZero] ∧
        (replies divisionCalls linked).2.issues = linked.issues ++ diagnostics ∧
          ∀ d ∈ diagnostics, d.problem ≠ .internalInvariant := by
  have hrun : (linkOn divisionSource {}).isOk = true ∧
      ((replies divisionCalls (linkOn divisionSource {}).state).1.flatMap
        Interpreter.Call.failures).map (·.problem) = [.divisionByZero] := by
    have hchars : divisionSource.toList = _ :=
      toList_append_eq (toList_append_eq String.toList_ofList String.toList_ofList) String.toList_ofList
    rw [linkOn, parseUnit, tokenize_of_toList hchars]
    decide +kernel
  obtain ⟨unit, hparse, hlink⟩ := parsed_of_linkOn (EStateM.Result.eq_ok_of_isOk hrun.1)
  refine ⟨unit, _, hparse, hlink, hrun.2, replies_ordinary ?_ hlink divisionCalls⟩
  exact List.forall_mem_singleton.mpr (built_of_parseUnit hparse)

end Controller

end StructuredText
