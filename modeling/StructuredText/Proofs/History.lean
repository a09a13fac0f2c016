-- SUMMARY: What calls of functions have left in their variables has no influence on what is observed later.
import StructuredText.Proofs.Paired

/-!
# Functions without history

Every function has a single instance, which all of its calls use, nested ones and those that an error has abandoned
included. Between calls the values in its variables remain in the storage, but nothing that an interpreter is asked for
depends on them: not a cycle, not a step, and not a query, whose answers show values of programs, function blocks and
global variables only.
-/

namespace StructuredText

-- ---------------------------------------------------------------------------
-- Showing values
-- ---------------------------------------------------------------------------

theorem mapM_congr {ε α β : Type} {as : List α} {f g : α → Except ε β} (h : ∀ a ∈ as, f a = g a) :
    as.mapM f = as.mapM g := by
  induction as with
  | nil => rfl
  | cons a as ih =>
    rw [List.mapM_cons, List.mapM_cons, h a List.mem_cons_self, ih fun b hb => h b (List.mem_cons_of_mem a hb)]

namespace Storage

variable {y : Layout} {busy : List InstanceId} {s s' : Storage}

/-- A value whose function blocks last is shown in the same way with the variables of either storage. -/
theorem Coupled.displayWithin (h : Coupled y busy s s') (hl : y.Resolved) (depth : Nat) {v : Value}
    (hproper : v.Proper y.Bound) (hbinds : v.Proper y.Binds) :
    s.displayWithin y.library depth v = s'.displayWithin y.library depth v := by
  induction depth generalizing v with
  | zero => rfl
  | succ depth ih =>
    cases v with
    | array elements =>
      rw [Storage.displayWithin, Storage.displayWithin]
      refine congrArg (· >>= _) (mapM_congr fun v hmem => ?_)
      exact ih (Value.allProper_iff.mp hproper v hmem) (Value.allProper_iff.mp hbinds v hmem)
    | struct members =>
      rw [Storage.displayWithin, Storage.displayWithin]
      refine congrArg (· >>= _) (mapM_congr fun m hmem => congrArg (· >>= _) ?_)
      exact ih (Value.membersProper_iff.mp hproper m hmem) (Value.membersProper_iff.mp hbinds m hmem)
    | block ref =>
      obtain ⟨i, hbound, hi⟩ := hproper
      obtain ⟨block, _⟩ := ref
      obtain rfl : _ = some i := hbound
      have hsame : s.interface y.library block i = s'.interface y.library block i := by
        unfold interface Storage.instance?
        rw [h.alike.instances i (.inl (hbinds i rfl))]
      have hparts := interface_regular hl h.left hi
      rw [Storage.displayWithin, Storage.displayWithin, ← hsame]
      cases hinterface : s.interface y.library block i with
      | error e => rfl
      | ok parts =>
        rw [Except.ok_bind, Except.ok_bind]
        refine congrArg (· >>= _) (mapM_congr fun part hpart => congrArg (· >>= _) ?_)
        obtain ⟨type, hfits⟩ := hparts.of_ok hinterface part hpart
        exact ih hfits.1 (hfits.binds hl.library)
    | _ => rfl

end Storage

-- ---------------------------------------------------------------------------
-- Queries
-- ---------------------------------------------------------------------------

namespace Interpreter

variable {y : Layout} (epsilon : Float) {kept : List InstanceId} {x x' : Execution} {q : Stmt}

/-- A question that both storages answer in the same way. -/
theorem asking_together {α : Type} {span : Span} {f : Storage → Except ValueError α}
    {E : Execution → Execution → Prop} (h : f x.storage = f x'.storage) (hend : E x x') :
    EndTogether (fun a z z' => z = x ∧ z' = x' ∧ f x.storage = .ok a) E (Run.asking span f x)
      (Run.asking span f x') := by
  simp only [Run.asking, EStateM.bind_apply, EStateM.get_apply, EStateM.ofExcept_apply, ← h]
  cases f x.storage with
  | ok a => exact ⟨rfl, rfl, rfl, rfl⟩
  | error e => exact ⟨rfl, hend⟩

/-- The executions of a query. They call no unit, and so they never pause. -/
def asked (y : Layout) (epsilon : Float) (kept : List InstanceId) : Comparison := ⟨y, epsilon, kept, False⟩

/-- Both storages have the value of a query. That of an assignment is in the place of its target. -/
def Answered (y : Layout) (kept : List InstanceId) (q : Stmt) (r : Evaluated) : Prop :=
  match q with
  | .assign .. => ∃ type place, r.place? = some place ∧ y.Placed place type ∧ y.Sees kept place.slot
  | _ => r.value.Proper y.Bound ∧ r.value.Proper y.Binds

/-- A query has no chain of instances. -/
def unchained : Chain := ⟨none, []⟩

theorem query_parallel (hl : y.library.Resolved) (hquery : q.IsQuery)
    (hq : q.WellFormed (Expr.Linked y.library [] False) False) (n : Nat) :
    (asked y epsilon kept).Parallel n [] unchained unchained
      (Run.microStep (asked y epsilon kept).env [.start q]) (Answered y kept q) := by
  have hruns : y.Runs unchained.current [] := rfl
  refine .resumed (Q := Answered y kept q) ?_ fun r hr => .finished hr
  cases q with
  | eval e =>
    have hevaluate : (asked y epsilon kept).Parallel n [] unchained unchained
        (e.evaluate (asked y epsilon kept).env) ((asked y epsilon kept).Locates unchained e) :=
      Comparison.evaluate_parallel hl False.elim hruns False.elim e hq
    exact hevaluate.weaken fun r hr => ⟨hr.proper, hr.binds⟩
  | assign info target value =>
    have hassign : (asked y epsilon kept).Parallel n [] unchained unchained
        ((Stmt.assign info target value).execute (asked y epsilon kept).env)
        ((asked y epsilon kept).Assigns unchained) :=
      Comparison.assign_parallel hl False.elim hruns False.elim hq.1 hq.2.1 hq.2.2
    refine hassign.weaken fun r ⟨type, place, hplace, hplaced, hsees⟩ => ⟨type, place, hplace, hplaced, ?_⟩
    exact hsees.mono (List.append_subset.mpr ⟨List.Subset.refl _, List.nil_subset _⟩)
  | _ => cases hquery

/-- What cannot pause ends at once. -/
theorem runWithin_together {c : Comparison} (hin : ¬ c.inUnit) {chain : Chain} {Q : Evaluated → Prop} (limit : Nat)
    {frames : List Frame} (h : c.Parallel 0 [] chain chain (Run.microStep c.env frames) Q)
    (hx : Abreast c.layout c.kept chain x x') :
    EndTogether (fun result z z' => Storage.Coupled c.layout c.kept z.storage z'.storage ∧
        ∀ r, result = some r → Q r)
      (fun z z' => Storage.Coupled c.layout c.kept z.storage z'.storage)
      (runWithin c.env limit frames x) (runWithin c.env limit frames x') := by
  cases limit with
  | zero => exact ⟨rfl, hx.storages.mono (List.subset_append_left _ _), nofun⟩
  | succ limit =>
    simp only [runWithin, EStateM.bind_apply]
    obtain ⟨d, z, z', hz, hz', hend⟩ | ⟨r, z, z', hz, hz', hr, hend⟩ | ⟨frames, z, z', hz, hz', hend⟩ :=
      (h x x' hx).cases
    · rw [hz, hz']
      exact ⟨rfl, hend⟩
    · rw [hz, hz']
      refine ⟨rfl, hend.storages.mono (List.subset_append_left _ _), fun r' heq => ?_⟩
      cases heq
      exact hr
    · exact absurd hend.inUnit hin

theorem answer_together (hl : y.Resolved) (limit : Nat) (hquery : q.IsQuery)
    (hq : q.WellFormed (Expr.Linked y.library [] False) False) (hx : Abreast y kept unchained x x') :
    EndTogether (fun _ z z' => Storage.Coupled y kept z.storage z'.storage)
      (fun z z' => Storage.Coupled y kept z.storage z'.storage)
      (answer ⟨y.library, epsilon⟩ limit q x) (answer ⟨y.library, epsilon⟩ limit q x') := by
  have hrun := runWithin_together (c := asked y epsilon kept) id limit (query_parallel epsilon hl.library hquery hq 0) hx
  refine EndTogether.bind hrun fun result z z' ⟨hz, hresult⟩ => ?_
  cases result with
  | none => exact ⟨rfl, hz⟩
  | some r =>
    have hanswered := hresult r rfl
    have shown {v : Value} (hproper : v.Proper y.Bound) (hbinds : v.Proper y.Binds) :
        EndTogether (fun _ z z' => Storage.Coupled y kept z.storage z'.storage)
          (fun z z' => Storage.Coupled y kept z.storage z'.storage)
          (Run.asking q.span (·.display y.library v) z) (Run.asking q.span (·.display y.library v) z') :=
      (asking_together (hz.displayWithin hl _ hproper hbinds) hz).mono
        (fun _ _ _ ⟨hleft, hright, _⟩ => hleft ▸ hright ▸ hz) fun _ _ => id
    cases q with
    | eval e => exact shown hanswered.1 hanswered.2
    | assign info target value =>
      obtain ⟨type, place, hplace, hplaced, hsees⟩ := hanswered
      simp only [hplace]
      refine EndTogether.bind (asking_together (hz.alike.value hsees) hz) fun v w w' ⟨hleft, hright, hv⟩ => ?_
      subst hleft hright
      obtain ⟨v', hv', hfits⟩ := hz.left.value hplaced
      cases hv'.symm.trans hv
      exact shown hfits.1 (hfits.binds hl.library)
    | _ => cases hquery

variable {t t' : Interpreter}

/-- The storages may change between calls as long as they stay alike. -/
theorem Paired.holding (h : Paired y t t') {s s' : Storage}
    (hs : Storage.Coupled y t.execution.cursor.chain.instances s s') :
    Paired y (t.holding s) (t'.holding s') := by
  obtain ⟨r', rfl⟩ := h.other
  exact ⟨⟨h.library, ⟨s', rfl⟩, hs⟩, fun program hprogram =>
    ⟨(h.started program hprogram).1, (h.started program hprogram).2.pause, (h.started program hprogram).2.parallel⟩⟩

theorem query_together (hy : Executable y) (h : Paired y t t') {text : String} {q : Query}
    (hq : parseQuery text = .ok q) :
    EndTogether (fun _ => Paired y) (Paired y) (query q t) (query q t') := by
  rw [query_eq_recording]
  refine recording_together ?_
  have hsame := h.apart.sameProgram
  obtain ⟨hquery, hunlinked⟩ := unlinked_of_parseQuery hq
  have hprepare := prepareQuery_regular hy.resolved.library t.options.realEpsilon hquery hunlinked
  simp only [evaluateQuery, EStateM.bind_apply, EStateM.get_apply, h.library, hsame.library.trans h.library, hsame.options,
    EStateM.ofExcept_apply]
  cases hprepared : prepareQuery y.library t.options.realEpsilon q with
  | error ds => exact ⟨rfl, h⟩
  | ok prepared =>
    obtain ⟨hquery', hwellFormed⟩ := hprepare.of_ok hprepared
    have habreast : Abreast y t.execution.cursor.chain.instances unchained ⟨t.execution.storage, .idle⟩
        ⟨t'.execution.storage, .idle⟩ :=
      ⟨rfl, rfl, rfl, h.storages.mono (List.append_subset.mpr ⟨List.Subset.refl _, List.nil_subset _⟩)⟩
    have hanswer := answer_together t.options.realEpsilon hy.resolved t.options.maxMicroSteps hquery' hwellFormed
      habreast
    dsimp only
    obtain ⟨shown, x, x', hr, hr', hx⟩ | ⟨d, x, x', hr, hr', hx⟩ := hanswer.ok_or_error <;> rw [hr, hr']
    · exact ⟨rfl, h.holding hx⟩
    · exact ⟨rfl, h.holding hx⟩

-- ---------------------------------------------------------------------------
-- Replies
-- ---------------------------------------------------------------------------

/-- What is observed of a call that does not fail. -/
inductive Reply where
  | done
  /-- Where the call stops, and the micro-steps of the cycle so far. -/
  | stopped (pause : Pause) (steps : Nat)
  | shown (text : String)
  deriving DecidableEq, Repr

namespace Call

/-- Performs the call for its reply. -/
def ask : Call → Interpreting (List Diagnostic) Reply
  | .start name => do
    (Interpreter.start name).adaptExcept ([·])
    pure .done
  | .proceed driver => do
    let (pause, steps) ← (Interpreter.proceed driver.stops).adaptExcept ([·])
    pure (.stopped pause steps)
  | .query _ q _ => do
    let text ← Interpreter.query q
    pure (.shown text)
  | .setMemory memory => do
    modify (·.setMemory memory)
    pure .done

/-- The replies to calls, or the diagnostics that they fail with. Each is performed whatever has become of the others. -/
def replies : List Call → Interpreter → List (Except (List Diagnostic) Reply) × Interpreter
  | [], t => ([], t)
  | c :: rest, t =>
    match c.ask t with
    | .ok reply u =>
      let (later, v) := replies rest u
      (.ok reply :: later, v)
    | .error ds u =>
      let (later, v) := replies rest u
      (.error ds :: later, v)

/-- The diagnostics of a call that fails. -/
def failures : Except (List Diagnostic) Reply → List Diagnostic
  | .ok _ => []
  | .error ds => ds

theorem perform_eq_ask (c : Call) (t : Interpreter) :
    c.perform t = match c.ask t with
      | .ok _ u => .ok () u
      | .error ds u => .error ds u := by
  cases c with
  | start name =>
    simp only [perform, ask, EStateM.bind_apply, EStateM.adaptExcept_apply]
    cases Interpreter.start name t <;> rfl
  | proceed driver =>
    cases driver with
    | step kind =>
      simp only [perform, ask, Driver.call, step, EStateM.bind_apply, EStateM.adaptExcept_apply, Driver.stops]
      cases Interpreter.proceed kind.stops t <;> rfl
    | runCycle =>
      simp only [perform, ask, Driver.call, runCycle, EStateM.bind_apply, EStateM.adaptExcept_apply, Driver.stops]
      cases Interpreter.proceed (fun _ _ => false) t <;> rfl
  | query text q hq =>
    simp only [perform, ask, EStateM.bind_apply]
    cases Interpreter.query q t <;> rfl
  | setMemory memory => rfl

/-- The diagnostics that calls end with are those of the replies. -/
theorem performAll_eq_replies (calls : List Call) (t : Interpreter) :
    performAll calls t = ((replies calls t).1.flatMap failures, (replies calls t).2) := by
  induction calls generalizing t with
  | nil => rfl
  | cons c rest ih =>
    rw [performAll, replies, perform_eq_ask]
    rcases c.ask t with ⟨reply, u⟩ | ⟨ds, u⟩ <;> simp [ih, failures]

end Call

theorem ask_together (hy : Executable y) (h : Paired y t t') (c : Call) :
    EndTogether (fun _ => Paired y) (Paired y) (c.ask t) (c.ask t') := by
  cases c with
  | start name => exact EndTogether.bind (.adaptExcept (start_together hy h name)) fun _ _ _ hu => ⟨rfl, hu⟩
  | proceed driver =>
    exact EndTogether.bind (.adaptExcept (proceed_together hy h driver)) fun _ _ _ hu => ⟨rfl, hu⟩
  | query text q hq => exact EndTogether.bind (query_together hy h hq) fun _ _ _ hu => ⟨rfl, hu⟩
  | setMemory memory => exact ⟨rfl, h.holding ⟨h.storages.left.withMemory memory, h.storages.right.withMemory memory,
      h.storages.alike.withMemory memory⟩⟩

/-- Whatever they are asked for one after the other, both interpreters give the same replies. -/
theorem replies_together (hy : Executable y) (h : Paired y t t') (calls : List Call) :
    (Call.replies calls t).1 = (Call.replies calls t').1 ∧
      Paired y (Call.replies calls t).2 (Call.replies calls t').2 := by
  induction calls generalizing t t' with
  | nil => exact ⟨rfl, h⟩
  | cons c rest ih =>
    have hask := ask_together hy h c
    rw [Call.replies, Call.replies]
    obtain ⟨a, u, u', hr, hr', hu⟩ | ⟨ds, u, u', hr, hr', hu⟩ := hask.ok_or_error <;> rw [hr, hr']
    · exact ⟨congrArg (List.cons _) (ih hu).1, (ih hu).2⟩
    · exact ⟨congrArg (List.cons _) (ih hu).1, (ih hu).2⟩

-- ---------------------------------------------------------------------------
-- Reachable interpreters
-- ---------------------------------------------------------------------------

/-- The layout of a library whose instances are those of the storage. -/
def layoutOf (l : Library) (s : Storage) : Layout := ⟨l, s.instances.toList.map (·.pou)⟩

/-- The interpreter is what calls have made of one that has linked parsed sources. -/
def Reachable (t : Interpreter) : Prop :=
  ∃ units start linked calls, (∀ unit ∈ units, ∃ source file, parseUnit source file = .ok unit) ∧
    Interpreter.link units start = .ok () linked ∧ t = (Call.performAll calls linked).2

theorem performAll_append (calls more : List Call) (t : Interpreter) :
    (Call.performAll (calls ++ more) t).2 = (Call.performAll more (Call.performAll calls t).2).2 := by
  induction calls generalizing t with
  | nil => rfl
  | cons c rest ih =>
    rw [List.cons_append, Call.performAll, Call.performAll]
    cases c.perform t <;> exact ih _

theorem Reachable.start (h : Reachable t) {name : Ident} (hstart : Interpreter.start name t = .ok () t') :
    Reachable t' := by
  obtain ⟨units, first, linked, calls, hparsed, hlink, rfl⟩ := h
  refine ⟨units, first, linked, calls ++ [.start name], hparsed, hlink, ?_⟩
  simp only [performAll_append, Call.performAll, Call.perform, EStateM.adaptExcept_apply, hstart]

/--
The interpreters agree on everything but what the variables of functions hold that are not on the call stack. On the
function blocks in these they agree, too.
-/
def SameButFrames (t t' : Interpreter) : Prop :=
  ∃ l s', t.library? = some l ∧ t' = t.holding s' ∧
    Storage.Alike (layoutOf l t.execution.storage) t.execution.cursor.chain.instances t.execution.storage s'

theorem layoutOf_eq {s : Storage} (h : s.Sound y) : layoutOf y.library s = y := by
  rw [layoutOf, h.instances]

theorem layoutOf_alike {busy : List InstanceId} {s s' : Storage} (h : Storage.Alike y busy s s') (l : Library) :
    layoutOf l s' = layoutOf l s := by
  refine congrArg (Layout.mk l) (List.ext_getElem? fun i => ?_)
  simp only [List.getElem?_map, Array.getElem?_toList]
  obtain ⟨hs, hs'⟩ | ⟨found, found', hs, hs', hpou, -⟩ := h.cases_instance i
  · rw [hs, hs']
  · rw [hs, hs', Option.map_some, Option.map_some, hpou]

theorem Paired.sameButFrames (h : Paired y t t') : SameButFrames t t' := by
  obtain ⟨s', rfl⟩ := h.other
  refine ⟨y.library, s', h.library, rfl, ?_⟩
  rw [layoutOf_eq h.storages.left]
  exact h.storages.alike

/-- Nothing tells a reachable interpreter apart from itself, and what it can do is known. -/
theorem paired_of_reachable (h : Reachable t) : ∃ y, Executable y ∧ Paired y t t := by
  obtain ⟨units, start, linked, calls, hparsed, hlink, rfl⟩ := h
  have hunits : ∀ unit ∈ units, unit.Fresh := fun unit hunit => by
    obtain ⟨source, file, hsource⟩ := hparsed unit hunit
    exact fresh_of_parseUnit hsource
  obtain ⟨y, hy, hintact⟩ := intact_of_link hunits hlink
  have hlinked : Paired y linked linked := by
    obtain ⟨l, s, -, -, rfl⟩ := exists_of_link hlink
    exact ⟨⟨hintact.library, ⟨s, rfl⟩, hintact.sound, hintact.sound, .refl y _ s⟩, nofun⟩
  rw [Call.performAll_eq_replies]
  exact ⟨y, hy, (replies_together hy hlinked calls).2⟩

/--
Function frames carry no history. Take two interpreters that have linked the same units, each in a state that calls have
led to, paused within a cycle or not, which agree on everything but the values in the variables of functions that are
not on the call stack. Then whatever they are asked for from now on, one call after the other, they give the same
replies: they pause at the same places, count as many micro-steps, answer queries with the same text and fail with the
same diagnostics. And at the end they still agree, so that the variables of programs and function blocks, the global
variables and the direct memory are the same.
-/
theorem replies_of_sameButFrames (ht : Reachable t) (ht' : Reachable t') (h : SameButFrames t t')
    (calls : List Call) :
    (Call.replies calls t).1 = (Call.replies calls t').1 ∧
      SameButFrames (Call.replies calls t).2 (Call.replies calls t').2 := by
  obtain ⟨y, hy, hpaired⟩ := paired_of_reachable ht
  obtain ⟨y', -, hpaired'⟩ := paired_of_reachable ht'
  obtain ⟨l, s', hl, rfl, halike⟩ := h
  obtain rfl : y.library = l := Option.some.inj (hpaired.library.symm.trans hl)
  have hlibrary : y'.library = y.library := Option.some.inj (hpaired'.library.symm.trans hl)
  -- Both storages have the same instances, so the layouts that the interpreters were linked with are the same.
  have hlayout : y' = y := by
    rw [← layoutOf_eq hpaired'.storages.left, hlibrary, ← layoutOf_eq hpaired.storages.left]
    exact layoutOf_alike halike y.library
  rw [layoutOf_eq hpaired.storages.left] at halike
  have hboth : Paired y t (t.holding s') :=
    ⟨⟨hl, ⟨s', rfl⟩, hpaired.storages.left, hlayout ▸ hpaired'.storages.left, halike⟩, hpaired.started⟩
  obtain ⟨hreplies, hend⟩ := replies_together hy hboth calls
  exact ⟨hreplies, hend.sameButFrames⟩

-- ---------------------------------------------------------------------------
-- A sum that a function has left
-- ---------------------------------------------------------------------------

/-- The unit of every instance, and the integers in its variables. -/
def integers (s : Storage) : List (Nat × List (Option Int)) :=
  s.instances.toList.map fun found => (found.pou, found.vars.toList.map fun v =>
    match v with
    | .integer i => some i
    | _ => none)

theorem eq_map_of_map_eq {α β γ : Type} {f : α → γ} {g : β → γ} {k : β → α} (h : ∀ a b, f a = g b → a = k b)
    {as : List α} {bs : List β} (heq : as.map f = bs.map g) : as = bs.map k := by
  induction as generalizing bs with
  | nil => cases bs with
    | nil => rfl
    | cons b bs => cases heq
  | cons a as ih => cases bs with
    | nil => cases heq
    | cons b bs =>
      obtain ⟨hhead, htail⟩ := List.cons.inj heq
      rw [List.map_cons, h a b hhead, ih htail]

/-- Instances with nothing but integers are known. -/
theorem instances_of_integers {s : Storage} (units : List (Nat × List Int))
    (h : integers s = units.map fun unit => (unit.1, unit.2.map some)) :
    s.instances = (units.map fun unit => ⟨unit.1, (unit.2.map Value.integer).toArray⟩).toArray := by
  refine Array.toList_inj.mp (eq_map_of_map_eq (fun found unit hunit => ?_) h)
  obtain ⟨pou, vars⟩ := found
  obtain ⟨hpou, hvars⟩ := Prod.mk.inj hunit
  obtain rfl : pou = unit.1 := hpou
  refine congrArg (Instance.mk unit.1) (Array.toList_inj.mp (eq_map_of_map_eq (fun v i hv => ?_) hvars))
  cases v <;> first | cases hv; rfl | cases hv

/-- A program without variables is started anew, after it has called a function whose variables are integers. -/
theorem sameButFrames_of_restart {l : Library} {name : Ident} {left right : Interpreter} (hready : Ready l left)
    (hbetween : left.BetweenCycles) (hstarted : left.program? = some 1) (hstart : start name left = .ok () right)
    (hrestarted : right.program? = some 1) (hcursor : left.execution.cursor = .primed 1)
    (hkinds : left.library?.map (fun l => l.pous.map (·.kind)) = some [.function, .program])
    (hglobals : left.execution.storage.globals.size = 0) (hglobals' : right.execution.storage.globals.size = 0)
    {i j k i' j' k' : Int} (hleft : integers left.execution.storage = [(0, [some i, some j, some k]), (1, [])])
    (hright : integers right.execution.storage = [(0, [some i', some j', some k']), (1, [])]) :
    SameButFrames left right := by
  obtain ⟨s, hs, hunits, hsame⟩ := hready.eq_of_start hbetween hstarted rfl hstart hrestarted
  obtain rfl : right = left.holding s := hsame
  have hinstances := instances_of_integers [(0, [i, j, k]), (1, [])] hleft
  have hinstances' : s.instances = _ := instances_of_integers [(0, [i', j', k']), (1, [])] hright
  rw [hready.library] at hkinds
  refine ⟨l, s, hready.library, rfl, ?_, hunits.symm, (memory_of_ofLibrary hs).symm, fun n hn => ?_, fun n => ?_⟩
  · rw [Array.eq_empty_of_size_eq_zero hglobals]
    exact (Array.eq_empty_of_size_eq_zero hglobals').symm
  · have hne : n ≠ 0 := by
      rintro rfl
      obtain ⟨p, ⟨pou, hpou, hp⟩, hkind⟩ | hbusy := hn
      · rw [layoutOf, hinstances] at hpou
        cases hpou
        have hfunction := congrArg (·[0]?) (Option.some.inj hkinds)
        simp only [List.getElem?_map] at hfunction
        rw [show l.pous[0]? = some p from hp] at hfunction
        exact hkind (Option.some.inj hfunction)
      · rw [hcursor] at hbusy
        cases List.mem_singleton.mp hbusy
    obtain ⟨m, rfl⟩ := Nat.exists_eq_succ_of_ne_zero hne
    rw [hinstances, hinstances']
    rfl
  · rw [hinstances, hinstances']
    cases n with
    | zero => simp [Instance.bindings, Value.bindings]
    | succ n => rfl

/-- A function is called with its own result. -/
def sumSource : String :=
  "FUNCTION F : INT VAR_INPUT i : INT; END_VAR VAR n : INT; END_VAR n := n + i; F := n; END_FUNCTION " ++
    "PROGRAM P IF F(F(1)) > 1 THEN RETURN; END_IF; END_PROGRAM"

def sumCalls : List Call := [.start { text := "P" }, .proceed .runCycle]

theorem replies_of_sameButFrames_sum :
    ∃ unit linked right, parseUnit sumSource .anonymous = .ok unit ∧ Interpreter.link [unit] {} = .ok () linked ∧
      let left := (Call.performAll sumCalls linked).2
      start { text := "P" } left = .ok () right ∧
        integers left.execution.storage = [(0, [some 1, some 1, some 1]), (1, [])] ∧
        integers right.execution.storage = [(0, [some 0, some 0, some 0]), (1, [])] ∧
        Reachable left ∧ Reachable right ∧ SameButFrames left right ∧
        (Call.replies sumCalls.tail left).1 = (Call.replies sumCalls.tail right).1 ∧
          SameButFrames (Call.replies sumCalls.tail left).2 (Call.replies sumCalls.tail right).2 := by
  have hrun :
      let linked := linkOn sumSource {}
      let left := (Call.performAll sumCalls linked.state).2
      let right := start { text := "P" } left
      linked.isOk = true ∧ right.isOk = true ∧ left.steps = 0 ∧ left.program? = some 1 ∧
        right.state.program? = some 1 ∧ left.execution.cursor = .primed 1 ∧
        left.library?.map (fun l => l.pous.map (·.kind)) = some [.function, .program] ∧
        left.execution.storage.globals.size = 0 ∧ right.state.execution.storage.globals.size = 0 ∧
        integers left.execution.storage = [(0, [some 1, some 1, some 1]), (1, [])] ∧
        integers right.state.execution.storage = [(0, [some 0, some 0, some 0]), (1, [])] := by
    have hchars : sumSource.toList = _ := toList_append_eq String.toList_ofList String.toList_ofList
    rw [linkOn, parseUnit, tokenize_of_toList hchars]
    decide +kernel
  obtain ⟨hlinked, hrestarted, hbetween, hprogram, hprogram', hcursor, hkinds, hglobals, hglobals', hleft, hright⟩ := hrun
  obtain ⟨unit, hparse, hlink⟩ := parsed_of_linkOn (EStateM.Result.eq_ok_of_isOk hlinked)
  have hparsed : ∀ u ∈ [unit], ∃ source file, parseUnit source file = .ok u :=
    List.forall_mem_singleton.mpr ⟨sumSource, .anonymous, hparse⟩
  obtain ⟨l, hready⟩ := ready_of_link hlink
  have hstart := EStateM.Result.eq_ok_of_isOk hrestarted
  have hpair := sameButFrames_of_restart (hready.performAll sumCalls) hbetween hprogram hstart hprogram' hcursor hkinds
    hglobals hglobals' hleft hright
  have hreached : Reachable (Call.performAll sumCalls (linkOn sumSource {}).state).2 :=
    ⟨_, _, _, sumCalls, hparsed, hlink, rfl⟩
  have hreached' := hreached.start hstart
  exact ⟨unit, _, _, hparse, hlink, hstart, hleft, hright, hreached, hreached', hpair,
    replies_of_sameButFrames hreached hreached' hpair sumCalls.tail⟩

end Interpreter

end StructuredText
