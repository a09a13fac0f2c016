-- SUMMARY: In every state of a session, calls are nested: no instance is called twice, and each returns to its caller.
import StructuredText.Proofs.CycleInvariants

/-!
# Nested calls

Whatever an interpreter is asked for, the frames of the cycle in progress wait for the instances on the call stack, none
of which is there twice. From a call on, as long as the called instance is on the stack, the frame that waits for it
stays where it is, behind the frames of the called instance. When these are done, the frame goes on in the instance that
has made the call.
-/

namespace StructuredText

open Run

-- ---------------------------------------------------------------------------
-- Invocations
-- ---------------------------------------------------------------------------

namespace Run

/-- Transitions of a micro-step lead from one focus to another. -/
inductive Comes (env : Environment) : Focus → List Frame → Execution → Focus → List Frame → Execution → Prop
  | here {focus frames x} : Comes env focus frames x focus frames x
  | next {focus frames x focus' frames' x' focus'' frames'' x''}
    (h : transition env focus frames x = .ok (.inr (focus', frames')) x')
    (hrest : Comes env focus' frames' x' focus'' frames'' x'') : Comes env focus frames x focus'' frames'' x''

/-- A call is performed next, since its arguments are evaluated. -/
inductive Invokes : Focus → List Frame → CallSite → List Evaluated → Prop
  | args {r site before outer} : Invokes (.result r) (.arg site before [] :: outer) site (before ++ [r])
  | plain {info name labels callee bindings outer} :
    Invokes (.expr (.call info name labels [] callee bindings)) outer { info, name, args := [], callee, bindings } []

variable {env : Environment} {x x' : Execution} {site : CallSite} {args : List Evaluated} {i : InstanceId}
  {isFunction : Bool} {focus focus' : Focus} {frames frames' : List Frame}

theorem Comes.rest (h : Comes env focus frames x focus' frames' x') :
    Run.rest env focus frames x = Run.rest env focus' frames' x' := by
  induction h with
  | here => rfl
  | next h _ ih => rw [rest_eq_transition, h, ← ih]

/-- The transitions of a micro-step that goes on stay in the instance. -/
theorem Comes.sameStack {base : List InstanceId} (hbase : base ≠ [])
    (hstack : x.cursor.OnStack (Frame.awaited frames ++ base)) (h : Comes env focus frames x focus' frames' x') :
    x.cursor.SameStack x'.cursor := by
  induction h with
  | here => exact .refl _
  | @next focus frames x focus' frames' x' _ _ _ h _ ih =>
    have hstep := transition_shifts env hbase hstack focus frames x rfl (.refl _)
    rw [h] at hstep
    obtain ⟨hframes, hsame⟩ := hstep
    exact hsame.trans (ih (hframes ▸ hstack.same hsame))

theorem Invokes.rest_error {d : Diagnostic} (h : Invokes focus frames site args)
    (hfailed : Expr.invoke env site args x = .error d x') : Run.rest env focus frames x = .error d x' := by
  have hsettled : settled (Expr.invoke env site args) x = .error d x' := by
    simp only [settled, EStateM.bind_apply, hfailed]
  rw [rest_eq_transition]
  cases h with
  | args => simp only [transition, transition.behind, enterFrame, enterNext, EStateM.bind_apply, hsettled]
  | plain => simp only [transition, transition.behind, enterExpr, enterNext, EStateM.bind_apply, hsettled]

/-- A micro-step that comes to a call to an active instance fails, with everything as it is before the call. -/
theorem microStep_error_of_invokes (hcomes : Comes env (.result {}) frames x focus frames' x')
    (hinvokes : Invokes focus frames' site args) (htarget : Targets env x' site i isFunction)
    (hactive : x'.cursor.isActive i = true) : microStep env frames x =
      .error (.of .notInvocable site.info.span s!"{site.name.text} is already executing") x' := by
  refine hcomes.rest.trans (hinvokes.rest_error ?_)
  rw [invoke_eq_enter htarget, enter_of_isActive hactive]

end Run

namespace Interpreter

-- ---------------------------------------------------------------------------
-- The stack of a cycle
-- ---------------------------------------------------------------------------

/-- The frames wait for the instances on the stack above others. No instance is on the stack twice. -/
structure Nested (base : List InstanceId) (t : Interpreter) : Prop where
  onStack : t.execution.cursor.OnStack (Frame.awaited t.frames ++ base)
  nodup : (Frame.awaited t.frames ++ base).Nodup
  bounded : ∀ i ∈ Frame.awaited t.frames ++ base, i < t.execution.storage.instances.size

/-- Micro-steps of a cycle in which the stack does not become less deep. -/
inductive Inside (l : Library) (depth : Nat) : Interpreter → Interpreter → Prop
  | start {t} : Inside l depth t t
  | step {t u v a} (h : Inside l depth t u) (hadvance : advance l u.counting = .ok a v)
    (hdepth : depth ≤ v.execution.cursor.depth) : Inside l depth t v

variable {l : Library} {t u v w : Interpreter} {base : List InstanceId}

theorem advance_size (l : Library) (t : Interpreter) :
    (advance l t).state.execution.storage.instances.size = t.execution.storage.instances.size :=
  (advance_instances l t).size

/-- A micro-step keeps calls nested, even if it fails. -/
theorem Nested.advance (hbase : base ≠ []) (ht : t.Nested base) : (advance l t).state.Nested base := by
  have hsize := advance_size l t
  have hended := microStep_ended ⟨l, t.options.realEpsilon⟩ hbase ht.onStack
  obtain ⟨hstack, hnodup, hbounded⟩ := ht
  rw [advance_eq] at hsize ⊢
  generalize Run.microStep ⟨l, t.options.realEpsilon⟩ t.frames t.execution = result at hended hsize ⊢
  rcases result with ⟨r | frames, x⟩ | ⟨d, x⟩ <;> dsimp only [EStateM.Result.state] at hsize ⊢ <;>
    rw [← hsize] at hbounded
  · obtain ⟨hsame, hframes⟩ := hended
    rw [hframes] at hstack hnodup hbounded
    exact ⟨hstack.same ⟨hsame.current, hsame.callers⟩, hnodup, hbounded⟩
  · obtain ⟨hstack', hshifts⟩ := hended
    exact ⟨hstack'.same ⟨rfl, rfl⟩, hshifts.nodup hnodup, hshifts.bounded hbounded⟩
  · exact ⟨hstack.same hended, hnodup, hbounded⟩

theorem Nested.counting (ht : t.Nested base) : t.counting.Nested base := ⟨ht.onStack, ht.nodup, ht.bounded⟩

theorem Nested.goesOn (hbase : base ≠ []) (ht : t.Nested base) {stops : Nat → Bool} {n : Nat}
    (h : GoesOn l stops n t u) : u.Nested base := by
  induction h with
  | start => exact ht
  | progress h _ ih | pass h _ _ ih =>
    have hstep := ht.counting.advance (l := l) hbase
    rw [h] at hstep
    exact ih hstep

-- ---------------------------------------------------------------------------
-- From a call to its end
-- ---------------------------------------------------------------------------

/-- What is left to do in a called instance is in front of the frame that waits for it. -/
structure Serving (site : CallSite) (args : List Evaluated) (i : InstanceId) (outer : List Frame)
    (base : List InstanceId) (t : Interpreter) (inner : List Frame) : Prop where
  frames : t.frames = inner ++ .callee site args i :: outer
  onStack : t.execution.cursor.OnStack (Frame.awaited inner ++ i :: base)

variable {site : CallSite} {args : List Evaluated} {i caller : InstanceId} {outer inner : List Frame}
  {callers : List InstanceId}

/-- The called instance goes on, or its frames are done and it returns to the instance that has made the call. -/
theorem Serving.advance (ht : Serving site args i outer (caller :: callers) t inner) {a : Advance}
    (h : advance l t.counting = .ok a u) :
    (∃ r x, Run.microStep ⟨l, t.options.realEpsilon⟩ inner t.execution = .ok (.done r) x ∧
        t.execution.cursor.current = some i ∧ u.frames = .results site args i :: outer ∧
        u.execution.cursor.OnStack (caller :: callers)) ∨
      ∃ inner' x, Run.microStep ⟨l, t.options.realEpsilon⟩ inner t.execution = .ok (.paused inner') x ∧
        Serving site args i outer (caller :: callers) u inner' := by
  have hended := microStep_ended ⟨l, t.options.realEpsilon⟩ (List.cons_ne_nil _ _) ht.onStack
  rw [advance_eq, show t.counting.frames = inner ++ .callee site args i :: outer from ht.frames,
    microStep_append] at h
  dsimp only [Interpreter.counting] at h
  generalize Run.microStep ⟨l, t.options.realEpsilon⟩ inner t.execution = result at hended h
  rcases result with ⟨r | inner', x⟩ | ⟨d, x⟩
  · obtain ⟨hsame, hinner⟩ := hended
    have hx : x.cursor.OnStack (i :: caller :: callers) := (hinner ▸ ht.onStack).same hsame
    have hleave := leave_eq site args i caller callers hx.callers
    rw [follow_done, resumeAll_cons, Run.resume, hleave] at h
    cases h
    exact .inl ⟨r, x, rfl, hsame.current.symm.trans hx.current, rfl, rfl, rfl⟩
  · cases h
    exact .inr ⟨inner', x, rfl, rfl, hended.1.current, hended.1.callers⟩
  · cases h

theorem Serving.depth (ht : Serving site args i outer base t inner) :
    t.execution.cursor.depth = (Frame.awaited inner).length + base.length := by
  rw [Cursor.depth, ht.onStack.callers, List.length_tail, List.length_append, List.length_cons]
  omega

/-- The frame that waits for a called instance stays where it is until the instance returns. -/
theorem Serving.inside {start : List Frame} (ht : Serving site args i outer (caller :: callers) t start)
    (h : Inside l (callers.length + 1) t v) : ∃ inner, Serving site args i outer (caller :: callers) v inner := by
  induction h with
  | start => exact ⟨start, ht⟩
  | step _ hadvance hdepth ih =>
    obtain ⟨inner, hu⟩ := ih
    obtain ⟨r, x, -, -, -, hstack⟩ | ⟨inner', x, -, hv⟩ := hu.advance hadvance
    · rw [Cursor.depth, hstack.callers] at hdepth
      exact absurd hdepth (Nat.not_succ_le_self _)
    · exact ⟨inner', hv⟩

/-- The stack becomes less deep with the micro-step in which the frames of the called instance are done. -/
theorem Serving.returns (hv : Serving site args i outer (caller :: callers) v inner) {a : Advance}
    (h : Interpreter.advance l v.counting = .ok a w) :
    (w.execution.cursor.depth < callers.length + 1 ↔
      ∃ r x, Run.microStep ⟨l, v.options.realEpsilon⟩ inner v.execution = .ok (.done r) x) ∧
      (w.execution.cursor.depth < callers.length + 1 → v.execution.cursor.current = some i ∧
        w.execution.cursor.current = some caller ∧ w.execution.cursor.callers = callers ∧
        w.frames = .results site args i :: outer) := by
  obtain ⟨r, x, hdone, hcurrent, hframes, hstack⟩ | ⟨inner', x, hpaused, hw⟩ := hv.advance h
  · have hdepth : w.execution.cursor.depth < callers.length + 1 := by
      rw [Cursor.depth, hstack.callers]
      exact Nat.lt_succ_self _
    exact ⟨⟨fun _ => ⟨r, x, hdone⟩, fun _ => hdepth⟩, fun _ => ⟨hcurrent, hstack.current, hstack.callers, hframes⟩⟩
  · have hdepth : ¬ w.execution.cursor.depth < callers.length + 1 := by
      rw [hw.depth, List.length_cons]
      omega
    refine ⟨⟨fun h => absurd h hdepth, fun ⟨r, x, hdone⟩ => ?_⟩, fun h => absurd h hdepth⟩
    rw [hpaused] at hdone
    cases hdone

/-- A micro-step after which the stack is deeper has called an instance that was not on it. -/
theorem Nested.calls (hbase : base ≠ []) (ht : t.Nested base) {a : Advance} (h : Interpreter.advance l t.counting = .ok a u)
    (hdepth : t.execution.cursor.depth < u.execution.cursor.depth) :
    ∃ site args i body outer caller, t.execution.cursor.current = some caller ∧
      t.execution.cursor.isActive i = false ∧ u.frames = .start body :: .callee site args i :: outer ∧
      u.execution.cursor.current = some i ∧ u.execution.cursor.callers = caller :: t.execution.cursor.callers := by
  have hended := microStep_ended ⟨l, t.options.realEpsilon⟩ hbase ht.onStack
  obtain ⟨caller, callers, hcallers⟩ : ∃ caller callers, Frame.awaited t.frames ++ base = caller :: callers := by
    cases hstack : Frame.awaited t.frames ++ base with
    | nil => exact absurd (List.append_eq_nil_iff.mp hstack).2 hbase
    | cons caller callers => exact ⟨caller, callers, rfl⟩
  have ht' := hcallers ▸ ht.onStack
  rw [advance_eq] at h
  dsimp only [Interpreter.counting] at h
  generalize Run.microStep ⟨l, t.options.realEpsilon⟩ t.frames t.execution = result at hended h
  rcases result with ⟨r | frames, x⟩ | ⟨d, x⟩
  · cases h
    exact absurd (congrArg List.length hended.1.callers) (Nat.ne_of_gt hdepth)
  · cases h
    obtain ⟨hstack, hshifts⟩ := hended
    have hdepth' : t.execution.cursor.callers.length < x.cursor.callers.length := hdepth
    rw [ht'.callers, hstack.callers] at hdepth'
    cases hshifts with
    | stays hsame =>
      rw [hsame, hcallers] at hdepth'
      exact absurd hdepth' (Nat.lt_irrefl _)
    | @call i site args body outer hframes houter hnew hlt =>
      subst hframes
      refine ⟨site, args, i, body, outer, caller, ht'.current, ?_, rfl, hstack.current, ?_⟩
      · exact Bool.eq_false_iff.mpr fun hactive => hnew ((ht.onStack.isActive i).mp hactive)
      · rw [ht'.callers]
        refine hstack.callers.trans ?_
        show Frame.awaited outer ++ base = _
        rw [houter, hcallers]
        rfl
    | @«return» i site args outer hframes hawaited =>
      subst hframes
      rw [hawaited] at hcallers
      cases hcallers
      rw [List.tail_cons, List.length_tail] at hdepth'
      exact absurd hdepth' (Nat.not_lt.mpr (Nat.sub_le _ _))
  · cases h

-- ---------------------------------------------------------------------------
-- Sessions
-- ---------------------------------------------------------------------------

variable {y : Layout}

/-- At the beginning of a program nothing but its own instance is on the stack. -/
theorem nested_of_atStart (ht : Intact y t) {program : Nat} {pou : Pou} (hat : AtStart l t program pou i) :
    t.Nested [i] := by
  have hframes : Frame.awaited t.frames = [] := by
    rw [hat.frames]
    rfl
  obtain ⟨⟨p, hp, hkind⟩, -⟩ := ht.started program hat.started
  obtain ⟨i', hunit, hi⟩ := ht.sound.units program p hp (by rw [hkind]; nofun)
  cases hat.unit.symm.trans hunit
  obtain ⟨found, hfound, -⟩ := ht.sound.instance? hi
  refine ⟨?_, ?_, ?_⟩ <;> rw [hframes]
  · rw [hat.cursor]
    exact ⟨rfl, rfl⟩
  · exact List.nodup_singleton i
  · exact List.forall_mem_singleton.mpr (Array.getElem?_eq_some_iff.mp (Storage.instance?_eq_ok.mp hfound)).1

theorem Nested.withStorage (ht : t.Nested base) {s : Storage} (hs : SameInstances t.execution.storage s)
    (issues : Array Diagnostic) : Nested base { t with execution := ⟨s, t.execution.cursor⟩, issues } :=
  ⟨ht.onStack, ht.nodup, fun i hi => hs.size ▸ ht.bounded i hi⟩

theorem nested_invariant (y : Layout) : CycleInvariant y fun i t => t.Nested [i] where
  begins ht hat := nested_of_atStart ht hat
  advances {t u i a} ht h := by
    have hstep := ht.counting.advance (l := y.library) (List.cons_ne_nil i [])
    rwa [h] at hstep
  withStorage ht hs issues := ht.withStorage hs issues

/-- Calls of a started program are nested. -/
def CallsNested (t : Interpreter) : Prop := ∀ program, t.program? = some program → ∃ i, t.Nested [i]

/-- Every call of a session ends with calls nested. -/
theorem CallsNested.performAll (hy : Executable y) (ht : Intact y t) (hready : Ready y.library t)
    (hnested : t.CallsNested) (calls : List Call) : (Call.performAll calls t).2.CallsNested :=
  InCycle.performAll (nested_invariant y) hy ht hready hnested calls

/-- The instance that runs and its callers are pairwise distinct, and there are more instances than calls. -/
def DistinctCalls (t : Interpreter) : Prop :=
  ∃ i, t.execution.cursor.current = some i ∧ (i :: t.execution.cursor.callers).Nodup ∧
    t.execution.cursor.depth < t.execution.storage.instances.size

theorem Nested.distinctCalls (ht : t.Nested [i]) : t.DistinctCalls := by
  obtain ⟨hstack, hnodup, hbounded⟩ := ht
  obtain ⟨j, callers, hcallers⟩ : ∃ j callers, Frame.awaited t.frames ++ [i] = j :: callers :=
    List.exists_cons_of_ne_nil (by simp)
  rw [hcallers] at hstack hnodup hbounded
  have hsubset : j :: callers ⊆ List.range t.execution.storage.instances.size :=
    fun k hk => List.mem_range.mpr (hbounded k hk)
  have hlength := (List.subperm_of_subset hnodup hsubset).length_le
  rw [List.length_cons, List.length_range] at hlength
  refine ⟨j, hstack.current, hstack.callers ▸ hnodup, ?_⟩
  rw [Cursor.depth, hstack.callers]
  exact hlength

/--
Calls are nested in every state of a session. Take sources that are parsed and linked, any calls to the interpreter up to
one that goes on with the cycle of a program, and any number of micro-steps of it. The instance that runs and those that
wait for it are pairwise distinct then, so the depth of the stack is below the number of instances, and so they are if
the next micro-step fails or completes the cycle. A micro-step that comes to a call to an instance on the stack fails
there, and leaves everything as it was before the call. A micro-step that makes the stack deeper has called an instance
that was not on it. The frame that waits for this instance stays where it is, behind what is left to do in the instance,
until that is done. With that very micro-step the stack becomes less deep, and the instance that has made the call goes
on with the results of that instance.
-/
theorem calls_return_to_caller {units : List CompilationUnit}
    (hparsed : ∀ unit ∈ units, ∃ source file, parseUnit source file = .ok unit) {linked : Interpreter}
    (hlink : Interpreter.link units t = .ok () linked) (calls : List Call) {program : Nat}
    (hstarted : (Call.performAll calls linked).2.program? = some program) :
    ∃ l, linked.library? = some l ∧ ∀ n t, GoesOn l never n (Call.performAll calls linked).2 t →
      let env : Environment := ⟨l, t.options.realEpsilon⟩
      let cursor := t.execution.cursor
      t.DistinctCalls ∧ (advance l t.counting).state.DistinctCalls ∧
        (∀ focus frames x site args i isFunction, Comes env (.result {}) t.frames t.execution focus frames x →
          Invokes focus frames site args → Targets env x site i isFunction → cursor.isActive i = true →
          advance l t.counting =
            .error (.of .notInvocable site.info.span s!"{site.name.text} is already executing")
              { t.counting with execution := x }) ∧
        ∀ a u, advance l t.counting = .ok a u → cursor.depth < u.execution.cursor.depth →
          ∃ site args i body outer caller, cursor.current = some caller ∧ cursor.isActive i = false ∧
            u.frames = .start body :: .callee site args i :: outer ∧
            u.execution.cursor.current = some i ∧ u.execution.cursor.callers = caller :: cursor.callers ∧
            ∀ v, Inside l u.execution.cursor.depth u v → ∃ inner,
              v.frames = inner ++ .callee site args i :: outer ∧
              ∀ a w, advance l v.counting = .ok a w →
                (w.execution.cursor.depth < u.execution.cursor.depth ↔
                  ∃ r x, Run.microStep ⟨l, v.options.realEpsilon⟩ inner v.execution = .ok (.done r) x) ∧
                (w.execution.cursor.depth < u.execution.cursor.depth → v.execution.cursor.current = some i ∧
                  w.execution.cursor.current = some caller ∧ w.execution.cursor.callers = cursor.callers ∧
                  w.frames = .results site args i :: outer) := by
  have hunits : ∀ unit ∈ units, unit.Fresh := fun unit hunit => by
    obtain ⟨source, file, hsource⟩ := hparsed unit hunit
    exact fresh_of_parseUnit hsource
  obtain ⟨y, hy, hintact⟩ := intact_of_link hunits hlink
  obtain ⟨l, hready⟩ := ready_of_link hlink
  cases hintact.library.symm.trans hready.library
  have hlinked : linked.CallsNested := fun _ h => by rw [program_of_link hlink] at h; cases h
  obtain ⟨i₀, hnested⟩ := hlinked.performAll hy hintact hready calls program hstarted
  refine ⟨y.library, hready.library, ?_⟩
  intro n t hgoesOn env cursor
  have hbase : [i₀] ≠ [] := List.cons_ne_nil _ _
  have ht : t.Nested [i₀] := hnested.goesOn hbase hgoesOn
  refine ⟨ht.distinctCalls, (ht.counting.advance hbase).distinctCalls, ?_, fun a u hadvance hdepth => ?_⟩
  · intro focus frames x site args i isFunction hcomes hinvokes htarget hactive
    have hx : x.cursor.OnStack (Frame.awaited t.frames ++ [i₀]) :=
      ht.onStack.same (hcomes.sameStack hbase ht.onStack)
    have hfailed := microStep_error_of_invokes hcomes hinvokes htarget
      ((hx.isActive i).mpr ((ht.onStack.isActive i).mp hactive))
    rw [advance_eq]
    dsimp only [counting]
    rw [hfailed]
  · obtain ⟨site, args, i, body, outer, caller, hcaller, hinactive, hframes, hcurrent, hcallers⟩ :=
      ht.calls hbase hadvance hdepth
    refine ⟨site, args, i, body, outer, caller, hcaller, hinactive, hframes, hcurrent, hcallers, fun v hinside => ?_⟩
    have hu : Serving site args i outer (caller :: cursor.callers) u [.start body] := ⟨hframes, hcurrent, hcallers⟩
    have hudepth : u.execution.cursor.depth = cursor.callers.length + 1 := congrArg List.length hcallers
    rw [hudepth] at hinside ⊢
    obtain ⟨inner, hv⟩ := hu.inside hinside
    exact ⟨inner, hv.frames, fun a w => hv.returns⟩

/-- Two functions call each other, until one of them is on the stack. -/
def mutualSource : String :=
  "FUNCTION F : INT VAR_INPUT n : INT; END_VAR IF n > 0 THEN F := G(n - 1); END_IF; END_FUNCTION " ++
    "FUNCTION G : INT VAR_INPUT n : INT; END_VAR G := n; IF n > 0 THEN G := F(n - 1); END_IF; END_FUNCTION " ++
    "PROGRAM P VAR x : INT := 1; END_VAR x := F(x) + 2; END_PROGRAM"

/-- The first cycle is complete, and the second one has come to the function that is called by the other one. -/
def mutualCalls : List Call :=
  [.start { text := "P" }, .proceed .runCycle] ++ List.replicate 4 (.proceed (.step .into))

theorem calls_return_to_caller_mutual :
    ∃ unit linked, parseUnit mutualSource .anonymous = .ok unit ∧ Interpreter.link [unit] {} = .ok () linked ∧
      let reached := (Call.performAll mutualCalls linked).2
      reached.execution.cursor.current = some 1 ∧ reached.execution.cursor.callers = [0, 2] ∧
        (Call.performAll (mutualCalls ++ [.proceed .runCycle]) linked).1.map (·.problem) = [.notInvocable] ∧
        ∃ l, linked.library? = some l ∧ reached.DistinctCalls ∧ (advance l reached.counting).state.DistinctCalls := by
  have hrun :
      let linked := linkOn mutualSource {}
      let reached := (Call.performAll mutualCalls linked.state).2
      linked.isOk = true ∧ reached.program? = some 2 ∧
        reached.execution.cursor.current = some 1 ∧ reached.execution.cursor.callers = [0, 2] ∧
        (Call.performAll (mutualCalls ++ [.proceed .runCycle]) linked.state).1.map (·.problem) =
          [.notInvocable] := by
    have hchars : mutualSource.toList = _ :=
      toList_append_eq (toList_append_eq String.toList_ofList String.toList_ofList) String.toList_ofList
    rw [linkOn, parseUnit, tokenize_of_toList hchars]
    decide +kernel
  obtain ⟨hlinked, hstarted, hcurrent, hcallers, hproblems⟩ := hrun
  obtain ⟨unit, hparse, hlink⟩ := parsed_of_linkOn (EStateM.Result.eq_ok_of_isOk hlinked)
  have hparsed : ∀ u ∈ [unit], ∃ source file, parseUnit source file = .ok u :=
    List.forall_mem_singleton.mpr ⟨mutualSource, .anonymous, hparse⟩
  obtain ⟨l, hl, hcalls⟩ := calls_return_to_caller hparsed hlink mutualCalls hstarted
  obtain ⟨hdistinct, hnext, -⟩ := hcalls 0 _ .start
  exact ⟨unit, _, hparse, hlink, hcurrent, hcallers, hproblems, l, hl, hdistinct, hnext⟩

end Interpreter

end StructuredText
