-- SUMMARY: In every state of a session, the running loops are those that the instances on the call stack are in.
import StructuredText.Proofs.CycleInvariants
import StructuredText.Proofs.Exits
import StructuredText.Proofs.LoopStack
import StructuredText.Proofs.NestedCalls

/-!
# Running loops

The cursor records the loops that have been entered and not yet left. Whatever an interpreter is asked for, and wherever
a micro-step has come to, these are the loops that the frames go on with: those of the instance that runs, then those of
its callers, each in the body of its unit and from the innermost one outwards. So a loop that ends removes its own entry,
and an `EXIT` finds the innermost loop around it on top.
-/

namespace StructuredText

open Run

-- ---------------------------------------------------------------------------
-- What every activation is like
-- ---------------------------------------------------------------------------

/-- The loops that frames go on with, as a cursor records them. The last frames are those of the lowest instance. -/
def Frame.running (lowest : InstanceId) : List Frame → List LoopEntry
  | [] => []
  | frame :: outer =>
    (frame.loop?.map (⟨(Frame.awaited outer).headD lowest, ·.id⟩)).toList ++ running lowest outer

variable {unit : InstanceId → Pou → Prop} {below stack : List Activation} {frames : List Frame} {a : Activation}
  {callers : List Activation}

@[simp] theorem Activation.within_instance (a : Activation) (frame : Frame) : (a.within frame).instance = a.instance := by
  unfold Activation.within
  split <;> rfl

@[simp] theorem Activation.within_pou (a : Activation) (frame : Frame) : (a.within frame).pou = a.pou := by
  unfold Activation.within
  split <;> rfl

theorem Activation.within_entries (a : Activation) (frame : Frame) :
    (a.within frame).entries = (frame.loop?.map (⟨a.instance, ·.id⟩)).toList ++ a.entries := by
  unfold Activation.within
  cases frame.loop? <;> rfl

namespace Frame

/-- Where the body of a loop is part of the body of a unit, the loops of an instance that is in it are nested. -/
theorem Stands.nested {frame : Frame} (h : frame.Stands a) (ha : ∃ s, a.Has s) : ∃ s, (a.within frame).Has s := by
  cases frame with
  | forBody info remaining body | whileBody info condition body | whileAgain info condition body
  | repeatBody info body condition | repeatTest info body condition => exact ⟨body, h⟩
  | whileTest info condition body entered =>
    cases entered with
    | false => exact ha
    | true => exact ⟨body, h⟩
  | _ => exact ha

namespace Stack

theorem forall_mem {P : Activation → Prop} (h : Frame.Stack unit below frames stack) (hbelow : ∀ b ∈ below, P b)
    (hframe : ∀ a (frame : Frame), frame.Stands a → P a → P (a.within frame))
    (hcallee : ∀ i pou, unit i pou → P ⟨i, pou, []⟩) : ∀ b ∈ stack, P b := by
  induction h with
  | none => exact hbelow
  | frame _ _ hstands ih =>
    obtain ⟨ha, hcallers⟩ := List.forall_mem_cons.mp ih
    exact List.forall_mem_cons.mpr ⟨hframe _ _ hstands ha, hcallers⟩
  | callee _ hunit ih => exact List.forall_mem_cons.mpr ⟨hcallee _ _ hunit, ih⟩

theorem units (h : Frame.Stack unit below frames stack) (hbelow : ∀ b ∈ below, unit b.instance b.pou) :
    ∀ b ∈ stack, unit b.instance b.pou := by
  refine h.forall_mem hbelow (fun a frame _ ha => ?_) fun _ _ => id
  rwa [Activation.within_instance, Activation.within_pou]

theorem nested (h : Frame.Stack unit below frames stack) (hbelow : ∀ b ∈ below, ∃ s, b.Has s) :
    ∀ b ∈ stack, ∃ s, b.Has s :=
  h.forall_mem hbelow (fun _ _ => Stands.nested) fun _ pou _ => ⟨pou.body, .body⟩

theorem awaited (h : Frame.Stack unit below frames stack) :
    stack.map (·.instance) = Frame.awaited frames ++ below.map (·.instance) := by
  induction h with
  | none => rfl
  | @frame frame outer a callers _ hlocal _ ih =>
    rw [awaited_cons_of_none hlocal, ← ih, List.map_cons, Activation.within_instance, List.map_cons]
  | callee _ _ ih => rw [awaited_callee, List.cons_append, ← ih, List.map_cons]

theorem running {i : InstanceId} {pou : Pou} (h : Frame.Stack unit [⟨i, pou, []⟩] frames stack) :
    stack.flatMap (·.entries) = Frame.running i frames := by
  induction h with
  | none => rfl
  | @frame frame outer a callers houter _ _ ih =>
    have howner : (Frame.awaited outer).headD i = a.instance := by
      have hawaited := congrArg List.head? houter.awaited
      cases hwaits : Frame.awaited outer <;> rw [hwaits] at hawaited <;> exact (Option.some.inj hawaited).symm
    rw [Frame.running, howner, ← ih, List.flatMap_cons, List.flatMap_cons, Activation.within_entries, List.append_assoc]
  | callee _ _ ih => exact ih

end Stack

end Frame

-- ---------------------------------------------------------------------------
-- Exits
-- ---------------------------------------------------------------------------

namespace Stmt

variable {inLoop : Prop} {s body : Stmt} {ns : List NodeId}

theorem AllExitInLoops.of_mem {statements : List Stmt} (h : AllExitInLoops inLoop statements) (hs : s ∈ statements) :
    s.ExitsInLoops inLoop := by
  induction statements with
  | nil => cases hs
  | cons first rest ih =>
    obtain rfl | hs := List.mem_cons.mp hs
    · exact h.1
    · exact ih h.2 hs

theorem BranchesExitInLoops.of_mem {branches : List (Expr × Stmt)} {branch : Expr × Stmt}
    (h : BranchesExitInLoops inLoop branches) (hbranch : branch ∈ branches) : branch.2.ExitsInLoops inLoop := by
  induction branches with
  | nil => cases hbranch
  | cons first rest ih =>
    obtain rfl | hbranch := List.mem_cons.mp hbranch
    · exact h.1
    · exact ih h.2 hbranch

theorem ArmsExitInLoops.of_mem {arms : List (List CaseLabel × Stmt)} {arm : List CaseLabel × Stmt}
    (h : ArmsExitInLoops inLoop arms) (harm : arm ∈ arms) : arm.2.ExitsInLoops inLoop := by
  induction arms with
  | nil => cases harm
  | cons first rest ih =>
    obtain rfl | harm := List.mem_cons.mp harm
    · exact h.1
    · exact ih h.2 harm

/-- Where every `EXIT` of a body stands in a loop of it, one that stands in no loop of a part is in a loop around it. -/
theorem Enclosed.exitsInLoops (h : Enclosed body ns s) (hbody : body.ExitsInLoops False) : s.ExitsInLoops (ns ≠ []) := by
  induction h with
  | body => simpa only [ne_eq, not_true_eq_false] using hbody
  | block _ hs ih => exact AllExitInLoops.of_mem ih hs
  | branch _ hbranch ih => exact BranchesExitInLoops.of_mem ih.1 hbranch
  | otherwise _ ih => exact ih.2
  | arm _ harm ih => exact ArmsExitInLoops.of_mem ih.1 harm
  | noArm _ ih => exact ih.2
  | forLoop _ ih | whileLoop _ ih | repeatLoop _ ih =>
    simp only [ne_eq, reduceCtorEq, not_false_eq_true]
    exact ih

end Stmt

-- ---------------------------------------------------------------------------
-- Micro-steps
-- ---------------------------------------------------------------------------

namespace Run

variable {env : Environment} {focus focus' : Focus} {frames' : List Frame} {x x' : Execution}

theorem Comes.located (hbelow : below ≠ []) (h : Comes env focus frames x focus' frames' x')
    (hstart : Located unit below focus frames x) : Located unit below focus' frames' x' := by
  induction h with
  | here => exact hstart
  | next h _ ih =>
    have hstep := transition_located env hbelow hstart
    rw [h] at hstep
    exact ih hstep

theorem microStep_lands (env : Environment) (hbelow : below ≠ []) (hframes : Frame.Stack unit below frames stack)
    (hx : x.cursor.Shows stack) : Lands env.library unit below (microStep env frames x) := by
  obtain ⟨a, callers, rfl⟩ := List.exists_cons_of_ne_nil (stack_ne_nil hbelow hframes)
  rw [← rest_result]
  refine rest_of_transition (P := Located unit below) ?_ ⟨a, callers, hframes, hx, trivial⟩
  exact fun _ _ _ => transition_located env hbelow

end Run

namespace Interpreter

-- ---------------------------------------------------------------------------
-- Cycles
-- ---------------------------------------------------------------------------

variable {l : Library} {t u : Interpreter} {i : InstanceId} {y : Layout}

/-- The frames of a cycle make a stack out of the instance of the program, and the cursor shows it. -/
def Stacked (l : Library) (i : InstanceId) (t : Interpreter) : Prop :=
  ∃ pou stack, t.execution.storage.pouOf l i = .ok pou ∧
    Frame.Stack (t.execution.storage.pouOf l · = .ok ·) [⟨i, pou, []⟩] t.frames stack ∧ t.execution.cursor.Shows stack

theorem stacked_of_atStart (ht : Intact y t) {program : Nat} {pou : Pou} (hat : AtStart y.library t program pou i) :
    t.Stacked y.library i := by
  obtain ⟨⟨p, hp, hkind⟩, -⟩ := ht.started program hat.started
  obtain ⟨i', hunit, hi⟩ := ht.sound.units program p hp (by rw [hkind]; nofun)
  cases hat.unit.symm.trans hunit
  cases hat.declared.symm.trans hp
  refine ⟨pou, [⟨i, pou, []⟩], ht.sound.pouOf ⟨program, hi, hp⟩, ?_, ?_⟩
  · rw [hat.frames]
    exact .frame .none rfl .body
  · rw [hat.cursor]
    exact ⟨rfl, rfl, rfl⟩

theorem Stacked.advance (ht : t.Stacked l i) {a : Advance} (h : advance l t.counting = .ok a u) : u.Stacked l i := by
  obtain ⟨pou, stack, hpou, hframes, hx⟩ := ht
  have hsame := (advance_instances l t.counting).pouOf l
  have hended := microStep_lands ⟨l, t.options.realEpsilon⟩ (List.cons_ne_nil _ _) hframes hx
  rw [h] at hsame
  rw [advance_eq] at h
  dsimp only [counting] at h hsame
  generalize Run.microStep ⟨l, t.options.realEpsilon⟩ t.frames t.execution = result at hended h
  rcases result with ⟨r | frames, x⟩ | ⟨d, x⟩ <;> cases h
  · exact ⟨pou, _, (hsame i).trans hpou, .none, hended.current, hended.callers, hended.loops⟩
  · obtain ⟨stack', hframes', hx'⟩ := hended
    refine ⟨pou, stack', (hsame i).trans hpou, hframes'.mono fun j p hj => ?_, hx'.current, hx'.callers, hx'.loops⟩
    exact hj.elim (fun hj => (hsame j).trans hj) id

theorem stacked_invariant (y : Layout) : CycleInvariant y (Stacked y.library) where
  begins ht hat := stacked_of_atStart ht hat
  advances ht h := ht.advance h
  withStorage ht hs _ := by
    obtain ⟨pou, stack, hpou, hframes, hx⟩ := ht
    have hsame := hs.pouOf y.library
    exact ⟨pou, stack, (hsame _).trans hpou, hframes.mono fun j _ hj => (hsame j).trans hj, hx⟩

theorem frames_of_complete (h : Interpreter.advance l t.counting = .ok (.pause .complete) u) : u.frames = [] := by
  rw [advance_counting] at h
  rcases hx : upcoming l t with ⟨_ | frames, x⟩ | ⟨d, x⟩ <;> rw [hx] at h
  · cases h
    rfl
  · simp only at h
    split at h <;> cases h
  · cases h

/--
The cursor records exactly the loops that frames go on with, ordered by the instances on the call stack. The instances
are distinct ones of their units, and the loops of each are nested in each other in the body of its unit.
-/
structure Mirrors (l : Library) (s : Storage) (lowest : InstanceId) (frames : List Frame) (c : Cursor)
    (stack : List Activation) : Prop extends c.Shows stack where
  units : ∀ b ∈ stack, s.pouOf l b.instance = .ok b.pou
  distinct : (stack.map (·.instance)).Nodup
  nested : ∀ b ∈ stack, ∃ s, b.Has s
  running : c.loops = Frame.running lowest frames

variable {focus : Focus} {frames : List Frame} {x : Execution}

theorem instances_of_shows {c : Cursor} {instances : List InstanceId} (hc : c.Shows stack)
    (hinstances : c.OnStack instances) : stack.map (·.instance) = instances := by
  have hhead := hc.current.symm.trans hinstances.current
  have htail := hc.callers.symm.trans hinstances.callers
  cases stack <;> cases instances <;> simp_all

theorem mirrors_of_shows {s : Storage} {pou : Pou} {c : Cursor} (hpou : s.pouOf l i = .ok pou)
    (hframes : Frame.Stack (s.pouOf l · = .ok ·) [⟨i, pou, []⟩] frames stack) (hc : c.Shows stack)
    (hdistinct : (stack.map (·.instance)).Nodup) : Mirrors l s i frames c stack where
  toShows := hc
  units := hframes.units (List.forall_mem_singleton.mpr hpou)
  distinct := hdistinct
  nested := hframes.nested (List.forall_mem_singleton.mpr ⟨pou.body, .body⟩)
  running := hc.loops.trans hframes.running

/-- What goes on with a loop finds the entry of the loop on top, and leaves the entries that were there before. -/
theorem leaveLoop_of_stack {pou : Pou} {frame : Frame} {outer : List Frame} {info : NodeInfo}
    (hframes : Frame.Stack unit [⟨i, pou, []⟩] (frame :: outer) (a :: callers)) (hx : x.cursor.Shows (a :: callers))
    (hloop : frame.loop? = some info) : x.cursor.loops = ⟨a.instance, info.id⟩ :: Frame.running i outer ∧
      Stmt.leaveLoop info x = .ok () ⟨x.storage, { x.cursor with loops := Frame.running i outer }⟩ := by
  cases hframes with
  | callee => cases hloop
  | @frame _ _ b _ houter hlocal hstands =>
    have hwithin : b.within frame = b.inLoop info := by
      unfold Activation.within
      rw [hloop]
    rw [hwithin] at hx ⊢
    rw [← houter.running]
    exact ⟨hx.loops_inLoop, leaveLoop_eq hx⟩

/-- An `EXIT` finds a loop of its own instance on top, the innermost one around it. -/
theorem requestExit_of_has (hexits : a.pou.body.ExitsInLoops False) (hx : x.cursor.Shows (a :: callers))
    {info : NodeInfo} (h : a.Has (.exit info)) : ∃ n outer, a.loops = n :: outer ∧
      Stmt.requestExit info x = .ok (.done {}) ⟨x.storage, x.cursor.request .exit⟩ := by
  obtain ⟨n, outer, hloops⟩ := List.exists_cons_of_ne_nil (h.exitsInLoops hexits)
  refine ⟨n, outer, hloops, ?_⟩
  have hcurrent : x.cursor.current = some a.instance := hx.current
  have htop : x.cursor.loops.head?.map (·.instance) = some a.instance := by
    rw [hx.loops, List.flatMap_cons, Activation.entries, hloops]
    rfl
  simp only [Stmt.requestExit, EStateM.bind_apply, EStateM.get_apply, hcurrent, htop, if_true]
  rfl

/--
The running loops of a cursor mirror those that are executed, in every state of a session. Take sources that are parsed
and linked, and any calls to the interpreter. If no cycle is in progress then, there are no running loops. Otherwise, take
any number of micro-steps, and any point that the next one comes to. The running loops are those that the frames go on
with: first the ones that the instance that runs is in, then those of its callers in order. The instances are distinct,
and the loops of each are nested in the body of its unit, the innermost one first; those of the instance that runs are
the loops around the statement that comes next. So an `EXIT` has the innermost loop around it on top and is granted, and
what goes on with a loop has the entry of the loop on top, so that leaving it removes this entry and no other. A cycle
that is completed has left all loops.
-/
theorem running_loops_mirrored {units : List CompilationUnit}
    (hparsed : ∀ unit ∈ units, ∃ source file, parseUnit source file = .ok unit) {linked : Interpreter}
    (hlink : Interpreter.link units t = .ok () linked) (calls : List Call) :
    let reached := (Call.performAll calls linked).2
    (reached.program? = none ∨ reached.BetweenCycles → reached.execution.cursor.loops = []) ∧
      ∀ program, reached.program? = some program → ∃ l i₀, linked.library? = some l ∧
        ∀ n t, GoesOn l never n reached t →
          (∀ focus frames x, Comes ⟨l, t.options.realEpsilon⟩ (.result {}) t.frames t.execution focus frames x →
            ∃ a callers, Mirrors l t.execution.storage i₀ frames x.cursor (a :: callers) ∧
              (∀ s, focus = .stmt s → a.Has s) ∧
              (∀ info, focus = .stmt (.exit info) → ∃ n outer, a.loops = n :: outer ∧
                Stmt.requestExit info x = .ok (.done {}) ⟨x.storage, x.cursor.request .exit⟩) ∧
              ∀ r frame outer info, focus = .result r → frames = frame :: outer → frame.loop? = some info →
                x.cursor.loops = ⟨a.instance, info.id⟩ :: Frame.running i₀ outer ∧
                  Stmt.leaveLoop info x = .ok () ⟨x.storage, { x.cursor with loops := Frame.running i₀ outer }⟩) ∧
            ∀ u, advance l t.counting = .ok (.pause .complete) u → u.execution.cursor.loops = [] := by
  have hunits : ∀ unit ∈ units, unit.Fresh := fun unit hunit => by
    obtain ⟨source, file, hsource⟩ := hparsed unit hunit
    exact fresh_of_parseUnit hsource
  obtain ⟨l, s, hlibrary, -, hlinked⟩ := exists_of_link hlink
  obtain ⟨y, hy, hintact⟩ := intact_of_link hunits hlink
  obtain ⟨l', hready⟩ := ready_of_link hlink
  cases hintact.library.symm.trans hready.library
  obtain rfl : l = y.library := Option.some.inj (by rw [← hintact.library, hlinked])
  have hinvariant := (nested_invariant y).and (stacked_invariant y)
  intro reached
  refine ⟨fun hidle => ?_, fun program hstarted => ?_⟩
  · have hreached : Ready y.library reached := hready.performAll calls
    cases hstarted : reached.program? with
    | none =>
      obtain ⟨-, hcursor⟩ := performAll_notStarted hy hintact hready calls hstarted
      rw [hcursor, hlinked]
      rfl
    | some program =>
      obtain ⟨pou, i, hat⟩ := hreached.atStart (hidle.resolve_left (by rw [hstarted]; nofun)) program hstarted
      rw [hat.cursor]
      rfl
  obtain ⟨i₀, hreached⟩ := (inCycle_of_link hlink).performAll hinvariant hy hintact hready calls program hstarted
  refine ⟨y.library, i₀, hready.library, fun n t hgoesOn => ?_⟩
  obtain ⟨hnested, ht⟩ := hinvariant.goesOn hreached hgoesOn
  refine ⟨fun focus frames x hcomes => ?_, fun u hcomplete => ?_⟩
  · obtain ⟨pou, stack, hpou, hframes, hstack⟩ := ht
    have hbelow : [(⟨i₀, pou, []⟩ : Activation)] ≠ [] := List.cons_ne_nil _ _
    obtain ⟨b, waiting, rfl⟩ := List.exists_cons_of_ne_nil (stack_ne_nil hbelow hframes)
    obtain ⟨a, callers, hframes', hx, hstands⟩ := hcomes.located hbelow ⟨b, waiting, hframes, hstack, trivial⟩
    have hdistinct : ((a :: callers).map (·.instance)).Nodup := by
      have hsame := hcomes.sameStack (List.cons_ne_nil i₀ []) hnested.onStack
      rw [instances_of_shows hx (hnested.onStack.same hsame)]
      exact hnested.nodup
    have hmirrors := mirrors_of_shows hpou hframes' hx hdistinct
    refine ⟨a, callers, hmirrors, ?_, ?_, ?_⟩
    · rintro s rfl
      exact hstands
    · rintro info rfl
      have hmem := Storage.pou_mem (hmirrors.units a (List.mem_cons_self ..))
      exact requestExit_of_has (exitsInLoops_of_link hlibrary hmem) hx hstands
    · rintro r frame outer info rfl rfl hloop
      exact leaveLoop_of_stack hframes' hx hloop
  · obtain ⟨pou, stack, -, hframes, hx⟩ := ht.advance hcomplete
    rw [hx.loops, hframes.running, frames_of_complete hcomplete]
    rfl

/-- A loop that only an `EXIT` ends, in a function that is called within two loops, and a `RETURN` out of a loop. -/
def loopsSource : String :=
  "FUNCTION F : INT VAR_INPUT n : INT; END_VAR WHILE TRUE DO F := F + 1; IF F >= n THEN EXIT; END_IF; END_WHILE; " ++
    "END_FUNCTION " ++
    "PROGRAM P VAR k : INT; x : INT; END_VAR FOR k := 1 TO 2 DO REPEAT x := x + F(2); UNTIL x >= 2 END_REPEAT; " ++
    "IF x > 3 THEN RETURN; END_IF; END_FOR; END_PROGRAM"

def loopsCalls (steps : Nat) : List Call := .start { text := "P" } :: List.replicate steps (.proceed (.step .into))

/-- Both instances are in a loop with the same node. The `EXIT` comes next, and the cycle ends with the `RETURN`. -/
theorem running_loops_mirrored_exit :
    ∃ unit linked, parseUnit loopsSource .anonymous = .ok unit ∧ Interpreter.link [unit] {} = .ok () linked ∧
      (Call.performAll (loopsCalls 21) linked).2.execution.cursor.loops = [] ∧
        let reached := (Call.performAll (loopsCalls 9) linked).2
        reached.execution.cursor.loops = [⟨0, 13⟩, ⟨1, 13⟩, ⟨1, 21⟩] ∧
          ∃ l i₀ info outer a callers, reached.frames = .start (.exit info) :: outer ∧
            Mirrors l reached.execution.storage i₀ outer reached.execution.cursor (a :: callers) ∧ a.Has (.exit info) ∧
              ∃ x, Stmt.requestExit info reached.execution = .ok (.done {}) x := by
  have hrun :
      let linked := linkOn loopsSource {}
      let reached := (Call.performAll (loopsCalls 9) linked.state).2
      linked.isOk = true ∧ (Call.performAll (loopsCalls 21) linked.state).2.steps = 0 ∧
        reached.program? = some 1 ∧ reached.execution.cursor.loops = [⟨0, 13⟩, ⟨1, 13⟩, ⟨1, 21⟩] ∧
        (reached.frames.head?.any fun | .start (.exit _) => true | _ => false) = true := by
    have hchars : loopsSource.toList = _ :=
      toList_append_eq (toList_append_eq (toList_append_eq String.toList_ofList String.toList_ofList)
        String.toList_ofList) String.toList_ofList
    rw [linkOn, parseUnit, tokenize_of_toList hchars]
    decide +kernel
  obtain ⟨hlinked, hbetween, hstarted, hloops, hframes⟩ := hrun
  obtain ⟨unit, hparse, hlink⟩ := parsed_of_linkOn (EStateM.Result.eq_ok_of_isOk hlinked)
  have hparsed : ∀ u ∈ [unit], ∃ source file, parseUnit source file = .ok u :=
    List.forall_mem_singleton.mpr ⟨loopsSource, .anonymous, hparse⟩
  obtain ⟨hidle, -⟩ := running_loops_mirrored hparsed hlink (loopsCalls 21)
  obtain ⟨-, hrunning⟩ := running_loops_mirrored hparsed hlink (loopsCalls 9)
  refine ⟨unit, _, hparse, hlink, hidle (.inr hbetween), hloops, ?_⟩
  obtain ⟨l, i₀, -, hmirrored⟩ := hrunning 1 hstarted
  generalize (Call.performAll (loopsCalls 9) (linkOn loopsSource {}).state).2 = reached at hframes hmirrored ⊢
  obtain ⟨info, outer, houter⟩ : ∃ info outer, reached.frames = .start (.exit info) :: outer := by
    obtain ⟨frame, hhead, hexit⟩ := Option.any_eq_true .. |>.mp hframes
    obtain ⟨outer, houter⟩ := List.head?_eq_some_iff.mp hhead
    split at hexit
    · next info => exact ⟨info, outer, houter⟩
    · cases hexit
  have hcomes : Comes ⟨l, reached.options.realEpsilon⟩ (.result {}) reached.frames reached.execution
      (.stmt (.exit info)) outer reached.execution := by
    rw [houter]
    exact .next rfl .here
  obtain ⟨a, callers, hmirrors, hhas, hexit, -⟩ := (hmirrored 0 reached .start).1 _ _ _ hcomes
  obtain ⟨n, around, -, hgranted⟩ := hexit info rfl
  exact ⟨l, i₀, info, outer, a, callers, houter, hmirrors, hhas _ rfl, _, hgranted⟩

end Interpreter

end StructuredText
