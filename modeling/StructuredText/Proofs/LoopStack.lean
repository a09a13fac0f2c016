-- SUMMARY: What is left to do in the instances on the call stack tells which loops each of them is in.
import StructuredText.Proofs.CallStack

/-!
# Instances and their loops

A loop is entered before its body is executed for the first time, and it is left when it ends. In between, a frame of the
loop is left to do, which goes on with it. So the frames of an instance tell the loops that it is in, and those of the
whole stack the running loops of all instances. Every transition changes the running loops of the cursor in the same way
as the frames: entering a loop puts a frame of it in front, and leaving one removes the frame that goes on with it.
-/

namespace StructuredText

-- ---------------------------------------------------------------------------
-- Loops around a statement
-- ---------------------------------------------------------------------------

/-- A statement of a body within loops of it, the innermost one first. -/
inductive Stmt.Enclosed (body : Stmt) : List NodeId → Stmt → Prop
  | body : Enclosed body [] body
  | block {ns info statements s} (h : Enclosed body ns (.block info statements)) (hs : s ∈ statements) :
    Enclosed body ns s
  | branch {ns info branches otherwise branch} (h : Enclosed body ns (.ifThen info branches otherwise))
    (hbranch : branch ∈ branches) : Enclosed body ns branch.2
  | otherwise {ns info branches s} (h : Enclosed body ns (.ifThen info branches (some s))) : Enclosed body ns s
  | arm {ns info selector arms otherwise arm} (h : Enclosed body ns (.case info selector arms otherwise))
    (harm : arm ∈ arms) : Enclosed body ns arm.2
  | noArm {ns info selector arms s} (h : Enclosed body ns (.case info selector arms (some s))) : Enclosed body ns s
  | forLoop {ns info control start stop step s} (h : Enclosed body ns (.forLoop info control start stop step s)) :
    Enclosed body (info.id :: ns) s
  | whileLoop {ns info condition s} (h : Enclosed body ns (.whileLoop info condition s)) :
    Enclosed body (info.id :: ns) s
  | repeatLoop {ns info s condition} (h : Enclosed body ns (.repeatLoop info s condition)) :
    Enclosed body (info.id :: ns) s

-- ---------------------------------------------------------------------------
-- Activations
-- ---------------------------------------------------------------------------

/-- An instance that runs, or that waits for the one that it called. -/
structure Activation where
  «instance» : InstanceId
  pou : Pou
  /-- The loops of the body that the instance is in, the innermost one first. -/
  loops : List NodeId

namespace Activation

/-- The loops that the instance is in, as a cursor records them. -/
def entries (a : Activation) : List LoopEntry := a.loops.map (⟨a.instance, ·⟩)

/-- The instance is in one more loop. -/
def inLoop (a : Activation) (info : NodeInfo) : Activation := { a with loops := info.id :: a.loops }

/-- The statement is part of the body, within the loops that the instance is in and no others. -/
def Has (a : Activation) (s : Stmt) : Prop := Stmt.Enclosed a.pou.body a.loops s

end Activation

/-- The cursor is in the innermost instance, the others wait, and it records the loops that each of them is in. -/
structure Cursor.Shows (c : Cursor) (stack : List Activation) : Prop where
  current : c.current = stack.head?.map (·.instance)
  callers : c.callers = stack.tail.map (·.instance)
  loops : c.loops = stack.flatMap (·.entries)

-- ---------------------------------------------------------------------------
-- Frames of an instance
-- ---------------------------------------------------------------------------

namespace Frame

/-- The loop that a frame goes on with, or leaves. A `WHILE` loop is entered only after its condition has held. -/
def loop? : Frame → Option NodeInfo
  | .forBody info _ _ | .whileTest info _ _ true | .whileBody info _ _ | .whileAgain info _ _
  | .repeatBody info _ _ | .repeatTest info _ _ => some info
  | _ => none

/-- The statements that a frame goes on with are part of the body. -/
def Stands (a : Activation) : Frame → Prop
  | .start s => a.Has s
  | .rest statements => ∀ s ∈ statements, a.Has s
  | .condition _ body more otherwise =>
    a.Has body ∧ (∀ branch ∈ more, a.Has branch.2) ∧ ∀ s ∈ otherwise, a.Has s
  | .selector _ arms otherwise => (∀ arm ∈ arms, a.Has arm.2) ∧ ∀ s ∈ otherwise, a.Has s
  | .bound loop _ _ => (a.inLoop loop.info).Has loop.body
  | .forBody info _ body | .whileTest info _ body _ | .whileBody info _ body | .whileAgain info _ body
  | .repeatBody info body _ | .repeatTest info body _ => (a.inLoop info).Has body
  | _ => True

end Frame

/-- The instance is in the loop that the frame goes on with. -/
def Activation.within (a : Activation) (frame : Frame) : Activation :=
  match frame.loop? with
  | some info => a.inLoop info
  | none => a

/--
Frames make one stack of activations out of another. A frame that waits for an instance adds this instance, which is one
of a unit, and any other frame belongs to the innermost instance.
-/
inductive Frame.Stack (unit : InstanceId → Pou → Prop) (below : List Activation) :
    List Frame → List Activation → Prop
  | none : Stack unit below [] below
  | frame {frame outer a callers} (h : Stack unit below outer (a :: callers)) (hlocal : frame.awaited? = none)
    (hstands : frame.Stands a) : Stack unit below (frame :: outer) (a.within frame :: callers)
  | callee {site args i pou outer stack} (h : Stack unit below outer stack) (hunit : unit i pou) :
    Stack unit below (.callee site args i :: outer) (⟨i, pou, []⟩ :: stack)

/-- What comes next is part of the body. -/
def Focus.Stands (a : Activation) : Focus → Prop
  | .stmt s => a.Has s
  | _ => True

/-- What is left to do makes a stack of activations that the cursor shows. -/
def Progress.Stacked (l : Library) (below : List Activation) : Progress Evaluated → Execution → Prop
  | .done _, x => x.cursor.Shows below
  | .paused inner, x =>
    ∃ stack, Frame.Stack (x.storage.pouOf l · = .ok ·) below inner stack ∧ x.cursor.Shows stack

/-- A transition that is not the last one neither calls an instance nor returns from one. -/
def Moved.Stacked (l : Library) (below : List Activation) : Moved → Execution → Prop
  | .next focus inner, x => ∃ a callers, Frame.Stack (fun _ _ => False) below inner (a :: callers) ∧
    x.cursor.Shows (a :: callers) ∧ focus.Stands a
  | .paused inner, x => Progress.Stacked l below (.paused inner) x

variable {unit unit' : InstanceId → Pou → Prop} {below stack stack' : List Activation} {inner outer : List Frame}

theorem Frame.Stack.mono (h : Frame.Stack unit below inner stack) (hunit : ∀ i pou, unit i pou → unit' i pou) :
    Frame.Stack unit' below inner stack := by
  induction h with
  | none => exact .none
  | frame _ hlocal hstands ih => exact .frame ih hlocal hstands
  | callee _ hi ih => exact .callee ih (hunit _ _ hi)

theorem Frame.Stack.append (houter : Frame.Stack unit below outer stack) (hinner : Frame.Stack unit stack inner stack') :
    Frame.Stack unit below (inner ++ outer) stack' := by
  induction hinner with
  | none => exact houter
  | frame _ hlocal hstands ih => exact .frame ih hlocal hstands
  | callee _ hi ih => exact .callee ih hi

namespace Cursor.Shows

variable {c : Cursor} {a : Activation} {callers : List Activation} {info : NodeInfo}

theorem enterLoop (h : c.Shows (a :: callers)) (info : NodeInfo) :
    (c.enterLoop ⟨a.instance, info.id⟩).Shows (a.inLoop info :: callers) :=
  ⟨h.current, h.callers, congrArg (LoopEntry.mk a.instance info.id :: ·) h.loops⟩

/-- The innermost loop of the innermost instance is on top. -/
theorem loops_inLoop (h : c.Shows (a.inLoop info :: callers)) :
    c.loops = ⟨a.instance, info.id⟩ :: (a :: callers).flatMap (·.entries) := h.loops

theorem call (h : c.Shows stack) (hstack : stack ≠ []) (i : InstanceId) (pou : Pou) :
    (c.call i).Shows (⟨i, pou, []⟩ :: stack) := by
  obtain ⟨a, callers, rfl⟩ := List.exists_cons_of_ne_nil hstack
  refine ⟨rfl, ?_, h.loops⟩
  show c.current.toList ++ c.callers = _
  rw [h.current, h.callers]
  rfl

end Cursor.Shows

namespace Run

-- ---------------------------------------------------------------------------
-- Following the stack
-- ---------------------------------------------------------------------------

/-- From a cursor that shows the stack the computation comes, if it succeeds, to where the property holds. -/
def Tracks {α : Type} (m : Run α) (stack : List Activation) (Q : α → Execution → Prop) : Prop :=
  ∀ x, x.cursor.Shows stack → ∀ a x', m x = .ok a x' → Q a x'

variable {env : Environment} {α β : Type} {a : Activation} {callers : List Activation} {x : Execution}

/-- Entering a loop of the innermost instance puts its entry on top. -/
theorem enterLoop_eq (h : x.cursor.Shows (a :: callers)) (info : NodeInfo) :
    Stmt.enterLoop info x = .ok () ⟨x.storage, x.cursor.enterLoop ⟨a.instance, info.id⟩⟩ := by
  have hcurrent : x.cursor.current = some a.instance := h.current
  simp [Stmt.enterLoop, Stmt.loopEntry?, hcurrent, onCursor, EStateM.modify_apply]

/-- Leaving the innermost loop of the innermost instance removes its entry, and nothing else. -/
theorem leaveLoop_eq {info : NodeInfo} (h : x.cursor.Shows (a.inLoop info :: callers)) :
    Stmt.leaveLoop info x =
      .ok () ⟨x.storage, { x.cursor with loops := (a :: callers).flatMap (·.entries) }⟩ := by
  have hcurrent : x.cursor.current = some a.instance := h.current
  simp [Stmt.leaveLoop, Stmt.loopEntry?, hcurrent, onCursor, EStateM.modify_apply, Cursor.leaveLoop, h.loops_inLoop]

namespace Tracks

variable {m m' : Run α} {Q : α → Execution → Prop} {P : β → Execution → Prop} {f : α → Run β}

theorem pure {b : α} (h : ∀ x, x.cursor.Shows stack → Q b x) : Tracks (Pure.pure b) stack Q := by
  rintro x hx _ _ ⟨⟩
  exact h x hx

theorem throw (d : Diagnostic) : Tracks (throw d : Run α) stack Q := fun _ _ _ _ => nofun

/-- What leaves the cursor alone comes first. -/
theorem after {R : α → Prop} (hm : Silent m R) (hf : ∀ b, R b → Tracks (f b) stack P) : Tracks (m >>= f) stack P := by
  intro x hx b x' h
  obtain ⟨hcursor, hresult⟩ := hm x
  simp only [EStateM.bind_apply] at h
  rcases hfirst : m x with ⟨r, y⟩ | ⟨d, y⟩ <;> rw [hfirst] at hcursor h
  · rw [EStateM.Result.state_ok] at hcursor
    exact hf r (hresult r y hfirst) y (hcursor ▸ hx) b x' h
  · cases h

theorem reads {f : Execution → Run α} (hf : ∀ x, Tracks (f x) stack Q) : Tracks (get >>= f) stack Q :=
  fun x hx => hf x x hx

theorem ite {p : Prop} [Decidable p] (hm : Tracks m stack Q) (hm' : Tracks m' stack Q) :
    Tracks (if p then m else m') stack Q := by
  split <;> assumption

theorem onCursor {g : Cursor → Cursor} {f : Unit → Run α} (hg : ∀ c, c.Shows stack → (g c).Shows stack')
    (hf : Tracks (f ()) stack' Q) : Tracks (Run.onCursor g >>= f) stack Q :=
  fun x hx => hf ⟨x.storage, g x.cursor⟩ (hg x.cursor hx)

theorem enterLoop {info : NodeInfo} {f : Unit → Run α} (hf : Tracks (f ()) (a.inLoop info :: callers) Q) :
    Tracks (Stmt.enterLoop info >>= f) (a :: callers) Q := by
  intro x hx b x' h
  simp only [EStateM.bind_apply, enterLoop_eq hx] at h
  exact hf _ (hx.enterLoop info) b x' h

theorem leaveLoop {info : NodeInfo} {f : Unit → Run α} (hf : Tracks (f ()) (a :: callers) Q) :
    Tracks (Stmt.leaveLoop info >>= f) (a.inLoop info :: callers) Q := by
  intro x hx b x' h
  simp only [EStateM.bind_apply, leaveLoop_eq hx] at h
  refine hf _ ?_ b x' h
  exact ⟨hx.current, hx.callers, rfl⟩

theorem next {l : Library} {focus : Focus} (h : Frame.Stack (fun _ _ => False) below inner (a :: callers))
    (hfocus : focus.Stands a) : Tracks (Pure.pure (.next focus inner)) (a :: callers) (Moved.Stacked l below) :=
  pure fun _ hx => ⟨a, callers, h, hx, hfocus⟩

theorem settled {l : Library} {k : Run (Progress Evaluated)} (h : Tracks k stack (Progress.Stacked l (a :: callers))) :
    Tracks (Run.settled k) stack (Moved.Stacked l (a :: callers)) := by
  intro x hx moved x' hmoved
  simp only [Run.settled, EStateM.bind_apply] at hmoved
  rcases hk : k x with ⟨r | inner, y⟩ | ⟨d, y⟩ <;> rw [hk] at hmoved <;> cases hmoved
  · exact ⟨a, callers, .none, h x hx _ _ hk, trivial⟩
  · exact h x hx _ _ hk

theorem finished {l : Library} {k : Run (Progress Evaluated)} (h : Silent k Finished) :
    Tracks k stack (Progress.Stacked l stack) := by
  intro x hx p x' hk
  obtain ⟨hcursor, hresult⟩ := h x
  obtain ⟨r, rfl⟩ := hresult p x' hk
  rw [hk, EStateM.Result.state_ok] at hcursor
  show x'.cursor.Shows stack
  rwa [hcursor]

theorem paused {l : Library} (h : Frame.Stack (fun _ _ => False) below inner stack) :
    Tracks (Pure.pure (.paused inner)) stack (Progress.Stacked l below) :=
  pure fun _ hx => ⟨stack, h.mono fun _ _ => False.elim, hx⟩

end Tracks

-- ---------------------------------------------------------------------------
-- Expressions and calls
-- ---------------------------------------------------------------------------

variable {l : Library}

theorem silent_tracks {k : Run (Progress Evaluated)} (h : Silent k Finished) :
    Tracks (settled k) (a :: callers) (Moved.Stacked l (a :: callers)) := .settled (.finished h)

theorem finish_tracks : Tracks finish stack (Progress.Stacked l stack) := .finished finish_silent

/-- A call that succeeds puts its instance on top, which is not in any loop yet. -/
theorem invoke_tracks (site : CallSite) (args : List Evaluated) :
    Tracks (Expr.invoke env site args) (a :: callers) (Progress.Stacked env.library (a :: callers)) := by
  intro x hx p x' h
  obtain ⟨i, isFunction, htarget⟩ | ⟨v, hv⟩ | ⟨d, hd⟩ := invoke_cases env site args x
  · rw [invoke_eq_enter htarget] at h
    cases hactive : x.cursor.isActive i with
    | true =>
      rw [enter_of_isActive hactive] at h
      cases h
    | false =>
      have hcursor := (prepareCall_silent env site args i isFunction x).1
      rw [enter_of_inactive hactive] at h
      rcases hprepared : prepareCall env site args i isFunction x with ⟨pou, y⟩ | ⟨d, y⟩ <;>
        rw [hprepared] at hcursor h <;> cases h
      rw [EStateM.Result.state_ok] at hcursor
      have hunit : y.storage.pouOf env.library i = .ok pou := pouOf_of_prepareCall hprepared
      refine ⟨_, .frame (.callee .none hunit) rfl .body, ?_⟩
      show (y.cursor.call i).Shows _
      rw [hcursor]
      exact hx.call (List.cons_ne_nil a callers) i pou
  · rw [hv] at h
    cases h
    exact hx
  · rw [hd] at h
    cases h

/-- A called instance that has finished is not in any loop any more, and its caller goes on in those that it is in. -/
theorem leave_tracks {pou : Pou} (site : CallSite) (args : List Evaluated) (i : InstanceId) :
    Tracks (Expr.leave site args i) (⟨i, pou, []⟩ :: a :: callers) (Progress.Stacked l (a :: callers)) := by
  intro x hx p x' h
  rw [leave_eq site args i _ _ hx.callers] at h
  cases h
  exact ⟨_, .frame .none rfl trivial, rfl, rfl, hx.loops⟩

theorem enterNext_tracks {frame : List Evaluated → List Expr → Frame} {next : List Evaluated → Run Moved}
    (hframe : ∀ before rest, (frame before rest).awaited? = none ∧ a.within (frame before rest) = a ∧
      (frame before rest).Stands a)
    (hnext : ∀ values, Tracks (next values) (a :: callers) (Moved.Stacked l (a :: callers)))
    (before : List Evaluated) (es : List Expr) :
    Tracks (enterNext frame next before es) (a :: callers) (Moved.Stacked l (a :: callers)) := by
  cases es with
  | nil => exact hnext before
  | cons e rest =>
    obtain ⟨hlocal, hwithin, hstands⟩ := hframe before rest
    have hstack : Frame.Stack (fun _ _ => False) (a :: callers) [frame before rest]
        (a.within (frame before rest) :: callers) := .frame .none hlocal hstands
    rw [hwithin] at hstack
    exact .next hstack trivial

theorem enterExpr_tracks (e : Expr) :
    Tracks (enterExpr env e) (a :: callers) (Moved.Stacked env.library (a :: callers)) := by
  cases e with
  | literal info v type => exact .next .none trivial
  | var info path indexes =>
    rw [enterExpr]
    split
    · exact silent_tracks (Expr.lookup_silent info path [])
    · refine enterNext_tracks ?_ (fun values => silent_tracks (Expr.lookup_silent info path _)) [] indexes
      exact fun _ _ => ⟨rfl, rfl, trivial⟩
  | unary info op e => exact .next (.frame .none rfl trivial) trivial
  | binary info op first second => exact .next (.frame .none rfl trivial) trivial
  | call info name labels args callee bindings =>
    refine enterNext_tracks ?_ (fun values => .settled (invoke_tracks _ values)) [] args
    exact fun _ _ => ⟨rfl, rfl, trivial⟩

-- ---------------------------------------------------------------------------
-- Blocks and branches
-- ---------------------------------------------------------------------------

theorem announce_tracks {statements : List Stmt} (h : ∀ s ∈ statements, a.Has s) :
    Tracks (Stmt.announce statements) (a :: callers) (Progress.Stacked l (a :: callers)) := by
  cases statements with
  | nil => exact finish_tracks
  | cons s rest =>
    obtain ⟨hs, hrest⟩ := List.forall_mem_cons.mp h
    exact .onCursor (fun _ hc => ⟨hc.current, hc.callers, hc.loops⟩) (.paused (.frame (.frame .none rfl hrest) rfl hs))

theorem continueBlock_tracks {statements : List Stmt} (h : ∀ s ∈ statements, a.Has s) :
    Tracks (Stmt.continueBlock statements) (a :: callers) (Progress.Stacked l (a :: callers)) := by
  refine .reads fun x => ?_
  split
  · exact announce_tracks h
  · exact finish_tracks

theorem enterOption_tracks {otherwise : Option Stmt} (h : ∀ s ∈ otherwise, a.Has s) :
    Tracks (enterOption otherwise) (a :: callers) (Moved.Stacked l (a :: callers)) := by
  cases otherwise with
  | none => exact .settled finish_tracks
  | some s => exact .next .none (h s rfl)

theorem enterBranches_tracks {branches : List (Expr × Stmt)} {otherwise : Option Stmt}
    (hbranches : ∀ branch ∈ branches, a.Has branch.2) (hotherwise : ∀ s ∈ otherwise, a.Has s) :
    Tracks (enterBranches otherwise branches) (a :: callers) (Moved.Stacked l (a :: callers)) := by
  cases branches with
  | nil => exact enterOption_tracks hotherwise
  | cons branch rest =>
    obtain ⟨hbranch, hrest⟩ := List.forall_mem_cons.mp hbranches
    exact .next (.frame .none rfl ⟨hbranch, hrest, hotherwise⟩) trivial

theorem enterArm_tracks {arms : List (List CaseLabel × Stmt)} {otherwise : Option Stmt}
    (harms : ∀ arm ∈ arms, a.Has arm.2) (hotherwise : ∀ s ∈ otherwise, a.Has s) (span : Span) (v : Value) :
    Tracks (enterArm span v otherwise arms) (a :: callers) (Moved.Stacked l (a :: callers)) := by
  induction arms with
  | nil => exact enterOption_tracks hotherwise
  | cons arm rest ih =>
    obtain ⟨harm, hrest⟩ := List.forall_mem_cons.mp harms
    exact .after (.checked _) fun matched _ => .ite (.next .none harm) (ih hrest)

-- ---------------------------------------------------------------------------
-- Loops
-- ---------------------------------------------------------------------------

variable {info : NodeInfo} {body : Stmt}

/-- An iteration ends in the loop, which is left on a request and goes on otherwise. -/
theorem afterIteration_tracks {next : Run (Progress Evaluated)}
    (h : Tracks next (a.inLoop info :: callers) (Progress.Stacked l (a :: callers))) :
    Tracks (Stmt.afterIteration info next) (a.inLoop info :: callers) (Progress.Stacked l (a :: callers)) := by
  have leaves : Tracks (do Stmt.leaveLoop info; finish) (a.inLoop info :: callers)
      (Progress.Stacked l (a :: callers)) := .leaveLoop finish_tracks
  refine .reads fun x => ?_
  split
  · exact h
  · exact .onCursor (fun _ hc => ⟨hc.current, hc.callers, hc.loops⟩) leaves
  · exact leaves

theorem afterIteration_of_pending {transfer : Transfer} (h : x.cursor.pending = some transfer)
    (next next' : Run (Progress Evaluated)) : Stmt.afterIteration info next x = Stmt.afterIteration info next' x := by
  cases transfer <;> simp only [Stmt.afterIteration, EStateM.bind_apply, EStateM.get_apply, h]

theorem afterFor_tracks (hbody : (a.inLoop info).Has body) (remaining : Int) :
    Tracks (Stmt.afterFor info remaining body) (a.inLoop info :: callers) (Progress.Stacked l (a :: callers)) :=
  afterIteration_tracks <| .ite (.leaveLoop finish_tracks) (.paused (.frame (.frame .none rfl hbody) rfl hbody))

theorem afterWhile_tracks (hbody : (a.inLoop info).Has body) (condition : Expr) :
    Tracks (Stmt.afterWhile info condition body) (a.inLoop info :: callers) (Progress.Stacked l (a :: callers)) :=
  afterIteration_tracks <| .paused (.frame .none rfl hbody)

theorem testRepeat_tracks (hbody : (a.inLoop info).Has body) (condition : Expr) (r : Evaluated) :
    Tracks (Stmt.testRepeat info body condition r) (a.inLoop info :: callers) (Progress.Stacked l (a :: callers)) := by
  refine .after (.checked _) fun holds _ => .ite (.leaveLoop finish_tracks) ?_
  exact .paused (.frame (.frame .none rfl hbody) rfl hbody)

theorem requestExit_tracks (info : NodeInfo) :
    Tracks (Stmt.requestExit info) stack (Progress.Stacked l stack) := by
  refine .reads fun ⟨storage, ⟨current, callers, loops, pending, pause⟩⟩ => ?_
  cases current with
  | none => exact .throw _
  | some i =>
    refine .ite (.onCursor (fun _ hc => ?_) finish_tracks) (.throw _)
    exact ⟨hc.current, hc.callers, hc.loops⟩

theorem enterFor_tracks {loop : ForLoop} (hbody : (a.inLoop loop.info).Has loop.body) (results : List Evaluated) :
    Tracks (enterFor env loop results) (a :: callers) (Moved.Stacked l (a :: callers)) := by
  refine .after (Stmt.startFor_silent loop results) fun count _ => .ite (.settled finish_tracks) ?_
  exact .enterLoop (.next (.frame .none rfl hbody) hbody)

/-- The condition of a `WHILE` loop is evaluated outside of the loop at first, and inside of it from then on. -/
theorem enterWhile_tracks {condition : Expr} {entered : Bool} (hbody : (a.inLoop info).Has body) (r : Evaluated) :
    Tracks (enterWhile info condition body entered r) (a.within (.whileTest info condition body entered) :: callers)
      (Moved.Stacked l (a :: callers)) := by
  have goesOn : Tracks (Pure.pure (.next (.stmt body) [.whileBody info condition body])) (a.inLoop info :: callers)
      (Moved.Stacked l (a :: callers)) := .next (.frame .none rfl hbody) hbody
  refine .after (Stmt.truth_silent condition r) fun holds _ => .ite ?_ ?_
  · cases entered with
    | false => exact .enterLoop goesOn
    | true => exact goesOn
  · cases entered with
    | false => exact .settled finish_tracks
    | true => exact .leaveLoop (.settled finish_tracks)

theorem enterUntil_tracks (hbody : (a.inLoop info).Has body) (condition : Expr) :
    Tracks (enterUntil info body condition) (a.inLoop info :: callers) (Moved.Stacked l (a :: callers)) := by
  intro x hx moved x' h
  cases hpending : x.cursor.pending with
  | none =>
    have goesOn : Tracks (Pure.pure (.next (.expr condition) [.repeatTest info body condition]))
        (a.inLoop info :: callers) (Moved.Stacked l (a :: callers)) := .next (.frame .none rfl hbody) trivial
    simp only [enterUntil, EStateM.bind_apply, EStateM.get_apply, hpending] at h
    exact goesOn x hx moved x' h
  | some transfer =>
    -- What an iteration would go on with does not matter on a request.
    have leaves : Tracks (settled (Stmt.afterIteration info (throw default))) (a.inLoop info :: callers)
        (Moved.Stacked l (a :: callers)) := .settled (afterIteration_tracks (.throw default))
    refine leaves x hx moved x' ?_
    simp only [enterUntil, settled, EStateM.bind_apply, EStateM.get_apply, hpending] at h ⊢
    rwa [afterIteration_of_pending hpending (throw default) finish]

-- ---------------------------------------------------------------------------
-- Every transition
-- ---------------------------------------------------------------------------

theorem enterStmt_tracks {s : Stmt} (hs : a.Has s) :
    Tracks (enterStmt env s) (a :: callers) (Moved.Stacked env.library (a :: callers)) := by
  cases s with
  | eval e => exact .next .none trivial
  | assign info target value => exact .next (.frame .none rfl trivial) trivial
  | block info statements => exact .settled (announce_tracks fun _ => hs.block)
  | ifThen info branches otherwise =>
    refine enterBranches_tracks (fun _ => hs.branch) ?_
    rintro _ ⟨⟩
    exact hs.otherwise
  | case info selector arms otherwise =>
    refine .next (.frame .none rfl ⟨fun _ => hs.arm, ?_⟩) trivial
    rintro _ ⟨⟩
    exact hs.noArm
  | forLoop info control start stop step body =>
    rw [enterStmt]
    apply enterNext_tracks
    · exact fun _ _ => ⟨rfl, rfl, hs.forLoop⟩
    · intro values
      apply enterFor_tracks
      exact hs.forLoop
  | whileLoop info condition body => exact .next (.frame .none rfl hs.whileLoop) trivial
  | repeatLoop info body condition => exact .enterLoop (.next (.frame .none rfl hs.repeatLoop) hs.repeatLoop)
  | exit info => exact .settled (requestExit_tracks info)
  | ret info => exact .settled (.onCursor (fun _ hc => ⟨hc.current, hc.callers, hc.loops⟩) finish_tracks)

/-- A frame that waits for no instance goes on in the loop that it belongs to, or it leaves this loop. -/
theorem enterFrame_tracks (r : Evaluated) {frame : Frame} (hlocal : frame.awaited? = none) (hstands : frame.Stands a) :
    Tracks (enterFrame env r frame) (a.within frame :: callers) (Moved.Stacked env.library (a :: callers)) := by
  cases frame with
  | index info path before indexes rest =>
    rw [enterFrame]
    refine enterNext_tracks ?_ (fun values => silent_tracks (Expr.lookup_silent info path _)) _ rest
    exact fun _ _ => ⟨rfl, rfl, trivial⟩
  | operand info op => exact silent_tracks (Expr.applyUnary_silent info op r)
  | left op first second => exact .next (.frame .none rfl trivial) trivial
  | right op first second value => exact silent_tracks (Expr.applyBinary_silent op first second value r)
  | arg site before rest =>
    refine enterNext_tracks ?_ (fun values => .settled (invoke_tracks site values)) _ rest
    exact fun _ _ => ⟨rfl, rfl, trivial⟩
  | callee site args i => cases hlocal
  | results site args i => exact silent_tracks (Expr.collectResults_silent site args i)
  | start s => exact .next .none hstands
  | rest statements => exact .settled (continueBlock_tracks hstands)
  | target info target value => exact .next (.frame .none rfl trivial) trivial
  | value target => exact silent_tracks (Stmt.assignTo_silent target r)
  | condition condition body rest otherwise =>
    obtain ⟨hbody, hrest, hotherwise⟩ := hstands
    exact .after (Stmt.truth_silent condition r) fun holds _ =>
      .ite (.next .none hbody) (enterBranches_tracks hrest hotherwise)
  | selector selector arms otherwise => exact enterArm_tracks hstands.1 hstands.2 _ _
  | bound loop before rest =>
    rw [enterFrame]
    refine enterNext_tracks ?_ (fun values => enterFor_tracks hstands values) _ rest
    exact fun _ _ => ⟨rfl, rfl, hstands⟩
  | forBody info remaining body => exact .settled (afterFor_tracks hstands remaining)
  | whileTest info condition body entered => exact enterWhile_tracks hstands r
  | whileBody info condition body => exact .settled (afterWhile_tracks hstands condition)
  | whileAgain info condition body => exact .next (.frame .none rfl hstands) trivial
  | repeatBody info body condition => exact enterUntil_tracks hstands condition
  | repeatTest info body condition => exact .settled (testRepeat_tracks hstands condition r)

theorem stack_ne_nil (hbelow : below ≠ []) (h : Frame.Stack unit below inner stack) : stack ≠ [] := by
  cases h with
  | none => exact hbelow
  | frame | callee => exact List.cons_ne_nil _ _

/-- The point that a micro-step has come to is in a body, within the loops that the cursor records. -/
def Located (unit : InstanceId → Pou → Prop) (below : List Activation) (focus : Focus) (frames : List Frame)
    (x : Execution) : Prop :=
  ∃ a callers, Frame.Stack unit below frames (a :: callers) ∧ x.cursor.Shows (a :: callers) ∧ focus.Stands a

/--
What is left to do after a micro-step makes a stack that the cursor shows, and a completed one leaves the lowest stack.
The unit of an instance that has been called is known from the storage.
-/
def Lands (l : Library) (unit : InstanceId → Pou → Prop) (below : List Activation) : Stepped → Prop
  | .ok (.done _) x => x.cursor.Shows below
  | .ok (.paused frames) x => ∃ stack,
    Frame.Stack (fun i pou => unit i pou ∨ x.storage.pouOf l i = .ok pou) below frames stack ∧ x.cursor.Shows stack
  | .error _ _ => True

/-- Every transition comes to such a point again, or the micro-step ends with it. -/
theorem transition_located (env : Environment) (hbelow : below ≠ []) {focus : Focus} {frames : List Frame}
    (h : Located unit below focus frames x) : match transition env focus frames x with
      | .ok (.inl p) x' => Lands env.library unit below (.ok p x')
      | .ok (.inr (focus', frames')) x' => Located unit below focus' frames' x'
      | .error d x' => Lands env.library unit below (.error d x') := by
  obtain ⟨a, callers, hframes, hx, hfocus⟩ := h
  have behind {m : Run Moved} {outer : List Frame} {stack stack' : List Activation}
      (hm : Tracks m stack (Moved.Stacked env.library stack')) (hstack : x.cursor.Shows stack)
      (houter : Frame.Stack unit below outer stack') : match transition.behind outer m x with
        | .ok (.inl p) x' => Lands env.library unit below (.ok p x')
        | .ok (.inr (focus', frames')) x' => Located unit below focus' frames' x'
        | .error d x' => Lands env.library unit below (.error d x') := by
    simp only [transition.behind, EStateM.bind_apply]
    rcases hmoved : m x with ⟨focus | inner, x'⟩ | ⟨d, x'⟩
    · obtain ⟨b, callers, hinner, hx', hstands⟩ := hm x hstack _ _ hmoved
      exact ⟨b, callers, houter.append (hinner.mono fun _ _ => False.elim), hx', hstands⟩
    · obtain ⟨stack, hinner, hx'⟩ := hm x hstack _ _ hmoved
      exact ⟨stack, (houter.mono fun _ _ => .inl).append (hinner.mono fun _ _ => .inr), hx'⟩
    · trivial
  cases focus with
  | expr e => exact behind (enterExpr_tracks e) hx hframes
  | stmt s => exact behind (enterStmt_tracks hfocus) hx hframes
  | result r =>
    cases hframes with
    | none => exact hx
    | frame houter hlocal hstands => exact behind (enterFrame_tracks r hlocal hstands) hx houter
    | @callee site args i pou outer _ houter hunit =>
      obtain ⟨caller, waiting, rfl⟩ := List.exists_cons_of_ne_nil (stack_ne_nil hbelow houter)
      exact behind (.settled (leave_tracks site args i)) hx houter

end Run

end StructuredText
