-- SUMMARY: The nodes of well-formed bodies are stepped as the bodies are executed.
import StructuredText.Proofs.SafeStmt
import StructuredText.Proofs.TrackedStmt

/-!
# Stepped bodies

The node of a loop keeps whether the loop has entered its body and how many iterations are left. After each iteration the
node is stepped again from the root, unless a request has ended the loop. So every statement that can be executed is
stepped by its nodes as it is executed, by induction on the statement.
-/

namespace StructuredText

open Run Arena Node

variable {ctx : StepContext} {depth : Nat} {l : Library} {info : NodeInfo} {e condition : Expr} {s body : Stmt} {k : Kind}
  {b b' : Arena} {x x' : Execution}

-- ---------------------------------------------------------------------------
-- Entering and leaving loops
-- ---------------------------------------------------------------------------

section

variable {κ : Type} {wrap : κ → Kind} {n : κ}

theorem enterLoop_apply (hrests : b.Rests s k) (hcurrent : x.cursor.current = ctx.instance?) :
    Node.enterLoop ctx s.nodeId ⟨n, b, x⟩ = running (Stmt.enterLoop s.info) ⟨n, b, x⟩ := by
  rw [Node.enterLoop, Stmt.enterLoop, ← hcurrent]
  cases hi : x.cursor.current with
  | none =>
    simp only
    rw [spanOf_bind, hrests.span, running_apply, EStateM.get_bind, Stmt.loopEntry?, hi]
    rfl
  | some i =>
    simp only
    rw [running_apply, running_apply, EStateM.get_bind, Stmt.loopEntry?, hi]
    rfl

theorem leaveLoop_apply (hcurrent : x.cursor.current = ctx.instance?) :
    Node.leaveLoop ctx s.nodeId ⟨n, b, x⟩ = running (Stmt.leaveLoop s.info) ⟨n, b, x⟩ := by
  rw [Node.leaveLoop, running_apply, ← hcurrent]
  cases hi : x.cursor.current <;>
    simp [Stmt.leaveLoop, Stmt.loopEntry?, Run.onCursor, EStateM.modify_apply, Stmt.nodeId, hi]

theorem enterLoop_untouched (info : NodeInfo) (x : Execution) :
    x.cursor.Untouched (Stmt.enterLoop info x).state.cursor := by
  rw [Stmt.enterLoop, EStateM.get_bind]
  cases Stmt.loopEntry? x.cursor info <;> exact ⟨rfl, rfl, rfl⟩

theorem Cursor.leaveLoop_untouched (c : Cursor) (loop : LoopEntry) : c.Untouched (c.leaveLoop loop) := by
  rw [Cursor.leaveLoop]
  split <;> exact ⟨rfl, rfl, rfl⟩

theorem leaveLoop_untouched (info : NodeInfo) (x : Execution) :
    x.cursor.Untouched (Stmt.leaveLoop info x).state.cursor := by
  simp only [Stmt.leaveLoop, Run.onCursor, EStateM.modify_apply, EStateM.Result.state_ok]
  split
  · exact Cursor.leaveLoop_untouched _ _
  · exact .refl _

/-- A node records that its loop starts. -/
theorem Matches.entering {next : Unit → Stepper κ Step} {cont : Unit → Run (Progress Evaluated)} (hs : s.ids.Nodup)
    (hrests : b.Rests s k) (hcurrent : x.cursor.current = ctx.instance?)
    (h : ∀ x', x'.cursor.current = ctx.instance? →
      Matches l s b x' (restored s.nodeId wrap (next () ⟨n, b.setKind s.nodeId .vacant, x'⟩)) (cont () x')) :
    Matches l s b x (restored s.nodeId wrap ((Node.enterLoop ctx s.nodeId >>= next) ⟨n, b.setKind s.nodeId .vacant, x⟩))
      ((Stmt.enterLoop s.info >>= cont) x) := by
  rw [EStateM.bind_congr_apply (enterLoop_apply (hrests.setKind hs .vacant) hcurrent)]
  exact .running (enterLoop_untouched s.info x) fun _ x' _ hx => h x' (hx.current.trans hcurrent)

/-- A node whose loop ends is back in its start state. -/
theorem Matches.leaving {f : κ → κ} (hs : s.ids.Nodup) (hplain : s.nodeKind.isPlain = true)
    (hrests : b.Rests s k) (hcurrent : x.cursor.current = ctx.instance?) (hkind : wrap (f n) = s.nodeKind)
    (hshown : ∀ b : Arena, b.Shown s {}) :
    Matches l s b x
      (restored s.nodeId wrap (((do
        Node.leaveLoop ctx s.nodeId
        modifyOwn f
        pure .finished) : Stepper κ Step) ⟨n, b.setKind s.nodeId .vacant, x⟩))
      (((do
        Stmt.leaveLoop s.info
        Run.finish) : Run (Progress Evaluated)) x) := by
  rw [EStateM.bind_congr_apply (leaveLoop_apply hcurrent)]
  exact .running (leaveLoop_untouched s.info x) fun _ x' _ _ => .ended hrests hs hplain hkind hshown

/-- After an iteration, a node ends its loop on a request, or else goes on with it. -/
theorem Matches.iterated {f : κ → κ} {next : Stepper κ Step} {cont : Run (Progress Evaluated)} (hs : s.ids.Nodup)
    (hplain : s.nodeKind.isPlain = true) (hrests : b.Rests s k) (hcurrent : x.cursor.current = ctx.instance?)
    (hkind : wrap (f n) = s.nodeKind) (hshown : ∀ b : Arena, b.Shown s {})
    (h : Matches l s b x (restored s.nodeId wrap (next ⟨n, b.setKind s.nodeId .vacant, x⟩)) (cont x)) :
    Matches l s b x
      (restored s.nodeId wrap
        (Node.afterIteration ctx s.nodeId (modifyOwn f) next ⟨n, b.setKind s.nodeId .vacant, x⟩))
      (Stmt.afterIteration s.info cont x) := by
  rw [Node.afterIteration, Stmt.afterIteration, EStateM.get_bind, EStateM.get_bind]
  cases x.cursor.pending with
  | none => exact h
  | some t =>
    cases t with
    | exit =>
      refine .running ⟨rfl, rfl, rfl⟩ fun _ x' hx' hx => ?_
      exact .leaving hs hplain hrests (hx.current.trans hcurrent) hkind hshown
    | ret => exact .leaving hs hplain hrests hcurrent hkind hshown

end

-- ---------------------------------------------------------------------------
-- `WHILE` and `REPEAT`
-- ---------------------------------------------------------------------------

theorem tracks_while (hcondition : Tracks ctx depth (.eval condition)) (hbody : Tracks ctx depth body)
    (hids : (Stmt.whileLoop info condition body).ids.Nodup) :
    Tracks ctx (depth + 1) (.whileLoop info condition body) := by
  let s : Stmt := .whileLoop info condition body
  have hparts : (Stmt.eval condition).Part s ∧ body.Part s := by
    refine ⟨⟨fun cell hcell => List.mem_append_left _ ?_, hids⟩, ⟨fun cell hcell => List.mem_append_right _ hcell, hids⟩⟩
    rwa [Stmt.cells] at hcell
  have goBody {b : Arena} {frames : List Frame} {x : Execution} (hcurrent : x.cursor.current = ctx.instance?)
      (haround : b.Around s (.whileLoop ⟨condition.nodeId, body.nodeId, true, .body⟩) body)
      (h : Suspended b body frames) :
      Matches ctx.env.library s b x
        (restored s.nodeId .whileLoop (While.stepBody ctx (Arena.step ctx depth) s.nodeId
          ⟨⟨condition.nodeId, body.nodeId, true, .body⟩, b.setKind s.nodeId .vacant, x⟩))
        (microStep ctx.env (frames ++ [.whileBody info condition body]) x) := by
    rw [While.stepBody, own_bind, microStep_append]
    refine Matches.part hbody hcurrent h haround (fun haround _ h => .whileBody haround h) ?_
    intro b a x hrests _ _ hcurrent
    rw [resumeAll_singleton, resume, Stmt.afterWhile]
    refine .iterated hids rfl hrests hcurrent rfl (fun _ => trivial) ?_
    rw [modifyOwn_bind]
    refine .pause (.within rfl rfl) ?_ (sameBut_setKind s.nodeId_mem_ids)
    rw [setKind_setKind]
    exact .whileAgain (hrests.setKind hids _)
  have goCondition {b : Arena} {frames : List Frame} {x : Execution} {entered : Bool}
      (hcurrent : x.cursor.current = ctx.instance?)
      (haround : b.Around s (.whileLoop ⟨condition.nodeId, body.nodeId, entered, .condition⟩) (.eval condition))
      (h : Suspended b (.eval condition) frames) :
      Matches ctx.env.library s b x (Arena.step ctx (depth + 1) s.nodeId ⟨(), b, x⟩)
        (microStep ctx.env (frames ++ [.whileTest info condition body entered]) x) := by
    rw [step_apply haround.owns, stepKind, moving_apply, microStep_append, While.step, own_bind]
    refine Matches.part hcondition hcurrent h haround (fun haround _ h => .whileTest haround h) ?_
    intro b r x hrests _ hshows hcurrent
    rw [resumeAll_singleton, resume, Stmt.testWhile]
    refine .testing hids hrests haround.part hshows fun t => ?_
    have hrests' := hrests.setKind hids (.whileLoop ⟨condition.nodeId, body.nodeId, true, .body⟩)
    have begun {x : Execution} (hcurrent : x.cursor.current = ctx.instance?) : Matches ctx.env.library s b x
        (restored s.nodeId .whileLoop (While.stepBody ctx (Arena.step ctx depth) s.nodeId
          ⟨⟨condition.nodeId, body.nodeId, true, .body⟩, b.setKind s.nodeId .vacant, x⟩))
        (andThen (body.execute ctx.env) (.whileBody info condition body)
          (fun _ => Stmt.afterWhile info condition body) x) :=
      .beginning (fun _ => rfl)
        (Matches.moved (goBody hcurrent (hrests'.around hparts.2) (.start (hrests'.part hparts.2))))
    cases t with
    | true =>
      cases entered with
      | true => exact begun hcurrent
      | false => exact .entering hids hrests hcurrent fun x' hcurrent => begun hcurrent
    | false =>
      cases entered with
      | true => exact .leaving hids rfl hrests hcurrent rfl fun _ => trivial
      | false => exact .ended hrests hids rfl rfl fun _ => trivial
  intro b frames x h hcurrent
  cases h with
  | start h =>
    have hrests : b.Rests s (.whileLoop ⟨condition.nodeId, body.nodeId, false, .condition⟩) := h.rests_plain rfl
    rw [microStep_single, Stmt.execute]
    refine .starting (fun _ => rfl) ?_
    exact goCondition hcurrent (hrests.around hparts.1) (.start (hrests.part hparts.1))
  | whileTest haround h => exact goCondition hcurrent haround h
  | whileBody haround h =>
    rw [step_apply haround.owns, stepKind, moving_apply, While.step, own_bind]
    exact goBody hcurrent haround h
  | whileAgain hrests =>
    rw [microStep, resumeAll_singleton, resume]
    refine .starting (fun _ => rfl) ?_
    exact goCondition hcurrent (hrests.around hparts.1) (.start (hrests.part hparts.1))

theorem tracks_repeat (hcondition : Tracks ctx depth (.eval condition)) (hbody : Tracks ctx depth body)
    (hids : (Stmt.repeatLoop info body condition).ids.Nodup) :
    Tracks ctx (depth + 1) (.repeatLoop info body condition) := by
  let s : Stmt := .repeatLoop info body condition
  have hparts : (Stmt.eval condition).Part s ∧ body.Part s := by
    refine ⟨⟨fun cell hcell => List.mem_append_right _ ?_, hids⟩, ⟨fun cell hcell => List.mem_append_left _ hcell, hids⟩⟩
    rwa [Stmt.cells] at hcell
  have goCondition {b : Arena} {frames : List Frame} {x : Execution} (hcurrent : x.cursor.current = ctx.instance?)
      (haround : b.Around s (.repeatLoop ⟨body.nodeId, condition.nodeId, true, .condition⟩) (.eval condition))
      (h : Suspended b (.eval condition) frames) :
      Matches ctx.env.library s b x
        (restored s.nodeId .repeatLoop (Repeat.stepCondition ctx (Arena.step ctx depth) s.nodeId
          ⟨⟨body.nodeId, condition.nodeId, true, .condition⟩, b.setKind s.nodeId .vacant, x⟩))
        (microStep ctx.env (frames ++ [.repeatTest info body condition]) x) := by
    rw [Repeat.stepCondition, own_bind, microStep_append]
    refine Matches.part hcondition hcurrent h haround (fun haround _ h => .repeatTest haround h) ?_
    intro b r x hrests _ hshows hcurrent
    rw [resumeAll_singleton, resume, Stmt.testRepeat]
    refine .testing hids hrests haround.part hshows fun t => ?_
    cases t with
    | true => exact .leaving hids rfl hrests hcurrent rfl fun _ => trivial
    | false =>
      have hwaits := hrests.setKind hids (.repeatLoop ⟨body.nodeId, condition.nodeId, true, .body⟩)
      refine .pause (.within rfl rfl) ?_ (sameBut_setKind s.nodeId_mem_ids)
      rw [setKind_setKind]
      exact .repeatBody (hwaits.around hparts.2) (.start (hwaits.part hparts.2))
  have goBody {b : Arena} {frames : List Frame} {x : Execution} (hcurrent : x.cursor.current = ctx.instance?)
      (haround : b.Around s (.repeatLoop ⟨body.nodeId, condition.nodeId, true, .body⟩) body)
      (h : Suspended b body frames) :
      Matches ctx.env.library s b x
        (restored s.nodeId .repeatLoop (afterStep (stepping (Arena.step ctx depth body.nodeId))
          (Node.afterIteration ctx s.nodeId Repeat.rewind do
            modifyOwn (fun n => { n with state := .condition })
            Repeat.stepCondition ctx (Arena.step ctx depth) s.nodeId)
          ⟨⟨body.nodeId, condition.nodeId, true, .body⟩, b.setKind s.nodeId .vacant, x⟩))
        (microStep ctx.env (frames ++ [.repeatBody info body condition]) x) := by
    rw [microStep_append]
    refine Matches.part hbody hcurrent h haround (fun haround _ h => .repeatBody haround h) ?_
    intro b a x hrests _ _ hcurrent
    rw [resumeAll_singleton, resume, Stmt.afterRepeat]
    refine .iterated hids rfl hrests hcurrent rfl (fun _ => trivial) ?_
    rw [modifyOwn_bind]
    have hrests' := hrests.setKind hids (.repeatLoop ⟨body.nodeId, condition.nodeId, true, .condition⟩)
    exact .starting (fun _ => rfl)
      (Matches.moved (goCondition hcurrent (hrests'.around hparts.1) (.start (hrests'.part hparts.1))))
  intro b frames x h hcurrent
  cases h with
  | start h =>
    have hrests : b.Rests s (.repeatLoop ⟨body.nodeId, condition.nodeId, false, .body⟩) := h.rests_plain rfl
    have hrests' := hrests.setKind hids (.repeatLoop ⟨body.nodeId, condition.nodeId, true, .body⟩)
    rw [step_apply hrests.owns, stepKind, moving_apply, Repeat.step, own_bind, microStep_single, Stmt.execute]
    refine .entering hids hrests hcurrent fun x' hcurrent => ?_
    exact .beginning (fun _ => rfl)
      (Matches.moved (goBody hcurrent (hrests'.around hparts.2) (.start (hrests'.part hparts.2))))
  | repeatBody haround h =>
    rw [step_apply haround.owns, stepKind, moving_apply, Repeat.step, own_bind]
    exact goBody hcurrent haround h
  | repeatTest haround h =>
    rw [step_apply haround.owns, stepKind, moving_apply, Repeat.step, own_bind]
    exact goCondition hcurrent haround h

-- ---------------------------------------------------------------------------
-- `FOR`
-- ---------------------------------------------------------------------------

section

variable {loop : ForLoop} {results : List Evaluated} {n m : Node.For} {r : Evaluated}

theorem integer_apply (hrests : b.Rests s k) (hpart : (Stmt.eval e).Part s) (hshows : b.Shows e r) (x : Execution) :
    For.integer e.nodeId ⟨n, b, x⟩ = running (Stmt.integerOf e r) ⟨n, b, x⟩ := by
  obtain ⟨_, -, -, hn⟩ := hrests.read hpart hshows
  have hspan : b.span e.nodeId = e.span := by
    rw [Arena.span, hn]
    rfl
  rw [For.integer, asking_bind hshows.result, spanOf_bind, hspan, Stmt.integerOf, running_ofExcept]

/-- The control variable of a loop is set where its node was located. -/
theorem setControl_apply {control : Expr} {start : Int} {loop : Node.For} (hloop : loop.control = control.nodeId)
    (hrests : b.Rests s k) (hpart : (Stmt.eval control).Part s) (hshows : b.Shows control r) (x : Execution) :
    For.setControl ctx loop start ⟨n, b, x⟩ = running (Stmt.setControl ctx.env control r.place? start) ⟨n, b, x⟩ := by
  obtain ⟨_, -, -, hn⟩ := hrests.read hpart hshows
  rw [For.setControl, hloop, asking_bind (by rw [Arena.node, hn]), EStateM.get_bind, hrests.reference? hpart hshows]
  cases control with
  | var info path indexes => cases r.place? <;> rfl
  | _ => rfl

theorem prepare_apply {control start stop : Expr} {stride : Option Expr} {j : Nat} {remaining : Int} {state : ForState}
    (hrests : b.Rests (.forLoop info control start stop stride body) k)
    (h : b.Showing (.forLoop info control start stop stride body)
      (Stmt.bounds ⟨info, control, start, stop, stride, body⟩) results) (x : Execution) :
    For.prepare ctx (Stmt.forLoop info control start stop stride body).nodeId
        ⟨control.nodeId, start.nodeId, stop.nodeId, stride.map Expr.nodeId, body.nodeId, j, remaining, state⟩ ⟨n, b, x⟩ =
      running (Stmt.startFor ctx.env ⟨info, control, start, stop, stride, body⟩ results) ⟨n, b, x⟩ := by
  obtain _ | @⟨_, c, _, _, ⟨hcontrol, hcontrolShows⟩, _ | ⟨⟨hstart, hstartShows⟩, _ | ⟨⟨hstop, hstopShows⟩, h⟩⟩⟩ := h
  have counted (first last step : Int) (x : Execution) (span : Span)
      (hspan : b.span ((stride.map Expr.nodeId).getD (Stmt.forLoop info control start stop stride body).nodeId) = span) :
      ((do
        if step = 0 then
          let span ← spanOf ((stride.map Expr.nodeId).getD (Stmt.forLoop info control start stop stride body).nodeId)
          throw ((ValueError.invalidArgument "FOR step must not be 0").at span)
        For.setControl ctx
          ⟨control.nodeId, start.nodeId, stop.nodeId, stride.map Expr.nodeId, body.nodeId, j, remaining, state⟩ first
        pure (Stmt.iterations first last step)) : Stepper Node.For Int) ⟨n, b, x⟩ =
        running (do
          if step = 0 then
            throw ((ValueError.invalidArgument "FOR step must not be 0").at span)
          Stmt.setControl ctx.env control c.place? first
          pure (Stmt.iterations first last step)) ⟨n, b, x⟩ := by
    by_cases hstep : step = 0
    · rw [if_pos hstep, if_pos hstep, spanOf_bind, hspan]
      rfl
    · rw [if_neg hstep, if_neg hstep]
      have hset : For.setControl ctx
          ⟨control.nodeId, start.nodeId, stop.nodeId, stride.map Expr.nodeId, body.nodeId, j, remaining, state⟩ first
            ⟨n, b, x⟩ = running (Stmt.setControl ctx.env control c.place? first) ⟨n, b, x⟩ :=
        setControl_apply rfl hrests hcontrol hcontrolShows x
      exact (EStateM.bind_congr_apply hset _).trans (running_bind_congr fun _ _ _ => rfl)
  rw [For.prepare, EStateM.bind_congr_apply (integer_apply hrests hstart hstartShows x), Stmt.startFor]
  refine running_bind_congr fun first x _ => ?_
  refine (EStateM.bind_congr_apply (integer_apply hrests hstop hstopShows x) _).trans
    (running_bind_congr fun last x _ => ?_)
  cases stride with
  | none =>
    exact counted first last 1 x info.span hrests.span
  | some e =>
    obtain _ | ⟨⟨hstride, hstrideShows⟩, _⟩ := h
    obtain ⟨_, -, -, hn⟩ := hrests.read hstride hstrideShows
    refine (EStateM.bind_congr_apply (integer_apply hrests hstride hstrideShows x) _).trans
      (running_bind_congr fun step x _ => ?_)
    refine counted first last step x e.span ?_
    rw [Arena.span, Option.map_some, Option.getD_some, hn]
    rfl

theorem parts_for (hids : loop.stmt.ids.Nodup) : Parts loop.stmt (Stmt.bounds loop) :=
  ⟨List.sublist_append_left _ _, hids⟩

/-- The node of a loop steps an iteration. -/
theorem matches_forBody {frames : List Frame} {remaining : Int} (hbody : Tracks ctx depth loop.body)
    (hids : loop.stmt.ids.Nodup) (hcurrent : x.cursor.current = ctx.instance?)
    (haround : b.Around loop.stmt (.forLoop { loop.node with remaining, state := .body }) loop.body)
    (h : Suspended b loop.body frames) :
    Matches ctx.env.library loop.stmt b x
      (restored loop.stmt.nodeId .forLoop (For.stepBody ctx (Arena.step ctx depth) loop.stmt.nodeId
        ⟨{ loop.node with remaining, state := .body }, b.setKind loop.stmt.nodeId .vacant, x⟩))
      (microStep ctx.env (frames ++ [.forBody loop.info remaining loop.body]) x) := by
  rw [For.stepBody, own_bind, microStep_append]
  refine Matches.part hbody hcurrent h haround (fun haround _ h => .forBody haround h) ?_
  intro b a x hrests _ _ hcurrent
  rw [resumeAll_singleton, resume, Stmt.afterFor]
  refine .iterated hids rfl hrests hcurrent rfl (fun _ => trivial) ?_
  rw [modifyOwn_bind, own_bind]
  by_cases hlast : remaining - 1 ≤ 0
  · rw [if_pos hlast, if_pos hlast]
    exact .leaving hids rfl hrests hcurrent rfl fun _ => trivial
  · rw [if_neg hlast, if_neg hlast]
    have hwaits := hrests.setKind hids (.forLoop { loop.node with remaining := remaining - 1, state := .body })
    refine .pause (.within rfl rfl) ?_ (sameBut_setKind loop.stmt.nodeId_mem_ids)
    rw [setKind_setKind]
    exact .forBody (hwaits.around haround.part) (.start (hwaits.part haround.part))

/-- What the node of a loop does once its bounds are evaluated. It was stepped with its bound `j` as the next. -/
def runForNode (ctx : StepContext) (depth : Nat) (loop : ForLoop) (j : Nat) : Stepper Node.For Step := do
  modifyOwn (fun n => { n with next := 0 })
  let count ← For.prepare ctx loop.stmt.nodeId { loop.node with next := j }
  modifyOwn (fun n => { n with remaining := count })
  if count ≤ 0 then do
    For.rewind
    pure .finished
  else do
    Node.enterLoop ctx loop.stmt.nodeId
    modifyOwn (fun n => { n with state := .body })
    For.stepBody ctx (Arena.step ctx depth) loop.stmt.nodeId

/-- The node of a loop whose bounds are evaluated starts counting. -/
theorem matches_runFor {j : Nat} (hbody : Tracks ctx depth loop.body) (hids : loop.stmt.ids.Nodup)
    (hrests : b.Rests loop.stmt k) (hshowing : b.Showing loop.stmt (Stmt.bounds loop) results)
    (hcurrent : x.cursor.current = ctx.instance?) :
    Matches ctx.env.library loop.stmt b x
      (restored loop.stmt.nodeId .forLoop (runForNode ctx depth loop j
        ⟨{ loop.node with next := (Stmt.bounds loop).length }, b.setKind loop.stmt.nodeId .vacant, x⟩))
      (Stmt.runFor ctx.env loop (loop.body.execute ctx.env) results x) := by
  have hpart : loop.body.Part loop.stmt := ⟨fun cell hcell => List.mem_append_right _ hcell, hids⟩
  have hresults := hshowing.own (sameBut_setKind (k := .vacant) (List.mem_singleton_self loop.stmt.nodeId))
  rw [runForNode, modifyOwn_bind, Stmt.runFor]
  have hprepare : For.prepare ctx loop.stmt.nodeId { loop.node with next := j }
      ⟨{ loop.node with next := 0 }, b.setKind loop.stmt.nodeId .vacant, x⟩ =
        running (Stmt.startFor ctx.env loop results)
          ⟨{ loop.node with next := 0 }, b.setKind loop.stmt.nodeId .vacant, x⟩ :=
    prepare_apply (hrests.setKind hids .vacant) hresults x
  refine (congrArg (fun result => Matches _ loop.stmt b x (restored loop.stmt.nodeId .forLoop result) _)
    (EStateM.bind_congr_apply hprepare _)).mpr ?_
  refine .running (Mute.untouched (Stmt.startFor_silent loop results) x) fun count x _ hx => ?_
  replace hcurrent := hx.current.trans hcurrent
  rw [modifyOwn_bind]
  by_cases hcount : count ≤ 0
  · rw [if_pos hcount, if_pos hcount]
    exact .ended hrests hids rfl rfl fun _ => trivial
  · rw [if_neg hcount, if_neg hcount]
    refine .entering hids hrests hcurrent fun x hcurrent => ?_
    have hrests' := hrests.setKind hids (.forLoop { loop.node with remaining := count, state := .body })
    exact .beginning (fun _ => rfl)
      (Matches.moved (matches_forBody hbody hids hcurrent (hrests'.around hpart) (.start (hrests'.part hpart))))

theorem ForLoop.stmt_inj {loop loop' : ForLoop} (h : loop.stmt = loop'.stmt) : loop = loop' := by
  obtain ⟨info, control, start, stop, stride, body⟩ := loop
  obtain ⟨info', control', start', stop', stride', body'⟩ := loop'
  obtain ⟨rfl, rfl, rfl, rfl, rfl, rfl⟩ := Stmt.forLoop.inj h
  rfl

theorem tracks_for (hbounds : ∀ e ∈ Stmt.bounds loop, Tracks ctx depth (.eval e)) (hbody : Tracks ctx depth loop.body)
    (hids : loop.stmt.ids.Nodup) : Tracks ctx (depth + 1) loop.stmt := by
  let s : Stmt := loop.stmt
  have inOrder (j : Nat) : InTurn ctx depth s (Stmt.bounds loop) .forLoop (fun j => { loop.node with next := j })
      (fun n => { n with next := n.next + 1 }) (runForNode ctx depth loop j) (.bound loop)
      (Stmt.runFor ctx.env loop (loop.body.execute ctx.env)) := {
    parts := parts_for hids
    tracks := hbounds
    advance _ := rfl
    resume _ _ _ := rfl
    wait hsplit hdone haround h := .bound hsplit hdone haround h
    next hshowing hrests hcurrent := matches_runFor hbody hids hrests hshowing hcurrent }
  have hmap : [loop.node.control, loop.node.start, loop.node.stop] ++ loop.node.stride.toList =
      (Stmt.bounds loop).map Expr.nodeId := by
    rw [Stmt.bounds, List.map_append]
    refine congrArg _ ?_
    change (loop.step.map Expr.nodeId).toList = _
    cases loop.step <;> rfl
  have stepped {j : Nat} {b : Arena} {x : Execution} (howns : b.Owns s.info (.forLoop { loop.node with next := j })) :
      Arena.step ctx (depth + 1) s.nodeId ⟨(), b, x⟩ = restored s.nodeId .forLoop
        (afterStep (stepAll (Arena.step ctx depth) (fun n => { n with next := n.next + 1 })
          (((Stmt.bounds loop).drop j).map Expr.nodeId)) (runForNode ctx depth loop j)
          ⟨{ loop.node with next := j }, b.setKind s.nodeId .vacant, x⟩) := by
    rw [step_apply howns, stepKind, moving_apply, For.step, own_bind, List.map_drop, ← hmap]
    rfl
  intro b frames x h hcurrent
  generalize hs : loop.stmt = s' at h
  cases h with
  | start h =>
    subst hs
    have hrests : b.Rests s (.forLoop { loop.node with next := 0 }) := h.rests_plain rfl
    rw [microStep_single, Stmt.execute, stepped hrests.owns]
    exact (inOrder 0).begin (List.nil_append _).symm .nil hrests hcurrent
  | bound hsplit hdone haround h =>
    obtain rfl := ForLoop.stmt_inj hs
    rw [stepped haround.owns, hsplit, List.drop_left]
    exact (inOrder _).resumed hsplit hdone haround h hcurrent
  | forBody haround h =>
    obtain rfl := ForLoop.stmt_inj hs
    rw [step_apply haround.owns, stepKind, moving_apply, For.step, own_bind]
    exact matches_forBody hbody hids hcurrent haround h
  | _ => cases hs

end

-- ---------------------------------------------------------------------------
-- Bodies
-- ---------------------------------------------------------------------------

variable {vars : List VarDecl} {inUnit : Prop}

namespace Stmt

theorem fits_left {depth : Nat} {cells cells' : List (NodeId × Node)} (h : Fits depth (cells ++ cells')) :
    Fits depth cells := h.mono (List.sublist_append_left _ _)

theorem fits_right {depth : Nat} {cells cells' : List (NodeId × Node)} (h : Fits depth (cells ++ cells')) :
    Fits depth cells' := h.mono (List.sublist_append_right _ _)

/-- The node of an expression in a statement is stepped as the expression is evaluated. -/
theorem tracks_expr {depth : Nat} {e : Expr} (hfits : Fits depth e.cells) (h : e.Linked l vars inUnit) :
    Tracks ctx depth (.eval e) := Expr.tracks e (by rwa [cells]) h

mutual

/-- The node of a statement that can be executed is stepped as the statement is executed. -/
theorem tracks {depth : Nat} {inLoop : Prop} : (s : Stmt) → Fits depth s.cells →
    s.WellFormed (Expr.Linked l vars inUnit) inLoop → Tracks ctx depth s
  | .eval e, hfits, h => Expr.tracks e hfits h
  | .assign info target value, hfits, ⟨_, htarget, hvalue⟩ => by
    obtain ⟨depth, rfl, hinner⟩ := exists_fits hfits
    exact tracks_assign (tracks_expr (fits_left hinner) htarget) (tracks_expr (fits_right hinner) hvalue) hfits.distinct
  | .block info statements, hfits, h => by
    obtain ⟨depth, rfl, hinner⟩ := exists_fits hfits
    exact tracks_block (tracks_all statements hinner h) hfits.distinct
  | .ifThen info branches otherwise, hfits, ⟨hbranches, hotherwise⟩ => by
    obtain ⟨depth, rfl, hinner⟩ := exists_fits hfits
    exact tracks_if (tracks_branches branches (fits_left hinner) hbranches)
      (tracks_option otherwise (fits_right hinner) hotherwise) hfits.distinct
  | .case info selector arms otherwise, hfits, ⟨hselector, harms, hotherwise⟩ => by
    obtain ⟨depth, rfl, hinner⟩ := exists_fits hfits
    have hleft := fits_left hinner
    have htracks := tracks_arms arms (fits_right hleft) harms
    refine tracks_case (tracks_expr (fits_left hleft) hselector) (List.forall_mem_append.mpr ⟨?_, ?_⟩)
      (fun arm harm => (htracks arm harm).1) hfits.distinct
    · exact List.forall_mem_map.mpr fun arm harm => (htracks arm harm).2
    · exact fun s hs => tracks_option otherwise (fits_right hinner) hotherwise s (Option.mem_toList.mp hs)
  | .forLoop info control start stop step body, hfits, ⟨_, hbounds, hbody⟩ => by
    obtain ⟨depth, rfl, hinner⟩ := exists_fits hfits
    let loop : ForLoop := ⟨info, control, start, stop, step, body⟩
    have htracks : ∀ e ∈ bounds loop, Tracks ctx depth (.eval e) :=
      Expr.tracks_all _ (fits_left hinner) (Expr.allSatisfy_iff.mpr hbounds)
    have hids : loop.stmt.ids.Nodup := hfits.distinct
    exact tracks_for htracks (tracks body (fits_right hinner) hbody) hids
  | .whileLoop info condition body, hfits, ⟨hcondition, hbody⟩ => by
    obtain ⟨depth, rfl, hinner⟩ := exists_fits hfits
    exact tracks_while (tracks_expr (fits_left hinner) hcondition) (tracks body (fits_right hinner) hbody)
      hfits.distinct
  | .repeatLoop info body condition, hfits, ⟨hbody, hcondition⟩ => by
    obtain ⟨depth, rfl, hinner⟩ := exists_fits hfits
    exact tracks_repeat (tracks_expr (fits_right hinner) hcondition) (tracks body (fits_left hinner) hbody)
      hfits.distinct
  | .exit info, hfits, _ => by
    obtain ⟨depth, rfl, -⟩ := exists_fits hfits
    exact tracks_exit
  | .ret info, hfits, _ => by
    obtain ⟨depth, rfl, -⟩ := exists_fits hfits
    exact tracks_ret

theorem tracks_all {depth : Nat} {inLoop : Prop} : (statements : List Stmt) → Fits depth (cellsOfAll statements) →
    AllWellFormed (Expr.Linked l vars inUnit) inLoop statements → ∀ s ∈ statements, Tracks ctx depth s
  | [], _, _ => List.forall_mem_nil _
  | s :: rest, hfits, h => by
    rw [cellsOfAll] at hfits
    exact List.forall_mem_cons.mpr ⟨tracks s (fits_left hfits) h.1, tracks_all rest (fits_right hfits) h.2⟩

theorem tracks_option {depth : Nat} {inLoop : Prop} : (otherwise : Option Stmt) → Fits depth (cellsOfOption otherwise) →
    OptionWellFormed (Expr.Linked l vars inUnit) inLoop otherwise → ∀ s ∈ otherwise, Tracks ctx depth s
  | none, _, _ => by rintro _ ⟨⟩
  | some s, hfits, h => by
    rw [cellsOfOption] at hfits
    rintro _ ⟨⟩
    exact tracks s hfits h

theorem tracks_branches {depth : Nat} {inLoop : Prop} : (branches : List (Expr × Stmt)) →
    Fits depth (cellsOfBranches branches) → BranchesWellFormed (Expr.Linked l vars inUnit) inLoop branches →
      ∀ branch ∈ branches, Tracks ctx depth (.eval branch.1) ∧ Tracks ctx depth branch.2
  | [], _, _ => List.forall_mem_nil _
  | (condition, s) :: rest, hfits, ⟨hcondition, hs, hrest⟩ => by
    rw [cellsOfBranches] at hfits
    have hleft := fits_left hfits
    exact List.forall_mem_cons.mpr
      ⟨⟨tracks_expr (fits_left hleft) hcondition, tracks s (fits_right hleft) hs⟩,
        tracks_branches rest (fits_right hfits) hrest⟩

theorem tracks_arms {depth : Nat} {inLoop : Prop} : (arms : List (List CaseLabel × Stmt)) →
    Fits depth (cellsOfArms arms) → ArmsWellFormed (Expr.Linked l vars inUnit) inLoop arms →
      ∀ arm ∈ arms, (∀ label ∈ arm.1, label.IsConstant) ∧ Tracks ctx depth arm.2
  | [], _, _ => List.forall_mem_nil _
  | (labels, s) :: rest, hfits, ⟨hlabels, hs, hrest⟩ => by
    rw [cellsOfArms] at hfits
    exact List.forall_mem_cons.mpr
      ⟨⟨hlabels, tracks s (fits_right (fits_left hfits)) hs⟩, tracks_arms rest (fits_right hfits) hrest⟩

end

end Stmt

end StructuredText
