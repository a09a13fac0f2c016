-- SUMMARY: The node of a call is stepped as the call is performed.
import StructuredText.Proofs.CallStack
import StructuredText.Proofs.TrackedExpr

/-!
# Stepped calls

The node of a call evaluates its arguments, copies them into the parameters of an instance and hands control to it. When
the body of that instance has finished, the node is stepped again, and then copies the outputs. It finds what the frames
of the call carry with them, the results and the places of the arguments, in the nodes of the arguments.
-/

namespace StructuredText

open Run Arena Node

-- ---------------------------------------------------------------------------
-- Copying arguments
-- ---------------------------------------------------------------------------

namespace Expr

variable (env : Environment) (site : CallSite) (args : List Evaluated) (i : InstanceId)

/-- Copies an argument into its parameter. -/
def copyInput (pou : Pou) (bound : ArgBinding) : Run Unit := do
  if bound.input then
    match pou.vars[bound.param]?, site.args[bound.arg]?, args[bound.arg]? with
    | some param, some arg, some found =>
      storing arg.span
        (Storage.store env.library ⟨.own i bound.param, []⟩ param.type.id? { param.storage with constant := false }
          param.name.text found.value)
    | _, _, _ => throw (.internal site.info.span s!"No argument for {site.name.text}")

/-- Copies a parameter to the place of its argument. -/
def copyOutput (bound : ArgBinding) : Run Unit := do
  if bound.output then
    let value ← asking site.info.span (·.value ⟨.own i bound.param, []⟩)
    match site.args[bound.arg]? with
    | some (.var info path _) =>
      match args[bound.arg]?.bind (·.place?) with
      | some place => storing info.span (Storage.store env.library place info.type? info.storage path.text value)
      | none => throw (.internal info.span "Output argument was not located")
    | some arg => throw (.internal arg.span "Output argument is not a variable")
    | none => throw (.internal site.info.span s!"No argument for {site.name.text}")

theorem forIn_eq_forM {α : Type} {f : α → Unit → Run (ForInStep Unit)} {g : α → Run Unit}
    (h : ∀ a u, f a u = (do g a; pure (.yield ()))) (as : List α) : (do forIn as () f; pure ()) = as.forM g := by
  induction as with
  | nil => rfl
  | cons a as ih =>
    rw [List.forIn_cons, h, List.forM_eq_forM, List.forM_cons, ← List.forM_eq_forM, ← ih]
    simp only [bind_assoc, pure_bind]

theorem copyInputs_eq : copyInputs env site args i = (do
    let pou ← asking site.info.span (·.pouOf env.library i)
    site.bindings.forM (copyInput env site args i pou)) := by
  refine congrArg _ (funext fun pou => forIn_eq_forM (fun bound _ => ?_) _)
  unfold copyInput
  split
  · cases pou.vars[bound.param]? <;> cases site.args[bound.arg]? <;> cases args[bound.arg]? <;> rfl
  · rfl

theorem copyOutputs_eq : copyOutputs env site args i = site.bindings.forM (copyOutput env site args i) := by
  refine forIn_eq_forM (fun bound _ => ?_) _
  unfold copyOutput
  split
  · rw [bind_assoc]
    refine congrArg _ (funext fun v => ?_)
    rcases site.args[bound.arg]? with _ | _ | _ <;> try rfl
    cases args[bound.arg]?.bind (·.place?) <;> rfl
  · rfl

end Expr

variable {ctx : StepContext} {depth : Nat} {l : Library} {site : CallSite} {labels : List ArgLabel}
  {b b' : Arena} {x x' : Execution} {results : List Evaluated} {k : Kind} {i : InstanceId} {s : Stmt}

theorem Arena.Showing.at {es : List Expr} (h : b.Showing s es results) {j : Nat} (hj : j < es.length) :
    ∃ e r, es[j]? = some e ∧ results[j]? = some r ∧ (Stmt.eval e).Part s ∧ b.Shows e r := by
  induction h generalizing j with
  | nil => cases hj
  | @cons e r _ _ hfirst _ ih =>
    cases j with
    | zero => exact ⟨e, r, rfl, rfl, hfirst⟩
    | succ j => exact ih (Nat.lt_of_succ_lt_succ hj)

section

variable {m n : Node.Call} {span : Span} {pou : Pou} {bound : ArgBinding}

theorem copyInput_apply (hname : m.name = site.name) (hrests : b.Rests s k) (hshowing : b.Showing s site.args results)
    (hbound : bound.arg < site.args.length) :
    Call.copyInput ctx m site.info.span pou i (Expr.nodeBinding site.args bound) ⟨n, b, x⟩ =
      running (Expr.copyInput ctx.env site results i pou bound) ⟨n, b, x⟩ := by
  obtain ⟨e, r, he, hr, hpart, hshows⟩ := hshowing.at hbound
  obtain ⟨_, -, -, hn⟩ := hrests.read hpart hshows
  have hspan : b.span e.nodeId = e.span := by
    rw [Arena.span, hn]
    rfl
  unfold Call.copyInput Expr.copyInput
  dsimp +instances only [Expr.nodeBinding]
  simp only [he, hr, Option.map_some, Option.getD_some, hname]
  by_cases hinput : bound.input = true
  · rw [if_pos hinput, if_pos hinput]
    cases pou.vars[bound.param]? with
    | none => rfl
    | some param =>
      simp only
      rw [asking_bind hshows.result, spanOf_bind, hspan]
  · rw [if_neg hinput, if_neg hinput]
    rfl

theorem copyOutput_apply (hrests : b.Rests s k) (hshowing : b.Showing s site.args results)
    (hbound : bound.arg < site.args.length) :
    Call.copyOutput ctx site.info.span i (Expr.nodeBinding site.args bound) ⟨n, b, x⟩ =
      running (Expr.copyOutput ctx.env site results i bound) ⟨n, b, x⟩ := by
  obtain ⟨e, r, he, hr, hpart, hshows⟩ := hshowing.at hbound
  obtain ⟨_, -, -, hn⟩ := hrests.read hpart hshows
  unfold Call.copyOutput Expr.copyOutput
  dsimp +instances only [Expr.nodeBinding]
  simp only [he, hr, Option.map_some, Option.getD_some]
  by_cases houtput : bound.output = true
  · rw [if_pos houtput, if_pos houtput]
    rw [EStateM.bind_apply, running_apply, running_apply, EStateM.bind_apply]
    rcases Run.asking site.info.span (·.value ⟨.own i bound.param, []⟩) x with ⟨v, x'⟩ | ⟨d, x'⟩
    · simp only
      rw [asking_bind (by rw [Arena.node, hn]), EStateM.get_bind, hrests.reference? hpart hshows]
      cases e with
      | var info path indexes =>
        simp only [Expr.reference?, Option.bind_some]
        cases r.place? <;> rfl
      | _ => rfl
    · rfl
  · rw [if_neg houtput, if_neg houtput]
    rfl

/-- What does not change the arena is done for one binding after the other. -/
theorem forM_apply {f : Binding → Stepper Node.Call Unit} {g : ArgBinding → Run Unit} {node : ArgBinding → Binding}
    {bindings : List ArgBinding}
    (h : ∀ bound ∈ bindings, ∀ x, f (node bound) ⟨n, b, x⟩ = running (g bound) ⟨n, b, x⟩) (x : Execution) :
    (bindings.map node).forM f ⟨n, b, x⟩ = running (bindings.forM g) ⟨n, b, x⟩ := by
  induction bindings generalizing x with
  | nil => rfl
  | cons bound rest ih =>
    obtain ⟨hfirst, hrest⟩ := List.forall_mem_cons.mp h
    rw [List.map_cons, List.forM_eq_forM, List.forM_cons, EStateM.bind_apply, hfirst, running_apply, running_apply,
      List.forM_eq_forM, List.forM_cons, EStateM.bind_apply]
    rcases g bound x with ⟨_, x'⟩ | ⟨d, x'⟩
    · exact ih hrest x'
    · rfl

end

-- ---------------------------------------------------------------------------
-- Entering and leaving a unit
-- ---------------------------------------------------------------------------

/-- The node of a call whose arguments are evaluated hands control to an instance. -/
theorem matches_invoke {isFunction : Bool} (hids : (Stmt.eval (site.expr labels)).ids.Nodup)
    (hbound : ∀ bound ∈ site.bindings, bound.arg < site.args.length)
    (hrests : b.Rests (.eval (site.expr labels)) k)
    (hshowing : b.Showing (.eval (site.expr labels)) site.args results) :
    Matches ctx.env.library (.eval (site.expr labels)) b x
      (restored (Stmt.eval (site.expr labels)).nodeId .call
        (Call.invoke ctx { site.node with state := .invoke } site.info.span i isFunction
          ⟨{ site.node with state := .invoke }, b.setKind (Stmt.eval (site.expr labels)).nodeId .vacant, x⟩))
      (Expr.enter ctx.env site results i isFunction x) := by
  let s : Stmt := .eval (site.expr labels)
  let n : Node.Call := { site.node with state := .invoke }
  have hvacant := hrests.setKind hids .vacant
  have hargs := hshowing.own (sameBut_setKind (k := .vacant) (List.mem_singleton_self s.nodeId))
  have entered {x : Execution} (hactive : x.cursor.isActive i = false) :
      Matches ctx.env.library s b x (restored s.nodeId .call (((do
          let pou ← running (Run.asking site.info.span (·.pouOf ctx.env.library i))
          n.bindings.forM (Call.copyInput ctx n site.info.span pou i)
          running (onCursor (·.call i))
          modifyOwn (fun n => { n with state := .await i })
          pure .inProgress) : Stepper Node.Call Step) ⟨n, b.setKind s.nodeId .vacant, x⟩))
        (((do
          let pou ← Run.asking site.info.span (·.pouOf ctx.env.library i)
          Expr.copyInputs ctx.env site results i
          onCursor (·.call i)
          pure (.paused [.start pou.body, .callee site results i])) : Run (Progress Evaluated)) x) := by
    refine .running (Mute.untouched (.asking _ _) x) fun pou x' hasked _ => ?_
    obtain ⟨hpou, rfl⟩ := Run.asking_eq_ok.mp hasked
    have hcopy : Expr.copyInputs ctx.env site results i x' =
        site.bindings.forM (Expr.copyInput ctx.env site results i pou) x' := by
      rw [Expr.copyInputs_eq, EStateM.bind_apply, hasked]
    have hcopied := Expr.copyInputs_keeps (instances_kept ctx.env.library) site results i x'
    have hmute : x'.cursor.Untouched (Expr.copyInputs ctx.env site results i x').state.cursor :=
      Mute.untouched (Expr.copyInputs_silent site results i) x'
    have hnode : n.bindings.forM (Call.copyInput ctx n site.info.span pou i) ⟨n, b.setKind s.nodeId .vacant, x'⟩ =
        running (site.bindings.forM (Expr.copyInput ctx.env site results i pou)) ⟨n, b.setKind s.nodeId .vacant, x'⟩ :=
      forM_apply (fun bound hmem x => copyInput_apply rfl hvacant hargs (hbound bound hmem)) x'
    rw [EStateM.bind_congr_apply hnode, EStateM.bind_congr_apply hcopy]
    rw [hcopy] at hcopied hmute
    refine .running hmute fun _ x'' hx'' huntouched => ?_
    rw [hx''] at hcopied
    have hwaits : (b.setKind s.nodeId (.call { site.node with state := .await i })).Rests s
      (.call { site.node with state := .await i }) := hrests.setKind hids _
    have hinactive' : x''.cursor.isActive i = false := by
      rwa [Cursor.isActive, huntouched.current, huntouched.callers]
    have hpauses : Pauses ctx.env.library x'' ⟨x''.storage, x''.cursor.call i⟩
        [.start pou.body, .callee site results i] [.results site results i] :=
      .called hinactive' rfl rfl rfl ((hcopied.pouOf ctx.env.library i).trans hpou)
    refine .pause hpauses ?_ (sameBut_setKind s.nodeId_mem_ids)
    rw [setKind_setKind]
    exact .results hbound (hshowing.own (sameBut_setKind (List.mem_singleton_self _))) hwaits
  rw [Call.invoke, Expr.enter, EStateM.get_bind, EStateM.get_bind]
  cases hactive : x.cursor.isActive i with
  | true => exact .fail
  | false =>
    cases isFunction with
    | false => exact entered hactive
    | true =>
      refine .running (Mute.untouched (.storing _ _) x) fun _ x' _ hx => entered ?_
      rwa [Cursor.isActive, hx.current, hx.callers]

/-- The node of a call that has its result is back in its start state. -/
theorem matches_result {state : CallState} (hids : (Stmt.eval (site.expr labels)).ids.Nodup)
    (hrests : b.Rests (.eval (site.expr labels)) k) (v : Value) (x : Execution) :
    Matches ctx.env.library (.eval (site.expr labels)) b x
      (restored (Stmt.eval (site.expr labels)).nodeId .call (((do
        Node.setResult (Stmt.eval (site.expr labels)).nodeId v
        Call.rewind
        pure .finished) : Stepper Node.Call Step)
          ⟨{ site.node with state }, b.setKind (Stmt.eval (site.expr labels)).nodeId .vacant, x⟩))
      (.ok (.done ⟨v, none⟩) x) := by
  have hvacant := hrests.setKind hids .vacant
  rw [setResult_bind hvacant.owns, Call.rewind, modifyOwn_bind]
  exact .value hvacant hids rfl rfl rfl (sameBut_setKind (Stmt.nodeId_mem_ids _)) (.refl _)

/-- The node of a call whose instance has finished copies the outputs. -/
theorem matches_complete (hids : (Stmt.eval (site.expr labels)).ids.Nodup)
    (hbound : ∀ bound ∈ site.bindings, bound.arg < site.args.length)
    (hrests : b.Rests (.eval (site.expr labels)) k)
    (hshowing : b.Showing (.eval (site.expr labels)) site.args results) :
    Matches ctx.env.library (.eval (site.expr labels)) b x
      (restored (Stmt.eval (site.expr labels)).nodeId .call
        (Call.complete ctx (Stmt.eval (site.expr labels)).nodeId { site.node with state := .await i } site.info.span i
          ⟨{ site.node with state := .await i }, b.setKind (Stmt.eval (site.expr labels)).nodeId .vacant, x⟩))
      (Expr.collectResults ctx.env site results i x) := by
  let s : Stmt := .eval (site.expr labels)
  let n : Node.Call := { site.node with state := .await i }
  have hvacant := hrests.setKind hids .vacant
  have hargs := hshowing.own (sameBut_setKind (k := .vacant) (List.mem_singleton_self s.nodeId))
  have hnode (x : Execution) : n.bindings.forM (Call.copyOutput ctx site.info.span i)
      ⟨n, b.setKind s.nodeId .vacant, x⟩ = running (site.bindings.forM (Expr.copyOutput ctx.env site results i))
        ⟨n, b.setKind s.nodeId .vacant, x⟩ :=
    forM_apply (fun bound hmem x => copyOutput_apply hvacant hargs (hbound bound hmem)) x
  rw [Call.complete, Expr.collectResults]
  refine .running (Mute.untouched (.asking _ _) x) fun pou x _ _ => ?_
  have hmute : x.cursor.Untouched (Expr.copyOutputs ctx.env site results i x).state.cursor :=
    Mute.untouched (Expr.copyOutputs_silent site results i) x
  rw [EStateM.bind_congr_apply (hnode x), Expr.copyOutputs_eq]
  rw [Expr.copyOutputs_eq] at hmute
  refine .running hmute fun _ x _ _ => ?_
  cases pou.result? with
  | none => exact matches_result hids hrests .void x
  | some position => exact .running (Mute.untouched (.asking _ _) x) fun v x _ _ => matches_result hids hrests v x

-- ---------------------------------------------------------------------------
-- Calls
-- ---------------------------------------------------------------------------

theorem results_apply {n : Node.Call} {es : List Expr} (h : b.Showing s es results) :
    ((es.map Expr.nodeId).mapM (fun arg => asking (·.result arg)) : Stepper Node.Call (List Value)) ⟨n, b, x⟩ =
      .ok (results.map (·.value)) ⟨n, b, x⟩ := by
  induction h with
  | nil => rfl
  | cons hfirst _ ih =>
    rw [List.map_cons, List.mapM_cons, asking_bind hfirst.2.result, EStateM.bind_apply, ih]
    rfl

/-- The node of a call whose arguments are evaluated performs the call. -/
theorem matches_proceed (hids : (Stmt.eval (site.expr labels)).ids.Nodup)
    (hbound : ∀ c, site.callee = some c → (∀ f, c ≠ .standard f) → ∀ bound ∈ site.bindings, bound.arg < site.args.length)
    (hrests : b.Rests (.eval (site.expr labels)) k)
    (hshowing : b.Showing (.eval (site.expr labels)) site.args results) (hcurrent : x.cursor.current = ctx.instance?) :
    Matches ctx.env.library (.eval (site.expr labels)) b x
      (restored (Stmt.eval (site.expr labels)).nodeId .call
        (Call.proceed ctx (Stmt.eval (site.expr labels)).nodeId site.info.span
          ⟨{ site.node with state := .invoke }, b.setKind (Stmt.eval (site.expr labels)).nodeId .vacant, x⟩))
      (Expr.invoke ctx.env site results x) := by
  obtain ⟨info, name, args, callee, bindings⟩ := site
  let s : Stmt := .eval (.call info name labels args callee bindings)
  have hargs := hshowing.own (sameBut_setKind (k := .vacant) (List.mem_singleton_self s.nodeId))
  rw [Call.proceed, own_bind, Expr.invoke]
  cases callee with
  | none => exact .fail
  | some c =>
    cases c with
    | standard f =>
      refine .reading (results_apply hargs) ?_
      exact .checking fun v _ => matches_result hids hrests v x
    | function pou =>
      exact .running (Mute.untouched (.asking _ _) x) fun i x _ _ =>
        matches_invoke hids (hbound _ rfl (by rintro f ⟨⟩)) hrests hshowing
    | «instance» root =>
      dsimp only [CallSite.node]
      rw [EStateM.get_bind, hcurrent, Call.instanceOf, bind_assoc]
      refine .running (Mute.untouched (.asking _ _) x) fun place x _ _ => ?_
      rw [bind_assoc]
      refine .running (Mute.untouched (.asking _ _) x) fun v x _ _ => ?_
      cases v with
      | block found =>
        obtain ⟨_, _ | i⟩ := found
        · exact .fail
        · exact matches_invoke hids (hbound _ rfl (by rintro f ⟨⟩)) hrests hshowing
      | _ => exact .fail

theorem CallSite.expr_inj {site site' : CallSite} {labels labels' : List ArgLabel}
    (h : site.expr labels = site'.expr labels') : site = site' ∧ labels = labels' := by
  obtain ⟨info, name, args, callee, bindings⟩ := site
  obtain ⟨info', name', args', callee', bindings'⟩ := site'
  obtain ⟨rfl, rfl, rfl, rfl, rfl, rfl⟩ := Expr.call.inj h
  exact ⟨rfl, rfl⟩

theorem tracks_call (hargs : ∀ e ∈ site.args, Tracks ctx depth (.eval e))
    (hids : (Stmt.eval (site.expr labels)).ids.Nodup)
    (hbound : ∀ c, site.callee = some c → (∀ f, c ≠ .standard f) → ∀ bound ∈ site.bindings, bound.arg < site.args.length) :
    Tracks ctx (depth + 1) (.eval (site.expr labels)) := by
  let s : Stmt := .eval (site.expr labels)
  have inOrder : InTurn ctx depth s site.args .call (fun j => { site.node with next := j })
      (fun n => { n with next := n.next + 1 })
      (do
        modifyOwn (fun n => { n with next := 0, state := .invoke })
        Call.proceed ctx s.nodeId site.info.span)
      (.arg site) (Expr.invoke ctx.env site) := {
    parts := ⟨.refl _, hids⟩
    tracks := hargs
    advance _ := rfl
    resume _ _ _ := rfl
    wait hsplit hdone haround h := .arg hsplit hdone haround h
    next := by
      intro b results x hshowing hrests hcurrent
      rw [modifyOwn_bind]
      exact matches_proceed hids hbound hrests hshowing hcurrent }
  have stepped {j : Nat} {b : Arena} {x : Execution} (howns : b.Owns s.info (.call { site.node with next := j })) :
      Arena.step ctx (depth + 1) s.nodeId ⟨(), b, x⟩ = restored s.nodeId .call
        (afterStep (stepAll (Arena.step ctx depth) (fun n => { n with next := n.next + 1 })
          ((site.args.drop j).map Expr.nodeId)) (do
            modifyOwn (fun n => { n with next := 0, state := .invoke })
            Call.proceed ctx s.nodeId site.info.span)
          ⟨{ site.node with next := j }, b.setKind s.nodeId .vacant, x⟩) := by
    have hspan : (b.setKind s.nodeId .vacant).span s.nodeId = site.info.span := (howns.setKind .vacant).span
    rw [step_apply howns, stepKind, moving_apply, Call.step, spanOf_bind, own_bind, hspan, List.map_drop]
    rfl
  intro b frames x h hcurrent
  generalize hs : Stmt.eval (site.expr labels) = s' at h
  cases h with
  | start h =>
    subst hs
    have hrests := h.rests_plain rfl
    rw [microStep_single, Stmt.execute, Expr.evaluate, stepped hrests.owns]
    exact inOrder.begin rfl .nil hrests hcurrent
  | arg hsplit hdone haround h =>
    obtain ⟨rfl, rfl⟩ := CallSite.expr_inj (Stmt.eval.inj hs)
    rw [stepped haround.owns, hsplit, List.drop_left]
    exact inOrder.resumed hsplit hdone haround h hcurrent
  | results hbound hargs hrests =>
    obtain ⟨rfl, rfl⟩ := CallSite.expr_inj (Stmt.eval.inj hs)
    have hspan : (b.setKind s.nodeId .vacant).span s.nodeId = site.info.span := (hrests.owns.setKind .vacant).span
    rw [step_apply hrests.owns, stepKind, moving_apply, Call.step, spanOf_bind, own_bind, hspan, microStep,
      resumeAll_singleton]
    exact matches_complete hids hbound hrests hargs
  | _ => cases hs

-- ---------------------------------------------------------------------------
-- Linked expressions
-- ---------------------------------------------------------------------------

/-- The arguments of a call to a unit are there. -/
theorem Callee.Links.bound {vars : List VarDecl} {inUnit : Prop} {args : List Expr} {bindings : List ArgBinding}
    {c : Callee} (h : c.Links l vars inUnit args bindings) (hc : ∀ f, c ≠ .standard f) :
    ∀ bound ∈ bindings, bound.arg < args.length := by
  intro bound hmem
  have hlinks : ∃ p, bound.Links p args := by
    cases c with
    | standard f => exact absurd rfl (hc f)
    | function pou =>
      obtain ⟨-, p, -, -, hlinks⟩ := h
      exact ⟨p, hlinks bound hmem⟩
    | «instance» root =>
      obtain ⟨-, type, pou, p, -, -, -, hlinks⟩ := h
      exact ⟨p, hlinks bound hmem⟩
  obtain ⟨p, -, e, he, -⟩ := hlinks
  exact (List.getElem?_eq_some_iff.mp he).1

namespace Expr

variable {vars : List VarDecl} {inUnit : Prop}

mutual

/-- The node of a linked expression is stepped as the expression is evaluated. -/
theorem tracks {depth : Nat} : (e : Expr) → Fits depth (Stmt.eval e).cells → e.Linked l vars inUnit →
    Tracks ctx depth (.eval e)
  | .literal info v type, hfits, _ => by
    obtain ⟨depth, rfl, -⟩ := Stmt.exists_fits hfits
    exact tracks_literal
  | .var info path indexes, hfits, hlinked => by
    obtain ⟨depth, rfl, hinner⟩ := Stmt.exists_fits hfits
    exact tracks_var (tracks_all indexes hinner hlinked.2) hfits.distinct
  | .unary info op e, hfits, hlinked => by
    obtain ⟨depth, rfl, hinner⟩ := Stmt.exists_fits hfits
    exact tracks_unary (tracks e (by rwa [Stmt.cells]) hlinked.2) hfits.distinct
  | .binary info op left right, hfits, hlinked => by
    obtain ⟨depth, rfl, hinner⟩ := Stmt.exists_fits hfits
    replace hinner : Fits depth (left.cells ++ right.cells) := hinner
    refine tracks_binary (tracks left ?_ hlinked.2.1) (tracks right ?_ hlinked.2.2) hfits.distinct <;> rw [Stmt.cells]
    · exact hinner.mono (List.sublist_append_left _ _)
    · exact hinner.mono (List.sublist_append_right _ _)
  | .call info name labels args callee bindings, hfits, hlinked => by
    obtain ⟨depth, rfl, hinner⟩ := Stmt.exists_fits hfits
    obtain ⟨⟨c, hcallee, hlinks⟩, hargs⟩ := hlinked
    let site : CallSite := ⟨info, name, args, callee, bindings⟩
    have htracks : ∀ e ∈ site.args, Tracks ctx depth (.eval e) := tracks_all args hinner hargs
    have hids : (Stmt.eval (site.expr labels)).ids.Nodup := hfits.distinct
    refine tracks_call htracks hids fun c' hc' hstandard => ?_
    cases hc'.symm.trans hcallee
    exact hlinks.bound hstandard

theorem tracks_all {depth : Nat} : (es : List Expr) → Fits depth (cellsOfAll es) →
    AllSatisfy (linked l vars inUnit) es → ∀ e ∈ es, Tracks ctx depth (.eval e)
  | [], _, _ => List.forall_mem_nil _
  | e :: es, hfits, hlinked => by
    rw [cellsOfAll] at hfits
    have he : Fits depth (Stmt.eval e).cells := by
      rw [Stmt.cells]
      exact hfits.mono (List.sublist_append_left _ _)
    exact List.forall_mem_cons.mpr ⟨tracks e he hlinked.1,
      tracks_all es (hfits.mono (List.sublist_append_right _ _)) hlinked.2⟩

end

end Expr

end StructuredText
