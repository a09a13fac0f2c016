-- SUMMARY: The nodes of expressions are stepped as the expressions are evaluated.
import StructuredText.Proofs.SafeExpr
import StructuredText.Proofs.Tracking

/-!
# Stepped expressions

The node of an expression keeps how far its parts are evaluated. It is stepped as the frame is gone on with that waits in
its place, and the results that the frame carries are those in the nodes of the parts.
-/

namespace StructuredText

open Run Arena Node

variable {ctx : StepContext} {depth : Nat} {l : Library} {info : NodeInfo} {e left right : Expr} {s : Stmt}
  {b b' : Arena} {x x' : Execution}

-- ---------------------------------------------------------------------------
-- Steps of a node
-- ---------------------------------------------------------------------------

/-- A node is stepped as its kind says. -/
theorem step_apply {k : Kind} (h : b.Owns s.info k) :
    Arena.step ctx (depth + 1) s.nodeId ⟨(), b, x⟩ = stepKind ctx (Arena.step ctx depth) s.nodeId k ⟨(), b, x⟩ := by
  obtain ⟨result, hn⟩ := h
  simp only [Arena.step, EStateM.bind_apply, asking_apply, Arena.node, Stmt.nodeId, hn]

theorem microStep_single (s : Stmt) (x : Execution) : microStep ctx.env [.start s] x = s.execute ctx.env x := by
  rw [microStep, resumeAll_singleton]
  rfl

/-- What goes on with the result of a statement waits for the statement. -/
theorem Matches.beginning {r : EStateM.Result Diagnostic (Stepping Unit) Step} {c : Stmt} {frame : Frame}
    {next : Evaluated → Run (Progress Evaluated)} (hframe : ∀ a, resume ctx.env a frame = next a)
    (h : Matches l s b x r (microStep ctx.env ([.start c] ++ [frame]) x)) :
    Matches l s b x r (andThen (c.execute ctx.env) frame next x) := by
  rw [microStep_start hframe]
  exact h

theorem Matches.starting {e : Expr} {r : EStateM.Result Diagnostic (Stepping Unit) Step} {frame : Frame}
    {next : Evaluated → Run (Progress Evaluated)} (hframe : ∀ a, resume ctx.env a frame = next a)
    (h : Matches l s b x r (microStep ctx.env ([.start (.eval e)] ++ [frame]) x)) :
    Matches l s b x r (andThen (e.evaluate ctx.env) frame next x) := by
  have hbegun := Matches.beginning hframe h
  rwa [Stmt.execute] at hbegun

theorem setResult_bind {κ β : Type} {n : κ} {k : Kind} (h : b.Owns s.info k) (v : Value) (f : Unit → Stepper κ β) :
    (Node.setResult s.nodeId v >>= f) ⟨n, b, x⟩ = f () ⟨n, b.setResult s.nodeId v, x⟩ := by
  obtain ⟨result, hn⟩ := h
  rw [Stmt.nodeId, EStateM.bind_apply, setResult_apply hn]

theorem Arena.Owns.shows {k : Kind} {v : Value} {place? : Option Place} (h : b.Owns e.info k) (hplace : k.place? = place?) :
    (b.setResult e.nodeId v).Shows e ⟨v, place?⟩ := by
  obtain ⟨result, hn⟩ := h
  refine ⟨⟨k, e.info.span, e.info.type?, e.info.storage, v⟩, ?_, rfl, hplace⟩
  rw [getElem?_setResult, if_pos rfl, Expr.nodeId, hn]
  rfl

section

variable {κ : Type} {wrap : κ → Kind} {n : κ}

/-- The node of an expression has its value. -/
theorem Matches.value {k : Kind} {v : Value} {place? : Option Place} (hrests : b'.Rests (.eval e) k)
    (hids : (Stmt.eval e).ids.Nodup) (hliteral : e.nodeKind.isLiteral = false)
    (hkind : (wrap n).forget = e.nodeKind) (hplace : (wrap n).place? = place?) (hsame : SameBut (Stmt.eval e).ids b b')
    (hx : x.cursor.Untouched x'.cursor) :
    Matches l (.eval e) b x
      (restored (Stmt.eval e).nodeId wrap (.ok .finished ⟨n, b'.setResult (Stmt.eval e).nodeId v, x'⟩))
      (.ok (.done ⟨v, place?⟩) x') := by
  refine Matches.finish (hrests.setResult hids v) hids hliteral hkind
    (hsame.trans (sameBut_setResult (Stmt.eval e).nodeId_mem_ids)) ?_ hx
  have hshows := Owns.shows (v := v) (hrests.owns.setKind (wrap n)) hplace
  change ((b'.setKind e.nodeId (wrap n)).setResult e.nodeId v).Shows e _ at hshows
  rwa [setResult_setKind] at hshows

end

-- ---------------------------------------------------------------------------
-- Constants and operators
-- ---------------------------------------------------------------------------

theorem tracks_literal {v : Value} {type : Option Ident} : Tracks ctx (depth + 1) (.eval (.literal info v type)) := by
  intro b frames x h hcurrent
  cases h with
  | start h =>
    obtain ⟨⟨k, span, type?, storage, result⟩, hn, hforget⟩ :=
      h (info.cell (.literal v)) (by simp [Stmt.cells, Expr.cells, Expr.nodeKind])
    have hkind : k = .literal v := by
      have := congrArg Node.kind hforget
      cases k <;> first | exact this | cases this
    subst hkind
    obtain ⟨-, rfl, rfl, rfl, hresult⟩ := Node.mk.inj hforget
    change result = v at hresult
    have howns : b.Owns (Stmt.eval (.literal info v type)).info (.literal v) := ⟨_, hn⟩
    rw [step_apply howns, microStep_single]
    exact ⟨b, rfl, h, ⟨_, hn, hresult, rfl⟩, .refl _ _, .refl _⟩

theorem tracks_unary {op : UnaryOp} (he : Tracks ctx depth (.eval e))
    (hids : (Stmt.eval (.unary info op e)).ids.Nodup) : Tracks ctx (depth + 1) (.eval (.unary info op e)) := by
  let s : Stmt := .eval (.unary info op e)
  have hpart : (Stmt.eval e).Part s := ⟨fun _ h => h, hids⟩
  have operand {b : Arena} {frames : List Frame} {x : Execution} (hcurrent : x.cursor.current = ctx.instance?)
      (haround : b.Around s (.unary ⟨op, e.nodeId⟩) (.eval e)) (h : Suspended b (.eval e) frames) :
      Matches ctx.env.library s b x (Arena.step ctx (depth + 1) s.nodeId ⟨(), b, x⟩)
        (microStep ctx.env (frames ++ [.operand info op]) x) := by
    rw [step_apply haround.owns, stepKind, moving_apply, microStep_append]
    refine Matches.part he hcurrent h haround (fun haround _ h => .operand haround h) ?_
    intro b a x hrests _ hshows hcurrent
    have hvacant := hrests.setKind hids .vacant
    rw [asking_bind ((result_setKind ..).trans hshows.result), spanOf_bind, hvacant.span, resumeAll_singleton]
    refine .checking fun v _ => ?_
    rw [setResult_bind hvacant.owns]
    exact .value hvacant hids rfl rfl rfl (sameBut_setKind s.nodeId_mem_ids) (.refl _)
  intro b frames x h hcurrent
  cases h with
  | start h =>
    have hrests := h.rests_plain rfl
    rw [microStep_single, Stmt.execute, Expr.evaluate]
    refine .starting (fun _ => rfl) ?_
    exact operand hcurrent (hrests.around hpart) (.start (hrests.part hpart))
  | operand haround h => exact operand hcurrent haround h

theorem tracks_binary {op : BinaryOp} (hleft : Tracks ctx depth (.eval left)) (hright : Tracks ctx depth (.eval right))
    (hids : (Stmt.eval (.binary info op left right)).ids.Nodup) :
    Tracks ctx (depth + 1) (.eval (.binary info op left right)) := by
  let s : Stmt := .eval (.binary info op left right)
  have hparts : Parts s [left, right] := ⟨by simp [s, Expr.cellsOfAll, Stmt.innerCells, Expr.innerCells], hids⟩
  have goRight {b : Arena} {frames : List Frame} {x : Execution} {a : Evaluated}
      (hcurrent : x.cursor.current = ctx.instance?) (hshowing : b.Showing s [left] [a])
      (haround : b.Around s (.binary ⟨op, left.nodeId, right.nodeId, .right⟩) (.eval right))
      (h : Suspended b (.eval right) frames) :
      Matches ctx.env.library s b x
        (restored s.nodeId .binary (Binary.stepRight ctx (Arena.step ctx depth) s.nodeId
          ⟨⟨op, left.nodeId, right.nodeId, .right⟩, b.setKind s.nodeId .vacant, x⟩))
        (microStep ctx.env (frames ++ [.right op left right a.value]) x) := by
    have hapart := hparts.apart (show [left, right] = [left] ++ right :: [] from rfl)
    rw [Binary.stepRight, own_bind, microStep_append]
    refine Matches.part hright hcurrent h haround ?_ ?_
    · exact fun haround hsame h => .right (hshowing.apart hsame hapart) haround h
    · intro b' r x hrests hsame hshows hcurrent
      have hvacant := hrests.setKind hids .vacant
      have hresults := ((hshowing.apart hsame hapart).snoc haround.part hshows).own
        (sameBut_setKind (k := .vacant) (List.mem_singleton_self _))
      obtain _ | ⟨⟨hpart, hfirst⟩, _ | ⟨⟨hpart', hsecond⟩, _⟩⟩ := hresults
      obtain ⟨k, -, -, hn⟩ := hvacant.read hpart hfirst
      obtain ⟨k', -, -, hn'⟩ := hvacant.read hpart' hsecond
      rw [modifyOwn_bind, asking_bind (by rw [Arena.node, hn]), asking_bind (by rw [Arena.node, hn']),
        resumeAll_singleton]
      refine .checking fun v _ => ?_
      rw [setResult_bind hvacant.owns]
      exact .value hvacant hids rfl rfl rfl (sameBut_setKind s.nodeId_mem_ids) (.refl _)
  have goLeft {b : Arena} {frames : List Frame} {x : Execution} (hcurrent : x.cursor.current = ctx.instance?)
      (haround : b.Around s (.binary ⟨op, left.nodeId, right.nodeId, .left⟩) (.eval left))
      (h : Suspended b (.eval left) frames) :
      Matches ctx.env.library s b x (Arena.step ctx (depth + 1) s.nodeId ⟨(), b, x⟩)
        (microStep ctx.env (frames ++ [.left op left right]) x) := by
    rw [step_apply haround.owns, stepKind, moving_apply, microStep_append, Binary.step, own_bind]
    refine Matches.part hleft hcurrent h haround (fun haround _ h => .left haround h) ?_
    intro b a x hrests _ hshows hcurrent
    rw [modifyOwn_bind, resumeAll_singleton, resume]
    have hrests' := hrests.setKind hids (.binary ⟨op, left.nodeId, right.nodeId, .right⟩)
    have hpart : (Stmt.eval right).Part s := hparts.part (by simp)
    refine .starting (fun _ => rfl)
      (Matches.moved (goRight hcurrent ?_ (hrests'.around hpart) (.start (hrests'.part hpart))))
    exact Showing.own (.cons ⟨haround.part, hshows⟩ .nil) (sameBut_setKind (by simp))
  intro b frames x h hcurrent
  cases h with
  | start h =>
    have hrests := h.rests_plain rfl
    have hpart : (Stmt.eval left).Part s := hparts.part (by simp)
    rw [microStep_single, Stmt.execute, Expr.evaluate]
    refine .starting (fun _ => rfl) ?_
    exact goLeft hcurrent (hrests.around hpart) (.start (hrests.part hpart))
  | left haround h => exact goLeft hcurrent haround h
  | right hshowing haround h =>
    rw [step_apply haround.owns, stepKind, moving_apply, Binary.step, own_bind]
    exact goRight hcurrent hshowing haround h

-- ---------------------------------------------------------------------------
-- References
-- ---------------------------------------------------------------------------

variable {κ : Type} {n : κ} {k : Kind} {path : VarPath} {indexes : List Expr} {results : List Evaluated}

theorem spans_and_results {es : List Expr} (hrests : b.Rests s k) (h : b.Showing s es results) :
    ((es.map Expr.nodeId).mapM (fun i => do
      let span ← spanOf i
      pure (span, ← asking (·.result i))) : Stepper κ (List (Span × Value))) ⟨n, b, x⟩ =
      .ok ((es.map Expr.span).zip (results.map (·.value))) ⟨n, b, x⟩ := by
  induction h with
  | nil => rfl
  | cons hfirst _ ih =>
    obtain ⟨hpart, hshows⟩ := hfirst
    obtain ⟨_, -, -, hn⟩ := hrests.read hpart hshows
    rw [List.map_cons, List.mapM_cons, bind_assoc, spanOf_bind, bind_assoc, asking_bind hshows.result, pure_bind,
      EStateM.bind_apply, ih, Arena.span, hn]
    rfl

/-- The node of a reference, whose indexes are evaluated, finds the variable. -/
theorem matches_read {j : Nat} {place? : Option Place} {values : List (Span × Value)}
    (hids : (Stmt.eval (.var info path indexes)).ids.Nodup) (hrests : b.Rests (.eval (.var info path indexes)) k)
    (hvalues : path.fixed = none → ∃ results, values = (indexes.map Expr.span).zip (results.map (·.value)) ∧
      b.Showing (.eval (.var info path indexes)) indexes results)
    (hcurrent : x.cursor.current = ctx.instance?) :
    Matches ctx.env.library (.eval (.var info path indexes)) b x
      (restored (Stmt.eval (.var info path indexes)).nodeId .reference
        (Variable.read ctx (Stmt.eval (.var info path indexes)).nodeId
          ⟨⟨path, indexes.map Expr.nodeId, j, place?⟩, b.setKind (Stmt.eval (.var info path indexes)).nodeId .vacant, x⟩))
      (Expr.lookup ctx.env info path values x) := by
  let s : Stmt := .eval (.var info path indexes)
  have hvacant := hrests.setKind hids .vacant
  have located (root : Root) (hops : List Hop) : Matches ctx.env.library s b x (restored s.nodeId .reference (((do
      let place ← running (Run.asking info.span (·.locate ctx.env.library ctx.instance? root hops))
      let value ← running (Run.storing info.span (Storage.load ctx.env.library place))
      Node.setResult s.nodeId value
      modifyOwn (fun n => { n with place? := some place })
      pure .finished) : Stepper Node.Variable Step)
        ⟨⟨path, indexes.map Expr.nodeId, 0, place?⟩, b.setKind s.nodeId .vacant, x⟩))
      (((do
        let current := (← get).cursor.current
        let place ← Run.asking info.span (·.locate ctx.env.library current root hops)
        let value ← Run.storing info.span (Storage.load ctx.env.library place)
        pure (.done ⟨value, some place⟩)) : Run (Progress Evaluated)) x) := by
    rw [EStateM.get_bind, hcurrent]
    refine .running (Mute.untouched (.asking _ _) x) fun place x _ _ => ?_
    refine .running (Mute.untouched (.storing _ _) x) fun v x _ _ => ?_
    rw [setResult_bind hvacant.owns, modifyOwn_bind]
    exact .value hvacant hids rfl rfl rfl (sameBut_setKind s.nodeId_mem_ids) (.refl _)
  rw [Variable.read, modifyOwn_bind, own_bind, spanOf_bind, hvacant.span, Expr.lookup]
  cases hroot : path.root with
  | none => exact .fail
  | some root =>
    cases hfixed : path.fixed with
    | some hops => exact located root hops
    | none =>
      obtain ⟨results, rfl, hshowing⟩ := hvalues hfixed
      simp only
      rw [EStateM.bind_apply, Variable.values,
        spans_and_results hvacant (hshowing.own (sameBut_setKind (List.mem_singleton_self _)))]
      exact .checking fun hops _ => located root hops

theorem tracks_var (hindexes : ∀ e ∈ indexes, Tracks ctx depth (.eval e))
    (hids : (Stmt.eval (.var info path indexes)).ids.Nodup) :
    Tracks ctx (depth + 1) (.eval (.var info path indexes)) := by
  let s : Stmt := .eval (.var info path indexes)
  have inOrder (place? : Option Place) (hfixed : path.fixed = none) :
      InTurn ctx depth s indexes .reference (fun j => ⟨path, indexes.map Expr.nodeId, j, place?⟩)
        (fun n => { n with next := n.next + 1 }) (Variable.read ctx s.nodeId)
        (fun before rest => .index info path before indexes rest) (Expr.lookupAt ctx.env info path indexes) := {
    parts := ⟨.refl _, hids⟩
    tracks := hindexes
    advance _ := rfl
    resume _ _ _ := rfl
    wait := by
      rintro b done e rest before frames rfl hdone haround h
      exact .index hfixed hdone haround h
    next hshowing hrests hcurrent := matches_read hids hrests (fun _ => ⟨_, rfl, hshowing⟩) hcurrent }
  have stepped {j : Nat} {b : Arena} {x : Execution} {place? : Option Place} (hfixed : path.fixed = none)
      (howns : b.Owns s.info (.reference ⟨path, indexes.map Expr.nodeId, j, place?⟩)) :
      Arena.step ctx (depth + 1) s.nodeId ⟨(), b, x⟩ = restored s.nodeId .reference
        (afterStep (stepAll (Arena.step ctx depth) (fun n => { n with next := n.next + 1 })
          ((indexes.drop j).map Expr.nodeId)) (Variable.read ctx s.nodeId)
          ⟨⟨path, indexes.map Expr.nodeId, j, place?⟩, b.setKind s.nodeId .vacant, x⟩) := by
    rw [step_apply howns, stepKind, moving_apply, Variable.step, own_bind, List.map_drop]
    simp only [hfixed]
  intro b frames x h hcurrent
  cases h with
  | start h =>
    obtain ⟨k, hk, hrests⟩ := h.rests rfl
    rw [Kind.eq_of_forget_reference hk] at hrests
    rw [microStep_single, Stmt.execute, Expr.evaluate]
    cases hfixed : path.fixed with
    | some hops =>
      rw [step_apply hrests.owns, stepKind, moving_apply, Variable.step, own_bind]
      simp only [hfixed]
      exact matches_read hids hrests (fun h => by cases hfixed.symm.trans h) hcurrent
    | none =>
      rw [stepped hfixed hrests.owns]
      exact (inOrder _ hfixed).begin rfl .nil hrests hcurrent
  | index hfixed hdone haround h =>
    rw [stepped hfixed haround.owns, List.drop_left]
    exact (inOrder _ hfixed).resumed rfl hdone haround h hcurrent

end StructuredText
