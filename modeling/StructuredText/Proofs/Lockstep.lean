-- SUMMARY: Executing a folded body goes in lockstep with executing the body itself.
import StructuredText.Proofs.Folds
import StructuredText.Proofs.Settling

/-!
# Lockstep

A folded body is executed in lockstep with the body that it is folded from: from the same state both end a micro-step
with the same error or the same result, in the same state, or pause with frames of which one list is the folded form of
the other. The frames hold the results and places of the nodes that are evaluated, so these are the same, too.
-/

namespace StructuredText.Run

/-- The first micro-step ends as the second one, except that what it leaves to do is folded. -/
inductive Alongside (eps : Float) : Stepped → Stepped → Prop
  | failed {d x} : Alongside eps (.error d x) (.error d x)
  | done {r x} : Alongside eps (.ok (.done r) x) (.ok (.done r) x)
  | paused {frames frames' x} (h : List.Forall₂ (Frame.Folds eps) frames frames') :
    Alongside eps (.ok (.paused frames) x) (.ok (.paused frames') x)

theorem Alongside.refl {eps : Float} : (p : Stepped) → Alongside eps p p
  | .error _ _ => .failed
  | .ok (.done _) _ => .done
  | .ok (.paused _) _ => .paused (List.forall₂_same.mpr fun frame _ => .refl frame)

/-- From every state the first execution ends a micro-step as the second one, except that what it leaves to do is folded. -/
def Lockstep (eps : Float) (m m' : Run (Progress Evaluated)) : Prop := ∀ x, Alongside eps (m x) (m' x)

variable {eps : Float} {α : Type} {m m' : Run (Progress Evaluated)}

namespace Lockstep

theorem refl (m : Run (Progress Evaluated)) : Lockstep eps m m := fun x => .refl (m x)

theorem paused {frames frames' : List Frame} (h : List.Forall₂ (Frame.Folds eps) frames frames') :
    Lockstep eps (pure (.paused frames)) (pure (.paused frames')) := fun _ => .paused h

theorem bind {n : Run α} {f f' : α → Run (Progress Evaluated)} (h : ∀ a, Lockstep eps (f a) (f' a)) :
    Lockstep eps (n >>= f) (n >>= f') := by
  intro x
  simp only [EStateM.bind_apply]
  cases n x with
  | ok a x => exact h a x
  | error d x => exact .failed

theorem andThen {frame frame' : Frame} {next next' : Evaluated → Run (Progress Evaluated)} (h : Lockstep eps m m')
    (hframe : frame.Folds eps frame') (hnext : ∀ r, Lockstep eps (next r) (next' r)) :
    Lockstep eps (Run.andThen m frame next) (Run.andThen m' frame' next') := by
  intro x
  have hx := h x
  simp only [Run.andThen, EStateM.bind_apply]
  revert hx
  generalize m x = p
  generalize m' x = p'
  rintro (_ | _ | hframes)
  · exact .failed
  · exact hnext _ _
  · exact .paused (List.rel_append hframes (.cons hframe .nil))

theorem ite {c : Prop} [Decidable c] {n n' : Run (Progress Evaluated)} (h : Lockstep eps m m')
    (h' : Lockstep eps n n') : Lockstep eps (if c then m else n) (if c then m' else n') := by
  split
  · exact h
  · exact h'

end Lockstep

end StructuredText.Run

-- ---------------------------------------------------------------------------
-- Storage
-- ---------------------------------------------------------------------------

namespace StructuredText

variable {eps : Float} {l l' : Library}

namespace Storage

/-- An instance belongs to units of both libraries, of which one has the folded body. -/
theorem pouOf_folds (hl : l.Folds eps l') (s : Storage) (i : InstanceId) :
    (∃ e, s.pouOf l i = .error e ∧ s.pouOf l' i = .error e) ∨
      ∃ p p', s.pouOf l i = .ok p ∧ s.pouOf l' i = .ok p' ∧ p.Folds eps p' := by
  unfold pouOf
  cases s.instance? i with
  | error e => exact .inl ⟨e, rfl, rfl⟩
  | ok found =>
    simp only [Except.ok_bind]
    have hpou := rel_getElem?_of_forall₂ hl.pous found.pou
    generalize l.pous[found.pou]? = p at hpou ⊢
    generalize l'.pous[found.pou]? = p' at hpou ⊢
    cases hpou with
    | none => exact .inl ⟨_, rfl, rfl⟩
    | some hp => exact .inr ⟨_, _, rfl, rfl, hp⟩

section

variable (hl : l.Folds eps l')

include hl

theorem declOf_folds (s : Storage) (slot : Slot) : s.declOf l slot = s.declOf l' slot := by
  unfold declOf
  cases slot with
  | global g => rw [hl.globals]
  | own i position =>
    obtain ⟨e, h, h'⟩ | ⟨p, p', h, h', hp⟩ := pouOf_folds hl s i
    · simp only [h, h', Except.error_bind]
    · simp only [h, h', Except.ok_bind, hp.vars]

theorem placeOf_folds (s : Storage) (i : InstanceId) (position : Nat) :
    s.placeOf l i position = s.placeOf l' i position := by
  unfold placeOf
  rw [declOf_folds hl]

theorem follow_folds (s : Storage) : s.follow l = s.follow l' := by
  funext place hop
  cases hop with
  | child => rfl
  | var position =>
    unfold follow
    simp only [placeOf_folds hl]

theorem locate_folds (s : Storage) (current : Option InstanceId) (root : Root) (hops : List Hop) :
    s.locate l current root hops = s.locate l' current root hops := by
  unfold locate
  simp only [follow_folds hl, placeOf_folds hl]

theorem located?_folds (s : Storage) (slot : Slot) : s.located? l slot = s.located? l' slot := by
  unfold located?
  rw [declOf_folds hl]

theorem load_folds : load l = load l' := by
  funext place
  unfold load
  simp only [located?_folds hl, hl.types]

theorem store_folds : store l = store l' := by
  funext place type storage name source
  unfold store
  simp only [located?_folds hl, hl.types]

theorem resetFrame_folds (i : InstanceId) : resetFrame l i = resetFrame l' i := by
  funext s
  unfold resetFrame
  simp only [EStateM.bind_apply, EStateM.get_apply, EStateM.ofExcept_apply]
  obtain ⟨e, h, h'⟩ | ⟨p, p', h, h', hp⟩ := pouOf_folds hl s i
  · simp only [h, h']
  · simp only [h, h', hp.vars]

end

end Storage

-- ---------------------------------------------------------------------------
-- References and operators
-- ---------------------------------------------------------------------------

namespace Expr

open Run

/-- Indexes that are constant are evaluated at once. -/
theorem evaluateAll_constant {frame : List Evaluated → List Expr → Frame}
    {next : List Evaluated → Run (Progress Evaluated)}
    {es : List Expr} {values : List (Span × Value)} (h : AreConstant eps es values) (l : Library)
    (before : List Evaluated) (x : Execution) :
    evaluateAll ⟨l, eps⟩ frame next before es x = next (before ++ values.map fun p => { value := p.2 }) x := by
  induction h generalizing before with
  | nil =>
    rw [evaluateAll]
    simp
  | cons hfirst _ ih =>
    rw [evaluateAll]
    simp only [andThen, EStateM.bind_apply, hfirst.2 l x, ih]
    simp

theorem AreConstant.zip {es : List Expr} {values : List (Span × Value)} (h : AreConstant eps es values) :
    (es.map span).zip (values.map (·.2)) = values := by
  induction h with
  | nil => rfl
  | cons hfirst _ ih => rw [List.map_cons, List.map_cons, List.zip_cons_cons, ih, hfirst.1]

section

variable (hl : l.Folds eps l')

include hl

theorem lookup_folds (info : NodeInfo) (path : VarPath) (indexes : List (Span × Value)) :
    lookup ⟨l, eps⟩ info path indexes = lookup ⟨l', eps⟩ info path indexes := by
  unfold lookup
  simp only [Storage.locate_folds hl, Storage.load_folds hl]

/-- Selectors that are evaluated beforehand lead to the same place. -/
theorem lookup_fixed {info : NodeInfo} {path : VarPath} {values : List (Span × Value)} {hops : List Hop}
    (hfixed : path.fixed = some hops) (hhops : Body.hops info.span path.selectors values = .ok hops) :
    lookup ⟨l, eps⟩ info path [] = lookup ⟨l', eps⟩ info { path with fixed := none } values := by
  rw [lookup_folds hl]
  unfold lookup
  cases path.root with
  | none => rfl
  | some root =>
    simp only [hfixed, hhops]
    rfl

theorem lookupAt_folds (info : NodeInfo) (path : VarPath) {indexes indexes' : List Expr}
    (h : AllFold eps indexes indexes') (values : List Evaluated) :
    lookupAt ⟨l, eps⟩ info path indexes values = lookupAt ⟨l', eps⟩ info path indexes' values := by
  rw [lookupAt, lookupAt, lookup_folds hl, h.spans]

end

theorem applyBinary_folds {op : BinaryOp} {left left' right right' : Expr} (hleft : left.Folds eps left')
    (hright : right.Folds eps right') (a : Value) (b : Evaluated) :
    applyBinary ⟨l, eps⟩ op left right a b = applyBinary ⟨l', eps⟩ op left' right' a b := by
  rw [applyBinary, applyBinary, hleft.span, hright.span]

-- ---------------------------------------------------------------------------
-- Calls
-- ---------------------------------------------------------------------------

section

variable (hl : l.Folds eps l') {site site' : CallSite} (hsite : site.Folds eps site')

include hl

/-- What is done with the unit of an instance ends alike if it does so for a unit and the same unit with a folded body. -/
theorem related_pouOf {span : Span} {i : InstanceId} {α : Type} {f f' : Pou → Run α}
    {R : EStateM.Result Diagnostic Execution α → EStateM.Result Diagnostic Execution α → Prop}
    (hfail : ∀ d x, R (.error d x) (.error d x)) (h : ∀ p p', p.Folds eps p' → ∀ x, R (f p x) (f' p' x))
    (x : Execution) :
    R ((asking span (·.pouOf l i) >>= f) x) ((asking span (·.pouOf l' i) >>= f') x) := by
  simp only [asking, EStateM.bind_apply, EStateM.get_apply, EStateM.ofExcept_apply]
  obtain ⟨e, he, he'⟩ | ⟨p, p', hp, hp', hfolds⟩ := Storage.pouOf_folds hl x.storage i
  · rw [he, he']
    exact hfail _ x
  · rw [hp, hp']
    exact h p p' hfolds x

include hsite

theorem copyInputs_folds (args : List Evaluated) (i : InstanceId) :
    copyInputs ⟨l, eps⟩ site args i = copyInputs ⟨l', eps⟩ site' args i := by
  funext x
  unfold copyInputs
  rw [hsite.info, hsite.name, hsite.bindings, Storage.store_folds hl]
  refine related_pouOf hl (fun _ _ => rfl) (fun p p' hp x => congrFun ?_ x) x
  refine congrArg (forIn site'.bindings PUnit.unit · >>= fun _ => pure ()) (funext fun b => funext fun _ => ?_)
  have harg := rel_getElem?_of_forall₂ (allFold_iff.mp hsite.args) b.arg
  generalize site.args[b.arg]? = arg at harg ⊢
  generalize site'.args[b.arg]? = arg' at harg ⊢
  rw [hp.vars]
  cases harg with
  | none => rfl
  | some hfolds =>
    cases p'.vars[b.param]? with
    | none => rfl
    | some param =>
      cases args[b.arg]? with
      | none => rfl
      | some found => simp only [hfolds.span]

theorem copyOutputs_folds (args : List Evaluated) (i : InstanceId) :
    copyOutputs ⟨l, eps⟩ site args i = copyOutputs ⟨l', eps⟩ site' args i := by
  unfold copyOutputs
  rw [hsite.info, hsite.name, hsite.bindings, Storage.store_folds hl]
  refine congrArg (forIn site'.bindings PUnit.unit · >>= fun _ => pure ()) (funext fun b => funext fun _ => ?_)
  have harg := rel_getElem?_of_forall₂ (allFold_iff.mp hsite.args) b.arg
  generalize site.args[b.arg]? = arg at harg ⊢
  generalize site'.args[b.arg]? = arg' at harg ⊢
  cases harg with
  | none => rfl
  | @some _ e hfolds =>
    cases hfolds with
    | constant hspan hvar =>
      cases e with
      | var => cases hvar
      | literal | unary | binary | call =>
        simp only [Expr.span, Expr.info] at hspan ⊢
        rw [hspan]
    | fixed | var | unary | binary | call => rfl

/-- An instance is called on the folded body of its unit. -/
theorem called_folds (args : List Evaluated) (i : InstanceId) :
    Lockstep eps
      (do
        let pou ← asking site.info.span (·.pouOf l i)
        copyInputs ⟨l, eps⟩ site args i
        onCursor (·.call i)
        pure (.paused [.start pou.body, .callee site args i]))
      (do
        let pou ← asking site.info.span (·.pouOf l' i)
        copyInputs ⟨l', eps⟩ site' args i
        onCursor (·.call i)
        pure (.paused [.start pou.body, .callee site' args i])) := by
  rw [copyInputs_folds hl hsite]
  refine related_pouOf hl (fun _ _ => .failed) fun p p' hp => ?_
  change Lockstep eps _ _
  exact .bind fun _ => .bind fun _ => .paused (.cons (.start hp.body) (.cons (.callee hsite) .nil))

theorem enter_folds (args : List Evaluated) (i : InstanceId) (isFunction : Bool) :
    Lockstep eps (enter ⟨l, eps⟩ site args i isFunction) (enter ⟨l', eps⟩ site' args i isFunction) := by
  have called := called_folds hl hsite args i
  rw [hsite.info] at called
  unfold enter
  rw [hsite.info, hsite.name, Storage.resetFrame_folds hl]
  refine .bind fun x => ?_
  cases isFunction with
  | true => exact .ite (.bind fun _ => .bind fun _ => called) (.bind fun _ => called)
  | false => exact .ite (.bind fun _ => called) called

theorem invoke_folds (args : List Evaluated) :
    Lockstep eps (invoke ⟨l, eps⟩ site args) (invoke ⟨l', eps⟩ site' args) := by
  unfold invoke
  rw [hsite.info, hsite.name, hsite.callee]
  split
  · exact .refl _
  · exact .refl _
  · exact .bind fun i => enter_folds hl hsite args i true
  · simp only [Storage.locate_folds hl]
    refine .bind fun _ => .bind fun _ => .bind fun v => ?_
    split
    · exact enter_folds hl hsite args _ false
    · exact .refl _

theorem collectResults_folds (args : List Evaluated) (i : InstanceId) :
    Lockstep eps (collectResults ⟨l, eps⟩ site args i) (collectResults ⟨l', eps⟩ site' args i) := by
  unfold collectResults
  rw [hsite.info, copyOutputs_folds hl hsite]
  refine related_pouOf hl (fun _ _ => .failed) fun p p' hp => ?_
  rw [Pou.result?, Pou.result?, hp.vars]
  exact Lockstep.refl _

end

-- ---------------------------------------------------------------------------
-- Evaluation
-- ---------------------------------------------------------------------------

section

variable (hl : l.Folds eps l')

include hl

/-- A reference that is followed beforehand, next to one whose indexes are evaluated. -/
theorem lockstep_fixed {info : NodeInfo} {path : VarPath} {indexes indexes' : List Expr}
    {values : List (Span × Value)} {hops : List Hop} (hfixed : path.fixed = some hops)
    (hindexes : AreConstant eps indexes' values) (hhops : Body.hops info.span path.selectors values = .ok hops) :
    Lockstep eps ((Expr.var info path indexes).evaluate ⟨l, eps⟩)
      ((Expr.var info { path with fixed := none } indexes').evaluate ⟨l', eps⟩) := by
  rw [evaluate, evaluate]
  simp only [hfixed]
  intro x
  rw [evaluateAll_constant hindexes, List.nil_append, lookupAt, List.map_map]
  have hzip : (indexes'.map span).zip (values.map (·.2)) = values := hindexes.zip
  rw [show ((·.value) ∘ fun p : Span × Value => ({ value := p.2 } : Evaluated)) = (·.2) from rfl, hzip,
    lookup_fixed hl hfixed hhops]
  exact .refl _

set_option linter.unusedSectionVars false in
mutual

/-- A folded expression is evaluated in lockstep with the expression. -/
theorem Folds.lockstep {e e' : Expr} :
    e.Folds eps e' → Lockstep eps (e.evaluate ⟨l, eps⟩) (e'.evaluate ⟨l', eps⟩)
  | .constant _ _ hv => fun x => by
    rw [hv l' x, evaluate]
    exact .done
  | .fixed hfixed hindexes hhops => lockstep_fixed hl hfixed hindexes hhops
  | @Folds.var _ _ path _ _ h => by
    rw [evaluate, evaluate]
    cases path.fixed with
    | some hops =>
      dsimp only
      rw [lookup_folds hl]
      exact .refl _
    | none =>
      dsimp only
      refine h.lockstep ?_ (fun values => ?_) []
      · exact fun _ _ _ hrest => .index h hrest
      · rw [lookupAt_folds hl _ _ h]
        exact .refl _
  | .unary h => by
    rw [evaluate, evaluate]
    exact .andThen h.lockstep .operand fun _ => .refl _
  | .binary hleft hright => by
    rw [evaluate, evaluate]
    refine .andThen hleft.lockstep (.left hleft hright) fun a => ?_
    refine .andThen hright.lockstep (.right hleft hright) fun b => ?_
    rw [applyBinary_folds hleft hright]
    exact .refl _
  | @Folds.call _ info name _ _ args args' callee bindings h => by
    rw [evaluate, evaluate]
    have hsite : CallSite.Folds eps ⟨info, name, args, callee, bindings⟩ ⟨info, name, args', callee, bindings⟩ :=
      ⟨rfl, rfl, h, rfl, rfl⟩
    refine h.lockstep ?_ (invoke_folds hl hsite) []
    exact fun _ _ _ hrest => .arg hsite hrest

/-- Folded expressions are evaluated in lockstep, and so is what goes on with their results. -/
theorem AllFold.lockstep {frame frame' : List Evaluated → List Expr → Frame}
    {next next' : List Evaluated → Run (Progress Evaluated)}
    (hframe : ∀ before rest rest', AllFold eps rest rest' → (frame before rest).Folds eps (frame' before rest'))
    (hnext : ∀ results, Lockstep eps (next results) (next' results)) (before : List Evaluated) {es es' : List Expr} :
    AllFold eps es es' →
      Lockstep eps (evaluateAll ⟨l, eps⟩ frame next before es) (evaluateAll ⟨l', eps⟩ frame' next' before es')
  | .nil => by
    rw [evaluateAll, evaluateAll]
    exact hnext before
  | .cons hfirst hrest => by
    rw [evaluateAll, evaluateAll]
    exact .andThen hfirst.lockstep (hframe before _ _ hrest) fun a => hrest.lockstep hframe hnext (before ++ [a])

end

end

end Expr

end StructuredText
