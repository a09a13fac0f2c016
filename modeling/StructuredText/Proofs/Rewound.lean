-- SUMMARY: However a step ends, the arena can be rewound to the start of the body.
import StructuredText.Proofs.Tracking

/-!
# Rewinding

A step changes the execution states of nodes, the results that they show and the places that references keep, and nothing
else. This holds of a step that fails as well, wherever it has stopped. An arena that has held a body once holds it again
after all of its nodes are rewound.
-/

namespace StructuredText

-- ---------------------------------------------------------------------------
-- Nodes without their execution states
-- ---------------------------------------------------------------------------

namespace Node

/-- What steps of the node leave as it is. -/
def Kind.shape (k : Kind) : Kind := k.reset.forget

def shape (n : Node) : Node := forget { n with kind := n.kind.reset }

namespace Kind

@[simp] theorem isLiteral_reset (k : Kind) : k.reset.isLiteral = k.isLiteral := by cases k <;> rfl

@[simp] theorem isLiteral_shape (k : Kind) : k.shape.isLiteral = k.isLiteral := by
  rw [shape, isLiteral_forget, isLiteral_reset]

@[simp] theorem shape_forget (k : Kind) : k.forget.shape = k.shape := by cases k <;> rfl

end Kind

theorem shape_eq (n : Node) :
    n.shape = ⟨n.kind.shape, n.span, n.type?, n.storage, if n.kind.isLiteral then n.result else .void⟩ := by
  rw [shape, forget, Kind.isLiteral_reset]
  rfl

@[simp] theorem shape_forget (n : Node) : n.forget.shape = n.shape := by
  rw [shape_eq, shape_eq, forget, Kind.shape_forget, Kind.isLiteral_forget]
  congr 1
  split <;> rfl

@[simp] theorem forget_shape (n : Node) : n.shape.forget = n.shape := by
  rw [shape_eq, forget, Kind.shape, Kind.forget_forget, Kind.isLiteral_forget, Kind.isLiteral_reset]
  congr 1
  split <;> rfl

theorem shape_setResult (n : Node) (h : n.kind.isLiteral = false) (v : Value) :
    ({ n with result := v } : Node).shape = n.shape := by
  rw [shape_eq, shape_eq, h]
  rfl

end Node

open Node (Kind Step StepContext Stepping Stepper)

namespace Arena

/-- What steps leave as it is. -/
def shape (b : Arena) : Arena where
  nodes := b.nodes.map Node.shape
  root := b.root

variable {b b' : Arena} {id : NodeId}

theorem getElem?_shape (b : Arena) (i : NodeId) : b.shape.nodes[i]? = (b.nodes[i]?).map Node.shape :=
  Array.getElem?_map

theorem shape_getElem? (h : b'.shape = b.shape) (i : NodeId) :
    (b'.nodes[i]?).map Node.shape = (b.nodes[i]?).map Node.shape := by
  rw [← getElem?_shape, h, getElem?_shape]

theorem root_of_shape (h : b'.shape = b.shape) : b'.root = b.root := congrArg (·.root) h

theorem size_of_shape (h : b'.shape = b.shape) : b'.nodes.size = b.nodes.size := by
  simpa [shape] using congrArg (·.nodes.size) h

theorem shape_ext (hroot : b'.root = b.root)
    (h : ∀ i : NodeId, (b'.nodes[i]?).map Node.shape = (b.nodes[i]?).map Node.shape) : b'.shape = b.shape := by
  have hnodes : b'.nodes.map Node.shape = b.nodes.map Node.shape := Array.ext_getElem? fun i => by
    rw [Array.getElem?_map, Array.getElem?_map, h i]
  rw [shape, shape, hnodes, hroot]

/-- The node is not a constant, and so its result may change. -/
def Changes (b : Arena) (id : NodeId) : Prop := ∀ n, b.nodes[id]? = some n → n.kind.isLiteral = false

theorem Changes.of_shape (h : b'.shape = b.shape) (hid : b.Changes id) : b'.Changes id := by
  intro n hn
  have hshape := shape_getElem? h id
  rw [hn, Option.map_some, eq_comm, Option.map_eq_some_iff] at hshape
  obtain ⟨n', hn', hshape⟩ := hshape
  have hkind := congrArg (·.kind.isLiteral) hshape
  simp only [Node.shape_eq, Kind.isLiteral_shape] at hkind
  rw [← hkind, hid n' hn']

theorem changes_setKind {k : Kind} (h : k.isLiteral = false) : (b.setKind id k).Changes id := by
  intro n hn
  rw [getElem?_setKind, if_pos rfl, Option.map_eq_some_iff] at hn
  obtain ⟨n', -, rfl⟩ := hn
  exact h

theorem shape_setResult (hid : b.Changes id) (v : Value) : (b.setResult id v).shape = b.shape := by
  refine shape_ext rfl fun i => ?_
  rw [getElem?_setResult]
  split
  · next h =>
    subst h
    cases hn : b.nodes[id]? with
    | none => rfl
    | some n => exact congrArg some (n.shape_setResult (hid n hn) v)
  · rfl

/-- A node whose kind is put back, and in which only the execution state differs, is what it was. -/
theorem shape_setKind {n : Node} {k : Kind} (hn : b.nodes[id]? = some n) (h : b'.shape = (b.setKind id .vacant).shape)
    (hkind : n.kind.isLiteral = false) (hk : k.shape = n.kind.shape) : (b'.setKind id k).shape = b.shape := by
  have hroot := root_of_shape h
  refine shape_ext hroot fun i => ?_
  have hi := shape_getElem? h i
  rw [getElem?_setKind] at hi ⊢
  by_cases hid : id = i
  · subst hid
    rw [if_pos rfl, hn] at hi
    obtain ⟨n', hn', hshape⟩ := Option.map_eq_some_iff.mp hi
    rw [if_pos rfl, hn', hn]
    simp only [Node.shape_eq, Node.mk.injEq] at hshape
    obtain ⟨-, hspan, htype, hstorage, -⟩ := hshape
    have hliteral : k.isLiteral = false := by rw [← Kind.isLiteral_shape, hk, Kind.isLiteral_shape, hkind]
    simp [Node.shape_eq, hk, hspan, htype, hstorage, hkind, hliteral]
  · rwa [if_neg hid] at hi ⊢

end Arena

-- ---------------------------------------------------------------------------
-- Steps
-- ---------------------------------------------------------------------------

namespace Node

/-- However the operation of a node ends, it has changed the execution state of the node at most, and of others. -/
def Keeping {κ α : Type} (id : NodeId) (wrap : κ → Kind) (m : Stepper κ α) : Prop :=
  ∀ s, s.arena.Changes id →
    (m s).state.arena.shape = s.arena.shape ∧ (wrap (m s).state.own).shape = (wrap s.own).shape

/-- However the step ends, it has changed execution states at most. -/
def KeepsShape (m : Stepper Unit Step) : Prop := ∀ s, (m s).state.arena.shape = s.arena.shape

section

variable {κ α β : Type} {id : NodeId} {wrap : κ → Kind} {m : Stepper κ α}

namespace Keeping

theorem quiet (h : ∀ s, (m s).state.arena = s.arena ∧ (m s).state.own = s.own) : Keeping id wrap m := by
  intro s _
  rw [(h s).1, (h s).2]
  exact ⟨rfl, rfl⟩

theorem pure (a : α) : Keeping id wrap (Pure.pure a) := fun _ _ => ⟨rfl, rfl⟩

theorem throw (d : Diagnostic) : Keeping id wrap (MonadExcept.throw d : Stepper κ α) := fun _ _ => ⟨rfl, rfl⟩

theorem bind {f : α → Stepper κ β} (hm : Keeping id wrap m) (hf : ∀ a, Keeping id wrap (f a)) :
    Keeping id wrap (m >>= f) := by
  intro s hid
  have hfirst := hm s hid
  rw [EStateM.bind_apply]
  rcases hs : m s with ⟨a, s'⟩ | ⟨d, s'⟩ <;> rw [hs] at hfirst
  · have hnext := hf a s' (hid.of_shape hfirst.1)
    exact ⟨hnext.1.trans hfirst.1, hnext.2.trans hfirst.2⟩
  · exact hfirst

theorem reads {f : Stepping κ → Stepper κ α} (hf : ∀ s, Keeping id wrap (f s)) : Keeping id wrap (get >>= f) :=
  fun s => hf s s

theorem ite {p : Prop} [Decidable p] {m' : Stepper κ α} (hm : Keeping id wrap m) (hm' : Keeping id wrap m') :
    Keeping id wrap (if p then m else m') := by
  split
  · exact hm
  · exact hm'

theorem own : Keeping id wrap (own : Stepper κ κ) := fun _ _ => ⟨rfl, rfl⟩

theorem modifyOwn {f : κ → κ} (hf : ∀ n, (wrap (f n)).shape = (wrap n).shape) : Keeping id wrap (modifyOwn f) :=
  fun s _ => ⟨rfl, hf s.own⟩

theorem checked (e : Except Diagnostic α) : Keeping id wrap (ofExcept e : Stepper κ α) := by
  cases e with
  | ok a => exact pure a
  | error d => exact throw d

theorem asking (q : Arena → Except Diagnostic α) : Keeping id wrap (asking q : Stepper κ α) := .reads fun _ => .checked _

theorem spanOf (i : NodeId) : Keeping id wrap (spanOf i : Stepper κ Span) := fun _ _ => ⟨rfl, rfl⟩

theorem running (x : Run α) : Keeping id wrap (running x : Stepper κ α) := .quiet fun s => by
  rw [Node.running]
  cases x s.execution <;> exact ⟨rfl, rfl⟩

theorem setResult (v : Value) : Keeping id wrap (setResult id v : Stepper κ Unit) :=
  .bind (.asking _) fun _ _ hid => ⟨Arena.shape_setResult hid v, rfl⟩

theorem stepping {m : Stepper Unit Step} (hm : KeepsShape m) : Keeping id wrap (stepping m : Stepper κ Step) := by
  intro s _
  have hs := hm ⟨(), s.arena, s.execution⟩
  rw [Node.stepping]
  cases h : m ⟨(), s.arena, s.execution⟩ <;> rw [h] at hs <;> exact ⟨hs, rfl⟩

theorem afterStep {m next : Stepper κ Step} (hm : Keeping id wrap m) (hnext : Keeping id wrap next) :
    Keeping id wrap (afterStep m next) := .bind hm fun r => by
  cases r with
  | inProgress => exact pure _
  | finished => exact hnext

theorem stepAll {child : NodeId → Stepper Unit Step} (hchild : ∀ i, KeepsShape (child i)) {advance : κ → κ}
    (hadvance : ∀ n, (wrap (advance n)).shape = (wrap n).shape) (ids : List NodeId) :
    Keeping id wrap (stepAll child advance ids) := by
  induction ids with
  | nil => exact pure _
  | cons i rest ih => exact .afterStep (.stepping (hchild i)) (.bind (.modifyOwn hadvance) fun _ => ih)

theorem truth (condition : NodeId) : Keeping id wrap (truth condition : Stepper κ Bool) :=
  .bind (.asking _) fun _ => .bind (.spanOf _) fun _ => .checked _

theorem forM {ι : Type} {f : ι → Stepper κ Unit} (hf : ∀ i, Keeping id wrap (f i)) (is : List ι) :
    Keeping id wrap (is.forM f) := by
  induction is with
  | nil => exact pure ()
  | cons i rest ih => exact .bind (hf i) fun _ => ih

theorem mapM {ι : Type} {f : ι → Stepper κ β} (hf : ∀ i, Keeping id wrap (f i)) (is : List ι) :
    Keeping id wrap (is.mapM f) := by
  induction is with
  | nil => exact pure _
  | cons i rest ih =>
    rw [List.mapM_cons]
    exact .bind (hf i) fun _ => .bind ih fun _ => pure _

end Keeping

/-- The kind of a node that is moved out comes back with what steps leave as it is. -/
theorem kept_moving {n : κ} {m : Stepper κ Step} (hm : Keeping id wrap m) (hwrap : ∀ n, (wrap n).isLiteral = false)
    {s : Stepping Unit} {node : Node} (hnode : s.arena.nodes[id]? = some node) (hkind : node.kind = wrap n) :
    (Arena.moving id wrap n m s).state.arena.shape = s.arena.shape := by
  have hs := hm ⟨n, s.arena.setKind id .vacant, s.execution⟩ (Arena.changes_setKind rfl)
  rw [Arena.moving]
  have hliteral : node.kind.isLiteral = false := by rw [hkind, hwrap]
  rcases h : m ⟨n, s.arena.setKind id .vacant, s.execution⟩ with ⟨r, s'⟩ | ⟨d, s'⟩ <;> rw [h] at hs <;>
    exact Arena.shape_setKind hnode hs.1 hliteral (hs.2.trans (congrArg Kind.shape hkind.symm))

end

-- ---------------------------------------------------------------------------
-- The kinds of nodes
-- ---------------------------------------------------------------------------

section

variable {ctx : StepContext} {child : NodeId → Stepper Unit Step} {id : NodeId} (hchild : ∀ i, KeepsShape (child i))

theorem Variable.read_keeping : Keeping id .reference (Variable.read ctx id) := by
  have hend (span : Span) (root : Root) (hops : List Hop) : Keeping id .reference (do
      let place ← running (Run.asking span (·.locate ctx.env.library ctx.instance? root hops))
      let value ← running (Run.storing span (Storage.load ctx.env.library place))
      setResult id value
      modifyOwn ({ · with place? := some place })
      pure Step.finished) :=
    .bind (.running _) fun _ => .bind (.running _) fun _ => .bind (.setResult _) fun _ =>
      .bind (.modifyOwn fun _ => rfl) fun _ => .pure _
  refine .bind (.modifyOwn fun _ => rfl) fun _ => .bind .own fun n => .bind (.spanOf _) fun span => ?_
  split
  · exact .throw _
  · dsimp only
    split
    · exact .bind (.pure _) fun _ => hend _ _ _
    · exact .bind (.mapM (fun _ => .bind (.spanOf _) fun _ => .bind (.asking _) fun _ => .pure _) _) fun _ =>
        .bind (.checked _) fun _ => hend _ _ _

theorem copyInput_keeping {ctx : StepContext} (n : Call) (span : Span) (pou : Pou) (i : InstanceId) (b : Binding) :
    Keeping id .call (Call.copyInput ctx n span pou i b) := by
  refine .ite ?_ (.pure ())
  split
  · exact .throw _
  · exact .bind (.asking _) fun _ => .bind (.spanOf _) fun _ => .running _

theorem copyOutput_keeping (span : Span) (i : InstanceId) (b : Binding) :
    Keeping id .call (Call.copyOutput ctx span i b) := by
  refine .ite (.bind (.running _) fun _ => .bind (.asking _) fun _ => .reads fun s => ?_) (.pure ())
  split
  · exact .throw _
  · split
    · exact .throw _
    · exact .running _

theorem invoke_keeping (n : Call) (span : Span) (i : InstanceId) (isFunction : Bool) :
    Keeping id .call (Call.invoke ctx n span i isFunction) := by
  have hcall : Keeping id .call (do
      let pou ← running (Run.asking span (·.pouOf ctx.env.library i))
      n.bindings.forM (Call.copyInput ctx n span pou i)
      running (Run.onCursor (·.call i))
      modifyOwn ({ · with state := .await i })
      pure Step.inProgress) :=
    .bind (.running _) fun pou => .bind (.forM (copyInput_keeping n span pou i) _) fun _ => .bind (.running _) fun _ =>
      .bind (.modifyOwn fun _ => rfl) fun _ => .pure _
  refine .reads fun s => .ite (.bind (.throw _) fun _ => ?_) ?_
  · exact .ite (.bind (.running _) fun _ => hcall) hcall
  · exact .ite (.bind (.running _) fun _ => hcall) hcall

theorem complete_keeping (n : Call) (span : Span) (i : InstanceId) :
    Keeping id .call (Call.complete ctx id n span i) := by
  have hend (v : Value) : Keeping id .call (do
      setResult id v
      Call.rewind
      pure Step.finished) :=
    .bind (.setResult _) fun _ => .bind (.modifyOwn fun _ => rfl) fun _ => .pure _
  refine .bind (.running _) fun pou => .bind (.forM (copyOutput_keeping span i) _) fun _ => ?_
  dsimp only
  split
  · exact .bind (.running _) fun _ => hend _
  · exact .bind (.pure _) fun _ => hend _

theorem instanceOf_keeping (n : Call) (span : Span) (root : Root) :
    Keeping id .call (Call.instanceOf ctx n span root) := by
  refine .bind (.running _) fun place => .bind (.running _) fun v => ?_
  split
  · exact .pure _
  · exact .throw _

theorem proceed_keeping (span : Span) : Keeping id .call (Call.proceed ctx id span) := by
  refine .bind .own fun n => ?_
  split
  · split
    · exact .throw _
    · exact .bind (.mapM (fun _ => .asking _) _) fun _ => .bind (.checked _) fun _ => .bind (.setResult _) fun _ =>
        .bind (.modifyOwn fun _ => rfl) fun _ => .pure _
    · exact .bind (.running _) fun _ => invoke_keeping _ _ _ _
    · exact .bind (instanceOf_keeping _ _ _) fun _ => invoke_keeping _ _ _ _
  · exact complete_keeping _ _ _
  · exact .throw _

theorem setControl_keeping (n : For) (start : Int) : Keeping id .forLoop (For.setControl ctx n start) := by
  refine .bind (.asking _) fun _ => .reads fun s => ?_
  split
  · exact .throw _
  · split
    · exact .throw _
    · exact .running _

theorem prepare_keeping (n : For) : Keeping id .forLoop (For.prepare ctx id n) := by
  have integer (bound : NodeId) : Keeping id .forLoop (For.integer bound) :=
    .bind (.asking _) fun _ => .bind (.spanOf _) fun _ => .checked _
  have hcount (start stop step : Int) : Keeping id .forLoop (do
      For.setControl ctx n start
      pure (Stmt.iterations start stop step)) :=
    .bind (setControl_keeping n start) fun _ => .pure _
  have hstep (start stop step : Int) : Keeping id .forLoop (do
      if step = 0 then
        let span ← spanOf (n.stride.getD id)
        throw ((ValueError.invalidArgument "FOR step must not be 0").at span)
      For.setControl ctx n start
      pure (Stmt.iterations start stop step)) :=
    .ite (.bind (.spanOf _) fun _ => .bind (.throw _) fun _ => hcount _ _ _) (hcount _ _ _)
  refine .bind (integer _) fun start => .bind (integer _) fun stop => ?_
  dsimp only
  split
  · exact .bind (integer _) fun _ => hstep _ _ _
  · exact .bind (.pure _) fun _ => hstep _ _ _

section

variable {κ : Type} {wrap : κ → Kind}

theorem enterLoop_keeping : Keeping id wrap (enterLoop ctx id : Stepper κ Unit) := by
  rw [enterLoop]
  split
  · exact .running _
  · exact .bind (.spanOf _) fun _ => .throw _

theorem leaveLoop_keeping : Keeping id wrap (leaveLoop ctx id : Stepper κ Unit) := by
  rw [leaveLoop]
  split
  · exact .running _
  · exact .pure ()

theorem afterIteration_keeping {rewind : Stepper κ Unit} {next : Stepper κ Step} (hrewind : Keeping id wrap rewind)
    (hnext : Keeping id wrap next) : Keeping id wrap (afterIteration ctx id rewind next) := by
  refine .reads fun s => ?_
  have hend : Keeping id wrap (do leaveLoop ctx id; rewind; pure Step.finished) :=
    .bind leaveLoop_keeping fun _ => .bind hrewind fun _ => .pure _
  split
  · exact hnext
  · exact .bind (.running _) fun _ => hend
  · exact hend

end

include hchild

theorem Variable.step_keeping : Keeping id .reference (Variable.step ctx child id) := by
  refine .bind .own fun n => ?_
  split
  · exact Variable.read_keeping
  · exact .afterStep (.stepAll hchild (by intro; rfl) _) Variable.read_keeping

theorem Unary.step_keeping : Keeping id .unary (Unary.step child id) :=
  .bind .own fun _ => .afterStep (.stepping (hchild _)) <| .bind (.asking _) fun _ => .bind (.spanOf _) fun _ =>
    .bind (.checked _) fun _ => .bind (.setResult _) fun _ => .pure _

theorem Binary.step_keeping : Keeping id .binary (Binary.step ctx child id) := by
  have hright : Keeping id .binary (Binary.stepRight ctx child id) :=
    .bind .own fun _ => .afterStep (.stepping (hchild _)) <| .bind (.modifyOwn fun _ => rfl) fun _ =>
      .bind (.asking _) fun _ => .bind (.asking _) fun _ => .bind (.checked _) fun _ => .bind (.setResult _) fun _ =>
        .pure _
  refine .bind .own fun n => ?_
  split
  · exact .afterStep (.stepping (hchild _)) (.bind (.modifyOwn fun _ => rfl) fun _ => hright)
  · exact hright

theorem Call.step_keeping : Keeping id .call (Call.step ctx child id) := by
  refine .bind (.spanOf _) fun span => .bind .own fun n => ?_
  split
  · exact .afterStep (.stepAll hchild (by intro; rfl) _) (.bind (.modifyOwn fun _ => rfl) fun _ => proceed_keeping _)
  · exact proceed_keeping _

theorem Block.step_keeping : Keeping id .block (Block.step child) := by
  have hannounce : Keeping id .block Block.announce := by
    refine .bind .own fun n => ?_
    split
    · exact .bind (.modifyOwn fun _ => rfl) fun _ => .pure _
    · exact .bind (.modifyOwn fun _ => rfl) fun _ => .bind (.spanOf _) fun _ => .bind (.running _) fun _ => .pure _
  refine .bind .own fun n => ?_
  split
  · refine .afterStep (.stepping (hchild _)) (.bind (.modifyOwn fun _ => rfl) fun _ => .reads fun s => ?_)
    split
    · exact .bind (.modifyOwn fun _ => rfl) fun _ => .pure _
    · exact hannounce
  · exact hannounce

theorem Assign.step_keeping : Keeping id .assign (Assign.step ctx child id) := by
  have hvalue : Keeping id .assign (Assign.stepValue ctx child id) := by
    refine .bind .own fun n => .afterStep (.stepping (hchild _)) <| .bind (.modifyOwn fun _ => rfl) fun _ =>
      .bind (.spanOf _) fun _ => .bind (.asking _) fun _ => .reads fun s => ?_
    split
    · exact .throw _
    · split
      · exact .throw _
      · exact .bind (.asking _) fun _ => .bind (.running _) fun _ => .pure _
  refine .bind .own fun n => ?_
  split
  · exact .afterStep (.stepping (hchild _)) (.bind (.modifyOwn fun _ => rfl) fun _ => hvalue)
  · exact hvalue

theorem If.step_keeping : Keeping id .ifThen (If.step child) := by
  have hbody (statements : NodeId) : Keeping id .ifThen (If.stepBody child statements) :=
    .afterStep (.stepping (hchild _)) (.bind (.modifyOwn fun _ => rfl) fun _ => .pure _)
  have htest (branch : Nat) (branches : List (NodeId × NodeId)) :
      Keeping id .ifThen (If.test child branch branches) := by
    induction branches generalizing branch with
    | nil =>
      refine .bind .own fun n => ?_
      split
      · exact .bind (.modifyOwn fun _ => rfl) fun _ => hbody _
      · exact .bind (.modifyOwn fun _ => rfl) fun _ => .pure _
    | cons first rest ih =>
      exact .afterStep (.stepping (hchild _)) <| .bind (.truth _) fun _ =>
        .ite (.bind (.modifyOwn fun _ => rfl) fun _ => hbody _) (.bind (.modifyOwn fun _ => rfl) fun _ => ih _)
  refine .bind .own fun n => ?_
  split
  · exact htest _ _
  · exact hbody _

theorem Case.step_keeping : Keeping id .case (Case.step child) := by
  have hbody (statements : NodeId) : Keeping id .case (Case.stepBody child statements) :=
    .afterStep (.stepping (hchild _)) (.bind (.modifyOwn fun _ => rfl) fun _ => .pure _)
  have hmatch (selector : NodeId) (label : Label) : Keeping id .case (Case.isMatch selector label) := by
    refine .bind (.asking _) fun v => .bind (.spanOf _) fun span => ?_
    split
    · exact .bind (.asking _) fun _ => .checked _
    · exact .bind (.asking _) fun _ => .bind (.asking _) fun _ => .checked _
  have hany (selector : NodeId) (labels : List Label) : Keeping id .case (Case.anyMatch selector labels) := by
    induction labels with
    | nil => exact .pure _
    | cons label rest ih => exact .bind (hmatch _ _) fun _ => .ite (.pure _) ih
  have hchosen (selector : NodeId) (otherwise : Option NodeId) (arms : List (List Label × NodeId)) :
      Keeping id .case (Case.chosen selector otherwise arms) := by
    induction arms with
    | nil => exact .pure _
    | cons arm rest ih => exact .bind (hany _ _) fun _ => .ite (.pure _) ih
  refine .bind .own fun n => ?_
  split
  · refine .afterStep (.stepping (hchild _)) (.bind (hchosen _ _ _) fun chosen => ?_)
    split
    · exact .pure _
    · exact .bind (.modifyOwn fun _ => rfl) fun _ => hbody _
  · exact hbody _

theorem For.step_keeping : Keeping id .forLoop (For.step ctx child id) := by
  have hrewind : Keeping id .forLoop For.rewind := .modifyOwn fun _ => rfl
  have hbody : Keeping id .forLoop (For.stepBody ctx child id) :=
    .bind .own fun _ => .afterStep (.stepping (hchild _)) <| afterIteration_keeping hrewind <|
      .bind (.modifyOwn fun _ => rfl) fun _ => .bind .own fun _ =>
        .ite (.bind leaveLoop_keeping fun _ => .bind hrewind fun _ => .pure _) (.pure _)
  refine .bind .own fun n => ?_
  split
  · exact .afterStep (.stepAll hchild (by intro; rfl) _) <| .bind (.modifyOwn fun _ => rfl) fun _ =>
      .bind (prepare_keeping n) fun _ => .bind (.modifyOwn fun _ => rfl) fun _ =>
        .ite (.bind hrewind fun _ => .pure _)
          (.bind enterLoop_keeping fun _ => .bind (.modifyOwn fun _ => rfl) fun _ => hbody)
  · exact hbody

theorem While.step_keeping : Keeping id .whileLoop (While.step ctx child id) := by
  have hrewind : Keeping id .whileLoop While.rewind := .modifyOwn fun _ => rfl
  have hbody : Keeping id .whileLoop (While.stepBody ctx child id) :=
    .bind .own fun _ => .afterStep (.stepping (hchild _)) <| afterIteration_keeping hrewind <|
      .bind (.modifyOwn fun _ => rfl) fun _ => .pure _
  have hgo : Keeping id .whileLoop (do modifyOwn ({ · with state := .body }); While.stepBody ctx child id) :=
    .bind (.modifyOwn fun _ => rfl) fun _ => hbody
  have hend : Keeping id .whileLoop (do While.rewind; pure Step.finished) := .bind hrewind fun _ => .pure _
  refine .bind .own fun n => ?_
  split
  · exact .afterStep (.stepping (hchild _)) <| .bind (.truth _) fun _ => .ite
      (.ite (.bind enterLoop_keeping fun _ => .bind (.modifyOwn fun _ => rfl) fun _ => hgo) hgo)
      (.ite (.bind leaveLoop_keeping fun _ => hend) hend)
  · exact hbody

theorem Repeat.step_keeping : Keeping id .repeatLoop (Repeat.step ctx child id) := by
  have hrewind : Keeping id .repeatLoop Repeat.rewind := .modifyOwn fun _ => rfl
  have hcondition : Keeping id .repeatLoop (Repeat.stepCondition ctx child id) :=
    .bind .own fun _ => .afterStep (.stepping (hchild _)) <| .bind (.truth _) fun _ =>
      .ite (.bind leaveLoop_keeping fun _ => .bind hrewind fun _ => .pure _)
        (.bind (.modifyOwn fun _ => rfl) fun _ => .pure _)
  have hgo (n : Repeat) : Keeping id .repeatLoop (afterStep (stepping (child n.body)) do
      afterIteration ctx id Repeat.rewind do
        modifyOwn ({ · with state := .condition })
        Repeat.stepCondition ctx child id) :=
    .afterStep (.stepping (hchild _)) <| afterIteration_keeping hrewind <|
      .bind (.modifyOwn fun _ => rfl) fun _ => hcondition
  refine .bind .own fun n => ?_
  split
  · exact .ite (.bind enterLoop_keeping fun _ => .bind (.modifyOwn fun _ => rfl) fun _ => hgo n) (hgo n)
  · exact hcondition

end

theorem stepExit_keeping {ctx : StepContext} {id : NodeId} {wrap : Unit → Kind} : Keeping id wrap (stepExit ctx id) := by
  refine .bind (.spanOf _) fun span => ?_
  split
  · exact .throw _
  · exact .reads fun _ => .ite (.bind (.running _) fun _ => .pure _) (.throw _)

theorem stepReturn_keeping (id : NodeId) (wrap : Unit → Kind) : Keeping id wrap stepReturn :=
  .bind (.running _) fun _ => .pure _

end Node

-- ---------------------------------------------------------------------------
-- Arenas
-- ---------------------------------------------------------------------------

namespace Arena

open Node

theorem vacant_kept (id : NodeId) : KeepsShape (vacant id) := fun _ => rfl

/-- A step of any node, however it ends, leaves everything but execution states as it is. -/
theorem step_kept (ctx : StepContext) (depth : Nat) (id : NodeId) : KeepsShape (step ctx depth id) := by
  induction depth generalizing id with
  | zero => exact vacant_kept id
  | succ depth ih =>
    intro s
    simp only [step, EStateM.bind_apply]
    cases hnode : s.arena.nodes[id]? with
    | none => simp [Node.asking_apply, Arena.node, hnode]
    | some n =>
      simp only [Node.asking_apply, Arena.node, hnode]
      cases hkind : n.kind with
      | literal v => rfl
      | reference m => exact kept_moving (Variable.step_keeping ih) (fun _ => rfl) hnode hkind
      | unary m => exact kept_moving (Unary.step_keeping ih) (fun _ => rfl) hnode hkind
      | binary m => exact kept_moving (Binary.step_keeping ih) (fun _ => rfl) hnode hkind
      | call m => exact kept_moving (Call.step_keeping ih) (fun _ => rfl) hnode hkind
      | block m => exact kept_moving (Block.step_keeping ih) (fun _ => rfl) hnode hkind
      | assign m => exact kept_moving (Assign.step_keeping ih) (fun _ => rfl) hnode hkind
      | ifThen m => exact kept_moving (If.step_keeping ih) (fun _ => rfl) hnode hkind
      | case m => exact kept_moving (Case.step_keeping ih) (fun _ => rfl) hnode hkind
      | forLoop m => exact kept_moving (For.step_keeping ih) (fun _ => rfl) hnode hkind
      | whileLoop m => exact kept_moving (While.step_keeping ih) (fun _ => rfl) hnode hkind
      | repeatLoop m => exact kept_moving (Repeat.step_keeping ih) (fun _ => rfl) hnode hkind
      | exit => exact kept_moving stepExit_keeping (fun _ => rfl) hnode hkind
      | ret => exact kept_moving (stepReturn_keeping id fun _ => .ret) (fun _ => rfl) hnode hkind
      | vacant => exact vacant_kept id s

end Arena

-- ---------------------------------------------------------------------------
-- Rewinding
-- ---------------------------------------------------------------------------

theorem Expr.shape_nodeKind (e : Expr) : e.nodeKind.shape = e.nodeKind := by cases e <;> rfl

theorem Stmt.shape_nodeKind (s : Stmt) : s.nodeKind.shape = s.nodeKind := by
  cases s with
  | eval e => exact e.shape_nodeKind
  | _ => rfl

theorem NodeInfo.shape_node (info : NodeInfo) {k : Kind} (hk : k.shape = k) : (info.node k).shape = info.node k := by
  cases k <;> exact (Node.shape_eq _).trans (congrArg (Node.mk · _ _ _ _) hk)

namespace Expr

mutual

/-- The nodes of an expression are described in their start states. -/
theorem shape_of_mem_cells : (e : Expr) → ∀ cell ∈ e.cells, cell.2.shape = cell.2
  | .literal info value type => by
    rw [cells, List.forall_mem_singleton]
    exact info.shape_node (shape_nodeKind _)
  | .var info path indexes => by
    rw [cells, List.forall_mem_append, List.forall_mem_singleton]
    exact ⟨shape_of_mem_cellsOfAll indexes, info.shape_node (shape_nodeKind _)⟩
  | .unary info op e => by
    rw [cells, List.forall_mem_append, List.forall_mem_singleton]
    exact ⟨e.shape_of_mem_cells, info.shape_node (shape_nodeKind _)⟩
  | .binary info op l r => by
    rw [cells, List.forall_mem_append, List.forall_mem_append, List.forall_mem_singleton]
    exact ⟨⟨l.shape_of_mem_cells, r.shape_of_mem_cells⟩, info.shape_node (shape_nodeKind _)⟩
  | .call info name labels args callee bindings => by
    rw [cells, List.forall_mem_append, List.forall_mem_singleton]
    exact ⟨shape_of_mem_cellsOfAll args, info.shape_node (shape_nodeKind _)⟩

theorem shape_of_mem_cellsOfAll : (es : List Expr) → ∀ cell ∈ cellsOfAll es, cell.2.shape = cell.2
  | [] => by
    rw [cellsOfAll]
    exact List.forall_mem_nil _
  | e :: es => by
    rw [cellsOfAll, List.forall_mem_append]
    exact ⟨e.shape_of_mem_cells, shape_of_mem_cellsOfAll es⟩

end

end Expr

namespace Stmt

/-- A node is described in its start state if the nodes below it are. -/
theorem shape_of_mem_cells_of_inner {s : Stmt} (h : ∀ cell ∈ s.innerCells, cell.2.shape = cell.2) :
    ∀ cell ∈ s.cells, cell.2.shape = cell.2 := by
  rw [cells_eq, List.forall_mem_append, List.forall_mem_singleton]
  exact ⟨h, s.info.shape_node s.shape_nodeKind⟩

mutual

/-- The nodes of a statement are described in their start states. -/
theorem shape_of_mem_cells : (s : Stmt) → ∀ cell ∈ s.cells, cell.2.shape = cell.2
  | .eval e => by
    rw [cells]
    exact e.shape_of_mem_cells
  | .assign info target value => shape_of_mem_cells_of_inner <|
    List.forall_mem_append.mpr ⟨target.shape_of_mem_cells, value.shape_of_mem_cells⟩
  | .block info statements => shape_of_mem_cells_of_inner (shape_of_mem_cellsOfAll statements)
  | .ifThen info branches otherwise => shape_of_mem_cells_of_inner <|
    List.forall_mem_append.mpr ⟨shape_of_mem_cellsOfBranches branches, shape_of_mem_cellsOfOption otherwise⟩
  | .case info selector arms otherwise => shape_of_mem_cells_of_inner <|
    List.forall_mem_append.mpr ⟨List.forall_mem_append.mpr ⟨selector.shape_of_mem_cells, shape_of_mem_cellsOfArms arms⟩,
      shape_of_mem_cellsOfOption otherwise⟩
  | .forLoop info control start stop step body => shape_of_mem_cells_of_inner <|
    List.forall_mem_append.mpr ⟨Expr.shape_of_mem_cellsOfAll _, body.shape_of_mem_cells⟩
  | .whileLoop info condition body => shape_of_mem_cells_of_inner <|
    List.forall_mem_append.mpr ⟨condition.shape_of_mem_cells, body.shape_of_mem_cells⟩
  | .repeatLoop info body condition => shape_of_mem_cells_of_inner <|
    List.forall_mem_append.mpr ⟨body.shape_of_mem_cells, condition.shape_of_mem_cells⟩
  | .exit _ => shape_of_mem_cells_of_inner (List.forall_mem_nil _)
  | .ret _ => shape_of_mem_cells_of_inner (List.forall_mem_nil _)

theorem shape_of_mem_cellsOfAll : (ss : List Stmt) → ∀ cell ∈ cellsOfAll ss, cell.2.shape = cell.2
  | [] => by
    rw [cellsOfAll]
    exact List.forall_mem_nil _
  | s :: ss => by
    rw [cellsOfAll, List.forall_mem_append]
    exact ⟨s.shape_of_mem_cells, shape_of_mem_cellsOfAll ss⟩

theorem shape_of_mem_cellsOfOption : (s? : Option Stmt) → ∀ cell ∈ cellsOfOption s?, cell.2.shape = cell.2
  | none => by
    rw [cellsOfOption]
    exact List.forall_mem_nil _
  | some s => by
    rw [cellsOfOption]
    exact s.shape_of_mem_cells

theorem shape_of_mem_cellsOfBranches :
    (branches : List (Expr × Stmt)) → ∀ cell ∈ cellsOfBranches branches, cell.2.shape = cell.2
  | [] => by
    rw [cellsOfBranches]
    exact List.forall_mem_nil _
  | (condition, s) :: rest => by
    rw [cellsOfBranches, List.forall_mem_append, List.forall_mem_append]
    exact ⟨⟨condition.shape_of_mem_cells, s.shape_of_mem_cells⟩, shape_of_mem_cellsOfBranches rest⟩

theorem shape_of_mem_cellsOfArms :
    (arms : List (List CaseLabel × Stmt)) → ∀ cell ∈ cellsOfArms arms, cell.2.shape = cell.2
  | [] => by
    rw [cellsOfArms]
    exact List.forall_mem_nil _
  | (labels, s) :: rest => by
    rw [cellsOfArms, List.forall_mem_append, List.forall_mem_append]
    exact ⟨⟨Expr.shape_of_mem_cellsOfAll _, s.shape_of_mem_cells⟩, shape_of_mem_cellsOfArms rest⟩

end

end Stmt

namespace Arena

variable {b b' : Arena} {s : Stmt}

/-- Rewinding makes a node what it is but for what evaluations have left in it. -/
theorem reset_has {cell : NodeId × Node} : b.reset.Has cell ↔ (b.nodes[cell.1]?).map Node.shape = some cell.2 := by
  simp only [Has, reset, Array.getElem?_map, Option.map_eq_some_iff]
  constructor
  · rintro ⟨_, ⟨n, hn, rfl⟩, h⟩
    exact ⟨n, hn, h⟩
  · rintro ⟨n, hn, h⟩
    exact ⟨_, ⟨n, hn, rfl⟩, h⟩

/-- A body at rest stays so when it is rewound. -/
theorem Holds.reset (h : b.Holds s) : b.reset.Holds s := by
  intro cell hcell
  obtain ⟨n, hn, hforget⟩ := h cell hcell
  rw [reset_has, hn, Option.map_some, ← n.shape_forget, hforget, s.shape_of_mem_cells cell hcell]

/-- What can be rewound to a body can be so after steps. -/
theorem reset_holds (hshape : b'.shape = b.shape) (h : b.reset.Holds s) : b'.reset.Holds s := by
  intro cell hcell
  rw [reset_has, shape_getElem? hshape]
  exact reset_has.mp (h cell hcell)

theorem shape_reset (b : Arena) : b.reset.shape = b.shape := by
  refine shape_ext rfl fun i => ?_
  simp only [reset, Array.getElem?_map, Option.map_map]
  congr 1
  funext n
  rw [Function.comp_apply, Node.shape_eq, Node.shape_eq, Kind.isLiteral_reset]
  congr 1
  cases n.kind <;> rfl

end Arena

end StructuredText
