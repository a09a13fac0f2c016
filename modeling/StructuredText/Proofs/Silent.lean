-- SUMMARY: Looking up, computing, storing and copying arguments leave the cursor as it is.
import StructuredText.Execution.Resume
import StructuredText.Proofs.Computation

/-!
# What leaves the cursor alone

The cursor is changed by statements that transfer control, by loops, and by calls as they begin and end. All the rest of
an execution reads and writes the storage only, whether it succeeds or fails: looking up a reference, applying an
operator, assigning, starting to count, and copying the arguments and the results of a call.
-/

namespace StructuredText

namespace Run

variable {α β : Type}

/-- The computation does not change the cursor, and what it results in has the property. -/
def Silent (m : Run α) (Q : α → Prop) : Prop :=
  ∀ x, (m x).state.cursor = x.cursor ∧ ∀ a x', m x = .ok a x' → Q a

/-- The computation does not change the cursor. -/
abbrev Mute (m : Run α) : Prop := Silent m fun _ => True

/-- It is finished with a result. -/
def Finished (p : Progress Evaluated) : Prop := ∃ r, p = .done r

namespace Silent

variable {Q R : α → Prop} {m m' : Run α}

theorem pure {a : α} (h : Q a) : Silent (Pure.pure a) Q := by
  refine fun x => ⟨rfl, ?_⟩
  rintro _ _ ⟨⟩
  exact h

theorem done (r : Evaluated) : Silent (Pure.pure (.done r)) Finished := pure ⟨r, rfl⟩

theorem throw (d : Diagnostic) : Silent (throw d : Run α) Q := fun _ => ⟨rfl, nofun⟩

theorem bind {P : β → Prop} {f : α → Run β} (hm : Silent m R) (hf : ∀ a, R a → Silent (f a) P) :
    Silent (m >>= f) P := by
  intro x
  obtain ⟨hcursor, hresult⟩ := hm x
  simp only [EStateM.bind_apply]
  rcases hx : m x with ⟨a, x'⟩ | ⟨d, x'⟩ <;> rw [hx] at hcursor
  · obtain ⟨hcursor', hresult'⟩ := hf a (hresult a x' hx) x'
    exact ⟨hcursor'.trans hcursor, hresult'⟩
  · exact ⟨hcursor, nofun⟩

/-- A computation whose result does not matter comes first. -/
theorem after {P : β → Prop} {f : α → Run β} (hm : Mute m) (hf : ∀ a, Silent (f a) P) : Silent (m >>= f) P :=
  hm.bind fun a _ => hf a

theorem reads {f : Execution → Run α} (hf : ∀ x, Silent (f x) Q) : Silent (get >>= f) Q := fun x => hf x x

theorem ite {p : Prop} [Decidable p] (hm : Silent m Q) (hm' : Silent m' Q) : Silent (if p then m else m') Q := by
  split <;> assumption

theorem checked (e : Except Diagnostic α) : Mute (ofExcept e : Run α) := by
  cases e with
  | error d => exact throw d
  | ok a => exact pure trivial

theorem asking (span : Span) (q : Storage → Except ValueError α) : Mute (Run.asking span q) :=
  reads fun _ => checked _

theorem storing (span : Span) (op : Storing α) : Mute (Run.storing span op) := by
  intro x
  simp only [Run.storing]
  rcases op x.storage with ⟨a, s⟩ | ⟨e, s⟩ <;> exact ⟨rfl, fun _ _ _ => trivial⟩

theorem forIn {ι : Type} {m : ι → α → Run (ForInStep α)} (h : ∀ i a, Mute (m i a)) (is : List ι) (a : α) :
    Mute (ForIn.forIn is a m) := by
  induction is generalizing a with
  | nil => exact pure trivial
  | cons i is ih =>
    rw [List.forIn_cons]
    refine after (h i a) fun step => ?_
    cases step with
    | done b => exact pure trivial
    | yield b => exact ih b

end Silent

theorem finish_silent : Silent finish Finished := .done _

end Run

-- ---------------------------------------------------------------------------
-- Expressions and calls
-- ---------------------------------------------------------------------------

namespace Expr

open Run

variable {env : Environment}

theorem lookup_silent (info : NodeInfo) (path : VarPath) (indexes : List (Span × Value)) :
    Silent (lookup env info path indexes) Finished := by
  have located (root : Root) (hops : List Hop) : Silent (do
      let current := (← get).cursor.current
      let place ← asking info.span (·.locate env.library current root hops)
      let value ← storing info.span (Storage.load env.library place)
      pure (.done ⟨value, some place⟩)) Finished :=
    .reads fun _ => .after (.asking _ _) fun _ => .after (.storing _ _) fun _ => .done _
  unfold lookup
  cases path.root with
  | none => exact .throw _
  | some root =>
    cases path.fixed with
    | none => exact .after (.checked _) (located root)
    | some hops => exact .after (.pure trivial) (located root)

theorem applyUnary_silent (info : NodeInfo) (op : UnaryOp) (r : Evaluated) :
    Silent (applyUnary info op r) Finished := .after (.checked _) fun _ => .done _

theorem applyBinary_silent (op : BinaryOp) (left right : Expr) (a : Value) (b : Evaluated) :
    Silent (applyBinary env op left right a b) Finished := .after (.checked _) fun _ => .done _

theorem copyInputs_silent (site : CallSite) (args : List Evaluated) (i : InstanceId) :
    Mute (copyInputs env site args i) := by
  refine .after (.asking _ _) fun pou => .after (.forIn (fun b _ => .ite ?_ (.pure trivial)) _ _) fun _ =>
    .pure trivial
  split
  · exact .after (.storing _ _) fun _ => .pure trivial
  · exact .after (.throw _) fun _ => .pure trivial

theorem copyOutputs_silent (site : CallSite) (args : List Evaluated) (i : InstanceId) :
    Mute (copyOutputs env site args i) := by
  refine .after (.forIn (fun b _ => .ite (.after (.asking _ _) fun v => ?_) (.pure trivial)) _ _) fun _ =>
    .pure trivial
  split
  · split
    · exact .after (.storing _ _) fun _ => .pure trivial
    · exact .after (.throw _) fun _ => .pure trivial
  · exact .after (.throw _) fun _ => .pure trivial
  · exact .after (.throw _) fun _ => .pure trivial

theorem collectResults_silent (site : CallSite) (args : List Evaluated) (i : InstanceId) :
    Silent (collectResults env site args i) Finished := by
  refine .after (.asking _ _) fun pou => .after (copyOutputs_silent site args i) fun _ => ?_
  split
  · exact .after (.asking _ _) fun _ => .done _
  · exact finish_silent

end Expr

-- ---------------------------------------------------------------------------
-- Assignments and bounds
-- ---------------------------------------------------------------------------

namespace Stmt

open Run

variable {env : Environment}

theorem truth_silent (condition : Expr) (r : Evaluated) : Mute (truth condition r) := .checked _

theorem assignTo_silent (a : AssignTarget) (r : Evaluated) : Silent (assignTo env a r) Finished := by
  unfold assignTo
  split
  · exact .after (.storing _ _) fun _ => .done _
  · exact .throw _
  · exact .throw _

theorem setControl_silent (control : Expr) (place? : Option Place) (start : Int) :
    Mute (setControl env control place? start) := by
  unfold setControl
  split
  · exact .storing _ _
  · exact .throw _
  · exact .throw _

theorem startFor_silent (loop : ForLoop) (results : List Evaluated) : Mute (startFor env loop results) := by
  have assigned (first last stride : Int) : Mute (do
      setControl env loop.control (results.head?.bind (·.place?)) first
      pure (iterations first last stride)) :=
    .after (setControl_silent _ _ _) fun _ => .pure trivial
  refine .after (.checked _) fun first => .after (.checked _) fun last => ?_
  cases loop.step with
  | none =>
    exact .after (.pure trivial) fun stride =>
      .ite (.after (.throw _) fun _ => assigned first last stride) (assigned first last stride)
  | some e =>
    exact .after (.checked _) fun stride =>
      .ite (.after (.throw _) fun _ => assigned first last stride) (assigned first last stride)

end Stmt

end StructuredText
