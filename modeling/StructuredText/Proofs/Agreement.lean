-- SUMMARY: When micro-steps agree with an evaluation, and how agreement is put together.
import StructuredText.Proofs.Settling
import StructuredText.Proofs.Traced

/-!
# Agreement

Micro-steps agree with an evaluation if they settle on the same storage with a related result, if they go on
for as long as the evaluation has fuel, and if they announce on their way the statements that the evaluation
performs, each with the storage before it. Agreement is put together from that of parts in the ways in which
an execution is put together: computations within a micro-step, frames that wait for a result, and statements
that are left to the next micro-step.
-/

namespace StructuredText.BigStep

open Run

variable {α β : Type} {env : Environment} {least : Nat} {c : Cursor}

-- ---------------------------------------------------------------------------
-- Computations within a micro-step
-- ---------------------------------------------------------------------------

/-- The computation does to the storage what the evaluation does, and leaves the cursor alone. -/
def Performs (m : Run α) (c : Cursor) (y : Evaluating α) : Prop :=
  ∀ s,
    match y s with
    | .ok a s' => m ⟨s, c⟩ = .ok a ⟨s', c⟩
    | .error (.failed d) s' => m ⟨s, c⟩ = .error d ⟨s', c⟩
    | .error .outOfFuel _ => False

namespace Performs

theorem pure (a : α) : Performs (Pure.pure a) c (Pure.pure a) := fun _ => rfl

theorem fail (d : Diagnostic) : Performs (throw d : Run α) c (fail d) := fun _ => rfl

theorem checked (x : Except Diagnostic α) : Performs (ofExcept x) c (checked x) := by
  cases x <;> exact fun _ => rfl

theorem storing (span : Span) (x : Storing α) :
    Performs (Run.storing span x) c (BigStep.storing span x) := by
  intro s
  simp only [BigStep.storing, Run.storing]
  cases x s <;> rfl

theorem asking (span : Span) (x : Storage → Except ValueError α) :
    Performs (Run.asking span x) c (BigStep.asking span x) := by
  intro s
  simp only [BigStep.asking, Run.asking, EStateM.bind_apply, EStateM.get_apply]
  exact checked _ s

theorem bind {m : Run α} {k : α → Run β} {y : Evaluating α} {z : α → Evaluating β}
    (hm : Performs m c y) (hk : ∀ a, Performs (k a) c (z a)) : Performs (m >>= k) c (y >>= z) := by
  intro s
  have h := hm s
  simp only [EStateM.bind_apply]
  rcases hy : y s with ⟨a, s'⟩ | ⟨d | _, s'⟩ <;> simp only [hy] at h ⊢
  · rw [h]
    exact hk a s'
  · rw [h]

theorem ite {p : Prop} [Decidable p] {m m' : Run α} {y y' : Evaluating α}
    (hm : Performs m c y) (hm' : Performs m' c y') :
    Performs (if p then m else m') c (if p then y else y') := by
  split <;> assumption

theorem forIn {ι : Type} {m : ι → β → Run (ForInStep β)} {y : ι → β → Evaluating (ForInStep β)}
    (h : ∀ i b, Performs (m i b) c (y i b)) (is : List ι) (b : β) :
    Performs (ForIn.forIn is b m) c (ForIn.forIn is b y) := by
  induction is generalizing b with
  | nil => exact pure b
  | cons i is ih =>
    rw [List.forIn_cons, List.forIn_cons]
    refine bind (h i b) fun step => ?_
    cases step with
    | done b => exact pure b
    | yield b => exact ih b

end Performs

-- ---------------------------------------------------------------------------
-- Agreement
-- ---------------------------------------------------------------------------

/--
What a micro-step ends with agrees with what an evaluation ends with: going on with it leads there, and announces what is
noted. An evaluation that is out of fuel takes a least number of micro-steps.
-/
def Agrees (env : Environment) (least : Nat) (post : α → Evaluated → Cursor → Prop) (p : Stepped) (before : Trace) :
    EStateM.Result Stop Traced α → Prop
  | .ok a x =>
    ∃ n notes r c, Passes env p n notes (.ok (.done r) ⟨x.storage, c⟩) ∧ x.trace = before ++ notes ∧ post a r c
  | .error (.failed d) x => ∃ n notes c, Passes env p n notes (.error d ⟨x.storage, c⟩) ∧ x.trace = before ++ notes
  | .error .outOfFuel x => ∃ n notes q, Passes env p n notes q ∧ x.trace = before ++ notes ∧ least ≤ n

/-- From the cursor on, the computation agrees with the evaluation whatever the storage is. -/
def Refines (env : Environment) (least : Nat) (post : α → Evaluated → Cursor → Prop)
    (m : Run (Progress Evaluated)) (c : Cursor) (y : Tracing α) : Prop :=
  ∀ s before, Agrees env least post (m ⟨s, c⟩) before (y ⟨s, before⟩)

variable {post : α → Evaluated → Cursor → Prop} {post' : β → Evaluated → Cursor → Prop}
variable {m m' : Run (Progress Evaluated)} {y y' : Tracing α}

theorem Agrees.mono {p : Stepped} {before : Trace} {k : Nat} (hk : k ≤ least) {r : EStateM.Result Stop Traced α}
    (h : Agrees env least post p before r) : Agrees env k post p before r := by
  rcases r with ⟨a, x⟩ | ⟨d | _, x⟩
  · exact h
  · exact h
  · obtain ⟨n, notes, q, hp, htrace, hn⟩ := h
    exact ⟨n, notes, q, hp, htrace, Nat.le_trans hk hn⟩

/-- What is passed first is noted first. -/
theorem Agrees.of_passes {p q : Stepped} {before notes : Trace} {n : Nat} (hp : Passes env p n notes q)
    {r : EStateM.Result Stop Traced α} (h : Agrees env least post q (before ++ notes) r) :
    Agrees env (n + least) post p before r := by
  rcases r with ⟨a, x⟩ | ⟨d | _, x⟩
  · obtain ⟨k, more, r, c, hq, htrace, hpost⟩ := h
    exact ⟨n + k, notes ++ more, r, c, hp.trans hq, by rw [htrace, List.append_assoc], hpost⟩
  · obtain ⟨k, more, c, hq, htrace⟩ := h
    exact ⟨n + k, notes ++ more, c, hp.trans hq, by rw [htrace, List.append_assoc]⟩
  · obtain ⟨k, more, r, hq, htrace, hk⟩ := h
    exact ⟨n + k, notes ++ more, r, hp.trans hq, by rw [htrace, List.append_assoc], Nat.add_le_add_left hk n⟩

theorem Agrees.follow {outer : List Frame} {p : Stepped} {x : Traced} {before : Trace} {k : α → Tracing β}
    (h : Agrees env least post p before (y x))
    (hk : ∀ a r c, post a r c → Refines env least post' (resumeAll env outer r) c (k a)) :
    Agrees env least post' (Run.follow env outer p) before ((y >>= k) x) := by
  simp only [EStateM.bind_apply]
  rcases hy : y x with ⟨a, x'⟩ | ⟨d | _, x'⟩ <;> rw [hy] at h
  · obtain ⟨n, notes, r, c, hp, htrace, hpost⟩ := h
    obtain ⟨s', trace⟩ := x'
    obtain rfl : trace = before ++ notes := htrace
    exact (Agrees.of_passes hp.follow (hk a r c hpost s' (before ++ notes))).mono (Nat.le_add_left _ _)
  · obtain ⟨n, notes, c, hp, htrace⟩ := h
    exact ⟨n, notes, c, hp.follow, htrace⟩
  · obtain ⟨n, notes, q, hp, htrace, hn⟩ := h
    exact ⟨n, notes, _, hp.follow, htrace, hn⟩

namespace Refines

theorem mono {k : Nat} (hk : k ≤ least) (h : Refines env least post m c y) :
    Refines env k post m c y := fun s before => (h s before).mono hk

theorem congr (hm : ∀ s, m ⟨s, c⟩ = m' ⟨s, c⟩) (h : Refines env least post m c y) :
    Refines env least post m' c y := fun s before => hm s ▸ h s before

theorem done {a : α} {r : Evaluated} (h : post a r c) :
    Refines env least post (Pure.pure (.done r)) c (Pure.pure a) :=
  fun _ _ => ⟨0, [], r, c, .refl, (List.append_nil _).symm, h⟩

/-- The evaluation keeps only a part of its result. -/
theorem map {f : α → β} (h : Refines env least post m c y)
    (hpost : ∀ a r c, post a r c → post' (f a) r c) :
    Refines env least post' m c (do return f (← y)) := by
  intro s before
  have h := h s before
  simp only [EStateM.bind_apply]
  rcases hy : y ⟨s, before⟩ with ⟨a, x⟩ | ⟨d | _, x⟩ <;> rw [hy] at h <;> simp only
  · obtain ⟨n, notes, r, c', h, htrace, hr⟩ := h
    exact ⟨n, notes, r, c', h, htrace, hpost a r c' hr⟩
  · exact h
  · exact h

theorem fail (d : Diagnostic) : Refines env least post (throw d) c (quietly (fail d)) :=
  fun _ _ => ⟨0, [], c, .refl, (List.append_nil _).symm⟩

theorem outOfFuel : Refines env 0 post m c (throw .outOfFuel) :=
  fun _ _ => ⟨0, [], _, .refl, (List.append_nil _).symm, Nat.le_refl _⟩

/-- A micro-step ends. What it announces is noted. -/
theorem ends {frames : List Frame} {k : Tracing α}
    (h : Refines env least post (microStep env frames) c.clearPause y)
    (hk : ∀ s before, k ⟨s, before⟩ = y ⟨s, before ++ announced ⟨s, c⟩⟩) :
    Refines env (least + 1) post (Pure.pure (.paused frames)) c k := by
  intro s before
  rw [hk, Nat.add_comm]
  exact .of_passes .one (h s (before ++ announced ⟨s, c⟩))

/-- A micro-step ends without an announcement. -/
theorem paused {frames : List Frame} (hpause : c.pause = none)
    (h : Refines env least post (microStep env frames) c.clearPause y) :
    Refines env (least + 1) post (Pure.pure (.paused frames)) c y :=
  h.ends fun s before => by simp [announced, hpause]

/-- A micro-step ends before a statement. -/
theorem noted {frames : List Frame} {span : Span}
    (h : Refines env least post (microStep env frames) c.clearPause y) :
    Refines env (least + 1) post (do Run.onCursor (·.pauseAt span); Pure.pure (.paused frames)) c
      (do note span; y) := fun s before => h.ends (c := c.pauseAt span) (fun _ _ => rfl) s before

/-- A computation within the micro-step comes first. -/
theorem bind {m : Run β} {k : β → Run (Progress Evaluated)} {y : Evaluating β}
    {z : β → Tracing α} (hm : Performs m c y) (hk : ∀ b, Refines env least post (k b) c (z b)) :
    Refines env least post (m >>= k) c (quietly y >>= z) := by
  intro s before
  have h := hm s
  simp only [EStateM.bind_apply, quietly]
  rcases hy : y s with ⟨b, s'⟩ | ⟨d | _, s'⟩ <;> simp only [hy] at h ⊢
  · rw [h]
    exact hk b s' before
  · rw [h]
    exact ⟨0, [], c, .refl, (List.append_nil _).symm⟩

theorem bindQuietly {m : Run β} {k : β → Run (Progress Evaluated)} {y : Evaluating β}
    {z : β → Evaluating α} (hm : Performs m c y) (hk : ∀ b, Refines env least post (k b) c (quietly (z b))) :
    Refines env least post (m >>= k) c (quietly (y >>= z)) := by
  rw [quietly_bind]
  exact bind hm hk

/-- A question to the storage comes first. -/
theorem bind_asking {span : Span} {q : Storage → Except ValueError β}
    {k : β → Run (Progress Evaluated)} {z : β → Tracing α}
    (hk : ∀ s b, q s = .ok b → Refines env least post (k b) c (z b)) :
    Refines env least post (Run.asking span q >>= k) c (quietly (BigStep.asking span q) >>= z) := by
  intro s before
  simp only [BigStep.asking, Run.asking, quietly, EStateM.bind_apply, EStateM.get_apply]
  cases hq : q s with
  | error e => exact ⟨0, [], c, .refl, (List.append_nil _).symm⟩
  | ok b => exact hk s b hq s before

theorem ite {p : Prop} [Decidable p] (h : p → Refines env least post m c y)
    (h' : ¬ p → Refines env least post m' c y') :
    Refines env least post (if p then m else m') c (if p then y else y') := by
  split
  · exact h ‹_›
  · exact h' ‹_›

/-- The cursor changes within the micro-step. -/
theorem onCursor {f : Cursor → Cursor} {k : Unit → Run (Progress Evaluated)}
    (h : Refines env least post (k ()) (f c) y) :
    Refines env least post (Run.onCursor f >>= k) c y := fun s before => h s before

/-- The cursor is read within the micro-step. -/
theorem reads {k : Execution → Run (Progress Evaluated)}
    (h : ∀ x : Execution, x.cursor = c → Refines env least post (k x) c y) :
    Refines env least post (get >>= k) c y := fun s before => h ⟨s, c⟩ rfl s before

/-- Frames that wait for the result go on with it. -/
theorem andThen {frame : Frame} {next : Evaluated → Run (Progress Evaluated)}
    {k : α → Tracing β} (h : Refines env least post m c y)
    (hframe : ∀ r, resume env r frame = next r)
    (hk : ∀ a r c', post a r c' → Refines env least post' (next r) c' (k a)) :
    Refines env least post' (Run.andThen m frame next) c (y >>= k) := by
  intro s before
  rw [andThen_apply hframe]
  refine (h s before).follow fun a r c' hpost s' before' => ?_
  rw [resumeAll_singleton, hframe]
  exact hk a r c' hpost s' before'

theorem resumed_by {frame : Frame} {r : Evaluated} (h : Refines env least post (resume env r frame) c y) :
    Refines env least post (resumeAll env [frame] r) c y := by
  intro s before
  rw [resumeAll_singleton]
  exact h s before

/-- A statement is executed in the next micro-step, and frames wait for it. -/
theorem start {stmt : Stmt} {outer : List Frame} {k : α → Tracing β}
    (h : Refines env least post (stmt.execute env) c y)
    (hk : ∀ a r c', post a r c' → Refines env least post' (resumeAll env outer r) c' (k a)) :
    Refines env least post' (microStep env (.start stmt :: outer)) c (y >>= k) := by
  intro s before
  rw [microStep, resumeAll_cons]
  exact (h s before).follow hk

end Refines

end StructuredText.BigStep
