-- SUMMARY: Executions that keep an invariant and fail with ordinary errors only, up to a number of pauses.
import StructuredText.Proofs.Regular
import StructuredText.Proofs.Settling

/-!
# Safe executions

An execution is safe up to a number of pauses if it keeps an invariant of the storage until then and fails with
ordinary errors only, whatever happens to the storage at the pauses, as long as that keeps the invariant, too. The
instance that runs, its callers and the loops that run are the ones of the pause; a pending transfer of control
does not matter.

The number of pauses makes it possible to go through loops and calls by induction. What is safe up to any number
of pauses is safe for good.
-/

namespace StructuredText

open Reporting

/-- The instance that runs, the ones that wait for it, and the loops that run. -/
structure Stack where
  current : Option InstanceId
  callers : List InstanceId
  loops : List LoopEntry

def Cursor.stack (c : Cursor) : Stack := ⟨c.current, c.callers, c.loops⟩

namespace Run

variable {env : Environment} {I : Storage → Prop} {α β : Type} {n : Nat} {stack before after : Stack}
  {Q Q' : Evaluated → Prop}

-- ---------------------------------------------------------------------------
-- Computations within a micro-step
-- ---------------------------------------------------------------------------

/-- The computation keeps the invariant and the stack. -/
abbrev Steady (I : Storage → Prop) (stack : Stack) (m : Run α) (Q : α → Prop) : Prop :=
  Maintains (fun x : Execution => I x.storage ∧ x.cursor.stack = stack) m Q

theorem Steady.asking {Q : α → Prop} {span : Span} {q : Storage → Except ValueError α}
    (h : ∀ s, I s → Regular (q s) Q) : Steady I stack (Run.asking span q) Q :=
  .reads fun x hx => .checked ((h x.storage hx.1).atSpan span)

theorem Steady.storing {Q : α → Prop} {span : Span} {op : Storing α} (h : Maintains I op Q) :
    Steady I stack (Run.storing span op) Q := by
  rintro ⟨storage, cursor⟩ ⟨hstorage, hstack⟩
  have h := h storage hstorage
  simp only [Run.storing]
  rcases hop : op storage with ⟨a, s⟩ | ⟨e, s⟩ <;> rw [hop] at h
  · exact ⟨⟨h.1, hstack⟩, h.2⟩
  · exact ⟨⟨h.1, hstack⟩, e.ordinary_at h.2 span⟩

-- ---------------------------------------------------------------------------
-- Executions with pauses
-- ---------------------------------------------------------------------------

/-- What a micro-step ends with is safe up to a number of pauses. -/
def SafeEnd (env : Environment) (I : Storage → Prop) (after : Stack) (Q : Evaluated → Prop) :
    (pauses : Nat) → Stepped → Prop
  | _, .error d x => I x.storage ∧ Ordinary d
  | _, .ok (.done r) x => I x.storage ∧ x.cursor.stack = after ∧ Q r
  | 0, .ok (.paused _) x => I x.storage
  | n + 1, .ok (.paused frames) x => I x.storage ∧
    ∀ x' : Execution, I x'.storage → x'.cursor.stack = x.cursor.stack →
      SafeEnd env I after Q n (microStep env frames x')

/-- The execution is safe up to a number of pauses. It leads from one stack to another. -/
def Safe (env : Environment) (I : Storage → Prop) (pauses : Nat) (before after : Stack)
    (m : Run (Progress Evaluated)) (Q : Evaluated → Prop) : Prop :=
  ∀ x : Execution, I x.storage → x.cursor.stack = before → SafeEnd env I after Q pauses (m x)

variable {p : Stepped}

theorem SafeEnd.storage (h : SafeEnd env I after Q n p) : I p.state.storage := by
  rcases p with ⟨r | frames, x⟩ | ⟨d, x⟩
  · cases n <;> exact h.1
  · cases n with
    | zero => exact h
    | succ n => exact h.1
  · cases n <;> exact h.1

theorem SafeEnd.mono {k : Nat} (hk : k ≤ n) (hQ : ∀ r, Q r → Q' r)
    (h : SafeEnd env I after Q n p) : SafeEnd env I after Q' k p := by
  induction k generalizing n p with
  | zero =>
    rcases p with ⟨r | frames, x⟩ | ⟨d, x⟩
    · cases n <;> exact ⟨h.1, h.2.1, hQ r h.2.2⟩
    · exact h.storage
    · cases n <;> exact h
  | succ k ih =>
    cases n with
    | zero => omega
    | succ n =>
      rcases p with ⟨r | frames, x⟩ | ⟨d, x⟩
      · exact ⟨h.1, h.2.1, hQ r h.2.2⟩
      · exact ⟨h.1, fun x' hx' hstack => ih (by omega) (h.2 x' hx' hstack)⟩
      · exact h

theorem SafeEnd.follow {outer : List Frame} (h : SafeEnd env I stack Q n p)
    (houter : ∀ r, Q r → Safe env I n stack after (resumeAll env outer r) Q') :
    SafeEnd env I after Q' n (Run.follow env outer p) := by
  induction n generalizing p with
  | zero =>
    rcases p with ⟨r | frames, x⟩ | ⟨d, x⟩
    · exact houter r h.2.2 x h.1 h.2.1
    · exact h
    · exact h
  | succ n ih =>
    rcases p with ⟨r | frames, x⟩ | ⟨d, x⟩
    · exact houter r h.2.2 x h.1 h.2.1
    · refine ⟨h.1, fun x' hx' hstack => ?_⟩
      rw [microStep_append]
      refine ih (h.2 x' hx' hstack) fun r hr y hy hstack => ?_
      exact (houter r hr y hy hstack).mono (by omega) fun _ => id
    · exact h

namespace Safe

variable {m m' : Run (Progress Evaluated)}

theorem mono {k : Nat} (hk : k ≤ n) (h : Safe env I n before after m Q) (hQ : ∀ r, Q r → Q' r) :
    Safe env I k before after m Q' := fun x hx hstack => (h x hx hstack).mono hk hQ

/-- Up to fewer pauses, too. -/
theorem fewer {k : Nat} (hk : k ≤ n) (h : Safe env I n before after m Q) :
    Safe env I k before after m Q := h.mono hk fun _ => id

/-- With a weaker property of the result. -/
theorem weaken (h : Safe env I n before after m Q) (hQ : ∀ r, Q r → Q' r) :
    Safe env I n before after m Q' := h.mono (Nat.le_refl n) hQ

theorem done {r : Evaluated} (h : Q r) : Safe env I n stack stack (pure (.done r)) Q := by
  intro x hx hstack
  cases n <;> exact ⟨hx, hstack, h⟩

theorem fail {d : Diagnostic} (h : Ordinary d) : Safe env I n before after (throw d) Q := by
  intro x hx _
  cases n <;> exact ⟨hx, h⟩

/-- A micro-step ends. -/
theorem paused {frames : List Frame} (h : ∀ k < n, Safe env I k before after (microStep env frames) Q) :
    Safe env I n before after (pure (.paused frames)) Q := by
  intro x hx hstack
  cases n with
  | zero => exact hx
  | succ n => exact ⟨hx, fun x' hx' hstack' => h n (by omega) x' hx' (hstack'.trans hstack)⟩

/-- A computation within the micro-step comes first. -/
theorem bind {R : α → Prop} {m : Run α} {k : α → Run (Progress Evaluated)} (hm : Steady I before m R)
    (hk : ∀ a, R a → Safe env I n before after (k a) Q) : Safe env I n before after (m >>= k) Q := by
  intro x hx hstack
  have h := hm x ⟨hx, hstack⟩
  simp only [EStateM.bind_apply]
  rcases hy : m x with ⟨a, x'⟩ | ⟨d, x'⟩ <;> rw [hy] at h
  · exact hk a h.2 x' h.1.1 h.1.2
  · cases n <;> exact ⟨h.1.1, h.2⟩

theorem reads {k : Execution → Run (Progress Evaluated)}
    (h : ∀ x : Execution, x.cursor.stack = before → Safe env I n before after (k x) Q) :
    Safe env I n before after (get >>= k) Q := fun x hx hstack => h x hstack x hx hstack

/-- The cursor changes within the micro-step. -/
theorem onCursor {f : Cursor → Cursor} {k : Unit → Run (Progress Evaluated)} (stack : Stack)
    (hf : ∀ c : Cursor, c.stack = before → (f c).stack = stack)
    (h : Safe env I n stack after (k ()) Q) : Safe env I n before after (Run.onCursor f >>= k) Q :=
  fun x hx hstack => h ⟨x.storage, f x.cursor⟩ hx (hf x.cursor hstack)

theorem ite {c : Prop} [Decidable c] (h : c → Safe env I n before after m Q)
    (h' : ¬ c → Safe env I n before after m' Q) :
    Safe env I n before after (if c then m else m') Q := by
  split
  · exact h ‹_›
  · exact h' ‹_›

/-- Frames that wait for the result go on with it. -/
theorem andThen {frame : Frame} {next : Evaluated → Run (Progress Evaluated)}
    (h : Safe env I n before stack m Q) (hframe : ∀ r, resume env r frame = next r)
    (hnext : ∀ r, Q r → Safe env I n stack after (next r) Q') :
    Safe env I n before after (Run.andThen m frame next) Q' := by
  intro x hx hstack
  rw [andThen_apply hframe]
  refine (h x hx hstack).follow fun r hr y hy hstack => ?_
  rw [resumeAll_singleton, hframe]
  exact hnext r hr y hy hstack

/-- A frame is resumed, and the frames behind it wait for the result. -/
theorem resumed {frame : Frame} {outer : List Frame} {r : Evaluated}
    (h : Safe env I n before stack (resume env r frame) Q)
    (houter : ∀ r, Q r → Safe env I n stack after (resumeAll env outer r) Q') :
    Safe env I n before after (resumeAll env (frame :: outer) r) Q' := by
  intro x hx hstack
  rw [resumeAll_cons]
  exact (h x hx hstack).follow houter

theorem finished {r : Evaluated} (h : Q r) : Safe env I n stack stack (resumeAll env [] r) Q := done h

end Safe

end Run

end StructuredText
