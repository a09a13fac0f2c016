-- SUMMARY: Executions on two storages that are alike stay side by side, up to a number of pauses.
import StructuredText.Proofs.Alike
import StructuredText.Proofs.Safe

/-!
# Parallel executions

Two executions are abreast if they have the same cursor and their storages are alike up to functions that are not on
the call stack. An execution is parallel if, started twice from executions that are abreast, it comes both times to the
same result or to the same error, or pauses both times with the same frames left to do, which go on to be parallel.

When a called instance has finished, it is off the stack before its outputs are copied. Until then the storages agree on
its variables, too; this is the only kind of frame that needs more than the stack. No micro-step that announces a
statement ends before such a frame, so wherever a step may stop it is enough for the storages to agree on the stack.
-/

namespace StructuredText

-- ---------------------------------------------------------------------------
-- Executions abreast
-- ---------------------------------------------------------------------------

/-- The instance that runs, and those that wait for it. -/
structure Chain where
  current : Option InstanceId
  callers : List InstanceId

namespace Chain

def instances (chain : Chain) : List InstanceId := chain.current.toList ++ chain.callers

/-- The chain when the instance that runs has called another one. -/
def push (chain : Chain) (i : InstanceId) : Chain := ⟨some i, chain.instances⟩

theorem mem_of_current {chain : Chain} {i : InstanceId} (h : chain.current = some i) : i ∈ chain.instances := by
  rw [instances, h]
  exact List.mem_cons_self

end Chain

def Cursor.chain (c : Cursor) : Chain := ⟨c.current, c.callers⟩

/-- The instance that has finished, if its outputs are what is copied next. -/
def Frame.finished : List Frame → List InstanceId
  | .results _ _ i :: _ => [i]
  | _ => []

theorem Frame.finished_append {inner : List Frame} (h : inner ≠ []) (outer : List Frame) :
    finished (inner ++ outer) = finished inner := by
  cases inner with
  | nil => exact absurd rfl h
  | cons frame rest => cases frame <;> rfl

/-- Two executions at the same point of the same chain, whose storages are alike. -/
structure Abreast (y : Layout) (kept : List InstanceId) (chain : Chain) (x x' : Execution) : Prop where
  cursor : x.cursor = x'.cursor
  onChain : x.cursor.chain = chain
  pause : x.cursor.pause = none
  storages : Storage.Coupled y (kept ++ chain.instances) x.storage x'.storage

theorem Storage.Coupled.mono {y : Layout} {busy busy' : List InstanceId} {s s' : Storage}
    (h : Storage.Coupled y busy s s') (hsub : busy' ⊆ busy) : Storage.Coupled y busy' s s' :=
  ⟨h.left, h.right, h.alike.mono hsub⟩

theorem Abreast.coupled {y : Layout} {extra kept : List InstanceId} {chain : Chain} {x x' : Execution}
    (h : Abreast y (extra ++ kept) chain x x') : Storage.Coupled y kept x.storage x'.storage :=
  h.storages.mono fun _ hi => List.mem_append_left _ (List.mem_append_right _ hi)

-- ---------------------------------------------------------------------------
-- Computations within a micro-step
-- ---------------------------------------------------------------------------

/-- Two executions with the same cursor, whose storages are alike. -/
structure AlikeAt (y : Layout) (busy : List InstanceId) (cursor : Cursor) (x x' : Execution) : Prop where
  left : x.cursor = cursor
  right : x'.cursor = cursor
  alike : Storage.Alike y busy x.storage x'.storage

section

variable {y : Layout} {busy kept : List InstanceId} {chain : Chain} {cursor : Cursor} {α : Type} {span : Span}

theorem uniform_asking {q : Storage → Except ValueError α} (h : ∀ s s', Storage.Alike y busy s s' → q s = q s') :
    Uniform (AlikeAt y busy cursor) (Run.asking span q) fun _ => True :=
  .result fun x x' hx => by rw [h _ _ hx.alike]

theorem uniform_storing {op : Storing α} (h : Uniform (Storage.Alike y busy) op fun _ => True) :
    Uniform (AlikeAt y busy cursor) (Run.storing span op) fun _ => True := by
  rintro ⟨s, _⟩ ⟨s', _⟩ ⟨rfl, hcursor, halike⟩
  simp only [Run.storing]
  obtain ⟨a, t, t', hr, hr', ht, -⟩ | ⟨e, t, t', hr, hr', ht⟩ := (h s s' halike).ok_or_error <;> rw [hr, hr']
  · exact ⟨rfl, ⟨rfl, hcursor, ht⟩, trivial⟩
  · exact ⟨rfl, rfl, hcursor, ht⟩

/-- A computation on the variables keeps executions abreast. -/
theorem Uniform.abreast {m : Run α} {Q : α → Prop} (hm : ∀ stack, Run.Steady (Storage.Sound y) stack m Q)
    (h : ∀ cursor, Uniform (AlikeAt y (kept ++ chain.instances) cursor) m fun _ => True) :
    Uniform (Abreast y kept chain) m Q := by
  intro x x' hx
  have h := h x.cursor x x' ⟨rfl, hx.cursor.symm, hx.storages.alike⟩
  have hleft := hm x.cursor.stack x ⟨hx.storages.left, rfl⟩
  have hright := hm x'.cursor.stack x' ⟨hx.storages.right, rfl⟩
  have abreast {z z' : Execution} (hz : AlikeAt y (kept ++ chain.instances) x.cursor z z')
      (hsound : z.storage.Sound y) (hsound' : z'.storage.Sound y) : Abreast y kept chain z z' :=
    ⟨hz.left.trans hz.right.symm, hz.left ▸ hx.onChain, hz.left ▸ hx.pause, hsound, hsound', hz.alike⟩
  obtain ⟨a, z, z', hr, hr', hz, -⟩ | ⟨d, z, z', hr, hr', hz⟩ := h.ok_or_error <;>
    rw [hr] at hleft <;> rw [hr'] at hright <;> rw [hr, hr']
  · exact ⟨rfl, abreast hz hleft.1.1 hright.1.1, hleft.2⟩
  · exact ⟨rfl, abreast hz hleft.1.1 hright.1.1⟩

/-- A question that is answered in the same way by both storages. -/
theorem uniform_found {q : Storage → Except ValueError α} {Q : α → Prop}
    (h : ∀ s s', Storage.Coupled y (kept ++ chain.instances) s s' → ∃ a, q s = .ok a ∧ q s' = .ok a ∧ Q a) :
    Uniform (Abreast y kept chain) (Run.asking span q) Q := by
  intro x x' hx
  obtain ⟨a, hq, hq', ha⟩ := h x.storage x'.storage hx.storages
  simp only [Run.asking, EStateM.bind_apply, EStateM.get_apply, EStateM.ofExcept_apply, hq, hq', atSpan, Except.mapError]
  exact ⟨rfl, hx, ha⟩

end

-- ---------------------------------------------------------------------------
-- Comparisons
-- ---------------------------------------------------------------------------

/-- What two executions are compared in. -/
structure Comparison where
  layout : Layout
  /-- Reals that lie closer are equal. -/
  epsilon : Float
  /-- The storages agree on the variables of these instances whatever runs. -/
  kept : List InstanceId
  /-- A unit is executed, which may call others and may pause. -/
  inUnit : Prop

namespace Comparison

open Run

variable {c : Comparison} {n : Nat} {extra : List InstanceId} {before mid after : Chain}
  {Q Q' : Evaluated → Prop} {α : Type}

def env (c : Comparison) : Environment := ⟨c.layout.library, c.epsilon⟩

/-- Both executions pause in a unit with the same frames left to do. -/
structure Halts (c : Comparison) (frames : List Frame) (x x' : Execution) : Prop where
  inUnit : c.inUnit
  nonempty : frames ≠ []
  cursor : x.cursor = x'.cursor
  announced : x.cursor.pause ≠ none → Frame.finished frames = []
  storages : Storage.Coupled c.layout (Frame.finished frames ++ c.kept ++ x.cursor.chain.instances) x.storage x'.storage

/-- Micro-steps of two executions end in the same way, and so do those that follow, up to a number of pauses. -/
def ParallelEnd (c : Comparison) (after : Chain) (Q : Evaluated → Prop) : (pauses : Nat) → Stepped → Stepped → Prop
  | _, .error d x, .error d' x' => d = d' ∧ Storage.Coupled c.layout c.kept x.storage x'.storage
  | _, .ok (.done r) x, .ok (.done r') x' => r = r' ∧ Q r ∧ Abreast c.layout c.kept after x x'
  | 0, .ok (.paused frames) x, .ok (.paused frames') x' => frames = frames' ∧ c.Halts frames x x'
  | n + 1, .ok (.paused frames) x, .ok (.paused frames') x' => frames = frames' ∧ c.Halts frames x x' ∧
    ∀ z z', Abreast c.layout (Frame.finished frames ++ c.kept) x.cursor.chain z z' →
      c.ParallelEnd after Q n (microStep c.env frames z) (microStep c.env frames z')
  | _, _, _ => False

/--
Executions of it that are abreast end in the same way, up to a number of pauses. At the beginning the storages agree on
some more instances.
-/
def Parallel (c : Comparison) (pauses : Nat) (extra : List InstanceId) (before after : Chain)
    (m : Run (Progress Evaluated)) (Q : Evaluated → Prop) : Prop :=
  ∀ x x', Abreast c.layout (extra ++ c.kept) before x x' → c.ParallelEnd after Q pauses (m x) (m x')

-- ---------------------------------------------------------------------------
-- How micro-steps end
-- ---------------------------------------------------------------------------

variable {p p' : Stepped}

/-- The ways in which two micro-steps end alike. -/
theorem ParallelEnd.cases (h : c.ParallelEnd after Q n p p') :
    (∃ d x x', p = .error d x ∧ p' = .error d x' ∧ Storage.Coupled c.layout c.kept x.storage x'.storage) ∨
    (∃ r x x', p = .ok (.done r) x ∧ p' = .ok (.done r) x' ∧ Q r ∧ Abreast c.layout c.kept after x x') ∨
    ∃ frames x x', p = .ok (.paused frames) x ∧ p' = .ok (.paused frames) x' ∧ c.Halts frames x x' := by
  rcases p with ⟨r | frames, x⟩ | ⟨d, x⟩ <;> rcases p' with ⟨r' | frames', x'⟩ | ⟨d', x'⟩ <;> cases n <;>
    first
    | exact False.elim h
    | (obtain ⟨rfl, h⟩ := h; exact .inl ⟨d, x, x', rfl, rfl, h⟩)
    | (obtain ⟨rfl, hr, h⟩ := h; exact .inr (.inl ⟨r, x, x', rfl, rfl, hr, h⟩))
    | (obtain ⟨rfl, h, -⟩ := h; exact .inr (.inr ⟨frames, x, x', rfl, rfl, h⟩))
    | (obtain ⟨rfl, h⟩ := h; exact .inr (.inr ⟨frames, x, x', rfl, rfl, h⟩))

/-- After a pause the executions go on to end alike. -/
theorem ParallelEnd.next {frames : List Frame} {x x' : Execution}
    (h : c.ParallelEnd after Q (n + 1) (.ok (.paused frames) x) (.ok (.paused frames) x')) {z z' : Execution}
    (hz : Abreast c.layout (Frame.finished frames ++ c.kept) x.cursor.chain z z') :
    c.ParallelEnd after Q n (microStep c.env frames z) (microStep c.env frames z') := h.2.2 z z' hz

theorem ParallelEnd.error {d : Diagnostic} {x x' : Execution}
    (h : Storage.Coupled c.layout c.kept x.storage x'.storage) :
    c.ParallelEnd after Q n (.error d x) (.error d x') := by
  cases n <;> exact ⟨rfl, h⟩

theorem ParallelEnd.done {r : Evaluated} {x x' : Execution} (hr : Q r) (h : Abreast c.layout c.kept after x x') :
    c.ParallelEnd after Q n (.ok (.done r) x) (.ok (.done r) x') := by
  cases n <;> exact ⟨rfl, hr, h⟩

theorem ParallelEnd.paused {frames : List Frame} {x x' : Execution} (h : c.Halts frames x x')
    (hnext : ∀ k < n, ∀ z z', Abreast c.layout (Frame.finished frames ++ c.kept) x.cursor.chain z z' →
      c.ParallelEnd after Q k (microStep c.env frames z) (microStep c.env frames z')) :
    c.ParallelEnd after Q n (.ok (.paused frames) x) (.ok (.paused frames) x') := by
  cases n with
  | zero => exact ⟨rfl, h⟩
  | succ n => exact ⟨rfl, h, hnext n (Nat.lt_succ_self n)⟩

theorem ParallelEnd.mono {k : Nat} (hk : k ≤ n) (hQ : ∀ r, Q r → Q' r) (h : c.ParallelEnd after Q n p p') :
    c.ParallelEnd after Q' k p p' := by
  induction k using Nat.strongRecOn generalizing n p p' with
  | ind k ih =>
    obtain ⟨d, x, x', rfl, rfl, hx⟩ | ⟨r, x, x', rfl, rfl, hr, hx⟩ | ⟨frames, x, x', rfl, rfl, hx⟩ := h.cases
    · exact .error hx
    · exact .done (hQ r hr) hx
    · refine .paused hx fun j hj z z' hz => ?_
      cases n with
      | zero => omega
      | succ n => exact ih j hj (by omega) (h.next hz)

/-- Frames that wait for the result go on with it. -/
theorem ParallelEnd.follow {outer : List Frame} (h : c.ParallelEnd mid Q n p p')
    (houter : ∀ r, Q r → c.Parallel n [] mid after (resumeAll c.env outer r) Q') :
    c.ParallelEnd after Q' n (Run.follow c.env outer p) (Run.follow c.env outer p') := by
  induction n using Nat.strongRecOn generalizing p p' with
  | ind n ih =>
    obtain ⟨d, x, x', rfl, rfl, hx⟩ | ⟨r, x, x', rfl, rfl, hr, hx⟩ | ⟨frames, x, x', rfl, rfl, hx⟩ := h.cases
    · exact .error hx
    · exact houter r hr x x' hx
    · have hfinished := Frame.finished_append hx.nonempty outer
      refine .paused ⟨hx.inUnit, List.append_ne_nil_of_left_ne_nil hx.nonempty _, hx.cursor, ?_, ?_⟩
        fun k hk z z' hz => ?_
      · rw [hfinished]
        exact hx.announced
      · rw [hfinished]
        exact hx.storages
      · rw [hfinished] at hz
        rw [microStep_append, microStep_append]
        cases n with
        | zero => omega
        | succ n =>
          refine ih k hk ((h.next hz).mono (Nat.lt_succ_iff.mp hk) fun _ => id) fun r hr z z' hz => ?_
          exact (houter r hr z z' hz).mono (Nat.le_of_lt hk) fun _ => id

-- ---------------------------------------------------------------------------
-- Parallel executions
-- ---------------------------------------------------------------------------

namespace Parallel

variable {m m' : Run (Progress Evaluated)}

/-- Up to fewer pauses, too. -/
theorem fewer {k : Nat} (hk : k ≤ n) (h : c.Parallel n extra before after m Q) :
    c.Parallel k extra before after m Q := fun x x' hx => (h x x' hx).mono hk fun _ => id

/-- With a weaker property of the result. -/
theorem weaken (h : c.Parallel n extra before after m Q) (hQ : ∀ r, Q r → Q' r) :
    c.Parallel n extra before after m Q' := fun x x' hx => (h x x' hx).mono (Nat.le_refl n) hQ

theorem done {r : Evaluated} (h : Q r) : c.Parallel n extra before before (pure (.done r)) Q := by
  intro x x' hx
  refine ParallelEnd.done h ⟨hx.cursor, hx.onChain, hx.pause, hx.storages.mono ?_⟩
  rw [List.append_assoc]
  exact List.subset_append_right _ _

theorem fail {d : Diagnostic} : c.Parallel n extra before after (throw d) Q :=
  fun _ _ hx => .error hx.coupled

/-- A micro-step ends. -/
theorem paused {frames : List Frame} (hin : c.inUnit) (hne : frames ≠ []) (hfinished : Frame.finished frames = extra)
    (h : ∀ k < n, c.Parallel k extra before after (microStep c.env frames) Q) :
    c.Parallel n extra before after (pure (.paused frames)) Q := by
  subst hfinished
  intro x x' hx
  refine .paused ⟨hin, hne, hx.cursor, fun hpause => absurd hx.pause hpause, ?_⟩ fun k hk z z' hz => ?_
  · rw [hx.onChain]
    exact hx.storages
  · rw [hx.onChain] at hz
    exact h k hk z z' hz

/-- A micro-step ends before a statement that is announced. -/
theorem announced {frames : List Frame} {span : Span} (hin : c.inUnit) (hne : frames ≠ [])
    (hfinished : Frame.finished frames = [])
    (h : ∀ k < n, c.Parallel k [] before after (microStep c.env frames) Q) :
    c.Parallel n [] before after (do onCursor (·.pauseAt span); pure (.paused frames)) Q := by
  intro x x' hx
  have hchain : (x.cursor.pauseAt span).chain = before := hx.onChain
  refine .paused ⟨hin, hne, congrArg (·.pauseAt span) hx.cursor, fun _ => hfinished, ?_⟩ fun k hk z z' hz => ?_
  · rw [hfinished]
    exact hchain ▸ hx.storages
  · rw [hfinished] at hz
    exact h k hk z z' (hchain ▸ hz)

/-- A computation within the micro-step comes first. -/
theorem bind {R : α → Prop} {m : Run α} {k : α → Run (Progress Evaluated)}
    (hm : Uniform (Abreast c.layout (extra ++ c.kept) before) m R)
    (hk : ∀ a, R a → c.Parallel n extra before after (k a) Q) : c.Parallel n extra before after (m >>= k) Q := by
  intro x x' hx
  rw [EStateM.bind_apply, EStateM.bind_apply]
  obtain ⟨a, z, z', hr, hr', hz, ha⟩ | ⟨d, z, z', hr, hr', hz⟩ := (hm x x' hx).ok_or_error <;> rw [hr, hr']
  · exact hk a ha z z' hz
  · exact .error hz.coupled

/-- The cursor is read, which is the same in both executions. -/
theorem reads {k : Execution → Run (Progress Evaluated)}
    (h : ∀ x : Execution, x.cursor.chain = before → c.Parallel n extra before after (k x) Q)
    (hk : ∀ (s s' : Storage) (cursor : Cursor), k ⟨s, cursor⟩ = k ⟨s', cursor⟩) :
    c.Parallel n extra before after (get >>= k) Q := by
  rintro ⟨s, cursor⟩ ⟨s', cursor'⟩ hx
  obtain rfl : cursor = cursor' := hx.cursor
  show c.ParallelEnd after Q n (k ⟨s, cursor⟩ ⟨s, cursor⟩) (k ⟨s', cursor⟩ ⟨s', cursor⟩)
  rw [hk s' s]
  exact h ⟨s, cursor⟩ hx.onChain _ _ hx

/-- The cursor changes within the micro-step, and the storages need not agree on more than before. -/
theorem onCursor (mid : Chain) (extra' : List InstanceId) {f : Cursor → Cursor} {k : Unit → Run (Progress Evaluated)}
    (hf : ∀ cursor : Cursor, cursor.chain = before → (f cursor).chain = mid ∧ (f cursor).pause = cursor.pause)
    (hsub : extra' ++ c.kept ++ mid.instances ⊆ extra ++ c.kept ++ before.instances)
    (h : c.Parallel n extra' mid after (k ()) Q) : c.Parallel n extra before after (Run.onCursor f >>= k) Q := by
  rintro ⟨s, cursor⟩ ⟨s', cursor'⟩ hx
  obtain rfl : cursor = cursor' := hx.cursor
  obtain ⟨hchain, hpause⟩ := hf cursor hx.onChain
  exact h ⟨s, f cursor⟩ ⟨s', f cursor⟩ ⟨rfl, hchain, hpause.trans hx.pause, hx.storages.mono hsub⟩

/-- The instances on the chain stay the same when the cursor changes. -/
theorem steering {f : Cursor → Cursor} {k : Unit → Run (Progress Evaluated)}
    (hf : ∀ cursor : Cursor, (f cursor).chain = cursor.chain ∧ (f cursor).pause = cursor.pause)
    (h : c.Parallel n extra before after (k ()) Q) : c.Parallel n extra before after (Run.onCursor f >>= k) Q :=
  .onCursor before extra (fun cursor hchain => ⟨(hf cursor).1.trans hchain, (hf cursor).2⟩) (List.Subset.refl _) h

theorem ite {q : Prop} [Decidable q] (h : q → c.Parallel n extra before after m Q)
    (h' : ¬ q → c.Parallel n extra before after m' Q) :
    c.Parallel n extra before after (if q then m else m') Q := by
  split
  · exact h ‹_›
  · exact h' ‹_›

/-- Frames that wait for the result go on with it. -/
theorem andThen {frame : Frame} {next : Evaluated → Run (Progress Evaluated)}
    (h : c.Parallel n extra before mid m Q) (hframe : ∀ r, resume c.env r frame = next r)
    (hnext : ∀ r, Q r → c.Parallel n [] mid after (next r) Q') :
    c.Parallel n extra before after (Run.andThen m frame next) Q' := by
  intro x x' hx
  rw [andThen_apply hframe, andThen_apply hframe]
  refine (h x x' hx).follow fun r hr z z' hz => ?_
  rw [resumeAll_singleton, resumeAll_singleton, hframe]
  exact hnext r hr z z' hz

/-- A frame is resumed, and the frames behind it wait for the result. -/
theorem resumed {frame : Frame} {outer : List Frame} {r : Evaluated}
    (h : c.Parallel n extra before mid (resume c.env r frame) Q)
    (houter : ∀ r, Q r → c.Parallel n [] mid after (resumeAll c.env outer r) Q') :
    c.Parallel n extra before after (resumeAll c.env (frame :: outer) r) Q' := by
  intro x x' hx
  rw [resumeAll_cons, resumeAll_cons]
  exact (h x x' hx).follow houter

theorem finished {r : Evaluated} (h : Q r) : c.Parallel n [] before before (resumeAll c.env [] r) Q := done h

end Parallel

end Comparison

end StructuredText
