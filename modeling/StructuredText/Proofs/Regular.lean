-- SUMMARY: Computations that fail only with errors of the program, and the operations on values among them.
import StructuredText.Proofs.Computation
import StructuredText.StandardFunction
import StructuredText.Storage

/-!
# Regular computations

An error tells either of the program or of an invariant of the interpreter that is broken. A computation is
regular if it never fails with an error of the second kind. What it results in is part of the notion, so that
the parts of a computation can be gone through in turn.
-/

namespace StructuredText

-- ---------------------------------------------------------------------------
-- Ordinary errors
-- ---------------------------------------------------------------------------

/-- Errors, of which some tell of a broken invariant. The other ones are ordinary. -/
class Reporting (ε : Type) where
  Ordinary : ε → Prop

instance : Reporting ValueError := ⟨fun e => e.problem ≠ .internalInvariant⟩

instance : Reporting Diagnostic := ⟨fun d => d.problem ≠ .internalInvariant⟩

instance : Reporting (List Diagnostic) := ⟨fun ds => ∀ d ∈ ds, Reporting.Ordinary d⟩

open Reporting

theorem Diagnostic.ordinary_iff {d : Diagnostic} : Ordinary d ↔ d.problem ≠ .internalInvariant := .rfl

theorem ValueError.problem_at (e : ValueError) (span : Span) : (e.at span).problem = e.problem := by
  cases e <;> rfl

theorem ValueError.ordinary_at {e : ValueError} (h : Ordinary e) (span : Span) :
    Ordinary (e.at span) := by
  rw [Diagnostic.ordinary_iff, e.problem_at]
  exact h

theorem ValueError.ordinary_between {e : ValueError} (h : Ordinary e) (left right : Span) :
    Ordinary (e.between left right) := e.ordinary_at h left

-- ---------------------------------------------------------------------------
-- Regular computations
-- ---------------------------------------------------------------------------

/-- The computation results in a value with the property, or fails with an ordinary error. -/
structure Regular {ε α : Type} [Reporting ε] (x : Except ε α) (Q : α → Prop) : Prop where
  of_ok : ∀ {a}, x = .ok a → Q a
  of_error : ∀ {e}, x = .error e → Ordinary e

namespace Regular

variable {ε ε' α β : Type} [Reporting ε] [Reporting ε'] {Q : α → Prop} {Q' : β → Prop}

theorem ok {a : α} (h : Q a) : Regular (.ok a : Except ε α) Q :=
  ⟨fun heq => Except.ok.inj heq ▸ h, nofun⟩

theorem pure {a : α} (h : Q a) : Regular (Pure.pure a : Except ε α) Q := ok h

theorem error {e : ε} (h : Ordinary e) : Regular (.error e : Except ε α) Q :=
  ⟨nofun, fun heq => Except.error.inj heq ▸ h⟩

theorem fail {e : ε} (h : Ordinary e) : Regular (throw e : Except ε α) Q := error h

theorem mono {R : α → Prop} {x : Except ε α} (h : Regular x Q) (hQ : ∀ a, Q a → R a) :
    Regular x R := ⟨fun heq => hQ _ (h.of_ok heq), h.of_error⟩

/-- That the computation has the result may be used for the property of the result. -/
theorem and_ok {R : α → Prop} {x : Except ε α} (h : Regular x Q)
    (hQ : ∀ a, x = .ok a → Q a → R a) : Regular x R :=
  ⟨fun heq => hQ _ heq (h.of_ok heq), h.of_error⟩

theorem bind {x : Except ε α} {f : α → Except ε β} (hx : Regular x Q)
    (hf : ∀ a, Q a → Regular (f a) Q') : Regular (x >>= f) Q' := by
  cases x with
  | ok a => exact hf a (hx.of_ok rfl)
  | error e => exact error (hx.of_error rfl)

theorem map {x : Except ε α} {f : α → β} (hx : Regular x fun a => Q' (f a)) :
    Regular (f <$> x) Q' := by
  cases x with
  | ok a => exact ok (hx.of_ok rfl)
  | error e => exact error (hx.of_error rfl)

theorem mapError {f : ε → ε'} {x : Except ε α} (hf : ∀ e, Ordinary e → Ordinary (f e))
    (hx : Regular x Q) : Regular (x.mapError f) Q := by
  cases x with
  | ok a => exact ok (hx.of_ok rfl)
  | error e => exact error (hf e (hx.of_error rfl))

theorem ite {p : Prop} [Decidable p] {x x' : Except ε α} (h : p → Regular x Q)
    (h' : ¬ p → Regular x' Q) : Regular (if p then x else x') Q := by
  split
  · exact h ‹_›
  · exact h' ‹_›

/-- What is computed unless something is refused. -/
theorem guarded {p : Prop} [Decidable p] {e : ε} (he : Ordinary e) {x : Except ε α} (h : Regular x Q) :
    Regular (if p then (throw e : Except ε Unit) >>= fun _ => x else x) Q := by
  split
  · exact error he
  · exact h

theorem mapM {R : α → β → Prop} {f : α → Except ε β} {as : List α}
    (hf : ∀ a ∈ as, Regular (f a) (R a)) : Regular (as.mapM f) (List.Forall₂ R as) := by
  induction as with
  | nil => exact ok .nil
  | cons a as ih =>
    rw [List.mapM_cons]
    refine bind (hf a List.mem_cons_self) fun b hb => ?_
    refine bind (ih fun a' ha => hf a' (List.mem_cons_of_mem a ha)) fun bs hbs => ?_
    exact pure (.cons hb hbs)

theorem foldlM {P : β → Prop} {f : β → α → Except ε β} {as : List α} {b : β} (hb : P b)
    (hf : ∀ a ∈ as, ∀ b, P b → Regular (f b a) P) : Regular (as.foldlM f b) P := by
  induction as generalizing b with
  | nil => exact ok hb
  | cons a as ih =>
    rw [List.foldlM_cons]
    exact bind (hf a List.mem_cons_self b hb) fun b' hb' =>
      ih hb' fun a' ha => hf a' (List.mem_cons_of_mem a ha)

/-- A computation that succeeds is regular. -/
theorem of_exists {x : Except ε α} (h : ∃ a, x = .ok a ∧ Q a) : Regular x Q := by
  obtain ⟨a, rfl, ha⟩ := h
  exact ok ha

theorem atSpan {x : Except ValueError α} (hx : Regular x Q) (span : Span) :
    Regular (StructuredText.atSpan span x) Q :=
  mapError (fun _ h => ValueError.ordinary_at h span) hx

end Regular

/-- The computation fails with ordinary errors only. -/
abbrev Orderly {ε α : Type} [Reporting ε] (x : Except ε α) : Prop := Regular x fun _ => True

-- ---------------------------------------------------------------------------
-- Regular computations on a state
-- ---------------------------------------------------------------------------

/-- What a computation ends with: a result and a state that are related, or an ordinary error and a state. -/
def Ends {ε σ α : Type} [Reporting ε] (R : α → σ → Prop) (E : σ → Prop) : EStateM.Result ε σ α → Prop
  | .ok a s => R a s
  | .error e s => E s ∧ Ordinary e

theorem Ends.mono {ε σ α : Type} [Reporting ε] {R R' : α → σ → Prop} {E E' : σ → Prop}
    {result : EStateM.Result ε σ α} (h : Ends R E result) (hR : ∀ a s, R a s → R' a s) (hE : ∀ s, E s → E' s) :
    Ends R' E' result := by
  cases result with
  | ok a s => exact hR a s h
  | error e s => exact ⟨hE s h.1, h.2⟩

/--
From a state with the invariant on, the computation ends in a state with the invariant, and results in a value
with the property or fails with an ordinary error.
-/
def Maintains {ε σ α : Type} [Reporting ε] (I : σ → Prop) (m : EStateM ε σ α) (Q : α → Prop) : Prop :=
  ∀ s, I s → Ends (fun a s' => I s' ∧ Q a) I (m s)

namespace Maintains

variable {ε σ α β : Type} [Reporting ε] {I : σ → Prop} {Q : α → Prop} {Q' : β → Prop}

theorem pure {a : α} (h : Q a) : Maintains I (Pure.pure a : EStateM ε σ α) Q := fun _ hs => ⟨hs, h⟩

theorem fail {e : ε} (h : Ordinary e) : Maintains I (throw e : EStateM ε σ α) Q := fun _ hs => ⟨hs, h⟩

theorem bind {m : EStateM ε σ α} {k : α → EStateM ε σ β} (hm : Maintains I m Q)
    (hk : ∀ a, Q a → Maintains I (k a) Q') : Maintains I (m >>= k) Q' := by
  intro s hs
  have h := hm s hs
  simp only [EStateM.bind_apply]
  rcases hx : m s with ⟨a, s'⟩ | ⟨e, s'⟩ <;> rw [hx] at h
  · exact hk a h.2 s' h.1
  · exact h

theorem bind_fail {e : ε} {k : α → EStateM ε σ β} (h : Ordinary e) :
    Maintains I (throw e >>= k) Q' := fail h

/-- The state is read. -/
theorem reads {k : σ → EStateM ε σ α} (h : ∀ s, I s → Maintains I (k s) Q) :
    Maintains I (get >>= k) Q := fun s hs => h s hs s hs

theorem modify {f : σ → σ} (h : ∀ s, I s → I (f s)) :
    Maintains I (modify f : EStateM ε σ Unit) fun _ => True := fun s hs => ⟨h s hs, trivial⟩

theorem checked {x : Except ε α} (h : Regular x Q) : Maintains I (ofExcept x : EStateM ε σ α) Q := by
  cases x with
  | ok a => exact pure (h.of_ok rfl)
  | error e => exact fail (h.of_error rfl)

theorem ite {p : Prop} [Decidable p] {m m' : EStateM ε σ α} (h : p → Maintains I m Q)
    (h' : ¬ p → Maintains I m' Q) : Maintains I (if p then m else m') Q := by
  split
  · exact h ‹_›
  · exact h' ‹_›

theorem forIn {ι : Type} {m : ι → β → EStateM ε σ (ForInStep β)} {is : List ι} {b : β}
    (h : ∀ i ∈ is, ∀ b, Maintains I (m i b) fun _ => True) :
    Maintains I (ForIn.forIn is b m) fun _ => True := by
  induction is generalizing b with
  | nil => exact pure trivial
  | cons i is ih =>
    rw [List.forIn_cons]
    refine bind (h i List.mem_cons_self b) fun step _ => ?_
    cases step with
    | done b => exact pure trivial
    | yield b => exact ih fun i hi => h i (List.mem_cons_of_mem _ hi)

end Maintains

end StructuredText
