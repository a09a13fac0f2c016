-- SUMMARY: Equations for computations that change a state and may fail, applied to a state.
import Mathlib.Data.List.Forall2
import StructuredText.Value.Error

/-!
# Computations on a state

Operations on the storage, executions and operations on the interpreter are functions of a state. The
equations below apply them to the state, one for each way of building a computation, so that a proof reads
off what the parts do in turn.
-/

namespace Except

variable {ε α β : Type}

@[simp] theorem ok_bind (a : α) (f : α → Except ε β) : (.ok a >>= f) = f a := rfl

@[simp] theorem error_bind (e : ε) (f : α → Except ε β) : (.error e >>= f) = .error e := rfl

theorem bind_eq_ok {x : Except ε α} {f : α → Except ε β} {b : β} :
    (x >>= f) = .ok b ↔ ∃ a, x = .ok a ∧ f a = .ok b := by
  cases x <;> simp [bind, Except.bind]

theorem ite_error_eq_ok {p : Prop} [Decidable p] {e : ε} {x : Except ε α} {a : α} :
    (if p then .error e else x) = .ok a ↔ ¬ p ∧ x = .ok a := by
  split <;> simp_all

theorem map_eq_ok {x : Except ε α} {f : α → β} {b : β} :
    f <$> x = .ok b ↔ ∃ a, x = .ok a ∧ f a = b := by
  cases x <;> simp [Functor.map, Except.map]

theorem mapError_eq_ok {ε' : Type} {f : ε → ε'} {x : Except ε α} {a : α} :
    x.mapError f = .ok a ↔ x = .ok a := by
  cases x <;> simp [Except.mapError]

end Except

theorem StructuredText.atSpan_eq_ok {α : Type} {span : Span} {x : Except ValueError α} {a : α} :
    atSpan span x = .ok a ↔ x = .ok a := Except.mapError_eq_ok

/-- Monads in which it makes sense to say what a computation may result in. -/
class Returning (m : Type → Type) [Monad m] where
  Returns {α : Type} (x : m α) (a : α) : Prop
  of_pure {α : Type} {a b : α} : Returns (pure a) b → a = b
  of_bind {α β : Type} {x : m α} {f : α → m β} {b : β} :
    Returns (x >>= f) b → ∃ a, Returns x a ∧ Returns (f a) b
  of_map {α β : Type} {x : m α} {f : α → β} {b : β} : Returns (f <$> x) b → ∃ a, Returns x a ∧ f a = b

namespace Returning

variable {m : Type → Type} [Monad m] [Returning m] {α β : Type}

instance {ε : Type} : Returning (Except ε) where
  Returns x a := x = .ok a
  of_pure h := by
    cases h
    rfl
  of_bind := Except.bind_eq_ok.mp
  of_map := Except.map_eq_ok.mp

instance : Returning Id where
  Returns x a := x.run = a
  of_pure := id
  of_bind h := ⟨_, rfl, h⟩
  of_map h := ⟨_, rfl, h⟩

/-- From some state on, the computation results in the value. -/
instance {σ : Type} : Returning (StateM σ) where
  Returns x a := ∃ s, (x.run s).1 = a
  of_pure h := h.elim fun _ => id
  of_bind h := h.elim fun s hs => ⟨_, ⟨s, rfl⟩, _, hs⟩
  of_map h := h.elim fun s hs => ⟨_, ⟨s, rfl⟩, hs⟩

theorem returns_of_eq_ok {ε : Type} {x : Except ε α} {a : α} (h : x = .ok a) : Returns x a := h

/-- What a computation on each item of a list results in. -/
theorem forall₂_of_mapM [LawfulMonad m] {f : α → m β} {as : List α} {bs : List β}
    (h : Returns (as.mapM f) bs) : List.Forall₂ (fun a => Returns (f a)) as bs := by
  induction as generalizing bs with
  | nil =>
    rw [List.mapM_nil] at h
    obtain rfl := of_pure h
    exact .nil
  | cons a as ih =>
    rw [List.mapM_cons] at h
    obtain ⟨b, hb, h⟩ := of_bind h
    obtain ⟨bs, hbs, h⟩ := of_bind h
    obtain rfl := of_pure h
    exact .cons hb (ih hbs)

end Returning

namespace List

variable {ε α β : Type} {f : α → Except ε β} {as : List α} {bs : List β}

/-- A computation on a list succeeds with what it succeeds with on each item. -/
theorem mapM_eq_ok : as.mapM f = .ok bs ↔ Forall₂ (f · = .ok ·) as bs := by
  refine ⟨fun h => Returning.forall₂_of_mapM (m := Except ε) h, fun h => ?_⟩
  induction h with
  | nil => rfl
  | cons hb _ ih =>
    rw [mapM_cons, hb, Except.ok_bind, ih]
    rfl

theorem exists_mapM_eq_ok : (∃ bs, as.mapM f = .ok bs) ↔ ∀ a ∈ as, ∃ b, f a = .ok b := by
  induction as with
  | nil => simp [pure, Except.pure]
  | cons a as ih =>
    rw [forall_mem_cons, ← ih, mapM_cons]
    cases f a <;> cases as.mapM f <;> simp [bind, Except.bind, pure, Except.pure]

/-- It fails as it does on the first item on which it fails. -/
theorem mapM_eq_error {e : ε} : as.mapM f = .error e ↔
    ∃ before a after, as = before ++ a :: after ∧ (∀ a ∈ before, ∃ b, f a = .ok b) ∧ f a = .error e := by
  induction as with
  | nil => simp [pure, Except.pure]
  | cons a as ih =>
    rw [mapM_cons]
    cases ha : f a with
    | error e' =>
      constructor
      · rintro ⟨⟩
        exact ⟨[], a, as, rfl, forall_mem_nil _, ha⟩
      · rintro ⟨before, a', after, has, hbefore, ha'⟩
        cases before with
        | nil =>
          cases has
          cases ha.symm.trans ha'
          rfl
        | cons b before =>
          cases has
          obtain ⟨_, hb⟩ := hbefore a mem_cons_self
          cases ha.symm.trans hb
    | ok b =>
      have hrest : (do let bs ← as.mapM f; pure (b :: bs)) = .error e ↔ as.mapM f = .error e := by
        cases as.mapM f <;> simp [bind, Except.bind, pure, Except.pure]
      rw [Except.ok_bind, hrest, ih]
      constructor
      · rintro ⟨before, a', after, rfl, hbefore, ha'⟩
        exact ⟨a :: before, a', after, rfl, forall_mem_cons.mpr ⟨⟨b, ha⟩, hbefore⟩, ha'⟩
      · rintro ⟨before, a', after, has, hbefore, ha'⟩
        cases before with
        | nil =>
          cases has
          cases ha.symm.trans ha'
        | cons _ before =>
          cases has
          exact ⟨before, a', after, rfl, (forall_mem_cons.mp hbefore).2, ha'⟩

theorem mapM_replicate {a : α} {n : Nat} (hn : 0 < n) :
    (replicate n a).mapM f = (f a).map (replicate n) := by
  induction n with
  | zero => cases hn
  | succ n ih =>
    rw [replicate_succ, mapM_cons]
    rcases Nat.eq_zero_or_pos n with rfl | hn
    · cases f a <;> rfl
    · rw [ih hn]
      cases f a <;> rfl

end List

namespace EStateM

variable {ε σ α β : Type}

@[simp] theorem bind_apply (x : EStateM ε σ α) (f : α → EStateM ε σ β) (s : σ) :
    (x >>= f) s = match x s with
      | .ok a s => f a s
      | .error e s => .error e s := rfl

@[simp] theorem pure_apply (a : α) (s : σ) : (pure a : EStateM ε σ α) s = .ok a s := rfl

@[simp] theorem throw_apply (e : ε) (s : σ) : (throw e : EStateM ε σ α) s = .error e s := rfl

@[simp] theorem get_apply (s : σ) : (get : EStateM ε σ σ) s = .ok s s := rfl

@[simp] theorem modify_apply (f : σ → σ) (s : σ) :
    (modify f : EStateM ε σ PUnit) s = .ok ⟨⟩ (f s) := rfl

@[simp] theorem modifyGet_apply (f : σ → α × σ) (s : σ) :
    (modifyGet f : EStateM ε σ α) s = .ok (f s).1 (f s).2 := rfl

@[simp] theorem ofExcept_apply (x : Except ε α) (s : σ) :
    (ofExcept x : EStateM ε σ α) s = match x with
      | .ok a => .ok a s
      | .error e => .error e s := by
  cases x <;> rfl

@[simp] theorem map_apply (f : α → β) (x : EStateM ε σ α) (s : σ) :
    (f <$> x) s = match x s with
      | .ok a s => .ok (f a) s
      | .error e s => .error e s := by
  cases h : x s <;> simp [Functor.map, EStateM.map, h]

@[simp] theorem adaptExcept_apply {ε' : Type} (f : ε → ε') (x : EStateM ε σ α) (s : σ) :
    x.adaptExcept f s = match x s with
      | .ok a s => .ok a s
      | .error e s => .error (f e) s := by
  cases h : x s <;> simp [EStateM.adaptExcept, h]

/-- What fails is caught in the state that it has come to. -/
@[simp] theorem tryCatch_apply (x : EStateM ε σ α) (handle : ε → EStateM ε σ α) (s : σ) :
    (tryCatch x handle : EStateM ε σ α) s = match x s with
      | .ok a s => .ok a s
      | .error e s => handle e s := by
  change EStateM.tryCatch x handle s = _
  unfold EStateM.tryCatch
  cases x s <;> rfl

/-- The state that a computation ends in, whether it has failed or not. -/
def Result.state : Result ε σ α → σ
  | .ok _ s | .error _ s => s

def Result.isOk : Result ε σ α → Bool
  | .ok .. => true
  | .error .. => false

theorem Result.eq_ok_of_isOk {r : Result ε σ Unit} (h : r.isOk = true) : r = .ok () r.state := by
  cases r with
  | ok => rfl
  | error => cases h

@[simp] theorem Result.state_ok (a : α) (s : σ) : (Result.ok a s : Result ε σ α).state = s := rfl

@[simp] theorem Result.state_error (e : ε) (s : σ) :
    (Result.error e s : Result ε σ α).state = s := rfl

end EStateM
