-- SUMMARY: Storages that differ only in what is left in the variables of functions that are not being executed.
import StructuredText.Proofs.Locate

/-!
# Storages alike

A function has one instance, whose variables are reset by every call. Two storages are alike up to some functions if
they differ only in what the variables of other functions hold, function blocks apart. What is read in a variable that
is the same in both is the same, and what is written there leaves the storages alike. A reference in the body of an
instance never leads to a variable of another function: it starts in the instance, in a global variable or in a program,
and goes on in function blocks. Resetting the variables of a function makes them the same in both storages, since only
the function blocks in them are kept.
-/

namespace StructuredText

-- ---------------------------------------------------------------------------
-- Function blocks in values
-- ---------------------------------------------------------------------------

namespace Value

mutual

/-- The function blocks in a value, at their positions. What else the value holds is left out. -/
def bindings : Value → Value
  | .block ref => .block ref
  | .array elements => .array (bindingsOfAll elements)
  | .struct members => .struct (bindingsOfMembers members)
  | _ => .void

def bindingsOfAll : List Value → List Value
  | [] => []
  | v :: vs => v.bindings :: bindingsOfAll vs

def bindingsOfMembers : List (Ident × Value) → List (Ident × Value)
  | [] => []
  | (name, v) :: rest => (name, v.bindings) :: bindingsOfMembers rest

end

end Value

mutual

/-- Of the old value only the function blocks matter. -/
theorem keepInstances_bindings : (old fresh : Value) → keepInstances old.bindings fresh = keepInstances old fresh
  | old, .block ref => by
    rw [TypeTable.keepInstances_block, TypeTable.keepInstances_block]
    cases old <;> rfl
  | old, .array fresh => by
    rw [TypeTable.keepInstances_array, TypeTable.keepInstances_array]
    cases old with
    | array olds => exact congrArg Value.array (keepAll_bindings olds fresh)
    | _ => rfl
  | old, .struct fresh => by
    rw [TypeTable.keepInstances_struct, TypeTable.keepInstances_struct]
    cases old with
    | struct olds => exact congrArg Value.struct (keepMembers_bindings olds fresh)
    | _ => rfl
  | _, .void | _, .bool _ | _, .integer _ | _, .bits _ | _, .real _ | _, .string _ | _, .duration _ | _, .date _
  | _, .timeOfDay _ | _, .dateAndTime _ | _, .enumeration _ | _, .arrayInit _ => by
    rw [keepInstances.eq_def, keepInstances.eq_def]

theorem keepAll_bindings : (olds fresh : List Value) → keepAll (Value.bindingsOfAll olds) fresh = keepAll olds fresh
  | [], fresh => rfl
  | old :: olds, [] => rfl
  | old :: olds, fresh :: rest => by
    rw [Value.bindingsOfAll, keepAll, keepAll, keepInstances_bindings old fresh, keepAll_bindings olds rest]

theorem keepMembers_bindings :
    (olds fresh : List (Ident × Value)) → keepMembers (Value.bindingsOfMembers olds) fresh = keepMembers olds fresh
  | [], fresh => rfl
  | (_, old) :: olds, [] => rfl
  | (_, old) :: olds, (name, fresh) :: rest => by
    rw [Value.bindingsOfMembers, keepMembers, keepMembers, keepInstances_bindings old fresh,
      keepMembers_bindings olds rest]

end

theorem keepInstances_congr {old old' : Value} (h : old.bindings = old'.bindings) (fresh : Value) :
    keepInstances old fresh = keepInstances old' fresh := by
  rw [← keepInstances_bindings, h, keepInstances_bindings]

/-- The unit of an instance, and the function blocks in its variables. -/
def Instance.bindings (found : Instance) : Instance := { found with vars := found.vars.map Value.bindings }

/-- What the variables of a unit are reset to depends on the function blocks in them only. -/
theorem Storage.freshVars_congr (p : Pou) {old old' : List Value}
    (h : old.map Value.bindings = old'.map Value.bindings) : freshVars p old = freshVars p old' := by
  refine List.ext_getElem? fun k => ?_
  simp only [freshVars, List.getElem?_map, List.zip, List.getElem?_zipWith]
  have hk := congrArg (·[k]?) h
  simp only [List.getElem?_map] at hk
  cases hv : old[k]? with
  | none =>
    rw [hv] at hk
    rw [Option.map_eq_none_iff.mp hk.symm]
  | some v =>
    rw [hv, Option.map_some] at hk
    obtain ⟨v', hv', hsame⟩ := Option.map_eq_some_iff.mp hk.symm
    rw [hv']
    cases p.vars[k]? with
    | none => rfl
    | some decl => simp only [Option.map_some, keepInstances_congr hsame]

-- ---------------------------------------------------------------------------
-- Computations that end alike
-- ---------------------------------------------------------------------------

/-- Two computations end with the same result or with the same error, in states that are related accordingly. -/
def EndTogether {ε σ σ' α : Type} (R : α → σ → σ' → Prop) (E : σ → σ' → Prop) :
    EStateM.Result ε σ α → EStateM.Result ε σ' α → Prop
  | .ok a s, .ok a' s' => a = a' ∧ R a s s'
  | .error e s, .error e' s' => e = e' ∧ E s s'
  | _, _ => False

namespace EndTogether

variable {ε σ σ' α β : Type} {R R' : α → σ → σ' → Prop} {S : β → σ → σ' → Prop} {E E' : σ → σ' → Prop} {s : σ} {s' : σ'}

theorem ok_or_error {r : EStateM.Result ε σ α} {r' : EStateM.Result ε σ' α} (h : EndTogether R E r r') :
    (∃ a s s', r = .ok a s ∧ r' = .ok a s' ∧ R a s s') ∨ ∃ e s s', r = .error e s ∧ r' = .error e s' ∧ E s s' := by
  rcases r with ⟨a, s⟩ | ⟨e, s⟩ <;> rcases r' with ⟨a', s'⟩ | ⟨e', s'⟩
  · obtain ⟨rfl, hR⟩ := h
    exact .inl ⟨a, s, s', rfl, rfl, hR⟩
  · exact h.elim
  · exact h.elim
  · obtain ⟨rfl, hE⟩ := h
    exact .inr ⟨e, s, s', rfl, rfl, hE⟩

theorem mono {r : EStateM.Result ε σ α} {r' : EStateM.Result ε σ' α} (h : EndTogether R E r r')
    (hR : ∀ a s s', R a s s' → R' a s s') (hE : ∀ s s', E s s' → E' s s') : EndTogether R' E' r r' := by
  obtain ⟨a, s, s', rfl, rfl, hs⟩ | ⟨e, s, s', rfl, rfl, hs⟩ := h.ok_or_error
  · exact ⟨rfl, hR a s s' hs⟩
  · exact ⟨rfl, hE s s' hs⟩

theorem bind {m : EStateM ε σ α} {m' : EStateM ε σ' α} {k : α → EStateM ε σ β} {k' : α → EStateM ε σ' β}
    (hm : EndTogether R E (m s) (m' s')) (hk : ∀ a t t', R a t t' → EndTogether S E (k a t) (k' a t')) :
    EndTogether S E ((m >>= k) s) ((m' >>= k') s') := by
  rw [EStateM.bind_apply, EStateM.bind_apply]
  obtain ⟨a, t, t', hr, hr', ht⟩ | ⟨e, t, t', hr, hr', ht⟩ := hm.ok_or_error <;> rw [hr, hr']
  · exact hk a t t' ht
  · exact ⟨rfl, ht⟩

theorem adaptExcept {ε' : Type} {f : ε → ε'} {m : EStateM ε σ α} {m' : EStateM ε σ' α} (h : EndTogether R E (m s) (m' s')) :
    EndTogether R E (m.adaptExcept f s) (m'.adaptExcept f s') := by
  rw [EStateM.adaptExcept_apply, EStateM.adaptExcept_apply]
  obtain ⟨a, t, t', hr, hr', ht⟩ | ⟨e, t, t', hr, hr', ht⟩ := h.ok_or_error <;> rw [hr, hr']
  · exact ⟨rfl, ht⟩
  · exact ⟨rfl, ht⟩

end EndTogether

/-- Two computations end with the same result, which has the property, or with the same error, in related states. -/
abbrev EndAlike {ε σ α : Type} (R : σ → σ → Prop) (Q : α → Prop) :
    EStateM.Result ε σ α → EStateM.Result ε σ α → Prop :=
  EndTogether (fun a s s' => R s s' ∧ Q a) R

/-- The computation does not tell related states apart, and leaves them related. -/
def Uniform {ε σ α : Type} (R : σ → σ → Prop) (m : EStateM ε σ α) (Q : α → Prop) : Prop :=
  ∀ s s', R s s' → EndAlike R Q (m s) (m s')

namespace Uniform

variable {ε σ α β : Type} {R : σ → σ → Prop} {Q : α → Prop} {Q' : β → Prop}

theorem pure {a : α} (h : Q a) : Uniform R (Pure.pure a : EStateM ε σ α) Q := fun _ _ hs => ⟨rfl, hs, h⟩

theorem fail {e : ε} : Uniform R (throw e : EStateM ε σ α) Q := fun _ _ hs => ⟨rfl, hs⟩

theorem bind {m : EStateM ε σ α} {k : α → EStateM ε σ β} (hm : Uniform R m Q)
    (hk : ∀ a, Q a → Uniform R (k a) Q') : Uniform R (m >>= k) Q' :=
  fun s s' hs => (hm s s' hs).bind fun a t t' ⟨ht, ha⟩ => hk a ha t t' ht

/-- What is computed from the state is the same in related states. -/
theorem reads {f : σ → Except ε β} {k : β → EStateM ε σ α} (hf : ∀ s s', R s s' → f s = f s')
    (hk : ∀ b, Uniform R (k b) Q) : Uniform R (get >>= fun s => ofExcept (f s) >>= k) Q := by
  intro s s' hs
  simp only [EStateM.bind_apply, EStateM.get_apply, EStateM.ofExcept_apply, ← hf s s' hs]
  cases f s with
  | ok b => exact hk b s s' hs
  | error e => exact ⟨rfl, hs⟩

theorem result {f : σ → Except ε α} (hf : ∀ s s', R s s' → f s = f s') :
    Uniform R (do ofExcept (f (← get)) : EStateM ε σ α) fun _ => True := by
  intro s s' hs
  simp only [EStateM.bind_apply, EStateM.get_apply, EStateM.ofExcept_apply, ← hf s s' hs]
  cases f s with
  | ok a => exact ⟨rfl, hs, trivial⟩
  | error e => exact ⟨rfl, hs⟩

theorem modify {f : σ → σ} (hf : ∀ s s', R s s' → R (f s) (f s')) :
    Uniform R (modify f : EStateM ε σ Unit) fun _ => True := fun s s' hs => ⟨rfl, hf s s' hs, trivial⟩

theorem checked (x : Except ε α) : Uniform R (ofExcept x : EStateM ε σ α) fun a => x = .ok a := by
  cases x with
  | ok a => exact pure rfl
  | error e => exact fail

theorem ite {p : Prop} [Decidable p] {m m' : EStateM ε σ α} (h : p → Uniform R m Q) (h' : ¬ p → Uniform R m' Q) :
    Uniform R (if p then m else m') Q := by
  split
  · exact h ‹_›
  · exact h' ‹_›

theorem forIn {ι : Type} {m : ι → β → EStateM ε σ (ForInStep β)} {is : List ι} {b : β}
    (h : ∀ i ∈ is, ∀ b, Uniform R (m i b) fun _ => True) : Uniform R (ForIn.forIn is b m) fun _ => True := by
  induction is generalizing b with
  | nil => exact pure trivial
  | cons i is ih =>
    rw [List.forIn_cons]
    refine bind (h i List.mem_cons_self b) fun step _ => ?_
    cases step with
    | done b => exact pure trivial
    | yield b => exact ih fun i hi => h i (List.mem_cons_of_mem _ hi)

end Uniform

-- ---------------------------------------------------------------------------
-- Storages alike
-- ---------------------------------------------------------------------------

/-- The instance of a program or of a function block. Its variables last from one call to the next. -/
def Layout.Lasting (y : Layout) (i : InstanceId) : Prop := ∃ p, y.InstanceOf i p ∧ p.kind ≠ .function

/-- The variable is global, or belongs to an instance that lasts or is one of those given. -/
def Layout.Sees (y : Layout) (busy : List InstanceId) : Slot → Prop
  | .global _ => True
  | .own i _ => y.Lasting i ∨ i ∈ busy

theorem Layout.Sees.mono {y : Layout} {busy busy' : List InstanceId} {slot : Slot} (h : y.Sees busy slot)
    (hsub : busy ⊆ busy') : y.Sees busy' slot := by
  cases slot with
  | global g => trivial
  | own i position => exact h.imp_right fun hi => hsub hi

namespace Storage

/--
The storages differ at most in what the variables of functions hold that are not among the instances given, and agree
on the function blocks in these, too.
-/
structure Alike (y : Layout) (busy : List InstanceId) (s s' : Storage) : Prop where
  globals : s.globals = s'.globals
  units : s.units = s'.units
  memory : s.memory = s'.memory
  instances : ∀ i, y.Lasting i ∨ i ∈ busy → s.instances[i]? = s'.instances[i]?
  bindings : ∀ i : InstanceId, (s.instances[i]?).map Instance.bindings = (s'.instances[i]?).map Instance.bindings

namespace Alike

variable {y : Layout} {busy busy' : List InstanceId} {s s' : Storage} {l : Library}

theorem refl (y : Layout) (busy : List InstanceId) (s : Storage) : Alike y busy s s :=
  ⟨rfl, rfl, rfl, fun _ _ => rfl, fun _ => rfl⟩

/-- So they do if fewer functions are given. -/
theorem mono (h : Alike y busy s s') (hsub : busy' ⊆ busy) : Alike y busy' s s' :=
  ⟨h.globals, h.units, h.memory, fun i hi => h.instances i (hi.imp_right fun hmem => hsub hmem), h.bindings⟩

/-- An instance that lasts may always be among those given. -/
theorem lasting (h : Alike y busy s s') {i : InstanceId} (hi : y.Lasting i) : Alike y (i :: busy) s s' := by
  refine ⟨h.globals, h.units, h.memory, fun j hj => ?_, h.bindings⟩
  obtain hj | hj := hj
  · exact h.instances j (.inl hj)
  · obtain rfl | hj := List.mem_cons.mp hj
    · exact h.instances j (.inl hi)
    · exact h.instances j (.inr hj)

-- ---------------------------------------------------------------------------
-- Declarations
-- ---------------------------------------------------------------------------

theorem unitInstance (h : Alike y busy s s') (pou : Nat) : s.unitInstance pou = s'.unitInstance pou := by
  rw [Storage.unitInstance, Storage.unitInstance, h.units]

/-- An instance is there in both storages, with the same unit and the same function blocks, or in neither. -/
theorem cases_instance (h : Alike y busy s s') (i : InstanceId) :
    (s.instances[i]? = none ∧ s'.instances[i]? = none) ∨
    ∃ found found' : Instance, s.instances[i]? = some found ∧ s'.instances[i]? = some found' ∧
      found'.pou = found.pou ∧ found'.vars.toList.map Value.bindings = found.vars.toList.map Value.bindings := by
  have hi := h.bindings i
  cases hs : s.instances[i]? with
  | none =>
    rw [hs] at hi
    exact .inl ⟨rfl, Option.map_eq_none_iff.mp hi.symm⟩
  | some found =>
    rw [hs, Option.map_some] at hi
    obtain ⟨found', hfound', hsame⟩ := Option.map_eq_some_iff.mp hi.symm
    simp only [Instance.bindings, Instance.mk.injEq] at hsame
    refine .inr ⟨found, found', rfl, hfound', hsame.1, ?_⟩
    rw [← Array.toList_map, ← Array.toList_map, hsame.2]

theorem pouOf (h : Alike y busy s s') (i : InstanceId) : s.pouOf l i = s'.pouOf l i := by
  unfold Storage.pouOf Storage.instance?
  obtain ⟨hs, hs'⟩ | ⟨found, found', hs, hs', hpou, -⟩ := h.cases_instance i
  · rw [hs, hs']
  · rw [hs, hs']
    simp only [Except.ok_bind, hpou]

theorem declOf (h : Alike y busy s s') (slot : Slot) : s.declOf l slot = s'.declOf l slot := by
  unfold Storage.declOf
  cases slot with
  | global g => rfl
  | own i position => simp only [h.pouOf i]

theorem placeOf (h : Alike y busy s s') (i : InstanceId) (position : Nat) :
    s.placeOf l i position = s'.placeOf l i position := by
  rw [Storage.placeOf, Storage.placeOf, h.declOf]

theorem located? (h : Alike y busy s s') (slot : Slot) : s.located? l slot = s'.located? l slot := by
  rw [Storage.located?, Storage.located?, h.declOf]

-- ---------------------------------------------------------------------------
-- Variables
-- ---------------------------------------------------------------------------

theorem slotValue (h : Alike y busy s s') {slot : Slot} (hslot : y.Sees busy slot) :
    s.slotValue slot = s'.slotValue slot := by
  unfold Storage.slotValue Storage.instance?
  cases slot with
  | global g => simp only [h.globals]
  | own i position => simp only [h.instances i hslot]

theorem value (h : Alike y busy s s') {p : Place} (hp : y.Sees busy p.slot) : s.value p = s'.value p := by
  rw [Storage.value, Storage.value, h.slotValue hp]

theorem setSlot (h : Alike y busy s s') {slot : Slot} (hslot : y.Sees busy slot) (v : Value) :
    Alike y busy (s.setSlot slot v) (s'.setSlot slot v) := by
  cases slot with
  | global g => exact ⟨by simp only [Storage.setSlot, h.globals], h.units, h.memory, h.instances, h.bindings⟩
  | own i position =>
    refine ⟨h.globals, h.units, h.memory, fun j hj => ?_, fun j => ?_⟩
    · simp only [Storage.setSlot, Array.getElem?_modify, h.instances j hj]
    · simp only [Storage.setSlot, Array.getElem?_modify]
      split
      · next hij => rw [← hij, h.instances i hslot]
      · exact h.bindings j

theorem withMemory (h : Alike y busy s s') (memory : DirectMemory) :
    Alike y busy { s with memory } { s' with memory } :=
  ⟨h.globals, h.units, rfl, h.instances, h.bindings⟩

end Alike

section

variable {y : Layout} {busy : List InstanceId} {l : Library} {p : Place} (hp : y.Sees busy p.slot)

include hp

theorem load_uniform : Uniform (Alike y busy) (load l p) fun _ => True := by
  have read : Uniform (Alike y busy) (do ofExcept ((← get).value p) : Storing Value) fun _ => True :=
    .result fun s s' hs => hs.value hp
  refine .ite (fun _ => .reads (fun s s' hs => hs.located? p.slot) fun located => ?_) fun _ => read
  cases located with
  | none => exact read
  | some found =>
    obtain ⟨type, address⟩ := found
    refine .reads (fun s s' hs => by rw [hs.memory]) fun v => ?_
    exact .bind (.modify fun s s' hs => hs.setSlot hp v) fun _ _ => read

theorem store_uniform (type : Option TypeId) (storage : StorageClass) (name : String) (source : Value) :
    Uniform (Alike y busy) (store l p type storage name source) fun _ => True := by
  refine .reads (fun s s' hs => hs.slotValue hp) fun whole => .bind (.checked _) fun changed _ => ?_
  refine .bind (.modify fun s s' hs => hs.setSlot hp changed) fun _ _ => ?_
  refine .ite (fun _ => .reads (fun s s' hs => hs.located? p.slot) fun located => ?_) fun _ => .pure trivial
  cases located with
  | none => exact .pure trivial
  | some found =>
    obtain ⟨type, address⟩ := found
    refine .reads (fun s s' hs => hs.slotValue hp) fun v => ?_
    refine .reads (fun s s' hs => by rw [hs.memory]) fun memory => ?_
    exact .modify fun s s' hs => hs.withMemory memory

end

/-- An instance whose variables are reset has the same values in both storages. -/
theorem Alike.resetFrame {y : Layout} {busy : List InstanceId} {s s' : Storage} (h : Alike y busy s s') (l : Library)
    (i : InstanceId) :
    (∃ t t', Storage.resetFrame l i s = .ok () t ∧ Storage.resetFrame l i s' = .ok () t' ∧
      Alike y (i :: busy) t t') ∨
    ∃ e, Storage.resetFrame l i s = .error e s ∧ Storage.resetFrame l i s' = .error e s' := by
  have hpou := h.pouOf (l := l) i
  simp only [Storage.resetFrame, EStateM.bind_apply, EStateM.get_apply, EStateM.ofExcept_apply, ← hpou]
  unfold Storage.instance?
  obtain ⟨hs, hs'⟩ | ⟨found, found', hs, hs', hunit, hbindings⟩ := h.cases_instance i
  · rw [hs, hs']
    exact .inr ⟨_, rfl, rfl⟩
  rw [hs, hs']
  cases s.pouOf l i with
  | error e => exact .inr ⟨e, rfl, rfl⟩
  | ok p =>
    have hreset : ({ found' with vars := (freshVars p found'.vars.toList).toArray } : Instance) =
        { found with vars := (freshVars p found.vars.toList).toArray } := by
      rw [freshVars_congr p hbindings, hunit]
    obtain ⟨hlt, -⟩ := Array.getElem?_eq_some_iff.mp hs
    obtain ⟨hlt', -⟩ := Array.getElem?_eq_some_iff.mp hs'
    refine .inl ⟨_, _, rfl, rfl, h.globals, h.units, h.memory, fun j hj => ?_, fun j => ?_⟩
    · simp only [Array.getElem?_setIfInBounds, hlt, hlt', if_true]
      split
      · exact congrArg some hreset.symm
      · next hij => exact h.instances j (hj.imp_right fun hmem => (List.mem_cons.mp hmem).resolve_left (Ne.symm hij))
    · simp only [Array.getElem?_setIfInBounds, hlt, hlt', if_true]
      split
      · exact congrArg (fun fresh => (some fresh).map Instance.bindings) hreset.symm
      · exact h.bindings j

-- ---------------------------------------------------------------------------
-- References
-- ---------------------------------------------------------------------------

/-- Storages whose variables hold values of their types, and that are alike. -/
structure Coupled (y : Layout) (busy : List InstanceId) (s s' : Storage) : Prop where
  left : s.Sound y
  right : s'.Sound y
  alike : Alike y busy s s'

variable {y : Layout} {busy : List InstanceId} {s s' : Storage}

/-- The place is the same one in both storages, where both have the same value. -/
structure Coupled.At (y : Layout) (busy : List InstanceId) (q q' : Except ValueError Place) (place : Place)
    (type : TypeId) : Prop where
  left : q = .ok place
  right : q' = .ok place
  placed : y.Placed place type
  sees : y.Sees busy place.slot

theorem slot_of_placeOf {l : Library} {i : InstanceId} {position : Nat} {place : Place}
    (h : s.placeOf l i position = .ok place) : (∃ g, place.slot = .global g) ∨ place.slot = .own i position := by
  obtain ⟨decl, -, h⟩ := Except.bind_eq_ok.mp h
  split at h
  · next g _ =>
    cases h
    exact .inl ⟨g, rfl⟩
  · cases h
  · cases h
    exact .inr rfl

namespace Coupled

variable (h : Coupled y busy s s') (hl : y.library.Resolved)

include hl in
/-- What the type of a function block is bound to lasts. -/
theorem lasting_of_kindOf {type : TypeId} {pou : Nat} {i : InstanceId}
    (hkind : y.library.types.kindOf type = .ok (.block pou)) (hi : y.pous[i]? = some pou) : y.Lasting i := by
  obtain ⟨root, d, -, hd, hblock⟩ := TypeTable.kindOf_eq_ok.mp hkind
  obtain ⟨p, hp, hkind⟩ := hl.blocks root d pou hd hblock
  exact ⟨p, ⟨pou, hi, hp⟩, by rw [hkind]; nofun⟩

include h hl

theorem placeOf {i : InstanceId} {position : Nat} {decl : VarDecl} {type : TypeId}
    (hdecl : y.declOf (.own i position) = some decl) (htype : decl.type.id? = some type)
    (hi : y.Lasting i ∨ i ∈ busy) :
    ∃ place, At y busy (s.placeOf y.library i position) (s'.placeOf y.library i position) place type := by
  obtain ⟨place, hplace, hplaced⟩ := h.left.placeOf hl hdecl htype
  refine ⟨place, hplace, h.alike.placeOf i position ▸ hplace, hplaced, ?_⟩
  obtain ⟨g, hslot⟩ | hslot := slot_of_placeOf hplace
  · rw [hslot]
    trivial
  · rw [hslot]
    exact hi

theorem follow {p : Place} {type part : TypeId} {selector : Selector} {hop : Hop} (hp : y.Placed p type)
    (hsees : y.Sees busy p.slot) (hlead : y.library.Leads type selector part) (hhop : selector.Selects hop) :
    ∃ place, At y busy (s.follow y.library p hop) (s'.follow y.library p hop) place part := by
  cases hlead with
  | member hkind hm hpart =>
    cases hhop with
    | member => exact ⟨_, rfl, rfl, hp.part (.member hkind hm hpart), hsees⟩
  | element hkind hpart =>
    obtain ⟨place, hplace, hplaced⟩ := h.left.follow hl hp (.element hkind hpart) hhop
    cases hhop
    cases hplace
    exact ⟨_, rfl, rfl, hplaced, hsees⟩
  | var hkind hpou hdecl hpart =>
    cases hhop with
    | var =>
      obtain ⟨i, hv, hi⟩ := h.left.blockAt hp hkind
      have hlasting := lasting_of_kindOf hl hkind hi
      obtain ⟨place, hplace⟩ := h.placeOf hl (Layout.declOf_own.mpr ⟨_, ⟨_, hi, hpou⟩, hdecl⟩) hpart (.inl hlasting)
      have hv' : s'.value p = .ok (.block ⟨_, some i⟩) := h.alike.value hsees ▸ hv
      refine ⟨place, ?_, ?_, hplace.placed, hplace.sees⟩
      · simp only [Storage.follow, Storage.blockAt, hv, Except.ok_bind]
        exact hplace.left
      · simp only [Storage.follow, Storage.blockAt, hv', Except.ok_bind]
        exact hplace.right

/-- A reference with a type leads to the same place in both storages, where both have the same value. -/
theorem locate {current : Option InstanceId} {vars : List VarDecl} {root : Root} {selectors : List Selector}
    {type : TypeId} {hops : List Hop} (hruns : y.Runs current vars) (hcurrent : ∀ i, current = some i → i ∈ busy)
    (href : y.library.Refers vars root selectors type) (hhops : List.Forall₂ Selector.Selects selectors hops) :
    ∃ place, At y busy (s.locate y.library current root hops) (s'.locate y.library current root hops) place type := by
  induction href generalizing hops with
  | own hdecl htype =>
    cases hhops
    cases current with
    | none =>
      cases hruns
      simp at hdecl
    | some i =>
      obtain ⟨p, hp, rfl⟩ := hruns
      obtain ⟨place, hplace⟩ := h.placeOf hl (Layout.declOf_own.mpr ⟨p, hp, hdecl⟩) htype (.inr (hcurrent i rfl))
      exact ⟨place, Except.bind_eq_ok.mpr ⟨place, hplace.left, rfl⟩,
        Except.bind_eq_ok.mpr ⟨place, hplace.right, rfl⟩, hplace.placed, hplace.sees⟩
  | global hdecl htype =>
    cases hhops
    have howned := (hl.globals _ (List.mem_of_getElem? hdecl)).1
    exact ⟨_, rfl, rfl, Layout.placed_slot hdecl howned htype, trivial⟩
  | @program pou p _ _ _ hp hkind hdecl htype =>
    cases hhops with
    | cons hhop hrest =>
      cases hhop
      cases hrest
      obtain ⟨i, hi, hpou⟩ := h.left.units _ _ hp (by simp [hkind])
      have hi' : s'.unitInstance pou = .ok i := h.alike.unitInstance pou ▸ hi
      have hlasting : y.Lasting i := ⟨p, ⟨pou, hpou, hp⟩, by rw [hkind]; nofun⟩
      obtain ⟨place, hplace⟩ := h.placeOf hl (Layout.declOf_own.mpr ⟨p, ⟨pou, hpou, hp⟩, hdecl⟩) htype (.inl hlasting)
      exact ⟨place, Except.bind_eq_ok.mpr ⟨i, hi, Except.bind_eq_ok.mpr ⟨place, hplace.left, rfl⟩⟩,
        Except.bind_eq_ok.mpr ⟨i, hi', Except.bind_eq_ok.mpr ⟨place, hplace.right, rfl⟩⟩, hplace.placed, hplace.sees⟩
  | step href hlead ih =>
    obtain ⟨hops, hop, hinit, hhop, rfl⟩ := forall₂_snoc hhops
    obtain ⟨p, hp⟩ := ih hinit
    obtain ⟨place, hplace⟩ := h.follow hl hp.placed hp.sees hlead hhop
    exact ⟨place, locate_snoc hp.left hplace.left, locate_snoc hp.right hplace.right, hplace.placed, hplace.sees⟩

end Coupled

end Storage

end StructuredText
