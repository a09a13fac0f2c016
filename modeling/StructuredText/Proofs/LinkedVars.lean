-- SUMMARY: Linking variables: types that are declared, and initial values of those types.
import Mathlib.Data.List.Pairwise
import StructuredText.Link
import StructuredText.Proofs.Compatible
import StructuredText.Proofs.LinkedTypes

/-!
# Linked variables

A stage revises the variables of some of the units, one by one, and leaves everything else as it is. The types that it
fills in are declared, since they are looked up. Later stages find a variable by the names of its unit and of itself;
as no two units have the same name, the units that a stage is not about stay as they are.
-/

namespace StructuredText

-- ---------------------------------------------------------------------------
-- Revised units
-- ---------------------------------------------------------------------------

/-- The variables of the unit are related to those of the other one, which is the same if it is not selected. -/
structure Pou.Revised (R : VarDecl → VarDecl → Prop) (select : PouKind → Bool) (p p' : Pou) : Prop where
  same : p' = { p with vars := p'.vars }
  vars : select p.kind = true → List.Forall₂ R p.vars p'.vars
  kept : select p.kind = false → p' = p

/-- The units of the library are revised, and nothing else. -/
structure Library.Revised (R : VarDecl → VarDecl → Prop) (select : PouKind → Bool) (l l' : Library) : Prop where
  same : l' = { l with pous := l'.pous }
  pous : List.Forall₂ (Pou.Revised R select) l.pous l'.pous

/-- Units have different names if units of the same names have. -/
theorem names_of_forall₂ {R : Pou → Pou → Prop} (hR : ∀ p p', R p p' → p'.name = p.name) {pous pous' : List Pou}
    (h : List.Forall₂ R pous pous') (hpous : pous.Pairwise fun p q => (p.name == q.name) = false) :
    pous'.Pairwise fun p q => (p.name == q.name) = false := by
  have hnames : (pous.map (·.name)).Pairwise fun a b => (a == b) = false := List.pairwise_map.mpr hpous
  exact List.pairwise_map.mp (TypeTable.map_eq_of_forall₂ hR h ▸ hnames)

theorem forall₂_trans {α β γ : Type} {R : α → β → Prop} {S : β → γ → Prop} {T : α → γ → Prop}
    (hT : ∀ a b c, R a b → S b c → T a c) {as : List α} {bs : List β} {cs : List γ} (h : List.Forall₂ R as bs)
    (h' : List.Forall₂ S bs cs) : List.Forall₂ T as cs := by
  induction h generalizing cs with
  | nil =>
    cases h'
    exact .nil
  | cons hab hrest ih =>
    cases h' with
    | cons hbc hrest' => exact .cons (hT _ _ _ hab hbc) (ih hrest')

namespace Pou.Revised

variable {R : VarDecl → VarDecl → Prop} {select : PouKind → Bool} {p p' p'' : Pou}

theorem refl (hR : ∀ v, R v v) (p : Pou) : p.Revised R select p :=
  ⟨rfl, fun _ => List.forall₂_same.mpr fun v _ => hR v, fun _ => rfl⟩

theorem name (h : p.Revised R select p') : p'.name = p.name := by rw [h.same]

theorem kind (h : p.Revised R select p') : p'.kind = p.kind := by rw [h.same]

theorem body (h : p.Revised R select p') : p'.body = p.body := by rw [h.same]

theorem pools (h : p.Revised R select p') : p'.pools = p.pools := by rw [h.same]

theorem length (h : p.Revised R select p') : p'.vars.length = p.vars.length := by
  cases hselect : select p.kind with
  | true => exact (h.vars hselect).length_eq.symm
  | false => rw [h.kept hselect]

theorem trans (hR : ∀ v v' v'', R v v' → R v' v'' → R v v'') (h : p.Revised R select p')
    (h' : p'.Revised R select p'') : p.Revised R select p'' := by
  refine ⟨?_, fun hselect => ?_, fun hselect => ?_⟩
  · rw [h'.same, h.same]
  · exact forall₂_trans hR (h.vars hselect) (h'.vars (h.kind ▸ hselect))
  · rw [h'.kept (h.kind ▸ hselect), h.kept hselect]

end Pou.Revised

namespace Library.Revised

variable {R : VarDecl → VarDecl → Prop} {select : PouKind → Bool} {l l' l'' : Library}

theorem refl (hR : ∀ v, R v v) (l : Library) : l.Revised R select l :=
  ⟨rfl, List.forall₂_same.mpr fun p _ => .refl hR p⟩

theorem types (h : l.Revised R select l') : l'.types = l.types := by rw [h.same]

theorem globals (h : l.Revised R select l') : l'.globals = l.globals := by rw [h.same]

theorem trans (hR : ∀ v v' v'', R v v' → R v' v'' → R v v'') (h : l.Revised R select l')
    (h' : l'.Revised R select l'') : l.Revised R select l'' := by
  refine ⟨?_, forall₂_trans (fun _ _ _ => .trans hR) h.pous h'.pous⟩
  rw [h'.same, h.same]

theorem names (h : l.Revised R select l') (hl : l.pous.Pairwise fun p q => (p.name == q.name) = false) :
    l'.pous.Pairwise fun p q => (p.name == q.name) = false :=
  names_of_forall₂ (fun _ _ => Pou.Revised.name) h.pous hl

end Library.Revised

theorem forall₂_modifyFirst {α : Type} {R : α → α → Prop} (hR : ∀ a, R a a) {p : α → Bool} {f : α → α} :
    ∀ {as : List α}, (∀ a ∈ as, p a = true → R a (f a)) → List.Forall₂ R as (Library.modifyFirst p f as)
  | [], _ => .nil
  | a :: as, hf => by
    rw [Library.modifyFirst]
    split
    · next hp => exact .cons (hf a List.mem_cons_self hp) (List.forall₂_same.mpr fun a _ => hR a)
    · exact .cons (hR a) (forall₂_modifyFirst hR fun a ha => hf a (List.mem_cons_of_mem _ ha))

-- ---------------------------------------------------------------------------
-- Types of variables
-- ---------------------------------------------------------------------------

/-- The variable with a type. -/
def VarDecl.typedAs (id : TypeId) (v : VarDecl) : VarDecl := { v with type := { v.type with id? := some id } }

/-- The variable is the other one, or that one with a declared type. -/
def VarDecl.Retyped (types : TypeTable) (v v' : VarDecl) : Prop :=
  v' = v ∨ ∃ id, types.Declares id ∧ v' = v.typedAs id

theorem VarDecl.Retyped.refl {types : TypeTable} (v : VarDecl) : v.Retyped types v := .inl rfl

theorem VarDecl.Retyped.trans {types : TypeTable} (v v' v'' : VarDecl) (h : v.Retyped types v')
    (h' : v'.Retyped types v'') : v.Retyped types v'' := by
  obtain rfl | ⟨id, hid, rfl⟩ := h'
  · exact h
  · obtain rfl | ⟨id', -, rfl⟩ := h <;> exact .inr ⟨id, hid, rfl⟩

namespace Link

variable {l l' : Library} {select : PouKind → Bool}

/-- A reference to a type by a variable is bound, and the type of the variable is filled in. -/
theorem bindVarType_eq_none {r : Reference VarUse} {found : Option TypeId}
    (h : bindVarType r found l = (none, l')) :
    ∃ id, found = some id ∧ l' = l.modifyVar r.referrer.owner r.referrer.name (VarDecl.typedAs id) := by
  unfold bindVarType at h
  cases found with
  | none => cases congrArg Prod.fst h
  | some id =>
    dsimp only at h
    split at h
    · cases h
      exact ⟨id, rfl, rfl⟩
    · cases congrArg Prod.fst h

/-- The owner of the variables whose types are looked up. -/
theorem owner_of_mem_headerPool {owner : Owner} {vars : List VarDecl} {lookup : Ident → Option TypeId}
    {task : Reference VarUse × Option TypeId} (h : task ∈ (headerPool owner vars).lookups lookup) :
    task.1.referrer.owner = owner := by
  obtain ⟨entry, hentry, heq⟩ := RefPool.entry_of_mem_lookups h
  obtain ⟨v, -, hadded⟩ := RefPool.exists_of_mem_foldl _
    (fun v => [⟨⟨some v.type.name, ⟨owner, v.name⟩, v.span⟩, false⟩])
    (fun pool v => by
      have hadd := pool.entries_add v.type.name ⟨owner, v.name⟩ v.span false
      dsimp only
      split <;> exact hadd) vars entry hentry
  obtain rfl := List.mem_singleton.mp hadded
  exact congrArg (·.referrer.owner) heq.symm

/-- What is kept by giving a variable of a scope a declared type is kept by linking the header of the scope. -/
theorem linkHeader_keeps {I : Library → Prop} {owner : Owner} {vars : List VarDecl}
    (hlookup : ∀ name id, l.types.lookup? name = some id → l.types.Declares id)
    (hstep : ∀ l₁ name id, I l₁ → l.types.Declares id → I (l₁.modifyVar owner name (VarDecl.typedAs id)))
    (h : linkHeader owner vars l = ([], l')) (hl : I l) : I l' := by
  have hvisit := RefPool.visit_of_trigger (fun r l => refusal_state (checkAddress r l) l) h
  have hkept := RefPool.visit_unrefused
    (J := fun tasks l₁ => (∀ task ∈ tasks, task ∈ (headerPool owner vars).lookups l.types.lookup?) ∧ I l₁)
    (fun task rest l₁ l₂ hbind hJ => ?_) _ _ _ hvisit ⟨fun _ => id, hl⟩
  · exact hkept.2
  · obtain ⟨htask, hrest⟩ := List.forall_mem_cons.mp hJ.1
    obtain ⟨id, hid, rfl⟩ := bindVarType_eq_none hbind
    obtain ⟨name, hname⟩ := RefPool.found_of_mem_lookups htask
    rw [owner_of_mem_headerPool htask]
    exact ⟨hrest, hstep _ _ _ hJ.2 (hlookup name id (hname.symm.trans hid))⟩

/-- A fold that collects diagnostics and ends with none has met none on the way. -/
theorem foldl_unreported {α σ : Type} {g : List Diagnostic × σ → α → List Diagnostic × σ} {I : σ → Prop} {as : List α}
    (h : ∀ a ∈ as, ∀ s, (g s a).1 = [] → s.1 = [] ∧ (I s.2 → I (g s a).2)) {s : List Diagnostic × σ}
    (hnone : (as.foldl g s).1 = []) : s.1 = [] ∧ (I s.2 → I (as.foldl g s).2) := by
  induction as generalizing s with
  | nil => exact ⟨hnone, id⟩
  | cons a as ih =>
    obtain ⟨hfirst, hrest⟩ := ih (fun a' ha => h a' (List.mem_cons_of_mem a ha)) hnone
    obtain ⟨hs, hkeeps⟩ := h a List.mem_cons_self s hfirst
    exact ⟨hs, fun hI => hrest (hkeeps hI)⟩

/-- Units with the same name are the same. -/
theorem eq_of_name (hnames : l.pous.Pairwise fun p q => (p.name == q.name) = false) {p q : Pou} (hp : p ∈ l.pous)
    (hq : q ∈ l.pous) (heq : (p.name == q.name) = true) : p = q := by
  by_contra hne
  have hsymm : Std.Symm fun p q : Pou => (p.name == q.name) = false := by
    refine ⟨fun p q h => ?_⟩
    rw [← Bool.not_eq_true, Ident.beq_iff] at h ⊢
    exact fun h' => h h'.symm
  have := hnames.forall hp hq hne
  simp [heq] at this

/-- Giving a variable of a selected unit a declared type revises the unit. -/
theorem revised_modifyVar {name : Ident} (hname : ∀ p ∈ l.pous, (p.name == name) = true → select p.kind = true)
    {id : TypeId} (hid : l.types.Declares id) (var : Ident) :
    l.Revised (VarDecl.Retyped l.types) select (l.modifyVar (.pou name) var (VarDecl.typedAs id)) := by
  refine ⟨rfl, forall₂_modifyFirst (.refl VarDecl.Retyped.refl) fun p hp hmatch => ⟨rfl, fun _ => ?_, fun hselect => ?_⟩⟩
  · exact forall₂_modifyFirst VarDecl.Retyped.refl fun v _ _ => .inr ⟨id, hid, rfl⟩
  · rw [hname p hp hmatch] at hselect
    cases hselect

/-- Linking the headers of the selected units gives their variables declared types. -/
theorem revised_of_linkHeaders (hlookup : ∀ name id, l.types.lookup? name = some id → l.types.Declares id)
    (hnames : l.pous.Pairwise fun p q => (p.name == q.name) = false)
    (h : linkHeaders (l.pousOf select) l = .ok l') : l.Revised (VarDecl.Retyped l.types) select l' := by
  obtain ⟨hnone, rfl⟩ := finish_eq_ok.mp h
  refine (foldl_unreported (I := l.Revised (VarDecl.Retyped l.types) select) (fun i hi => ?_) hnone).2
    (.refl VarDecl.Retyped.refl l)
  rintro ⟨errors, l₁⟩ hnone
  cases hp : l₁.pous[i]? with
  | none =>
    simp only [hp] at hnone ⊢
    exact ⟨hnone, id⟩
  | some p =>
    rcases hlink : linkHeader (.pou p.name) p.vars l₁ with ⟨ds, l₂⟩
    simp only [hp, hlink, List.append_eq_nil_iff] at hnone ⊢
    obtain ⟨rfl, rfl⟩ := hnone
    refine ⟨rfl, fun hI => ?_⟩
    obtain ⟨⟨p₀, j⟩, hp₀, rfl⟩ := List.mem_map.mp hi
    obtain ⟨hp₀, hselect⟩ := List.mem_filter.mp hp₀
    have hp₀ := List.mem_zipIdx_iff_getElem?.mp hp₀
    have hname := (TypeTable.forall₂_getElem? hI.pous hp₀ hp).name
    rw [← hI.types] at hlookup
    refine linkHeader_keeps hlookup (fun l₃ var id hI₃ hid => ?_) hlink hI
    rw [hI.types, ← hI₃.types] at hid
    refine hI₃.trans VarDecl.Retyped.trans ?_
    rw [← hI₃.types]
    refine revised_modifyVar (fun q hq hmatch => ?_) hid var
    obtain ⟨q₀, hq₀, hq⟩ := TypeTable.exists_of_mem_right hI₃.pous hq
    rw [hq.name, hname] at hmatch
    rw [hq.kind, eq_of_name hnames hq₀ (List.mem_of_getElem? hp₀) hmatch]
    exact hselect

/-- Linking the header of the global scope gives the global variables declared types. -/
theorem retyped_of_linkHeader (hlookup : ∀ name id, l.types.lookup? name = some id → l.types.Declares id)
    {vars : List VarDecl} (h : linkHeader .global vars l = ([], l')) :
    l' = { l with globals := l'.globals } ∧ List.Forall₂ (VarDecl.Retyped l.types) l.globals l'.globals := by
  refine linkHeader_keeps (I := fun l₁ => l₁ = { l with globals := l₁.globals } ∧
    List.Forall₂ (VarDecl.Retyped l.types) l.globals l₁.globals) hlookup (fun l₁ var id hI hid => ⟨?_, ?_⟩) h
    ⟨rfl, List.forall₂_same.mpr fun v _ => .refl v⟩
  · rw [hI.1]
    rfl
  · exact forall₂_trans VarDecl.Retyped.trans hI.2
      (forall₂_modifyFirst VarDecl.Retyped.refl fun v _ _ => .inr ⟨id, hid, rfl⟩)

end Link

-- ---------------------------------------------------------------------------
-- Initial values
-- ---------------------------------------------------------------------------

/-- A variable whose type is declared as soon as it has one. -/
structure VarDecl.Headed (types : TypeTable) (v : VarDecl) : Prop where
  declared : ∀ id, v.type.id? = some id → types.Declares id
  permanent : v.storage.temporary = false
  initial : Tree.InitialProper v.initial
  external : v.isExternal = true → v.section = .external

theorem VarDecl.Fresh.headed {types : TypeTable} {v : VarDecl} (h : v.Fresh) : v.Headed types := by
  refine ⟨fun id hid => ?_, h.permanent, h.initial, fun hexternal => (h.external hexternal).1⟩
  cases h.untyped.symm.trans hid

theorem VarDecl.Retyped.headed {types : TypeTable} {v v' : VarDecl} (h : v.Retyped types v') (hv : v.Headed types) :
    v'.Headed types := by
  obtain rfl | ⟨id, hid, rfl⟩ := h
  · exact hv
  · refine ⟨fun id' hid' => ?_, hv.permanent, hv.initial, hv.external⟩
    cases hid'
    exact hid

theorem VarDecl.Headed.withDefault {types : TypeTable} {v : VarDecl} (hv : v.Headed types) (value : Value) :
    ({ v with default := value }).Headed types := ⟨hv.declared, hv.permanent, hv.initial, hv.external⟩

/-- The global variables of the library have types and initial values. -/
def Library.GlobalsResolved (l : Library) : Prop :=
  ∀ decl ∈ l.globals, decl.isExternal = false ∧ ∃ type, decl.Resolved l type

/-- Whether a declaration is resolved depends on the types and the global variables only. -/
theorem VarDecl.Resolved.congr {l l' : Library} {decl : VarDecl} {type : TypeId} (h : decl.Resolved l type)
    (htypes : l'.types = l.types) (hglobals : l'.globals = l.globals) : decl.Resolved l' type := by
  refine ⟨h.typed, ?_, h.permanent, h.unbound, ?_, h.external, ?_⟩
  · rw [htypes]
    exact h.declared
  · rw [htypes]
    exact h.default
  · rw [htypes, hglobals]
    exact h.shares

namespace Link

variable {l l' : Library} {select : PouKind → Bool} {v v' : VarDecl}

theorem createValue_eq_ok {types : TypeTable} (h : createValue types v = .ok v') :
    ∃ type value, v.type.id? = some type ∧ types.create type v.initial = .ok value ∧
      v' = { v with default := value } := by
  unfold createValue at h
  split at h
  · next value hvalue =>
    cases h
    obtain ⟨type, htype, hcreate⟩ := Except.bind_eq_ok.mp hvalue
    exact ⟨type, value, TypeTable.ref_id_eq_ok.mp htype, hcreate, rfl⟩
  · cases h

theorem shareValue_eq_ok {types : TypeTable} {global : VarDecl} (h : shareValue types v global = .ok v') :
    ∃ own shared, v.type.id? = some own ∧ global.type.id? = some shared ∧ types.compatible own shared = true ∧
      v' = { v with default := global.default } := by
  unfold shareValue at h
  split at h
  · next own shared hown hshared =>
    split at h
    · next hcompatible =>
      cases h
      exact ⟨own, shared, TypeTable.ref_id_eq_ok.mp hown, TypeTable.ref_id_eq_ok.mp hshared, hcompatible, rfl⟩
    · cases h
  all_goals cases h

/-- A variable that gets its initial value is resolved. -/
theorem resolved_of_createValue (hproper : l.types.Proper fun _ => False) (hv : v.Headed l.types)
    (howned : v.isExternal = false) (h : createValue l.types v = .ok v') : ∃ type, v'.Resolved l type := by
  obtain ⟨type, value, htype, hcreate, rfl⟩ := createValue_eq_ok h
  have hunbound : l.types.Proper Unbound := fun id d hd v hv => (hproper id d hd v hv).imp fun _ => False.elim
  obtain ⟨hinhabits, hvalue⟩ := TypeTable.inhabits_of_createWithin hunbound (fun _ => rfl)
    (fun x hx => (hv.initial x hx).proper) hcreate
  refine ⟨type, htype, hv.declared type htype, hv.permanent, hvalue, hinhabits.mono fun _ => trivial, hv.external, ?_⟩
  intro g hg
  have hexternal : v.isExternal = true := by
    unfold VarDecl.isExternal
    rw [show v.kind = .external g from hg]
  cases howned.symm.trans hexternal

/-- A variable of a unit that gets its initial value, perhaps from a global variable, is resolved. -/
theorem resolved_of_createVar (hproper : l.types.Proper fun _ => False) (hglobals : l.GlobalsResolved)
    (hv : v.Headed l.types) (h : createVar l v = .ok v') : ∃ type, v'.Resolved l type := by
  unfold createVar at h
  split at h
  · next hkind => exact resolved_of_createValue hproper hv (by simp [VarDecl.isExternal, hkind]) h
  · next hkind => exact resolved_of_createValue hproper hv (by simp [VarDecl.isExternal, hkind]) h
  · cases h
  · next g hkind =>
    split at h
    · cases h
    · next global hglobal =>
      obtain ⟨own, shared, hown, hshared, hcompatible, rfl⟩ := shareValue_eq_ok h
      obtain ⟨howned, type, hresolved⟩ := hglobals global (List.mem_of_getElem? hglobal)
      cases hshared.symm.trans hresolved.typed
      have hcompatible := TypeTable.compatible_symm hcompatible
      refine ⟨own, hown, hv.declared own hown, hv.permanent, hresolved.unbound,
        TypeTable.inhabits_of_compatible hcompatible hresolved.default, hv.external, fun g' hg' => ?_⟩
      cases hkind.symm.trans hg'
      exact ⟨g, global, shared, rfl, hglobal, howned, hshared, hcompatible⟩

theorem createVar_same (h : createVar l v = .ok v') : v' = { v with default := v'.default } := by
  unfold createVar at h
  split at h
  · obtain ⟨_, _, -, -, rfl⟩ := createValue_eq_ok h
    rfl
  · obtain ⟨_, _, -, -, rfl⟩ := createValue_eq_ok h
    rfl
  · cases h
  · split at h
    · cases h
    · obtain ⟨_, _, -, -, -, rfl⟩ := shareValue_eq_ok h
      rfl

-- ---------------------------------------------------------------------------
-- Collected results
-- ---------------------------------------------------------------------------

theorem finish_ne {α : Type} (ds : List Diagnostic) (a : α) : finish ds a ≠ .error [] := by
  unfold finish
  split
  · nofun
  · next hsome =>
    rintro ⟨⟩
    exact hsome rfl

/-- When no step fails without a diagnostic, the collected results are those of the items in order. -/
theorem forall₂_of_collect {α β : Type} {f : α → Except (List Diagnostic) β} {as : List α} {bs : List β}
    (hf : ∀ a ∈ as, f a ≠ .error []) (h : collect f as = .ok bs) : List.Forall₂ (fun a b => f a = .ok b) as bs := by
  obtain ⟨hnone, rfl⟩ := finish_eq_ok.mp h
  clear h
  induction as with
  | nil => exact .nil
  | cons a as ih =>
    obtain ⟨hfirst, hrest⟩ := List.forall_mem_cons.mp hf
    rw [List.map_cons, List.flatMap_cons, List.append_eq_nil_iff] at hnone
    rw [List.map_cons]
    cases ha : f a with
    | error ds =>
      rw [ha] at hnone hfirst
      exact absurd (congrArg Except.error hnone.1) hfirst
    | ok b => exact .cons ha (ih hrest hnone.2)

theorem createValue_ne (types : TypeTable) (v : VarDecl) : createValue types v ≠ .error [] := by
  unfold createValue
  split <;> nofun

theorem createVar_ne (l : Library) (v : VarDecl) : createVar l v ≠ .error [] := by
  unfold createVar
  split
  · exact createValue_ne l.types v
  · exact createValue_ne l.types v
  · nofun
  · split
    · nofun
    · unfold shareValue
      split
      · split <;> nofun
      all_goals nofun

/-- The variables of the selected units get their initial values. -/
theorem revised_of_createVars (h : createVars select l = .ok l') :
    l.Revised (fun v v' => createVar l v = .ok v') select l' := by
  obtain ⟨pous, hpous, h⟩ := Except.bind_eq_ok.mp h
  cases h
  refine ⟨rfl, (forall₂_of_collect (fun p _ => ?_) hpous).imp fun p p' hp => ?_⟩
  · split
    · cases hvars : collect (createVar l) p.vars with
      | error ds =>
        rintro ⟨⟩
        exact finish_ne _ _ hvars
      | ok vars => nofun
    · nofun
  · split at hp
    · next hselect =>
      obtain ⟨vars, hvars, hp⟩ := Except.bind_eq_ok.mp hp
      cases hp
      refine ⟨rfl, fun _ => forall₂_of_collect (fun v _ => createVar_ne l v) hvars, fun hnot => ?_⟩
      rw [hselect] at hnot
      cases hnot
    · next hselect =>
      cases hp
      exact ⟨rfl, fun hselected => absurd hselected hselect, fun _ => rfl⟩

end Link

-- ---------------------------------------------------------------------------
-- External variables
-- ---------------------------------------------------------------------------

/-- The variable is the other one, or an external one that stands for a global variable now. -/
def VarDecl.Shared (v v' : VarDecl) : Prop :=
  v' = v ∨ v.section = .external ∧ ∃ g, v' = { v with kind := .external (some g) }

theorem VarDecl.Shared.refl (v : VarDecl) : v.Shared v := .inl rfl

theorem VarDecl.Shared.section {v v' : VarDecl} (h : v.Shared v') : v'.section = v.section := by
  obtain rfl | ⟨-, g, rfl⟩ := h <;> rfl

theorem VarDecl.Shared.trans (v v' v'' : VarDecl) (h : v.Shared v') (h' : v'.Shared v'') : v.Shared v'' := by
  obtain rfl | ⟨hsection, g, rfl⟩ := h'
  · exact h
  · refine .inr ⟨h.section ▸ hsection, g, ?_⟩
    obtain rfl | ⟨-, g', rfl⟩ := h <;> rfl

theorem VarDecl.Shared.headed {types : TypeTable} {v v' : VarDecl} (h : v.Shared v') (hv : v.Headed types) :
    v'.Headed types := by
  obtain rfl | ⟨hsection, g, rfl⟩ := h
  · exact hv
  · exact ⟨hv.declared, hv.permanent, hv.initial, fun _ => hsection⟩

theorem forall₂_modify {α : Type} {R : α → α → Prop} (hR : ∀ a, R a a) {f : α → α} :
    ∀ {as : List α} {i : Nat}, (∀ a, as[i]? = some a → R a (f a)) → List.Forall₂ R as (as.modify i f)
  | [], _, _ => by
    rw [List.modify_nil]
    exact .nil
  | a :: as, 0, hf => .cons (hf a rfl) (List.forall₂_same.mpr fun a _ => hR a)
  | a :: as, i + 1, hf => .cons (hR a) (forall₂_modify hR hf)

namespace Link

variable {l l' : Library}

/-- The units with their external variables linked. -/
abbrev KeepsShared (l l' : Library) : Prop := l.Revised VarDecl.Shared (fun _ => true) l'

/-- Every reference is that of an external variable. -/
theorem exists_of_mem_externals (pou : Nat) (vars : List (VarDecl × Nat)) :
    ∀ entry ∈ (vars.foldl (fun (pool : RefPool ExternalUse Nat) (v, var) => pool.add v.name ⟨pou, var⟩ v.span false)
      {}).entries, ∃ a ∈ vars, entry ∈ [(⟨⟨some a.1.name, ⟨pou, a.2⟩, a.1.span⟩, false⟩ : RefEntry ExternalUse)] :=
  RefPool.exists_of_mem_foldl _ _ (fun pool a => pool.entries_add a.1.name ⟨pou, a.2⟩ a.1.span false) vars

/-- Linking the external variables of a unit makes them stand for global variables. -/
theorem shared_of_linkExternals {pou : Nat}
    (hexternal : ∀ p ∈ l.pous, ∀ v ∈ p.vars, v.isExternal = true → v.section = .external)
    (h : linkExternals l pou = ([], l')) : KeepsShared l l' := by
  unfold linkExternals at h
  split at h
  · cases h
    exact .refl VarDecl.Shared.refl l
  · next p hp =>
    dsimp only at h
    rw [RefPool.trigger_unchecked] at h
    have hentries := exists_of_mem_externals pou (p.vars.zipIdx.filter (·.1.isExternal))
    generalize (p.vars.zipIdx.filter (·.1.isExternal)).foldl _ ({} : RefPool ExternalUse Nat) = pool at h hentries
    have htasks : ∀ task ∈ pool.lookups l.findGlobal?, task.1.referrer.pou = pou ∧
        ∃ v, p.vars[task.1.referrer.var]? = some v ∧ v.section = .external := by
      intro task htask
      obtain ⟨entry, hentry, heq⟩ := RefPool.entry_of_mem_lookups htask
      obtain ⟨⟨v, var⟩, hv, hadded⟩ := hentries entry hentry
      obtain rfl := List.mem_singleton.mp hadded
      obtain ⟨hv, hisExternal⟩ := List.mem_filter.mp hv
      have hv := List.mem_zipIdx_iff_getElem?.mp hv
      rw [← heq]
      exact ⟨rfl, v, hv, hexternal p (List.mem_of_getElem? hp) v (List.mem_of_getElem? hv) hisExternal⟩
    have hkept := RefPool.visit_unrefused
      (J := fun tasks l₁ => (∀ task ∈ tasks, task ∈ pool.lookups l.findGlobal?) ∧ KeepsShared l l₁)
      (fun task rest l₁ l₂ hbind hJ => ?_) _ _ _ h ⟨fun _ => id, .refl VarDecl.Shared.refl l⟩
    · exact hkept.2
    · obtain ⟨htask, hrest⟩ := List.forall_mem_cons.mp hJ.1
      obtain ⟨hpou, v, hv, hsection⟩ := htasks task htask
      refine ⟨hrest, hJ.2.trans VarDecl.Shared.trans ?_⟩
      unfold bindExternal at hbind
      split at hbind
      next _ pou' var hreferrer =>
      rw [hreferrer] at hpou hv
      split at hbind
      · cases congrArg Prod.fst hbind
      · next g _ =>
        cases hbind
        refine ⟨rfl, forall₂_modify (.refl VarDecl.Shared.refl) fun q hq => ⟨rfl, fun _ => ?_, by rintro ⟨⟩⟩⟩
        refine forall₂_modify VarDecl.Shared.refl fun w hw => .inr ⟨?_, g, rfl⟩
        have hrevised := TypeTable.forall₂_getElem? hJ.2.pous (hpou ▸ hp) hq
        exact (TypeTable.forall₂_getElem? (hrevised.vars rfl) hv hw).section.trans hsection

end Link

end StructuredText
