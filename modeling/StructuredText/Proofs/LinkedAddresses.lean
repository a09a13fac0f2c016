-- SUMMARY: In a linked library, every variable that is located in direct memory has room at its address.
import StructuredText.Proofs.LinkedTables
import StructuredText.Proofs.StoreFrame

/-!
# Linked addresses

The address of a variable is checked as soon as the variables of its scope have their types. Both the types and the checks
go by the names of variables, and so concern the first variable of a name only. A later one of the same name stays
without a type, and is refused when its initial value is created.

None of the later stages locates a variable or changes its type. So the checks still hold of the library that is executed.
-/

namespace StructuredText

-- ---------------------------------------------------------------------------
-- First items
-- ---------------------------------------------------------------------------

namespace Library

section

variable {α : Type} {p : α → Bool} {f g : α → α} {as : List α}

theorem modifyFirst_congr (h : ∀ a, as.find? p = some a → f a = g a) : modifyFirst p f as = modifyFirst p g as := by
  induction as with
  | nil => rfl
  | cons a as ih =>
    rw [modifyFirst, modifyFirst]
    split
    · next hp => rw [h a (List.find?_cons_of_pos hp)]
    · next hp => rw [ih fun b hb => h b (by rwa [List.find?_cons_of_neg hp])]

theorem modifyFirst_id : modifyFirst p id as = as := by
  induction as with
  | nil => rfl
  | cons a as ih =>
    rw [modifyFirst]
    split
    · rfl
    · rw [ih]

/-- The first item with the property is the one that is changed. -/
theorem find?_modifyFirst (hf : ∀ a, p a = true → p (f a) = true) :
    (modifyFirst p f as).find? p = (as.find? p).map f := by
  induction as with
  | nil => rfl
  | cons a as ih =>
    rw [modifyFirst]
    split
    · next hp => rw [List.find?_cons_of_pos hp, List.find?_cons_of_pos (hf a hp), Option.map_some]
    · next hp => rw [List.find?_cons_of_neg hp, List.find?_cons_of_neg hp, ih]

theorem modifyFirst_modifyFirst (hf : ∀ a, p a = true → p (f a) = true) :
    modifyFirst p g (modifyFirst p f as) = modifyFirst p (g ∘ f) as := by
  induction as with
  | nil => rfl
  | cons a as ih =>
    by_cases hp : p a = true
    · simp only [modifyFirst, hp, hf a hp, if_true, Function.comp_apply]
    · simp [modifyFirst, hp, ih]

theorem mem_modifyFirst {b : α} (h : b ∈ modifyFirst p f as) : b ∈ as ∨ ∃ a ∈ as, p a = true ∧ b = f a := by
  have hrelated : List.Forall₂ (fun a b => b = a ∨ p a = true ∧ b = f a) as (modifyFirst p f as) :=
    forall₂_modifyFirst (fun _ => .inl rfl) fun a _ hp => .inr ⟨hp, rfl⟩
  obtain ⟨a, ha, rfl | ⟨hp, rfl⟩⟩ := TypeTable.exists_of_mem_right hrelated h
  · exact .inl ha
  · exact .inr ⟨a, ha, hp, rfl⟩

end

-- ---------------------------------------------------------------------------
-- Scopes
-- ---------------------------------------------------------------------------

/-- The variables of a scope. -/
def scope? (l : Library) : Owner → Option (List VarDecl)
  | .global => some l.globals
  | .pou name => (l.pous.find? (·.name == name)).map (·.vars)

/-- The library with other variables in a scope. -/
def withScope (l : Library) (vars : List VarDecl) : Owner → Library
  | .global => { l with globals := vars }
  | .pou name => { l with pous := modifyFirst (·.name == name) (fun p => { p with vars }) l.pous }

variable {l : Library} {owner : Owner} {vars : List VarDecl} (h : l.scope? owner = some vars)

include h

theorem var?_eq (name : Ident) : l.var? owner name = vars.find? (·.name == name) := by
  cases owner with
  | global =>
    cases h
    rfl
  | pou pou =>
    obtain ⟨p, hp, rfl⟩ := Option.map_eq_some_iff.mp h
    simp only [var?, hp, bind, Option.bind_some]

theorem modifyVar_eq (name : Ident) (f : VarDecl → VarDecl) :
    l.modifyVar owner name f = l.withScope (modifyFirst (·.name == name) f vars) owner := by
  cases owner with
  | global =>
    cases h
    rfl
  | pou pou =>
    obtain ⟨p, hp, rfl⟩ := Option.map_eq_some_iff.mp h
    simp only [modifyVar, withScope]
    rw [modifyFirst_congr fun q hq => ?_]
    cases hp.symm.trans hq
    rfl

theorem withScope_self : l.withScope vars owner = l := by
  cases owner with
  | global =>
    cases h
    rfl
  | pou pou =>
    obtain ⟨p, hp, rfl⟩ := Option.map_eq_some_iff.mp h
    simp only [withScope]
    rw [modifyFirst_congr (g := id) fun q hq => ?_, modifyFirst_id]
    cases hp.symm.trans hq
    rfl

theorem scope?_withScope (vars' : List VarDecl) : (l.withScope vars' owner).scope? owner = some vars' := by
  cases owner with
  | global => rfl
  | pou pou =>
    obtain ⟨p, hp, -⟩ := Option.map_eq_some_iff.mp h
    simp [withScope, scope?, find?_modifyFirst, hp]

omit h in
theorem withScope_withScope (vars vars' : List VarDecl) :
    (l.withScope vars owner).withScope vars' owner = l.withScope vars' owner := by
  cases owner with
  | global => rfl
  | pou pou =>
    simp [withScope, modifyFirst_modifyFirst, Function.comp_def]

omit h in
theorem withScope_types (vars : List VarDecl) : (l.withScope vars owner).types = l.types := by
  cases owner <;> rfl

omit h in
theorem withScope_memorySize (vars : List VarDecl) : (l.withScope vars owner).memorySize = l.memorySize := by
  cases owner <;> rfl

end Library

-- ---------------------------------------------------------------------------
-- Variables with room
-- ---------------------------------------------------------------------------

/-- The variable has room at its address, as far as its type is known. -/
def VarDecl.HasRoom (types : TypeTable) (size : Nat) (v : VarDecl) : Prop :=
  ∀ type a, v.type.id? = some type → v.kind = .direct a → DirectMemory.check types type a size = .ok ()

/-- A variable with the name of an earlier one has no type. -/
def VarDecl.FirstTyped (vars : List VarDecl) : Prop :=
  vars.Pairwise fun u v => v.type.id? = none ∨ (u.name == v.name) = false

/-- The variable has the name and the type of the other one, and no address that the other one does not have. -/
structure VarDecl.SameHeader (v v' : VarDecl) : Prop where
  name : v'.name = v.name
  type : v'.type = v.type
  address : ∀ a, v'.kind = .direct a → v.kind = .direct a

/-- The variables of a scope have room, and are the first ones of their names, as far as their types are known. -/
structure VarDecl.Roomy (types : TypeTable) (size : Nat) (vars : List VarDecl) : Prop where
  first : FirstTyped vars
  room : ∀ v ∈ vars, v.HasRoom types size

/-- The variables of all scopes have room in areas of the size that the library is linked for. -/
structure Library.Roomy (l : Library) : Prop where
  names : l.pous.Pairwise fun p q => (p.name == q.name) = false
  globals : VarDecl.Roomy l.types l.memorySize l.globals
  vars : ∀ p ∈ l.pous, VarDecl.Roomy l.types l.memorySize p.vars

namespace VarDecl

variable {types : TypeTable} {size : Nat} {v v' : VarDecl} {vars vars' : List VarDecl}

theorem FirstTyped.find? (h : FirstTyped vars) (hv : v ∈ vars) {type : TypeId} (htype : v.type.id? = some type) :
    vars.find? (·.name == v.name) = some v := by
  obtain ⟨before, after, rfl⟩ := List.append_of_mem hv
  have hnone : before.find? (·.name == v.name) = none := by
    refine List.find?_eq_none.mpr fun u hu => ?_
    obtain huntyped | hname := (List.pairwise_append.mp h).2.2 u hu v List.mem_cons_self
    · cases huntyped.symm.trans htype
    · simp [hname]
  rw [List.find?_append, hnone, Option.none_or]
  exact List.find?_cons_of_pos (Ident.beq_iff.mpr rfl)

/-- Typing the first variable of a name. -/
theorem FirstTyped.typedAs (h : FirstTyped vars) (name : Ident) (id : TypeId) :
    FirstTyped (Library.modifyFirst (·.name == name) (VarDecl.typedAs id) vars) := by
  induction vars with
  | nil => exact .nil
  | cons v vars ih =>
    obtain ⟨hfirst, hrest⟩ := List.pairwise_cons.mp h
    rw [Library.modifyFirst]
    split
    · exact List.pairwise_cons.mpr ⟨hfirst, hrest⟩
    · next hname =>
      refine List.pairwise_cons.mpr ⟨fun u hu => ?_, ih hrest⟩
      obtain hu | ⟨w, hw, hmatch, rfl⟩ := Library.mem_modifyFirst hu
      · exact hfirst u hu
      · refine .inr (Bool.eq_false_iff.mpr fun heq => hname ?_)
        exact Ident.beq_iff.mpr ((Ident.beq_iff.mp heq).trans (Ident.beq_iff.mp hmatch))

theorem SameHeader.hasRoom (h : v.SameHeader v') (hv : v.HasRoom types size) : v'.HasRoom types size := by
  intro type a htype hkind
  rw [h.type] at htype
  exact hv type a htype (h.address a hkind)

theorem Roomy.of_untyped (h : ∀ v ∈ vars, v.type.id? = none) : Roomy types size vars := by
  refine ⟨List.pairwise_of_forall_mem_list fun u _ v hv => .inl (h v hv), fun v hv type a htype _ => ?_⟩
  cases (h v hv).symm.trans htype

theorem Roomy.sameHeaders (h : Roomy types size vars) (hvars : List.Forall₂ SameHeader vars vars') :
    Roomy types size vars' := by
  have hheaders : vars'.map (fun v => (v.name, v.type)) = vars.map (fun v => (v.name, v.type)) :=
    TypeTable.map_eq_of_forall₂ (fun v v' hv => Prod.ext hv.name hv.type) hvars
  refine ⟨?_, fun v' hv' => ?_⟩
  · have hfirst : (vars.map fun v => (v.name, v.type)).Pairwise fun a b => b.2.id? = none ∨ (a.1 == b.1) = false :=
      List.pairwise_map.mpr h.first
    exact List.pairwise_map.mp (hheaders ▸ hfirst)
  · obtain ⟨v, hv, hsame⟩ := TypeTable.exists_of_mem_right hvars hv'
    exact hsame.hasRoom (h.room v hv)

theorem SameHeader.refl (v : VarDecl) : v.SameHeader v := ⟨rfl, rfl, fun _ => id⟩

theorem SameHeader.trans (v v' v'' : VarDecl) (h : v.SameHeader v') (h' : v'.SameHeader v'') : v.SameHeader v'' :=
  ⟨h'.name.trans h.name, h'.type.trans h.type, fun a hkind => h.address a (h'.address a hkind)⟩

theorem SameHeader.withDefault (v : VarDecl) (value : Value) : v.SameHeader { v with default := value } :=
  ⟨rfl, rfl, fun _ => id⟩

theorem SameHeader.withExternal (v : VarDecl) (global : Option Nat) : v.SameHeader { v with kind := .external global } :=
  ⟨rfl, rfl, nofun⟩

end VarDecl

namespace Library.Roomy

variable {l l' : Library} {R : VarDecl → VarDecl → Prop} {select : PouKind → Bool}

theorem revised (hl : l.Roomy) (h : l.Revised R select l') (hR : ∀ v v', R v v' → v.SameHeader v') : l'.Roomy := by
  have hsize : l'.memorySize = l.memorySize := by rw [h.same]
  refine ⟨h.names hl.names, ?_, fun p' hp' => ?_⟩
  · rw [h.types, h.globals, hsize]
    exact hl.globals
  · obtain ⟨p, hp, hrevised⟩ := TypeTable.exists_of_mem_right h.pous hp'
    rw [h.types, hsize]
    cases hselect : select p.kind with
    | true => exact (hl.vars p hp).sameHeaders ((hrevised.vars hselect).imp hR)
    | false =>
      rw [hrevised.kept hselect]
      exact hl.vars p hp

theorem rebodied (hl : l.Roomy) (h : l.Rebodied l') : l'.Roomy := by
  have hsize : l'.memorySize = l.memorySize := by rw [h.same]
  refine ⟨names_of_forall₂ (fun p p' hp => by rw [hp]) h.pous hl.names, ?_, fun p' hp' => ?_⟩
  · rw [h.types, h.globals, hsize]
    exact hl.globals
  · obtain ⟨p, hp, hsame⟩ := TypeTable.exists_of_mem_right h.pous hp'
    rw [h.types, hsize, hsame]
    exact hl.vars p hp

theorem withScope (hl : l.Roomy) {vars : List VarDecl} (h : VarDecl.Roomy l.types l.memorySize vars) (owner : Owner) :
    (l.withScope vars owner).Roomy := by
  cases owner with
  | global => exact ⟨hl.names, h, hl.vars⟩
  | pou name =>
    have hkept : List.Forall₂ (fun p p' : Pou => p'.name = p.name) l.pous (l.withScope vars (.pou name)).pous :=
      forall₂_modifyFirst (R := fun p p' : Pou => p'.name = p.name) (fun _ => rfl) fun _ _ _ => rfl
    refine ⟨names_of_forall₂ (fun _ _ => id) hkept hl.names, hl.globals, fun p hp => ?_⟩
    obtain hp | ⟨q, -, -, rfl⟩ := mem_modifyFirst hp
    · exact hl.vars p hp
    · exact h

end Library.Roomy

-- ---------------------------------------------------------------------------
-- Headers
-- ---------------------------------------------------------------------------

namespace Link

variable {l l' : Library} {owner : Owner} {vars : List VarDecl} {select : PouKind → Bool}

/-- A check that one of the items is put into a pool for is in the pool in the end. -/
theorem mem_checks_foldl {ρ σ α : Type} {step : RefPool ρ σ → α → RefPool ρ σ} {items : List α} {a : α} (ha : a ∈ items)
    {r : Reference ρ} (hstep : ∀ pool b, r ∈ pool.checks → r ∈ (step pool b).checks)
    (hadd : ∀ pool, r ∈ (step pool a).checks) (pool : RefPool ρ σ) : r ∈ (items.foldl step pool).checks := by
  induction items generalizing pool with
  | nil => cases ha
  | cons b items ih =>
    obtain rfl | ha := List.mem_cons.mp ha
    · exact List.foldlRecOn items step (hadd pool) fun pool hpool b _ => hstep pool b hpool
    · exact ih ha (step pool b)

/-- There is a check for every located variable. -/
theorem mem_checkTasks_headerPool {v : VarDecl} (hv : v ∈ vars) {a : Address} (hkind : v.kind = .direct a) :
    ⟨none, ⟨owner, v.name⟩, v.span⟩ ∈ (headerPool owner vars).checkTasks := by
  refine List.mem_append_right _ (mem_checks_foldl hv (fun pool w hmem => ?_) (fun pool => ?_) {})
  · cases hw : w.kind <;> simp [RefPool.add, RefPool.addCheck, hmem]
  · simp [RefPool.addCheck, hkind]

/-- Linking the header of a scope types its variables, and they have room at their addresses. -/
theorem roomy_of_linkHeader (hlookup : ∀ name id, l.types.lookup? name = some id → l.types.Declares id)
    (hscope : l.scope? owner = some vars) (hfirst : VarDecl.FirstTyped vars)
    (h : linkHeader owner vars l = ([], l')) :
    ∃ vars', l' = l.withScope vars' owner ∧ VarDecl.Roomy l.types l.memorySize vars' := by
  obtain ⟨vars', hsame, hretyped, hfirst'⟩ := linkHeader_keeps
    (I := fun l₁ => ∃ vars₁, l₁ = l.withScope vars₁ owner ∧ List.Forall₂ (VarDecl.Retyped l.types) vars vars₁ ∧
      VarDecl.FirstTyped vars₁) hlookup
    (fun l₁ name id hI hid => by
      obtain ⟨vars₁, rfl, hretyped, hfirst₁⟩ := hI
      refine ⟨_, ?_, forall₂_trans VarDecl.Retyped.trans hretyped (forall₂_modifyFirst VarDecl.Retyped.refl
        fun v _ _ => .inr ⟨id, hid, rfl⟩), hfirst₁.typedAs name id⟩
      rw [Library.modifyVar_eq (Library.scope?_withScope hscope vars₁), Library.withScope_withScope]) h
    ⟨vars, (Library.withScope_self hscope).symm, List.forall₂_same.mpr fun v _ => .refl v, hfirst⟩
  refine ⟨vars', hsame, hfirst', fun v' hv' type a htype hkind => ?_⟩
  obtain ⟨v, hv, hvar⟩ := TypeTable.exists_of_mem_right hretyped hv'
  have hheader : v'.name = v.name ∧ v.kind = .direct a := by
    obtain rfl | ⟨_, -, rfl⟩ := hvar <;> exact ⟨rfl, hkind⟩
  have hfound : l'.var? owner v.name = some v' := by
    rw [hsame, Library.var?_eq (Library.scope?_withScope hscope vars'), ← hheader.1]
    exact hfirst'.find? hv' htype
  have hpassed := refusal_eq_none.mp (RefPool.accepted_of_trigger (fun r l => refusal_state (checkAddress r l) l) h _
    (mem_checkTasks_headerPool hv hheader.2))
  have htypes : l'.types = l.types := by rw [hsame, Library.withScope_types]
  have hsize : l'.memorySize = l.memorySize := by rw [hsame, Library.withScope_memorySize]
  simp only [checkAddress, hfound, hkind, TypeTable.ref_id_eq_ok.mpr htype, htypes, hsize] at hpassed
  exact Except.mapError_eq_ok.mp hpassed

theorem scope?_of_mem (hnames : l.pous.Pairwise fun p q => (p.name == q.name) = false) {p : Pou} (hp : p ∈ l.pous) :
    l.scope? (.pou p.name) = some p.vars := by
  have hsome : (l.pous.find? (·.name == p.name)).isSome = true :=
    List.find?_isSome.mpr ⟨p, hp, Ident.beq_iff.mpr rfl⟩
  obtain ⟨q, hq⟩ := Option.isSome_iff_exists.mp hsome
  have hname : (q.name == p.name) = true := List.find?_some (p := fun r : Pou => r.name == p.name) hq
  obtain rfl := eq_of_name hnames (List.mem_of_find?_eq_some hq) hp hname
  exact Option.map_eq_some_iff.mpr ⟨q, hq, rfl⟩

/-- Linking headers leaves variables with room. -/
theorem roomy_of_linkHeaders (hl : l.Roomy) (hlookup : ∀ name id, l.types.lookup? name = some id → l.types.Declares id)
    {pous : List Nat} (h : linkHeaders pous l = .ok l') : l'.Roomy := by
  obtain ⟨hnone, rfl⟩ := finish_eq_ok.mp h
  refine ((foldl_unreported (I := fun l₁ : Library => l₁.Roomy ∧ l₁.types = l.types) (fun i _ => ?_) hnone).2
    ⟨hl, rfl⟩).1
  rintro ⟨errors, l₁⟩ hnone
  cases hp : l₁.pous[i]? with
  | none =>
    simp only [hp] at hnone ⊢
    exact ⟨hnone, id⟩
  | some p =>
    rcases hlink : linkHeader (.pou p.name) p.vars l₁ with ⟨ds, l₂⟩
    simp only [hp, hlink, List.append_eq_nil_iff] at hnone ⊢
    obtain ⟨rfl, rfl⟩ := hnone
    refine ⟨rfl, fun ⟨hroomy, htypes⟩ => ?_⟩
    have hp := List.mem_of_getElem? hp
    obtain ⟨vars, rfl, hvars⟩ := roomy_of_linkHeader (htypes ▸ hlookup) (scope?_of_mem hroomy.names hp)
      (hroomy.vars p hp).first hlink
    exact ⟨hroomy.withScope hvars _, (Library.withScope_types vars).trans htypes⟩

/-- Linking the global variables leaves variables with room. -/
theorem roomy_of_linkGlobals (hl : l.Roomy) (hlookup : ∀ name id, l.types.lookup? name = some id → l.types.Declares id)
    (h : linkGlobals l = .ok l') : l'.Roomy := by
  unfold linkGlobals at h
  rcases hheader : linkHeader .global l.globals l with ⟨errors, l₁⟩
  simp only [hheader] at h
  obtain ⟨_, hfinish, h⟩ := Except.bind_eq_ok.mp h
  obtain ⟨globals, hcreated, h⟩ := Except.bind_eq_ok.mp h
  cases h
  obtain ⟨rfl, -⟩ := finish_eq_ok.mp hfinish
  obtain ⟨vars, rfl, hvars⟩ := roomy_of_linkHeader hlookup rfl hl.globals.first hheader
  have hheaders : List.Forall₂ VarDecl.SameHeader vars globals := by
    refine (forall₂_of_collect (fun v _ => createValue_ne l.types v) hcreated).imp fun v v' hv => ?_
    obtain ⟨_, value, -, -, rfl⟩ := createValue_eq_ok hv
    exact .withDefault v value
  exact hl.withScope (hvars.sameHeaders hheaders) .global

/-- Creating initial values leaves variables with room. -/
theorem roomy_of_createVars (hl : l.Roomy) (h : createVars select l = .ok l') : l'.Roomy := by
  refine hl.revised (revised_of_createVars h) fun v v' hv => ?_
  rw [createVar_same hv]
  exact .withDefault v v'.default

/-- Linking external variables does not locate them. -/
theorem sameHeaders_of_linkExternals (l : Library) (pou : Nat) :
    l.Revised VarDecl.SameHeader (fun _ => true) (linkExternals l pou).2 := by
  unfold linkExternals
  split
  · exact .refl VarDecl.SameHeader.refl l
  · refine RefPool.trigger_invariant (I := l.Revised VarDecl.SameHeader fun _ => true) (fun r found l₁ hI => ?_)
      (fun _ _ => id) (.refl VarDecl.SameHeader.refl l)
    cases found with
    | none => exact hI
    | some global =>
      refine hI.trans VarDecl.SameHeader.trans
        ⟨rfl, forall₂_modify (.refl VarDecl.SameHeader.refl) fun p _ => ⟨rfl, fun _ => ?_, by rintro ⟨⟩⟩⟩
      exact forall₂_modify VarDecl.SameHeader.refl fun v _ => .withExternal v (some global)

/-- Linking references leaves variables with room. -/
theorem roomy_of_linkReferences (hl : l.Roomy) (h : linkReferences l = .ok l') : l'.Roomy := by
  obtain ⟨-, rfl⟩ := finish_eq_ok.mp h
  refine Library.Roomy.rebodied ?_ (rebodied_of_linkAllVariables _)
  exact List.foldlRecOn (motive := fun s : List Diagnostic × Library => s.2.Roomy) _ _ hl fun s hs i _ =>
    hs.revised (sameHeaders_of_linkExternals s.2 i) fun _ _ => id

theorem roomy_of_prepareBodies (hl : l.Roomy) {epsilon : Float} (h : prepareBodies epsilon l = .ok l') : l'.Roomy := by
  obtain ⟨pous, rfl, hprepared⟩ := forall₂_of_prepareBodies h
  exact hl.rebodied ⟨rfl, hprepared.imp fun p p' ⟨body, _, hsame⟩ => hsame ▸ rfl⟩

/-- Without types, variables have room. -/
theorem roomy_of_merged {uses : List TypeUse} (hl : l.Merged uses) (types : TypeTable) : { l with types }.Roomy :=
  ⟨hl.names, .of_untyped fun v hv => (hl.globals v hv).1.untyped, fun p hp => .of_untyped fun v hv =>
    (hl.vars p hp v hv).untyped⟩

theorem roomy_of_stages {units : List CompilationUnit} {options : Options} (hunits : ∀ u ∈ units, u.Fresh)
    (h : stages units options = .ok l) : l.Roomy := by
  obtain ⟨l₁, hmerge, h⟩ := Except.bind_eq_ok.mp h
  obtain ⟨l₂, htypes, h⟩ := Except.bind_eq_ok.mp h
  obtain ⟨l₃, hblockHeaders, h⟩ := Except.bind_eq_ok.mp h
  obtain ⟨l₄, hglobals, h⟩ := Except.bind_eq_ok.mp h
  obtain ⟨l₅, hreferences, h⟩ := Except.bind_eq_ok.mp h
  obtain ⟨l₆, hblocks, h⟩ := Except.bind_eq_ok.mp h
  obtain ⟨l₇, hheaders, h⟩ := Except.bind_eq_ok.mp h
  obtain ⟨l₈, hvalues, h⟩ := Except.bind_eq_ok.mp h
  obtain ⟨l₉, hcalls, hprepare⟩ := Except.bind_eq_ok.mp h
  obtain ⟨-, rfl⟩ := finish_eq_ok.mp hcalls
  have hmerged := merged_of_merge hunits hmerge
  obtain ⟨htyped, hsame⟩ := typed_of_linkTypes hmerged htypes
  have hlookup := htyped.lookup?_declares
  have htypes₃ := types_of_linkHeaders hblockHeaders
  have htypes₆ : l₆.types = l₂.types := by
    rw [types_of_linkBlocks hblocks, types_of_linkReferences hreferences, types_of_linkGlobals hglobals, htypes₃]
  have hroomy₂ : l₂.Roomy := hsame ▸ roomy_of_merged hmerged l₂.types
  have hroomy₃ := roomy_of_linkHeaders hroomy₂ hlookup hblockHeaders
  have hroomy₄ := roomy_of_linkGlobals hroomy₃ (htypes₃ ▸ hlookup) hglobals
  have hroomy₅ := roomy_of_linkReferences hroomy₄ hreferences
  have hroomy₆ : l₆.Roomy := by
    obtain ⟨_, -, hblocks⟩ := Except.bind_eq_ok.mp hblocks
    obtain ⟨_, -, hblocks⟩ := Except.bind_eq_ok.mp hblocks
    exact roomy_of_createVars hroomy₅ hblocks
  have hroomy₇ := roomy_of_linkHeaders hroomy₆ (htypes₆ ▸ hlookup) hheaders
  have hroomy₈ := roomy_of_createVars hroomy₇ hvalues
  exact roomy_of_prepareBodies (hroomy₈.rebodied (rebodied_of_linkAllCalls l₈)) hprepare

end Link

/-- In a library that is linked from fresh units, every variable has room at its address. -/
theorem roomy_of_link {units : List CompilationUnit} {options : Options} {l : Library}
    (hunits : ∀ u ∈ units, u.Fresh) (h : link units options = .ok l) : l.Roomy :=
  Link.roomy_of_stages hunits (stages_of_link h)

/-- Every variable at an address has room in areas of the size that the library is linked for. -/
theorem Storage.addressed_of_roomy {y : Layout} {s : Storage} (hl : y.library.Roomy)
    (hsize : ∀ area, (s.memory.area area).size = y.library.memorySize) : s.Addressed y := by
  intro p type a hat
  obtain ⟨decl, hdecl, hkind, htype⟩ := hat.located
  rw [hsize]
  cases hslot : p.slot with
  | global g =>
    rw [hslot] at hdecl
    exact hl.globals.room decl (List.mem_of_getElem? hdecl) type a htype hkind
  | own i position =>
    rw [hslot] at hdecl
    obtain ⟨pou, ⟨_, -, hpou⟩, hvar⟩ := Layout.declOf_own.mp hdecl
    exact (hl.vars pou (List.mem_of_getElem? hpou)).room decl (List.mem_of_getElem? hvar) type a htype hkind

/-- In a linked library, assigning to a place of a declared type changes all that it has to, or nothing at all. -/
theorem Storage.store_of_link {y : Layout} {units : List CompilationUnit} {options : Options}
    (hunits : ∀ u ∈ units, u.Fresh) (h : link units options = .ok y.library) {s : Storage} (hs : s.Sound y)
    (hsize : ∀ area, (s.memory.area area).size = y.library.memorySize) {p : Place} {type : TypeId}
    (hp : y.Placed p type) (htype : y.library.types.Declares type) {storage : StorageClass}
    (hpermanent : storage.temporary = false) (name : String) {source : Value} (hsource : source.Proper y.Bound) :
    match Storage.store y.library p (some type) storage name source s with
    | .error _ s' => s' = s
    | .ok _ s' => ∃ v, y.library.types.coerce type source = .ok v ∧ s.Assigned y p v s' :=
  hs.store_atomic (resolved_of_link hunits h).1 (addressed_of_roomy (roomy_of_link hunits h) hsize) hp htype
    hpermanent name hsource

end StructuredText
