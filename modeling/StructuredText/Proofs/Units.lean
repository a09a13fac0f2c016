-- SUMMARY: Compilation units of parsed declarations: nothing in them is linked, and every use of a type is noted.
import StructuredText.CompilationUnit.OfTree
import StructuredText.Proofs.Complete
import StructuredText.Proofs.Numbered

/-!
# Fresh units

The declarations of a unit are added one after the other. None of them is linked yet: variables have no types and
bodies no names. Whatever the declaration of a type refers to is noted among the uses of types, by which linking finds
it.
-/

namespace StructuredText

open CompilationUnit

-- ---------------------------------------------------------------------------
-- Slots of types
-- ---------------------------------------------------------------------------

/-- The reference at a place in the declaration of a type. -/
def TypeKind.slotRef? : TypeKind → TypeSlot → Option TypeRef
  | .alias parent _, .parent => some parent
  | .subrange base _ _ _, .base => some base
  | .array element _ _, .element => some element
  | .struct members, .member position => (members[position]?).map (·.type)
  | _, _ => none

/-- Every reference is at one of the places. -/
theorem TypeKind.exists_slotRef? {kind : TypeKind} {r : TypeRef} (h : r ∈ kind.refs) :
    ∃ slot, kind.slotRef? slot = some r := by
  cases kind with
  | «alias» parent initial => exact ⟨.parent, congrArg some (List.mem_singleton.mp h).symm⟩
  | subrange base min max initial => exact ⟨.base, congrArg some (List.mem_singleton.mp h).symm⟩
  | array element dimensions initial => exact ⟨.element, congrArg some (List.mem_singleton.mp h).symm⟩
  | struct members =>
    obtain ⟨m, hm, rfl⟩ := List.mem_map.mp h
    obtain ⟨i, hi⟩ := List.mem_iff_getElem?.mp hm
    exact ⟨.member i, by simp [slotRef?, hi]⟩
  | elementary | enumeration | block => cases h

/-- The type is declared by a program, and not an elementary one or a function block. -/
def TypeKind.IsDeclared : TypeKind → Prop
  | .elementary _ | .block _ => False
  | _ => True

-- ---------------------------------------------------------------------------
-- Fresh declarations
-- ---------------------------------------------------------------------------

/-- The declaration of a type is noted wherever it refers to another one. -/
def Covered (uses : List TypeUse) (holder : Ident) (kind : TypeKind) : Prop :=
  ∀ slot r, kind.slotRef? slot = some r → ∃ use ∈ uses, use.holder = holder ∧ use.slot = slot

/-- The declaration of a type before it is linked. -/
structure TypeDecl.Fresh (uses : List TypeUse) (d : TypeDecl) : Prop where
  declared : d.kind.IsDeclared
  initials : ∀ v ∈ d.kind.initials, v.Plain
  untyped : ∀ r ∈ d.kind.refs, r.id? = none
  covered : Covered uses d.name d.kind

/-- A variable before it is linked. -/
structure VarDecl.Fresh (v : VarDecl) : Prop where
  untyped : v.type.id? = none
  valueless : v.default = .void
  permanent : v.storage.temporary = false
  initial : Tree.InitialProper v.initial
  external : v.isExternal = true → v.section = .external ∧ v.kind = .external none

/-- A unit before it is linked. -/
structure CompilationUnit.Fresh (u : CompilationUnit) : Prop where
  types : ∀ d ∈ u.types, d.Fresh u.uses
  globals : ∀ v ∈ u.globals, v.Fresh ∧ v.isExternal = false
  vars : ∀ p ∈ u.pous, ∀ v ∈ p.vars, v.Fresh
  bodies : ∀ p ∈ u.pous, Body.Unlinked p.body p.pools

theorem TypeDecl.Fresh.mono {uses uses' : List TypeUse} (hsub : uses ⊆ uses') {d : TypeDecl} (h : d.Fresh uses) :
    d.Fresh uses' := by
  refine ⟨h.declared, h.initials, h.untyped, fun slot r hr => ?_⟩
  obtain ⟨use, huse, h⟩ := h.covered slot r hr
  exact ⟨use, hsub huse, h⟩

namespace CompilationUnit

-- ---------------------------------------------------------------------------
-- Building
-- ---------------------------------------------------------------------------

/-- The unit stays fresh and keeps its uses, and what is built has the property. -/
def Keeps {α : Type} (m : Building α) (Q : α → Prop) : Prop :=
  ∀ u : CompilationUnit, u.Fresh → (m u).2.Fresh ∧ u.uses ⊆ (m u).2.uses ∧ Q (m u).1

namespace Keeps

variable {α β : Type} {m : Building α} {Q : α → Prop}

theorem pure {a : α} (h : Q a) : Keeps (Pure.pure a) Q := fun _ hu => ⟨hu, fun _ => id, h⟩

theorem bind {R : β → Prop} {k : α → Building β} (hm : Keeps m Q) (hk : ∀ a, Q a → Keeps (k a) R) :
    Keeps (m >>= k) R := fun u hu => by
  obtain ⟨hu, hsub, ha⟩ := hm u hu
  obtain ⟨hu, hsub', hb⟩ := hk _ ha _ hu
  exact ⟨hu, fun _ h => hsub' (hsub h), hb⟩

theorem mapM {R : β → Prop} {f : α → Building β} {as : List α} (h : ∀ a ∈ as, Keeps (f a) R) :
    Keeps (as.mapM f) fun bs => ∀ b ∈ bs, R b := by
  induction as with
  | nil => exact .pure (by simp)
  | cons a as ih =>
    rw [List.mapM_cons]
    refine .bind (h a List.mem_cons_self) fun b hb => ?_
    refine .bind (ih fun a' ha => h a' (List.mem_cons_of_mem a ha)) fun bs hbs => .pure ?_
    exact List.forall_mem_cons.mpr ⟨hb, hbs⟩

theorem forM {f : α → Building Unit} {as : List α} (h : ∀ a ∈ as, Keeps (f a) fun _ => True) :
    Keeps (as.forM f) fun _ => True := by
  induction as with
  | nil => exact .pure trivial
  | cons a as ih =>
    exact .bind (h a List.mem_cons_self) fun _ _ => ih fun a' ha => h a' (List.mem_cons_of_mem a ha)

theorem forIn {f : α → PUnit → Building (ForInStep PUnit)} {as : List α}
    (h : ∀ a ∈ as, Keeps (f a ⟨⟩) (· = .yield ⟨⟩)) : Keeps (ForIn.forIn as ⟨⟩ f) fun _ => True := by
  induction as with
  | nil => exact .pure trivial
  | cons a as ih =>
    rw [List.forIn_cons]
    refine .bind (h a List.mem_cons_self) fun step hstep => ?_
    subst hstep
    exact ih fun a' ha => h a' (List.mem_cons_of_mem a ha)

end Keeps

-- ---------------------------------------------------------------------------
-- Types
-- ---------------------------------------------------------------------------

theorem Fresh.addUse {u : CompilationUnit} (hu : u.Fresh) (use : TypeUse) :
    { u with uses := u.uses ++ [use] }.Fresh :=
  ⟨fun d hd => (hu.types d hd).mono (List.subset_append_left _ _), hu.globals, hu.vars, hu.bodies⟩

theorem Fresh.addType {u : CompilationUnit} (hu : u.Fresh) {d : TypeDecl} (hd : d.Fresh u.uses) :
    { u with types := u.types ++ [d] }.Fresh := by
  refine ⟨fun d' hd' => ?_, hu.globals, hu.vars, hu.bodies⟩
  obtain hd' | hd' := List.mem_append.mp hd'
  · exact hu.types d' hd'
  · obtain rfl := List.mem_singleton.mp hd'
    exact hd

/-- A type with one reference is added after the note of it. -/
theorem addUsed_keeps {name target : Ident} {slot : TypeSlot} {kind : TypeKind} (hdeclared : kind.IsDeclared)
    (hinitials : ∀ v ∈ kind.initials, v.Plain) (huntyped : ∀ r ∈ kind.refs, r.id? = none) (hslot : ∀ slot' r, kind.slotRef? slot' = some r → slot' = slot) :
    Keeps (do addUse target name slot name.span; addType name kind) fun _ => True := by
  intro u hu
  refine ⟨(hu.addUse ⟨target, name, slot, name.span⟩).addType ⟨hdeclared, hinitials, huntyped, fun slot' r hr => ?_⟩,
    List.subset_append_left _ _, trivial⟩
  obtain rfl := hslot slot' r hr
  exact ⟨_, List.mem_append_right _ (List.mem_singleton_self _), rfl, rfl⟩

theorem addAlias_keeps (name parent : Ident) {initial : Option Value} (h : Tree.InitialProper initial) :
    Keeps (addAlias name parent initial) fun _ => True := by
  refine addUsed_keeps trivial (fun _ => h.mem_toList) (by simp [TypeKind.refs]) ?_
  rintro (_ | _ | _ | _) r hr <;> first | rfl | cases hr

theorem addSubrange_keeps (name base : Ident) {min : Int} (hmin : FitsInteger min) (max : Int) {initial : Option Value}
    (h : Tree.InitialProper initial) : Keeps (addSubrange name base min max initial) fun _ => True := by
  refine addUsed_keeps trivial ?_ (by simp [TypeKind.refs]) ?_
  · exact List.forall_mem_cons.mpr ⟨hmin, fun _ => h.mem_toList⟩
  · rintro (_ | _ | _ | _) r hr <;> first | rfl | cases hr

theorem addArray_keeps (name element : Ident) (dimensions : List Dimension) {initial : Option Value}
    (h : Tree.InitialProper initial) : Keeps (addArray name element dimensions initial) fun _ => True := by
  refine addUsed_keeps trivial (fun _ => h.mem_toList) (by simp [TypeKind.refs]) ?_
  rintro (_ | _ | _ | _) r hr <;> first | rfl | cases hr

theorem typeName_keeps (name : Ident) {t : Tree.TypeExpr} (h : t.Proper) : Keeps (typeName name t) fun _ => True := by
  induction t generalizing name with
  | named type => exact .pure trivial
  | subrange base min max =>
    exact .bind (addSubrange_keeps name base h max Tree.initialProper_none) fun _ _ => .pure trivial
  | array element dimensions ih =>
    refine .bind (ih _ h) fun element _ => ?_
    exact .bind (addArray_keeps name element dimensions Tree.initialProper_none) fun _ _ => .pure trivial

/-- The member has a plain initial value, and its type is noted. -/
structure Noted (type : Ident) (uses : List TypeUse) (position : Nat) (m : StructMember) : Prop where
  initial : Tree.InitialProper m.initial
  untyped : m.type.id? = none
  use : ∃ use ∈ uses, use.holder = type ∧ use.slot = .member position

/-- Of the members that are built every one has a note of its own. -/
theorem addMembers_keeps (type : Ident) (ms : List (Tree.Member × Nat)) (h : ∀ m ∈ ms, m.1.Proper)
    {u : CompilationUnit} (hu : u.Fresh) :
    let r := addMembers type ms u
    r.2.Fresh ∧ u.uses ⊆ r.2.uses ∧ List.Forall₂ (Noted type r.2.uses) (ms.map (·.2)) r.1 := by
  induction ms generalizing u with
  | nil => exact ⟨hu, fun _ => id, .nil⟩
  | cons entry ms ih =>
    obtain ⟨m, position⟩ := entry
    obtain ⟨hm, hms⟩ := List.forall_mem_cons.mp h
    obtain ⟨hu, hsub, -⟩ := typeName_keeps (scopedName type.text m.name) hm.type u hu
    let target := (typeName (scopedName type.text m.name) m.type u).1
    obtain ⟨hrest, hsub', hnoted⟩ := ih hms (hu.addUse ⟨target, type, .member position, m.name.span⟩)
    rw [addMembers]
    refine ⟨hrest, fun _ h => hsub' (List.mem_append_left _ (hsub h)), .cons ⟨hm.initial, rfl, ?_⟩ hnoted⟩
    exact ⟨_, hsub' (List.mem_append_right _ (List.mem_singleton_self _)), rfl, rfl⟩

theorem addStruct_keeps (name : Ident) {members : List Tree.Member} (h : ∀ m ∈ members, m.Proper) :
    Keeps (do
      let members ← addMembers name members.zipIdx
      addType name (.struct members)) fun _ => True := by
  intro u hu
  obtain ⟨hr, hsub, hnoted⟩ := addMembers_keeps name members.zipIdx
    (fun m hm => h m.1 (List.fst_mem_of_mem_zipIdx hm)) hu
  refine ⟨hr.addType ⟨trivial, fun v hv => ?_, fun r hr => ?_, fun slot r hslot => ?_⟩, hsub, trivial⟩
  · obtain ⟨m, hm, hv⟩ := List.mem_filterMap.mp hv
    obtain ⟨_, -, hm⟩ := TypeTable.exists_of_mem_right hnoted hm
    exact hm.initial v hv
  · obtain ⟨m, hm, rfl⟩ := List.mem_map.mp hr
    obtain ⟨_, -, hm⟩ := TypeTable.exists_of_mem_right hnoted hm
    exact hm.untyped
  · cases slot with
    | member position =>
      obtain ⟨m, hm, -⟩ := Option.map_eq_some_iff.mp hslot
      obtain ⟨hlt, -⟩ := List.getElem?_eq_some_iff.mp hm
      have hposition : (members.zipIdx.map (·.2))[position]? = some position := by
        have hlength : members.length = (addMembers name members.zipIdx u).1.length := by
          simpa using hnoted.length_eq
        simp [hlength, hlt]
      exact (TypeTable.forall₂_getElem? hnoted hposition hm).use
    | parent | base | element => cases hslot

theorem addTypeDecl_keeps {d : Tree.TypeDecl} (h : d.body.Proper) : Keeps (addTypeDecl d) fun _ => True := by
  obtain ⟨name, body⟩ := d
  cases body with
  | «alias» parent initial => exact addAlias_keeps name parent h
  | enumeration values initial =>
    intro u hu
    refine ⟨hu.addType ⟨trivial, by simp [TypeKind.initials], by simp [TypeKind.refs], ?_⟩, fun _ => id, trivial⟩
    rintro (_ | _ | _ | _) r hr <;> cases hr
  | subrange base min max initial => exact addSubrange_keeps name base h.1 max h.2
  | array element dimensions initial =>
    exact .bind (typeName_keeps _ h.1) fun element _ => addArray_keeps name element dimensions h.2
  | struct members => exact addStruct_keeps name h

-- ---------------------------------------------------------------------------
-- Variables
-- ---------------------------------------------------------------------------

/-- A variable whose initial value and type are as the grammar yields them. -/
structure PendingVar.Proper (v : PendingVar) : Prop where
  type : v.type.Proper
  initial : Tree.InitialProper v.initial
  permanent : v.storage.temporary = false

theorem address_keeps (location : Option (String × Span)) : Keeps (address location) fun _ => True := by
  unfold address
  split
  · exact .pure trivial
  · split
    · exact .pure trivial
    · exact fun u hu => ⟨⟨hu.types, hu.globals, hu.vars, hu.bodies⟩, fun _ => id, trivial⟩

theorem blockVars_keeps {b : Tree.VarBlock} (h : b.Proper) :
    Keeps (blockVars b) fun vs => ∀ v ∈ vs, v.Proper ∧ v.section = b.section := by
  refine .bind (.mapM (R := fun vs => ∀ v ∈ vs, v.Proper ∧ v.section = b.section) fun line hline => ?_)
    fun lines hlines => .pure fun v hv => ?_
  · refine .bind (address_keeps line.address) fun address _ => .pure fun v hv => ?_
    obtain ⟨name, -, rfl⟩ := List.mem_map.mp hv
    exact ⟨⟨(h line hline).type, (h line hline).initial, rfl⟩, rfl⟩
  · obtain ⟨vs, hvs, hv⟩ := List.mem_flatten.mp hv
    exact hlines vs hvs v hv

theorem declare_keeps (scope : String) {v : PendingVar} (h : v.Proper) :
    Keeps (declare scope v) fun decl => decl.Fresh ∧ (v.section ≠ .external → decl.isExternal = false) := by
  refine .bind (typeName_keeps _ h.type) fun type _ => ?_
  split
  · next hsection =>
    exact .pure ⟨⟨rfl, rfl, h.permanent, h.initial, fun _ => ⟨hsection, rfl⟩⟩, fun hne => absurd hsection hne⟩
  · split
    · exact .pure ⟨⟨rfl, rfl, h.permanent, h.initial, nofun⟩, fun _ => rfl⟩
    · exact .pure ⟨⟨rfl, rfl, h.permanent, h.initial, nofun⟩, fun _ => rfl⟩

theorem addGlobals_keeps {b : Tree.VarBlock} (hsection : b.section = .global) (h : b.Proper) :
    Keeps (addGlobals b) fun _ => True := by
  refine .bind (blockVars_keeps h) fun vs hvs => .bind (.forIn fun v hv => ?_) fun _ _ => .pure trivial
  obtain ⟨hproper, hv⟩ := hvs v hv
  refine .bind (declare_keeps globalScope hproper) fun decl hdecl u hu => ?_
  have hglobal : decl.isExternal = false := hdecl.2 (by simp [hv, hsection])
  refine ⟨⟨hu.types, fun v' hv' => ?_, hu.vars, hu.bodies⟩, fun _ => id, rfl⟩
  obtain hv' | hv' := List.mem_append.mp hv'
  · exact hu.globals v' hv'
  · obtain rfl := List.mem_singleton.mp hv'
    exact ⟨hdecl.1, hglobal⟩

-- ---------------------------------------------------------------------------
-- Units
-- ---------------------------------------------------------------------------

theorem Fresh.addPou {u : CompilationUnit} (hu : u.Fresh) {p : Pou} (hvars : ∀ v ∈ p.vars, v.Fresh)
    (hbody : Body.Unlinked p.body p.pools) : { u with pous := u.pous ++ [p] }.Fresh := by
  refine ⟨hu.types, hu.globals, fun p' hp' => ?_, fun p' hp' => ?_⟩
  · obtain hp' | hp' := List.mem_append.mp hp'
    · exact hu.vars p' hp'
    · obtain rfl := List.mem_singleton.mp hp'
      exact hvars
  · obtain hp' | hp' := List.mem_append.mp hp'
    · exact hu.bodies p' hp'
    · obtain rfl := List.mem_singleton.mp hp'
      exact hbody

theorem addPou_keeps {p : Tree.Pou} (h : p.Proper) : Keeps (addPou p) fun _ => True := by
  have hblock : ∀ b ∈ p.blocks, Keeps (blockVars b) fun vs => ∀ v ∈ vs, v.Proper := fun b hb u hu =>
    (blockVars_keeps (h.blocks b hb) u hu).imp_right fun hvs => hvs.imp_right fun hvs v hv => (hvs v hv).1
  refine .bind (.mapM hblock) fun blocks hblocks => .bind (.mapM (R := VarDecl.Fresh) fun v hv => ?_) fun vars hvars => ?_
  · have hv : v.Proper := by
      obtain hv | hv := List.mem_append.mp hv
      · obtain ⟨vs, hvs, hv⟩ := List.mem_flatten.mp hv
        exact hblocks vs hvs v hv
      · cases hreturns : p.returns with
        | none => simp [hreturns] at hv
        | some type =>
          simp only [hreturns, List.mem_singleton] at hv
          subst hv
          exact ⟨h.returns type hreturns, Tree.initialProper_none, rfl⟩
    exact fun u hu => (declare_keeps p.name.text hv u hu).imp_right fun h => h.imp_right fun h => h.1
  · exact fun u hu => ⟨hu.addPou hvars (Body.unlinked_ofStatements h.body _), fun _ => id, trivial⟩

/-- The unit of proper declarations is fresh. -/
theorem fresh_ofElements (file : FileId) (diagnostics : List Diagnostic) {elements : List Tree.Element}
    (h : ∀ e ∈ elements, e.Proper) : (ofElements file diagnostics elements).Fresh := by
  have hempty : CompilationUnit.Fresh { file, diagnostics } := ⟨by simp, by simp, by simp, by simp⟩
  refine (Keeps.forM (fun e he => ?_) _ hempty).1
  have he := h e he
  cases e with
  | types declarations => exact .forM fun d hd => addTypeDecl_keeps (he d hd)
  | globals block => exact addGlobals_keeps he.1 he.2
  | pou p => exact addPou_keeps he

end CompilationUnit

end StructuredText
