-- SUMMARY: Storages whose variables hold values of their types.
import StructuredText.Proofs.Access
import StructuredText.Proofs.Located

/-!
# Typed storage

The declarations of a library and the unit of each instance are fixed while a program runs. Together they give
a type to every variable, and through its path to every place. A storage is sound if every variable holds a
value of its type in which every function block is bound to an instance of its own unit.

An external variable has a type of its own, which need not be that of the global variable that it stands for;
compatible types have the same inhabitants up to the limits of ranges, which do not count here.
-/

namespace StructuredText

/-- What is fixed while a program runs. -/
structure Layout where
  library : Library
  /-- The unit that each instance belongs to. -/
  pous : List Nat

/-- A function block that is not bound to an instance. -/
def Unbound (ref : BlockRef) : Prop := ref.instance? = none

/-- A value without function blocks. -/
abbrev Value.Plain (v : Value) : Prop := v.Proper fun _ => False

namespace Layout

/-- The instance belongs to the unit. -/
def InstanceOf (y : Layout) (i : InstanceId) (p : Pou) : Prop :=
  ∃ pou, y.pous[i]? = some pou ∧ y.library.pous[pou]? = some p

theorem InstanceOf.unique {y : Layout} {i : InstanceId} {p p' : Pou} (h : y.InstanceOf i p)
    (h' : y.InstanceOf i p') : p = p' := by
  obtain ⟨pou, hpou, hp⟩ := h
  obtain ⟨pou', hpou', hp'⟩ := h'
  cases hpou.symm.trans hpou'
  exact Option.some.inj (hp.symm.trans hp')

/-- The declaration of a variable. -/
def declOf (y : Layout) : Slot → Option VarDecl
  | .global g => y.library.globals[g]?
  | .own i position => do (← y.library.pous[← y.pous[i]?]?).vars[position]?

/-- The function block is bound to an instance of its unit. -/
def Bound (y : Layout) (ref : BlockRef) : Prop :=
  ∃ i, ref.instance? = some i ∧ y.pous[i]? = some ref.block

/-- A value of the type whose function blocks are bound. -/
def Fits (y : Layout) (type : TypeId) (v : Value) : Prop :=
  v.Proper y.Bound ∧ y.library.types.Inhabits False type v

theorem declOf_own {y : Layout} {i : InstanceId} {position : Nat} {decl : VarDecl} :
    y.declOf (.own i position) = some decl ↔
      ∃ p, y.InstanceOf i p ∧ p.vars[position]? = some decl := by
  simp only [declOf, InstanceOf, bind, Option.bind_eq_some_iff]
  exact ⟨fun ⟨pou, hpou, p, hp, hdecl⟩ => ⟨p, ⟨pou, hpou, hp⟩, hdecl⟩,
    fun ⟨p, ⟨pou, hpou, hp⟩, hdecl⟩ => ⟨pou, hpou, p, hp, hdecl⟩⟩

end Layout

mutual

theorem Value.Proper.imp {bound bound' : BlockRef → Prop} (hb : ∀ ref, bound ref → bound' ref) :
    {v : Value} → v.Proper bound → v.Proper bound'
  | .block ref, h => hb ref h
  | .array _, h => Value.AllProper.imp hb h
  | .struct _, h => Value.MembersProper.imp hb h
  | .arrayInit _, h => Value.ItemsProper.imp hb h
  | .integer _, h => h
  | .void, _ | .bool _, _ | .bits _, _ | .real _, _ | .string _, _ | .duration _, _ | .date _, _
  | .timeOfDay _, _ | .dateAndTime _, _ | .enumeration _, _ => trivial

theorem Value.AllProper.imp {bound bound' : BlockRef → Prop} (hb : ∀ ref, bound ref → bound' ref) :
    {vs : List Value} → Value.AllProper bound vs → Value.AllProper bound' vs
  | [], _ => trivial
  | _ :: _, h => ⟨Value.Proper.imp hb h.1, Value.AllProper.imp hb h.2⟩

theorem Value.MembersProper.imp {bound bound' : BlockRef → Prop}
    (hb : ∀ ref, bound ref → bound' ref) :
    {ms : List (Ident × Value)} → Value.MembersProper bound ms → Value.MembersProper bound' ms
  | [], _ => trivial
  | _ :: _, h => ⟨Value.Proper.imp hb h.1, Value.MembersProper.imp hb h.2⟩

theorem Value.ItemsProper.imp {bound bound' : BlockRef → Prop}
    (hb : ∀ ref, bound ref → bound' ref) :
    {items : List (Nat × Value)} → Value.ItemsProper bound items → Value.ItemsProper bound' items
  | [], _ => trivial
  | _ :: _, h => ⟨Value.Proper.imp hb h.1, Value.ItemsProper.imp hb h.2⟩

end

theorem Value.Plain.proper {v : Value} {bound : BlockRef → Prop} (h : v.Plain) : v.Proper bound :=
  h.imp fun _ => False.elim

-- ---------------------------------------------------------------------------
-- Resolved declarations
-- ---------------------------------------------------------------------------

/-- A variable whose declaration is resolved: it has a type and a default value of that type. -/
structure VarDecl.Resolved (l : Library) (decl : VarDecl) (type : TypeId) : Prop where
  typed : decl.type.id? = some type
  declared : l.types.Declares type
  permanent : decl.storage.temporary = false
  unbound : decl.default.Proper Unbound
  default : l.types.Inhabits False type decl.default
  /-- Parameters are not external. -/
  external : decl.isExternal = true → decl.section = .external
  shares : ∀ g, decl.kind = .external g → ∃ i owner ownerType, g = some i ∧
    l.globals[i]? = some owner ∧ owner.isExternal = false ∧ owner.type.id? = some ownerType ∧
    l.types.compatible ownerType type = true

/-- All declarations of a library are resolved. -/
structure Library.Resolved (l : Library) : Prop where
  types : l.types.Complete
  initials : l.types.Proper fun _ => False
  blocks : ∀ id d pou, l.types.get? id = some d → d.kind = .block pou →
    ∃ p, l.pous[pou]? = some p ∧ p.kind = .functionBlock
  globals : ∀ decl ∈ l.globals, decl.isExternal = false ∧ ∃ type, decl.Resolved l type
  vars : ∀ p ∈ l.pous, ∀ decl ∈ p.vars, ∃ type, decl.Resolved l type

/-- The declarations are resolved, and every instance belongs to one of the units. -/
structure Layout.Resolved (y : Layout) : Prop where
  library : y.library.Resolved
  pous : ∀ (i pou : Nat), y.pous[i]? = some pou → ∃ p, y.library.pous[pou]? = some p

theorem Library.Resolved.declOf {y : Layout} (hl : y.library.Resolved) {slot : Slot} {decl : VarDecl}
    (h : y.declOf slot = some decl) : ∃ type, decl.Resolved y.library type := by
  cases slot with
  | global g => exact (hl.globals decl (List.mem_of_getElem? h)).2
  | own i position =>
    obtain ⟨p, ⟨pou, -, hp⟩, h⟩ := Layout.declOf_own.mp h
    exact hl.vars p (List.mem_of_getElem? hp) decl (List.mem_of_getElem? h)

-- ---------------------------------------------------------------------------
-- Sound storages
-- ---------------------------------------------------------------------------

/-- Every variable of the storage holds a value of its type. -/
structure Storage.Sound (y : Layout) (s : Storage) : Prop where
  instances : s.instances.toList.map (·.pou) = y.pous
  units : ∀ pou p, y.library.pous[pou]? = some p → p.kind ≠ .functionBlock →
    ∃ i, s.unitInstance pou = .ok i ∧ y.pous[i]? = some pou
  slots : ∀ slot decl, y.declOf slot = some decl → ∃ v, s.slotValue slot = .ok v ∧
    (decl.isExternal = false → ∀ type, decl.type.id? = some type → y.Fits type v)

/-- A place is in a part of a variable. It has the type of the part, or a compatible one. -/
structure Layout.Placed (y : Layout) (p : Place) (type : TypeId) : Prop where
  place : ∃ decl owner inner, y.declOf p.slot = some decl ∧ decl.isExternal = false ∧
    decl.type.id? = some owner ∧ y.library.types.PartAt owner p.path inner ∧
      (inner = type ∨ y.library.types.compatible inner type = true)

namespace Storage

variable {y : Layout} {s : Storage}

-- ---------------------------------------------------------------------------
-- Variables
-- ---------------------------------------------------------------------------

theorem instance?_eq_ok {i : InstanceId} {found : Instance} :
    s.instance? i = .ok found ↔ s.instances[i]? = some found := by
  unfold instance?
  cases s.instances[i]? <;> simp

theorem slotValue_global (g : Nat) {v : Value} :
    s.slotValue (.global g) = .ok v ↔ s.globals[g]? = some v := by
  unfold slotValue
  cases h : s.globals[g]? <;> simp [h, pure, Except.pure, bind, Except.bind]

theorem slotValue_own (i : InstanceId) (position : Nat) {v : Value} :
    s.slotValue (.own i position) = .ok v ↔
      ∃ found, s.instances[i]? = some found ∧ found.vars[position]? = some v := by
  simp only [← instance?_eq_ok]
  unfold slotValue
  cases h : s.instance? i with
  | error e => simp [h, bind, Except.bind]
  | ok found =>
    cases h' : found.vars[position]? <;> simp [h, h', pure, Except.pure, bind, Except.bind]

theorem slotValue_setSlot_self {slot : Slot} {v w : Value} (h : s.slotValue slot = .ok w) :
    (s.setSlot slot v).slotValue slot = .ok v := by
  cases slot with
  | global g =>
    have hg := (slotValue_global g).mp h
    refine (slotValue_global g).mpr ?_
    obtain ⟨hlt, -⟩ := Array.getElem?_eq_some_iff.mp hg
    simp [setSlot, hlt]
  | own i position =>
    obtain ⟨found, hfound, hw⟩ := (slotValue_own i position).mp h
    obtain ⟨hlt, -⟩ := Array.getElem?_eq_some_iff.mp hw
    refine (slotValue_own i position).mpr ⟨{ found with vars := found.vars.setIfInBounds position v }, ?_, ?_⟩
    · simp [setSlot, Array.getElem?_modify, hfound]
    · simp [hlt]

theorem slotValue_setSlot_ne {slot slot' : Slot} {v w : Value} (hne : slot' ≠ slot)
    (h : s.slotValue slot' = .ok w) : (s.setSlot slot v).slotValue slot' = .ok w := by
  cases slot with
  | global g =>
    cases slot' with
    | global g' =>
      have hg : g ≠ g' := fun heq => hne (by rw [heq])
      refine (slotValue_global g').mpr ?_
      simp [setSlot, hg, (slotValue_global g').mp h]
    | own i position => exact h
  | own i position =>
    cases slot' with
    | global g => exact h
    | own i' position' =>
      obtain ⟨found, hfound, hw⟩ := (slotValue_own i' position').mp h
      refine (slotValue_own i' position').mpr ?_
      by_cases hi : i = i'
      · subst hi
        have hposition : position ≠ position' := fun heq => hne (by rw [heq])
        refine ⟨{ found with vars := found.vars.setIfInBounds position v }, ?_, ?_⟩
        · simp [setSlot, Array.getElem?_modify, hfound]
        · simp [hposition, hw]
      · exact ⟨found, by simp [setSlot, Array.getElem?_modify, hfound, hi], hw⟩

theorem setSlot_pous (slot : Slot) (v : Value) :
    (s.setSlot slot v).instances.toList.map (·.pou) = s.instances.toList.map (·.pou) := by
  cases slot with
  | global g => rfl
  | own i position =>
    refine List.ext_getElem? fun j => ?_
    simp only [setSlot, List.getElem?_map, Array.getElem?_toList, Array.getElem?_modify]
    split
    · cases s.instances[j]? <;> rfl
    · rfl

-- ---------------------------------------------------------------------------
-- What a sound storage has
-- ---------------------------------------------------------------------------

theorem Sound.instance? (hs : s.Sound y) {i : InstanceId} {pou : Nat} (h : y.pous[i]? = some pou) :
    ∃ found, s.instance? i = .ok found ∧ found.pou = pou := by
  rw [← hs.instances, List.getElem?_map, Array.getElem?_toList] at h
  obtain ⟨found, hfound, rfl⟩ := Option.map_eq_some_iff.mp h
  exact ⟨found, instance?_eq_ok.mpr hfound, rfl⟩

theorem Sound.pouOf (hs : s.Sound y) {i : InstanceId} {p : Pou} (h : y.InstanceOf i p) :
    s.pouOf y.library i = .ok p := by
  obtain ⟨pou, hpou, hp⟩ := h
  obtain ⟨found, hfound, rfl⟩ := hs.instance? hpou
  unfold Storage.pouOf
  rw [hfound, Except.ok_bind, hp]
  rfl

theorem Sound.declOf (hs : s.Sound y) {slot : Slot} {decl : VarDecl} (h : y.declOf slot = some decl) :
    s.declOf y.library slot = .ok decl := by
  unfold Storage.declOf
  cases slot with
  | global g =>
    replace h : y.library.globals[g]? = some decl := h
    simp only [h]
    rfl
  | own i position =>
    obtain ⟨p, hp, hdecl⟩ := Layout.declOf_own.mp h
    simp only [hs.pouOf hp, Except.ok_bind, hdecl]
    rfl

/-- A variable may be set to any value of its type, and an external one to any value at all. -/
theorem Sound.setSlot (hs : s.Sound y) {slot : Slot} {decl : VarDecl} {v : Value}
    (hdecl : y.declOf slot = some decl)
    (hfits : decl.isExternal = false → ∀ type, decl.type.id? = some type → y.Fits type v) :
    (s.setSlot slot v).Sound y := by
  refine ⟨(setSlot_pous slot v).trans hs.instances, ?_, fun slot' decl' hdecl' => ?_⟩
  · intro pou p hp hkind
    simp only [unitInstance, setSlot_units]
    exact hs.units pou p hp hkind
  · obtain ⟨w, hw, hwfits⟩ := hs.slots slot' decl' hdecl'
    by_cases hslot : slot' = slot
    · subst hslot
      cases hdecl.symm.trans hdecl'
      exact ⟨v, slotValue_setSlot_self hw, hfits⟩
    · exact ⟨w, slotValue_setSlot_ne hslot hw, hwfits⟩

theorem Sound.withMemory (hs : s.Sound y) (memory : DirectMemory) : { s with memory }.Sound y :=
  ⟨hs.instances, hs.units, hs.slots⟩

/-- There is a value of its type at every place. -/
theorem Sound.value (hs : s.Sound y) {p : Place} {type : TypeId} (hp : y.Placed p type) :
    ∃ v, s.value p = .ok v ∧ y.Fits type v := by
  obtain ⟨decl, owner, inner, hdecl, hexternal, howner, hpart, hinner⟩ := hp.place
  obtain ⟨whole, hwhole, hfits⟩ := hs.slots p.slot decl hdecl
  obtain ⟨hproper, hinhabits⟩ := hfits hexternal owner howner
  obtain ⟨v, hv, hproper, hinhabits⟩ := TypeTable.exists_descend hpart hproper hinhabits
  refine ⟨v, by rw [Storage.value, hwhole, Except.ok_bind, hv], hproper, ?_⟩
  obtain rfl | hcompatible := hinner
  · exact hinhabits
  · exact TypeTable.inhabits_of_compatible hcompatible hinhabits

end Storage

end StructuredText
