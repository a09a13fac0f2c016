-- SUMMARY: Compatible types of a linked library are the classes of an equivalence, generated by aliases and subranges.
import Mathlib.Logic.Relation
import StructuredText.Proofs.Assignable

/-!
# Compatibility as an equivalence

An alias is compatible with the type that it stands for, a subrange with its base, and elementary types with those of
their category. Compatibility of linked types is the smallest equivalence relation with these three rules. On types of
a kind of their own it comes down to aliases of the same declaration.
-/

namespace StructuredText

theorem Category.isNominal_of_isInteger {c : Category} (h : c.isInteger = true) : c.isNominal = false := by
  cases c <;> first | rfl | cases h

instance (kind : TypeKind) : Decidable kind.Nominal :=
  match kind with
  | .enumeration .. | .array .. | .struct _ | .block _ => .isTrue trivial
  | .elementary _ | .alias .. | .subrange .. => .isFalse id

namespace TypeTable

open Relation (ReflTransGen EqvGen)

variable {t : TypeTable} {a b id p r s : TypeId} {c : TypeClass} {depth : Nat}

-- ---------------------------------------------------------------------------
-- Aliases
-- ---------------------------------------------------------------------------

/-- The first type is declared as an alias of the second. -/
def AliasOf (t : TypeTable) (a p : TypeId) : Prop :=
  ∃ d parent initial, t.get? a = some d ∧ d.kind = .alias parent initial ∧ parent.id? = some p

/-- The first type is declared as a subrange of the second. -/
def SubrangeOf (t : TypeTable) (a b : TypeId) : Prop :=
  ∃ d base min max initial, t.get? a = some d ∧ d.kind = .subrange base min max initial ∧ base.id? = some b

theorem aliasOf_iff : t.AliasOf a p ↔ ((t.get? a).bind (·.kind.slotRef? .parent)).bind (·.id?) = some p := by
  constructor
  · rintro ⟨d, parent, initial, hd, hkind, hp⟩
    simp [hd, hkind, TypeKind.slotRef?, hp]
  · intro h
    obtain ⟨parent, h, hp⟩ := Option.bind_eq_some_iff.mp h
    obtain ⟨d, hd, hslot⟩ := Option.bind_eq_some_iff.mp h
    cases hkind : d.kind <;> rw [hkind] at hslot <;> cases hslot
    exact ⟨d, _, _, hd, hkind, hp⟩

theorem subrangeOf_iff : t.SubrangeOf a b ↔ ((t.get? a).bind (·.kind.slotRef? .base)).bind (·.id?) = some b := by
  constructor
  · rintro ⟨d, base, min, max, initial, hd, hkind, hb⟩
    simp [hd, hkind, TypeKind.slotRef?, hb]
  · intro h
    obtain ⟨base, h, hb⟩ := Option.bind_eq_some_iff.mp h
    obtain ⟨d, hd, hslot⟩ := Option.bind_eq_some_iff.mp h
    cases hkind : d.kind <;> rw [hkind] at hslot <;> cases hslot
    exact ⟨d, _, _, _, _, hd, hkind, hb⟩

instance : Decidable (t.AliasOf a p) := decidable_of_iff _ aliasOf_iff.symm

instance : Decidable (t.SubrangeOf a b) := decidable_of_iff _ subrangeOf_iff.symm

/-- Following aliases from the first type reaches the second, a declaration of a kind of its own. -/
structure Denotes (t : TypeTable) (a r : TypeId) : Prop where
  reached : ReflTransGen t.AliasOf a r
  nominal : ∃ d, t.get? r = some d ∧ d.kind.Nominal

theorem rightUnique_aliasOf : Relator.RightUnique t.AliasOf := by
  rintro a p p' ⟨d, parent, initial, hd, hkind, hp⟩ ⟨d', parent', initial', hd', hkind', hp'⟩
  cases hd.symm.trans hd'
  cases hkind.symm.trans hkind'
  exact Option.some.inj (hp.symm.trans hp')

theorem Denotes.not_aliasOf (h : t.Denotes a r) : ¬ t.AliasOf r p := by
  rintro ⟨d, parent, initial, hd, hkind, -⟩
  obtain ⟨d', hd', hnominal⟩ := h.nominal
  cases hd.symm.trans hd'
  rw [hkind] at hnominal
  exact hnominal

/-- Aliases that are followed to the end lead to one declaration. -/
theorem eq_of_reached (hr : ReflTransGen t.AliasOf a r) (hs : ReflTransGen t.AliasOf a s)
    (hlast : ∀ p, ¬ t.AliasOf r p) (hlast' : ∀ p, ¬ t.AliasOf s p) : r = s := by
  obtain h | h := ReflTransGen.total_of_right_unique rightUnique_aliasOf hr hs
  · exact h.cases_head.resolve_right fun ⟨p, hp, _⟩ => hlast p hp
  · exact (h.cases_head.resolve_right fun ⟨p, hp, _⟩ => hlast' p hp).symm

theorem Denotes.unique (h : t.Denotes a r) (h' : t.Denotes a s) : r = s :=
  eq_of_reached h.reached h'.reached (fun _ => h.not_aliasOf) fun _ => h'.not_aliasOf

/-- The root of a type is at the end of its aliases. -/
theorem reached_of_rootWithin {start : TypeId} {steps : Nat} (h : t.rootWithin start steps id = .ok r) :
    ReflTransGen t.AliasOf id r ∧ ∀ p, ¬ t.AliasOf r p := by
  induction steps generalizing id with
  | zero => cases h
  | succ steps ih =>
    obtain ⟨d, hd, ⟨parent, initial, p, hkind, hp, hroot⟩ | ⟨hother, rfl⟩⟩ := rootWithin_succ h
    · obtain ⟨hreached, hlast⟩ := ih hroot
      exact ⟨.head ⟨d, parent, initial, hd, hkind, hp⟩ hreached, hlast⟩
    · refine ⟨.refl, ?_⟩
      rintro p ⟨d', parent, initial, hd', hkind, -⟩
      cases hd.symm.trans hd'
      exact hother parent initial hkind

-- ---------------------------------------------------------------------------
-- Classes and roots of checked types
-- ---------------------------------------------------------------------------

theorem exists_classWithin (h : t.Within depth id) : ∃ c, t.classWithin depth id = .ok c := by
  induction depth generalizing id with
  | zero => exact h.elim
  | succ depth ih =>
    obtain ⟨d, hd, h⟩ := h
    rw [classWithin]
    simp only [get_eq_ok.mpr hd, Except.ok_bind]
    cases hkind : d.kind with
    | «alias» parent initial =>
      rw [hkind] at h
      obtain ⟨p, hp, hparent⟩ := h
      obtain ⟨c, hc⟩ := ih hparent
      exact ⟨c.derive, by simp only [ref_id_eq_ok.mpr hp, Except.ok_bind, hc]; rfl⟩
    | subrange base min max initial =>
      rw [hkind] at h
      obtain ⟨b, hb, hbase⟩ := h
      obtain ⟨c, hc⟩ := ih hbase
      exact ⟨c.derive, by simp only [ref_id_eq_ok.mpr hb, Except.ok_bind, hc]; rfl⟩
    | _ => exact ⟨_, rfl⟩

/-- The class of an alias or a subrange has the category of the type that it is declared by. -/
theorem classOf_part (h : t.AliasOf a p ∨ t.SubrangeOf a p) (hc : t.classOf a = .ok c) :
    ∃ depth c', t.classWithin depth p = .ok c' ∧ c'.category = c.category := by
  obtain ⟨d, hd, hparts⟩ := classWithin_succ hc
  obtain ⟨d', parent, initial, hd', hkind, hp⟩ | ⟨d', base, min, max, initial, hd', hkind, hp⟩ := h
  all_goals
    cases hd.symm.trans hd'
    rw [hkind] at hparts
    obtain ⟨p', c', hp', hc', hcategory⟩ := hparts
    cases hp.symm.trans hp'
    exact ⟨_, c', hc', hcategory⟩

section

variable (ht : t.Checked)

include ht

theorem Checked.exists_classOf (h : t.Declares id) : ∃ c, t.classOf id = .ok c := by
  obtain ⟨v, hv⟩ := ht.created id h
  exact exists_classWithin (within_of_createWithin hv)

theorem Checked.exists_rootOf (h : t.Declares id) : ∃ r, t.rootOf id = .ok r := by
  obtain ⟨v, hv⟩ := ht.created id h
  exact exists_rootWithin id (within_of_createWithin hv)

/-- An alias and a subrange are declared by types that are declared themselves. -/
theorem Checked.declares_part (h : t.AliasOf a p ∨ t.SubrangeOf a p) : t.Declares p := by
  have hdeclares : t.Declares a := by
    obtain ⟨d, _, _, hd, -⟩ | ⟨d, _, _, _, _, hd, -⟩ := h <;> exact ⟨d, hd⟩
  obtain ⟨c, hc⟩ := ht.exists_classOf hdeclares
  obtain ⟨depth, c', hc', -⟩ := classOf_part h hc
  cases depth with
  | zero => cases hc'
  | succ depth =>
    obtain ⟨d, hd, -⟩ := classWithin_succ hc'
    exact ⟨d, hd⟩

-- ---------------------------------------------------------------------------
-- Rules of compatibility
-- ---------------------------------------------------------------------------

theorem Checked.compatible_refl (h : t.Declares a) : t.compatible a a = true := by
  obtain ⟨c, hc⟩ := ht.exists_classOf h
  obtain ⟨r, hr⟩ := ht.exists_rootOf h
  exact compatible_iff.mpr ⟨c, c, hc, hc, rfl, fun _ => ⟨r, hr, hr⟩⟩

omit ht in
theorem compatible_trans (hab : t.compatible a b = true) (hbc : t.compatible b id = true) :
    t.compatible a id = true := by
  obtain ⟨x, y, hx, hy, hxy, hroot⟩ := compatible_iff.mp hab
  obtain ⟨y', z, hy', hz, hyz, hroot'⟩ := compatible_iff.mp hbc
  cases hy.symm.trans hy'
  refine compatible_iff.mpr ⟨x, z, hx, hz, hxy.trans hyz, fun hnominal => ?_⟩
  obtain ⟨r, ha, hb⟩ := hroot hnominal
  obtain ⟨r', hb', hc⟩ := hroot' (hxy ▸ hnominal)
  cases hb.symm.trans hb'
  exact ⟨r, ha, hc⟩

theorem Checked.compatible_of_aliasOf (h : t.AliasOf a p) : t.compatible a p = true := by
  have hp : t.Declares p := ht.declares_part (.inl h)
  have ha : t.Declares a := by
    obtain ⟨d, _, _, hd, -⟩ := h
    exact ⟨d, hd⟩
  obtain ⟨x, hx⟩ := ht.exists_classOf ha
  obtain ⟨y, hy⟩ := ht.exists_classOf hp
  obtain ⟨depth, y', hy', hcategory⟩ := classOf_part (.inl h) hx
  refine compatible_iff.mpr ⟨x, y, hx, hy, hcategory.symm.trans (category_of_classWithin hy' hy), fun _ => ?_⟩
  obtain ⟨r, hr⟩ := ht.exists_rootOf ha
  obtain ⟨s, hs⟩ := ht.exists_rootOf hp
  obtain ⟨hreached, hlast⟩ := reached_of_rootWithin hr
  obtain ⟨hreached', hlast'⟩ := reached_of_rootWithin hs
  obtain rfl : r = s := eq_of_reached hreached (.head h hreached') hlast hlast'
  exact ⟨r, hr, hs⟩

theorem Checked.compatible_of_subrangeOf (h : t.SubrangeOf a b) : t.compatible a b = true := by
  obtain ⟨d, base, min, max, initial, hd, hkind, hbase⟩ := id h
  obtain ⟨x, hx⟩ := ht.exists_classOf ⟨d, hd⟩
  obtain ⟨depth, y', hy', hcategory⟩ := classOf_part (.inr h) hx
  obtain ⟨b', y, hb', hy, hinteger⟩ := ht.bases a d base min max initial hd hkind
  cases hbase.symm.trans hb'
  have hsame : x.category = y.category := hcategory.symm.trans (category_of_classWithin hy' hy)
  refine compatible_iff.mpr ⟨x, y, hx, hy, hsame, fun hnominal => ?_⟩
  -- the base is an integer type, and those are not of a kind of their own
  rw [hsame] at hnominal
  exact absurd hnominal (by rw [Category.isNominal_of_isInteger hinteger]; decide)

theorem Checked.compatible_of_reached (h : ReflTransGen t.AliasOf a r) (ha : t.Declares a) :
    t.compatible a r = true := by
  induction h with
  | refl => exact ht.compatible_refl ha
  | tail _ hstep ih => exact compatible_trans ih (ht.compatible_of_aliasOf hstep)

omit ht in
theorem Denotes.declares (h : t.Denotes a r) : t.Declares a := by
  obtain rfl | ⟨p, ⟨d, _, _, hd, -⟩, -⟩ := h.reached.cases_head
  · obtain ⟨d, hd, -⟩ := h.nominal
    exact ⟨d, hd⟩
  · exact ⟨d, hd⟩

/-- The root of a type that denotes a declaration is that declaration. -/
theorem Checked.rootOf_of_denotes (h : t.Denotes a r) : t.rootOf a = .ok r := by
  obtain ⟨s, hs⟩ := ht.exists_rootOf h.declares
  obtain ⟨hreached, hlast⟩ := reached_of_rootWithin hs
  obtain rfl : s = r := eq_of_reached hreached h.reached hlast fun _ => h.not_aliasOf
  exact hs

/-- A type of a kind of its own is compatible with the types that denote the same declaration. -/
theorem Checked.compatible_iff_denotes (h : t.Denotes a r) :
    t.compatible a b = true ↔ t.Denotes b r := by
  constructor
  · intro hcompatible
    obtain ⟨x, y, hx, hy, -, hroot⟩ := compatible_iff.mp hcompatible
    obtain ⟨d, hd, hnominal⟩ := h.nominal
    obtain ⟨s, ha, hb⟩ := hroot (isNominal_of_rootWithin hx (ht.rootOf_of_denotes h) hd hnominal)
    cases (ht.rootOf_of_denotes h).symm.trans ha
    exact ⟨(reached_of_rootWithin hb).1, h.nominal⟩
  · intro h'
    exact compatible_trans (ht.compatible_of_reached h.reached h.declares)
      (compatible_symm (ht.compatible_of_reached h'.reached h'.declares))

-- ---------------------------------------------------------------------------
-- The smallest equivalence
-- ---------------------------------------------------------------------------

omit ht

/-- The rules by which types are compatible, apart from those of an equivalence. -/
inductive Akin (t : TypeTable) : TypeId → TypeId → Prop
  | «alias» {a p : TypeId} (h : t.AliasOf a p) : Akin t a p
  | subrange {a b : TypeId} (h : t.SubrangeOf a b) : Akin t a b
  | elementary {a b : TypeId} {d d' e e'} (ha : t.get? a = some d) (hb : t.get? b = some d')
    (hkind : d.kind = .elementary e) (hkind' : d'.kind = .elementary e') (h : e.category = e'.category) : Akin t a b

theorem eqvGen_of_reached (h : ReflTransGen t.AliasOf a r) : EqvGen t.Akin a r := by
  induction h with
  | refl => exact .refl _
  | tail _ hstep ih => exact ih.trans _ _ _ (.rel _ _ (.alias hstep))

/-- A type that is not of a kind of its own comes down to an elementary type of its category. -/
theorem exists_elementary (hc : t.classWithin depth id = .ok c) (hnominal : c.category.isNominal = false) :
    ∃ b d e, EqvGen t.Akin id b ∧ t.get? b = some d ∧ d.kind = .elementary e ∧ e.category = c.category := by
  induction depth generalizing id c with
  | zero => cases hc
  | succ depth ih =>
    obtain ⟨d, hd, hparts⟩ := classWithin_succ hc
    cases hkind : d.kind with
    | elementary e =>
      rw [hkind] at hparts
      exact ⟨id, d, e, .refl id, hd, hkind, hparts.symm⟩
    | «alias» parent initial =>
      rw [hkind] at hparts
      obtain ⟨p, c', hp, hc', hcategory⟩ := hparts
      rw [← hcategory] at hnominal ⊢
      obtain ⟨b, d', e, hb, hfound⟩ := ih hc' hnominal
      exact ⟨b, d', e, .trans _ _ _ (.rel _ _ (.alias ⟨d, parent, initial, hd, hkind, hp⟩)) hb, hfound⟩
    | subrange base min max initial =>
      rw [hkind] at hparts
      obtain ⟨p, c', hp, hc', hcategory⟩ := hparts
      rw [← hcategory] at hnominal ⊢
      obtain ⟨b, d', e, hb, hfound⟩ := ih hc' hnominal
      exact ⟨b, d', e, .trans _ _ _ (.rel _ _ (.subrange ⟨d, base, min, max, initial, hd, hkind, hp⟩)) hb, hfound⟩
    | _ =>
      rw [hkind] at hparts
      rw [hparts] at hnominal
      cases hnominal

theorem eqvGen_of_compatible (h : t.compatible a b = true) : EqvGen t.Akin a b := by
  obtain ⟨x, y, hx, hy, hcategory, hroot⟩ := compatible_iff.mp h
  cases hnominal : x.category.isNominal with
  | true =>
    obtain ⟨r, ha, hb⟩ := hroot hnominal
    exact (eqvGen_of_reached (reached_of_rootWithin ha).1).trans _ _ _
      ((eqvGen_of_reached (reached_of_rootWithin hb).1).symm _ _)
  | false =>
    obtain ⟨a', d, e, ha, hd, hkind, he⟩ := exists_elementary hx hnominal
    obtain ⟨b', d', e', hb, hd', hkind', he'⟩ := exists_elementary hy (hcategory ▸ hnominal)
    have hsame : e.category = e'.category := he.trans (hcategory.trans he'.symm)
    exact ha.trans _ _ _ ((EqvGen.rel _ _ (.elementary hd hd' hkind hkind' hsame)).trans _ _ _ (hb.symm _ _))

include ht

theorem Checked.compatible_of_akin (h : t.Akin a b) : t.compatible a b = true := by
  cases h with
  | «alias» h => exact ht.compatible_of_aliasOf h
  | subrange h => exact ht.compatible_of_subrangeOf h
  | @elementary d d' e e' ha hb hkind hkind' h =>
    obtain ⟨x, hx⟩ := ht.exists_classOf ⟨d, ha⟩
    obtain ⟨y, hy⟩ := ht.exists_classOf ⟨d', hb⟩
    obtain ⟨d₁, hd₁, hx'⟩ := classWithin_succ hx
    obtain ⟨d₂, hd₂, hy'⟩ := classWithin_succ hy
    cases ha.symm.trans hd₁
    cases hb.symm.trans hd₂
    rw [hkind] at hx'
    rw [hkind'] at hy'
    refine compatible_iff.mpr ⟨x, y, hx, hy, hx'.trans (h.trans hy'.symm), fun hnominal => ?_⟩
    rw [hx'] at hnominal
    cases e <;> cases hnominal

/-- Compatibility is the smallest equivalence with its rules. -/
theorem Checked.compatible_iff_eqvGen (ha : t.Declares a) : t.compatible a b = true ↔ EqvGen t.Akin a b := by
  refine ⟨eqvGen_of_compatible, fun h => ?_⟩
  have declares {a b : TypeId} (h : t.compatible a b = true) : t.Declares a := by
    obtain ⟨x, y, hx, -⟩ := compatible_iff.mp h
    obtain ⟨d, hd, -⟩ := classWithin_succ hx
    exact ⟨d, hd⟩
  suffices hboth : (t.Declares a → t.compatible a b = true) ∧ (t.Declares b → t.compatible b a = true) from hboth.1 ha
  clear ha
  induction h with
  | rel a b h => exact ⟨fun _ => ht.compatible_of_akin h, fun _ => compatible_symm (ht.compatible_of_akin h)⟩
  | refl a => exact ⟨ht.compatible_refl, ht.compatible_refl⟩
  | symm a b _ ih => exact ih.symm
  | trans a b c _ _ ih ih' =>
    refine ⟨fun h => ?_, fun h => ?_⟩
    · have hab := ih.1 h
      exact compatible_trans hab (ih'.1 (declares (compatible_symm hab)))
    · have hcb := ih'.2 h
      exact compatible_trans hcb (ih.2 (declares (compatible_symm hcb)))

end

end TypeTable

-- ---------------------------------------------------------------------------
-- Linked types
-- ---------------------------------------------------------------------------

/--
Compatibility of the types of a linked library is an equivalence. It relates aliases to their parents and subranges to
their bases, and types of a kind of their own exactly if their aliases lead to the same declaration. It is the smallest
equivalence with these rules that relates elementary types of one category.
-/
theorem compatible_equivalence {units : List CompilationUnit} {options : Options} {l : Library}
    (hparsed : ∀ unit ∈ units, ∃ source file, parseUnit source file = .ok unit) (h : link units options = .ok l) :
    (Equivalence fun a b : {id // l.types.Declares id} => l.types.compatible a b = true) ∧
    (∀ a p, l.types.AliasOf a p → l.types.compatible a p = true) ∧
    (∀ a b, l.types.SubrangeOf a b → l.types.compatible a b = true) ∧
    (∀ a b, (∃ r, l.types.Denotes a r) → (∃ r, l.types.Denotes b r) →
      (l.types.compatible a b = true ↔ ∃ r, l.types.Denotes a r ∧ l.types.Denotes b r)) ∧
    ∀ a b, l.types.Declares a → (l.types.compatible a b = true ↔ Relation.EqvGen l.types.Akin a b) := by
  obtain ⟨hchecked, -⟩ := checked_of_parsed hparsed h
  refine ⟨⟨fun a => hchecked.compatible_refl a.2, TypeTable.compatible_symm, TypeTable.compatible_trans⟩,
    fun a p => hchecked.compatible_of_aliasOf, fun a b => hchecked.compatible_of_subrangeOf, fun a b ⟨r, hr⟩ _ => ?_,
    fun a b => hchecked.compatible_iff_eqvGen⟩
  rw [hchecked.compatible_iff_denotes hr]
  constructor
  · exact fun hb => ⟨r, hr, hb⟩
  · rintro ⟨s, ha, hb⟩
    rwa [hr.unique ha]

/-- Declares an alias of a subrange, and two enumerations of which one has an alias. -/
def kinSource : String :=
  "TYPE Level : INT (-5..9); Height : Level; Lamp : (Red, Green); Light : Lamp; Other : (Blue); END_TYPE"

/-- The alias of the subrange is compatible with the base of it, and the alias of an enumeration is compatible with that
enumeration only. -/
theorem compatible_equivalence_kin : ∃ unit l, parseUnit kinSource .anonymous = .ok unit ∧ link [unit] {} = .ok l ∧
    l.types.compatible 22 2 = true ∧ l.types.compatible 24 23 = true ∧ l.types.compatible 24 25 = false := by
  have hrun : (linkSource kinSource).toOption.any (fun l =>
      decide (l.types.AliasOf 22 21 ∧ l.types.SubrangeOf 21 2 ∧ l.types.AliasOf 24 23) &&
        decide ((∃ d ∈ l.types.get? 23, d.kind.Nominal) ∧ ∃ d ∈ l.types.get? 25, d.kind.Nominal)) = true := by
    have hchars : kinSource.toList = _ := String.toList_ofList
    rw [linkSource, parseUnit, tokenize_of_toList hchars]
    decide +kernel
  obtain ⟨unit, l, hparse, hlink, hfacts⟩ := exists_of_linkSource hrun
  simp only [Bool.and_eq_true, decide_eq_true_eq] at hfacts
  obtain ⟨⟨hheight, hlevel, hlight⟩, hlamp, hother⟩ := hfacts
  have hparsed : ∀ u ∈ [unit], ∃ source file, parseUnit source file = .ok u :=
    List.forall_mem_singleton.mpr ⟨kinSource, .anonymous, hparse⟩
  obtain ⟨hequivalence, halias, hsubrange, hnominal, -⟩ := compatible_equivalence hparsed hlink
  obtain ⟨hchecked, -⟩ := checked_of_parsed hparsed hlink
  have hint : l.types.Declares 2 := hchecked.declares_part (.inr hlevel)
  have hdenotes : l.types.Denotes 24 23 := ⟨.single hlight, hlamp⟩
  have hdenotes' : l.types.Denotes 25 25 := ⟨.refl, hother⟩
  have hdenotesLamp : l.types.Denotes 23 23 := ⟨.refl, hlamp⟩
  refine ⟨unit, l, hparse, hlink, ?_, (hnominal 24 23 ⟨23, hdenotes⟩ ⟨23, hdenotesLamp⟩).mpr ⟨23, hdenotes, hdenotesLamp⟩,
    Bool.eq_false_iff.mpr fun h => ?_⟩
  · obtain ⟨d, _, _, hd, -⟩ := id hheight
    obtain ⟨d', _, _, _, _, hd', -⟩ := id hlevel
    exact @hequivalence.trans ⟨22, d, hd⟩ ⟨21, d', hd'⟩ ⟨2, hint⟩ (halias 22 21 hheight) (hsubrange 21 2 hlevel)
  · obtain ⟨r, hr, hr'⟩ := (hnominal 24 25 ⟨23, hdenotes⟩ ⟨25, hdenotes'⟩).mp h
    exact absurd ((hdenotes.unique hr).trans (hr'.unique hdenotes')) (by decide)

end StructuredText
