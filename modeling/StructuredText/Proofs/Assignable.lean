-- SUMMARY: Values of compatible types are refused for their range only, and constants known to fit are assigned.
import StructuredText.Proofs.Coercion
import StructuredText.TypeTable.Assign

/-!
# Compatible types and assignment

A value of a type is a value of every compatible type, except that it may be outside of the range. For types of a kind
of their own there is no difference at all, and the others convert what has the kind of value that their category
stores. Whether a constant is in range is found out ahead of time, so that nothing is left to fail when it is assigned.
-/

namespace StructuredText

-- ---------------------------------------------------------------------------
-- Values of one kind
-- ---------------------------------------------------------------------------

/-- The result is a value of the kind, or the value was outside of a range. -/
inductive Ranged (kind : ValueKind) : Except ValueError Value → Prop
  | ok {w : Value} (h : w.kind = kind) : Ranged kind (.ok w)
  | outOfRange (value type : String) : Ranged kind (.error (.outOfRange value type))

theorem Ranged.bind {kind : ValueKind} {x : Except ValueError Value} {f : Value → Except ValueError Value}
    (hx : Ranged kind x) (hf : ∀ w, w.kind = kind → Ranged kind (f w)) : Ranged kind (x >>= f) := by
  cases hx with
  | ok h => exact hf _ h
  | outOfRange value type => exact .outOfRange value type

/-- An elementary type refuses values of its own kind for their range only, and keeps the kind of the others. -/
theorem Elementary.ranged {e : Elementary} {v : Value} (h : v.kind = e.kind.valueKind) :
    Ranged e.kind.valueKind (do e.canHold v; pure (e.coerce v)) := by
  have hhold : e.canHold v = .ok () ∨ e.canHold v = .error (.outOfRange v.text e.text) := by
    cases hkind : e.kind <;> rw [hkind] at h <;> cases v <;> cases h <;> simp only [canHold, hkind]
    case integer.integer | bits.bits | real.real => exact ite_eq_or_eq _ _ _
    all_goals exact .inl trivial
  have hform : (e.coerce v).kind = e.kind.valueKind := by
    cases hkind : e.kind <;> rw [hkind] at h <;> cases v <;> cases h <;> simp only [coerce, hkind] <;> rfl
  obtain hok | herror := hhold
  · rw [hok]
    exact .ok hform
  · rw [herror]
    exact .outOfRange _ _

namespace TypeTable

variable {t : TypeTable} {a b id root : TypeId} {d : TypeDecl} {v : Value} {depth : Nat}

theorem createWithin_some_subrange (hd : t.get? id = some d) {base : TypeRef} {min max : Int} {initial : Option Value}
    (hkind : d.kind = .subrange base min max initial) (hbase : base.id? = some b) :
    t.createWithin (depth + 1) id (some v) = (do
      let w ← t.createWithin depth b (some v)
      let i ← w.toInteger
      if i < min || i > max then throw (.outOfRange w.text d.name.text)
      pure w) := by
  rw [createWithin]
  simp only [get_eq_ok.mpr hd, Except.ok_bind, hkind, ref_id_eq_ok.mpr hbase]
  rfl

/-- The category of a type does not depend on the depth at which it is found out. -/
theorem category_of_classWithin {depth' : Nat} {c c' : TypeClass} (hc : t.classWithin depth id = .ok c)
    (hc' : t.classWithin depth' id = .ok c') : c.category = c'.category := by
  induction depth generalizing id depth' c c' with
  | zero => cases hc
  | succ depth ih =>
    cases depth' with
    | zero => cases hc'
    | succ depth' =>
      obtain ⟨d, hd, hc⟩ := classWithin_succ hc
      obtain ⟨d', hd', hc'⟩ := classWithin_succ hc'
      cases hd.symm.trans hd'
      cases hkind : d.kind <;> rw [hkind] at hc hc'
      case «alias» | subrange =>
        obtain ⟨p, x, hp, hx, hcategory⟩ := hc
        obtain ⟨p', x', hp', hx', hcategory'⟩ := hc'
        cases hp.symm.trans hp'
        rw [← hcategory, ← hcategory']
        exact ih hx hx'
      all_goals exact hc.trans hc'.symm

/-- A type that is not of a kind of its own refuses values of its kind for their range only. -/
theorem ranged_of_category (ht : t.Checked) {c : TypeClass} (hc : t.classWithin depth id = .ok c)
    (hnominal : c.category.isNominal = false) (hv : v.kind = c.category.valueKind) :
    Ranged c.category.valueKind (t.createWithin depth id (some v)) := by
  induction depth generalizing id c with
  | zero => cases hc
  | succ depth ih =>
    obtain ⟨d, hd, hparts⟩ := classWithin_succ hc
    cases hkind : d.kind with
    | elementary e =>
      rw [hkind] at hparts
      rw [hparts, e.valueKind_category] at hv ⊢
      rw [createWithin_elementary hd hkind]
      exact Elementary.ranged hv
    | «alias» parent initial =>
      rw [hkind] at hparts
      obtain ⟨p, c', hp, hc', hcategory⟩ := hparts
      rw [← hcategory] at hnominal hv ⊢
      rw [createWithin_alias hd hkind hp]
      exact ih hc' hnominal hv
    | subrange base min max initial =>
      rw [hkind] at hparts
      obtain ⟨p, c', hp, hc', hcategory⟩ := hparts
      rw [← hcategory] at hnominal hv ⊢
      rw [createWithin_some_subrange hd hkind hp]
      refine (ih hc' hnominal hv).bind fun w hw => ?_
      -- the base is an integer type, so the check of the limits has a number to look at
      obtain ⟨p', x, hp', hx, hinteger⟩ := ht.bases id d base min max initial hd hkind
      cases hp.symm.trans hp'
      rw [← category_of_classWithin hc' hx] at hinteger
      rw [(Category.valueKind_of_isInteger hinteger).2] at hw ⊢
      cases w with
      | integer i =>
        show Ranged _ (if i < min || i > max then _ else _)
        split
        · exact .outOfRange _ _
        · exact .ok rfl
      | _ => cases hw
    | _ =>
      rw [hkind] at hparts
      rw [hparts] at hnominal
      cases hnominal

/-- A value that is well formed for one of two compatible types is refused by the other one for its range only. -/
theorem ranged_of_compatible (ht : t.Checked) (hdistinct : t.DistinctMembers) (h : t.compatible a b = true)
    (hv : t.WellFormed b v) : Ranged v.kind (t.coerce a v) := by
  obtain ⟨x, y, hx, hy, hcategory, hroot⟩ := compatible_iff.mp h
  have hinhabits : t.Inhabits True b v := (wellFormed_iff ht).mp hv
  cases hnominal : x.category.isNominal with
  | true =>
    obtain ⟨r, ha, hb⟩ := hroot hnominal
    -- both types have the same root, and so the same values
    have hvalue : t.WellFormed a v :=
      (wellFormed_iff ht).mpr ((inhabits_rootWithin ha).mpr ((inhabits_rootWithin hb).mp hinhabits))
    rw [coerce_of_wellFormed ht hdistinct hvalue]
    exact .ok rfl
  | false =>
    have hkind : v.kind = x.category.valueKind := by
      rw [hcategory] at hnominal ⊢
      exact (inhabits_of_category hy hnominal).mp (hinhabits.mono False.elim)
    rw [hkind]
    exact ranged_of_category ht hx hnominal hkind

-- ---------------------------------------------------------------------------
-- Targets
-- ---------------------------------------------------------------------------

theorem exists_rootWithin (start : TypeId) (h : t.Within depth id) :
    ∃ root, t.rootWithin start depth id = .ok root := by
  induction depth generalizing id with
  | zero => exact h.elim
  | succ depth ih =>
    obtain ⟨d, hd, h⟩ := h
    rw [rootWithin]
    simp only [get_eq_ok.mpr hd, Except.ok_bind]
    cases hkind : d.kind with
    | «alias» parent initial =>
      rw [hkind] at h
      obtain ⟨p, hp, hparent⟩ := h
      simp only [ref_id_eq_ok.mpr hp, Except.ok_bind]
      exact ih hparent
    | _ => exact ⟨id, rfl⟩

theorem kind_of_rootWithin {start : TypeId} {steps : Nat} {ref : BlockRef}
    (hroot : t.rootWithin start steps id = .ok root) (h : t.WellFormed id (.block ref)) : ∃ d, t.get? root = some d ∧ d.kind = .block ref.block := by
  induction steps generalizing id with
  | zero => cases hroot
  | succ steps ih =>
    obtain ⟨d, hd, ⟨parent, initial, p, hkind, hp, hroot⟩ | ⟨hother, rfl⟩⟩ := rootWithin_succ hroot
    · cases h with
      | «alias» hd' hkind' hparent h =>
        cases hd.symm.trans hd'
        cases hkind.symm.trans hkind'
        cases hp.symm.trans hparent
        exact ih hroot h
      | _ => simp_all
    · cases h with
      | @elementary _ _ e _ _ _ hv => cases e <;> cases hv
      | «alias» hd' hkind' =>
        cases hd.symm.trans hd'
        exact absurd hkind' (hother _ _)
      | block hd' hkind href =>
        cases hd.symm.trans hd'
        exact ⟨d, hd, href ▸ hkind⟩

/-- Only types of function blocks have instances as values. -/
theorem blockOf_of_wellFormed (ht : t.Checked) {ref : BlockRef} (h : t.WellFormed id (.block ref)) :
    t.blockOf id = .ok (some ref.block) := by
  obtain ⟨v, hv⟩ := ht.created id h.declares
  obtain ⟨root, hroot⟩ := exists_rootWithin id (within_of_createWithin hv)
  obtain ⟨d, hd, hkind⟩ := kind_of_rootWithin hroot h
  have hblock : t.kindOf id = .ok (.block ref.block) := kindOf_eq_ok.mpr ⟨root, d, hroot, hd, hkind⟩
  unfold blockOf
  rw [hblock]
  rfl

/-- Every value that is well formed but an instance of a function block can be replaced. -/
theorem WellFormed.supports_assign (h : t.WellFormed id v) : v.supports .assign = true ∨ ∃ ref, v = .block ref := by
  induction h with
  | @elementary _ _ e v _ _ hv =>
    left
    cases e <;> cases v <;> first | rfl | cases hv
  | «alias» _ _ _ _ ih => exact ih
  | subrange | enumeration | array | struct => exact .inl rfl
  | block => exact .inr ⟨_, rfl⟩

/-- Whether a type can hold a constant is checked ahead of the assignment. -/
theorem canHold_of_assignable {source : StorageClass} {type? : Option TypeId} (hconstant : source.constant = true)
    (h : t.assignable (some a) type? source v = .ok ()) : t.canHold a v = .ok () := by
  unfold assignable at h
  cases type? with
  | none => simpa [hconstant] using h
  | some b =>
    dsimp only at h
    split at h
    · cases h
    · simpa [hconstant] using h

/-- A variable of a type that may hold a constant takes it when it is assigned. -/
theorem exists_assign (ht : t.Checked) {source storage : StorageClass} {name : String} {type? : Option TypeId}
    {target : Value} (hconstant : source.constant = true) (h : t.assignable (some a) type? source v = .ok ())
    (hblock : ∀ pou, t.blockOf a ≠ .ok (some pou)) (hstorage : storage.constant = false)
    (htarget : t.WellFormed a target) :
    ∃ w, t.assign (some a) storage name target v = .ok w := by
  have hsupports : target.supports .assign = true := by
    obtain hsupports | ⟨ref, rfl⟩ := htarget.supports_assign
    · exact hsupports
    · exact absurd (blockOf_of_wellFormed ht htarget) (hblock ref.block)
  have hrequire : target.require .assign = .ok () := if_pos hsupports
  obtain ⟨w, hw, -⟩ := Except.map_eq_ok.mp (canHold_of_assignable hconstant h)
  unfold assign
  simp only [hstorage, hrequire, Bool.false_eq_true, if_false]
  cases storage.temporary with
  | true => exact ⟨v, rfl⟩
  | false => exact ⟨w, hw⟩

end TypeTable

-- ---------------------------------------------------------------------------
-- Linked types
-- ---------------------------------------------------------------------------

/--
Compatible types of a linked library differ in range only: a well-formed value of one is a value of the other unless it
is out of range, and a constant of which that has been ruled out is assigned.
-/
theorem compatible_up_to_range {units : List CompilationUnit} {options : Options} {l : Library}
    (hparsed : ∀ unit ∈ units, ∃ source file, parseUnit source file = .ok unit) (h : link units options = .ok l)
    (hdistinct : l.types.DistinctMembers) {a b : TypeId} {v : Value} (hcompatible : l.types.compatible a b = true)
    (hv : l.types.WellFormed b v) :
    ((∃ w, l.types.coerce a v = .ok w) ∨ ∃ value type, l.types.coerce a v = .error (.outOfRange value type)) ∧
    ∀ (source storage : StorageClass) name target, source.constant = true →
      l.types.assignable (some a) (some b) source v = .ok () → (∀ pou, l.types.blockOf a ≠ .ok (some pou)) →
      storage.constant = false → l.types.WellFormed a target →
        ∃ w, l.types.assign (some a) storage name target v = .ok w := by
  obtain ⟨hchecked, -⟩ := checked_of_parsed hparsed h
  refine ⟨?_, fun _ _ _ _ hconstant hassignable hblock hstorage htarget =>
    TypeTable.exists_assign hchecked hconstant hassignable hblock hstorage htarget⟩
  have hranged := TypeTable.ranged_of_compatible hchecked hdistinct hcompatible hv
  generalize l.types.coerce a v = converted at hranged
  cases hranged with
  | ok hkind => exact .inl ⟨_, rfl⟩
  | outOfRange value type => exact .inr ⟨value, type, rfl⟩

/-- Declares a subrange. -/
def levelSource : String := "TYPE Level : INT (-5..9); END_TYPE"

/-- One integer is out of the range of the subrange, and another one is assigned to a variable of it. -/
theorem compatible_up_to_range_level : ∃ unit l, parseUnit levelSource .anonymous = .ok unit ∧ link [unit] {} = .ok l ∧
    l.types.DistinctMembers ∧ l.types.compatible 21 2 = true ∧
    (∃ v, l.types.WellFormed 2 v ∧ ∃ value type, l.types.coerce 21 v = .error (.outOfRange value type)) ∧
    ∃ v target, l.types.WellFormed 2 v ∧ l.types.WellFormed 21 target ∧
      ∃ w, l.types.assign (some 21) {} "level" target v = .ok w := by
  have hrun : (linkSource levelSource).toOption.any (fun l => decide l.types.DistinctMembers &&
      (l.types.compatible 21 2 && ((l.types.create 21 none).isOk && ((l.types.blockOf 21).toOption == some none &&
        ((l.types.create 2 (some (.integer 10))).toOption.any (fun v => !(l.types.coerce 21 v).isOk) &&
          (l.types.create 2 (some (.integer 7))).toOption.any (fun v =>
            (l.types.assignable (some 21) (some 2) .literal v).isOk)))))) = true := by
    decide +kernel
  obtain ⟨unit, l, hparse, hlink, hfacts⟩ := exists_of_linkSource hrun
  simp only [Bool.and_eq_true, decide_eq_true_eq, beq_iff_eq] at hfacts
  obtain ⟨hdistinct, hcompatible, htarget, hblock, houtside, hinside⟩ := hfacts
  have hparsed : ∀ u ∈ [unit], ∃ source file, parseUnit source file = .ok u :=
    List.forall_mem_singleton.mpr ⟨levelSource, .anonymous, hparse⟩
  obtain ⟨hchecked, hproper⟩ := checked_of_parsed hparsed hlink
  have wellFormed {id : TypeId} {init : Option Value} {v : Value} (hv : l.types.create id init = .ok v)
      (hinit : ∀ x, init = some x → ∃ i, x = .integer i ∧ FitsInteger i) : l.types.WellFormed id v := by
    refine TypeTable.wellFormed_of_create hchecked hproper (fun x hx => ?_) hv
    obtain ⟨i, rfl, hi⟩ := hinit x hx
    exact hi
  have hfits : FitsInteger 10 ∧ FitsInteger 7 := by decide
  obtain ⟨target, htarget⟩ := exists_of_isOk htarget
  obtain ⟨v, hv, hrefused⟩ := exists_of_any houtside
  obtain ⟨w, hw, hassignable⟩ := exists_of_any hinside
  obtain ⟨_, hassignable⟩ := exists_of_isOk hassignable
  have hv := wellFormed hv (by rintro _ ⟨⟩; exact ⟨10, rfl, hfits.1⟩)
  have hw := wellFormed hw (by rintro _ ⟨⟩; exact ⟨7, rfl, hfits.2⟩)
  have htarget := wellFormed htarget nofun
  refine ⟨unit, l, hparse, hlink, hdistinct, hcompatible, ⟨v, hv, ?_⟩, w, target, hw, htarget, ?_⟩
  · obtain ⟨⟨x, hx⟩ | herror, -⟩ := compatible_up_to_range hparsed hlink hdistinct hcompatible hv
    · rw [hx] at hrefused
      cases hrefused
    · exact herror
  · refine (compatible_up_to_range hparsed hlink hdistinct hcompatible hw).2 .literal {} "level" target rfl hassignable
      (fun pou hpou => ?_) rfl htarget
    rw [hpou] at hblock
    cases hblock

end StructuredText
