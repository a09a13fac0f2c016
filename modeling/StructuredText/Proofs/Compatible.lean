-- SUMMARY: Compatible types: what they are made of, and what inhabits them.
import StructuredText.Proofs.Parts

/-!
# Compatible types

Types are compatible by category, and those that are of a kind of their own only if they are aliases of the
same declaration. Compatible types have the same parts and, up to ranges, the same inhabitants.
-/

namespace StructuredText

/-- The kind of the values of a category. -/
def Category.valueKind : Category → ValueKind
  | .bool => .bool
  | .signed | .unsigned => .integer
  | .real => .real
  | .bitString => .bits
  | .string => .string
  | .duration => .duration
  | .date => .date
  | .timeOfDay => .timeOfDay
  | .dateAndTime => .dateAndTime
  | .enumeration => .enumeration
  | .array => .array
  | .struct => .struct
  | .block => .block

theorem Elementary.valueKind_category (e : Elementary) : e.category.valueKind = e.kind.valueKind := by
  cases e <;> rfl

/-- Types that are made of this are compatible only with aliases of themselves. -/
def TypeKind.Nominal : TypeKind → Prop
  | .enumeration .. | .array .. | .struct _ | .block _ => True
  | .elementary _ | .alias .. | .subrange .. => False

namespace TypeTable

variable {t : TypeTable} {id root : TypeId} {v : Value}

-- ---------------------------------------------------------------------------
-- Compatible types
-- ---------------------------------------------------------------------------

theorem classWithin_succ {depth : Nat} {c : TypeClass} (h : t.classWithin (depth + 1) id = .ok c) :
    ∃ d, t.get? id = some d ∧ match d.kind with
      | .elementary e => c.category = e.category
      | .alias part _ | .subrange part _ _ _ =>
        ∃ p c', part.id? = some p ∧ t.classWithin depth p = .ok c' ∧ c'.category = c.category
      | .enumeration .. => c.category = .enumeration
      | .array .. => c.category = .array
      | .struct _ => c.category = .struct
      | .block _ => c.category = .block := by
  rw [classWithin] at h
  obtain ⟨d, hd, h⟩ := Except.bind_eq_ok.mp h
  refine ⟨d, get_eq_ok.mp hd, ?_⟩
  cases hkind : d.kind with
  | «alias» parent initial =>
    rw [hkind] at h
    obtain ⟨p, hp, h⟩ := Except.bind_eq_ok.mp h
    obtain ⟨c', hc', h⟩ := Except.bind_eq_ok.mp h
    cases h
    exact ⟨p, c', ref_id_eq_ok.mp hp, hc', rfl⟩
  | subrange base min max initial =>
    rw [hkind] at h
    obtain ⟨p, hp, h⟩ := Except.bind_eq_ok.mp h
    obtain ⟨c', hc', h⟩ := Except.bind_eq_ok.mp h
    cases h
    exact ⟨p, c', ref_id_eq_ok.mp hp, hc', rfl⟩
  | _ =>
    rw [hkind] at h
    cases h
    rfl

theorem isNominal_of_rootWithin {start : TypeId} {steps depth : Nat} {c : TypeClass} {d : TypeDecl}
    (hc : t.classWithin depth id = .ok c) (hroot : t.rootWithin start steps id = .ok root)
    (hd : t.get? root = some d) (hnominal : d.kind.Nominal) : c.category.isNominal = true := by
  induction steps generalizing id depth c with
  | zero => cases hroot
  | succ steps ih =>
    cases depth with
    | zero => cases hc
    | succ depth =>
      obtain ⟨d', hd', hc⟩ := classWithin_succ hc
      obtain ⟨d'', hd'', ⟨parent, initial, p, hkind, hp, hroot⟩ | ⟨-, rfl⟩⟩ := rootWithin_succ hroot
      · cases hd'.symm.trans hd''
        rw [hkind] at hc
        obtain ⟨p', c', hp', hc, hcategory⟩ := hc
        cases hp.symm.trans hp'
        rw [← hcategory]
        exact ih hc hroot
      · cases hd.symm.trans hd'
        cases hkind : d.kind <;> simp_all [TypeKind.Nominal, Category.isNominal]

/-- A type at the end of a chain of aliases that is one of a kind gives its category to the chain. -/
theorem isNominal_of_kindOf {c : TypeClass} {k : TypeKind} (hc : t.classOf id = .ok c)
    (hk : t.kindOf id = .ok k) (hnominal : k.Nominal) : c.category.isNominal = true := by
  obtain ⟨root, d, hroot, hd, rfl⟩ := kindOf_eq_ok.mp hk
  exact isNominal_of_rootWithin hc hroot hd hnominal

theorem compatible_iff {a b : TypeId} :
    t.compatible a b = true ↔ ∃ x y, t.classOf a = .ok x ∧ t.classOf b = .ok y ∧
      x.category = y.category ∧
        (x.category.isNominal = true → ∃ r, t.rootOf a = .ok r ∧ t.rootOf b = .ok r) := by
  unfold compatible TypeClass.compatible
  rcases t.classOf a with e | x
  · simp
  · rcases t.classOf b with e | y
    · simp
    · rcases t.rootOf a with e | r <;> rcases t.rootOf b with e' | r' <;>
        cases hnominal : x.category.isNominal <;> simp [hnominal]
      · exact fun _ => eq_comm

theorem compatible_symm {a b : TypeId} (h : t.compatible a b = true) : t.compatible b a = true := by
  obtain ⟨x, y, hx, hy, hcategory, hroot⟩ := compatible_iff.mp h
  refine compatible_iff.mpr ⟨y, x, hy, hx, hcategory.symm, fun hnominal => ?_⟩
  obtain ⟨r, ha, hb⟩ := hroot (hcategory ▸ hnominal)
  exact ⟨r, hb, ha⟩

/-- Compatible types of a kind of their own are made of the same. -/
theorem kindOf_of_compatible {a b : TypeId} {k : TypeKind} (h : t.compatible a b = true)
    (hk : t.kindOf a = .ok k) (hnominal : k.Nominal) : t.kindOf b = .ok k := by
  obtain ⟨x, y, hx, hy, hcategory, hroot⟩ := compatible_iff.mp h
  obtain ⟨r, ha, hb⟩ := hroot (isNominal_of_kindOf hx hk hnominal)
  unfold kindOf at hk ⊢
  rwa [hb, ← ha]

theorem hasPart_of_compatible {a b part : TypeId} {position : Nat} (h : t.compatible a b = true)
    (hpart : t.HasPart a position part) : t.HasPart b position part := by
  cases hpart with
  | element hkind he hposition => exact .element (kindOf_of_compatible h hkind trivial) he hposition
  | member hkind hm he => exact .member (kindOf_of_compatible h hkind trivial) hm he

/-- Up to ranges, the values of a type that is not of a kind of its own are those of a kind. -/
theorem inhabits_of_category {depth : Nat} {c : TypeClass} (hc : t.classWithin depth id = .ok c)
    (hnominal : c.category.isNominal = false) :
    t.Inhabits False id v ↔ v.kind = c.category.valueKind := by
  induction depth generalizing id c with
  | zero => cases hc
  | succ depth ih =>
    obtain ⟨d, hd, hc⟩ := classWithin_succ hc
    cases hkind : d.kind with
    | elementary e =>
      rw [hkind] at hc
      rw [hc, e.valueKind_category]
      constructor
      · intro h
        cases h with
        | elementary hd' hkind' hv =>
          cases hd.symm.trans hd'
          cases hkind.symm.trans hkind'
          exact hv.kind
        | _ => simp_all
      · exact fun h => .elementary hd hkind ⟨h, False.elim⟩
    | «alias» parent initial =>
      rw [hkind] at hc
      obtain ⟨p, c', hp, hc, hcategory⟩ := hc
      rw [← hcategory] at hnominal ⊢
      rw [← ih hc hnominal]
      constructor
      · intro h
        cases h with
        | «alias» hd' hkind' hparent hv =>
          cases hd.symm.trans hd'
          cases hkind.symm.trans hkind'
          cases hp.symm.trans hparent
          exact hv
        | _ => simp_all
      · exact .alias hd hkind hp
    | subrange base min max initial =>
      rw [hkind] at hc
      obtain ⟨p, c', hp, hc, hcategory⟩ := hc
      rw [← hcategory] at hnominal ⊢
      rw [← ih hc hnominal]
      constructor
      · intro h
        cases h with
        | subrange hd' hkind' hbase hv =>
          cases hd.symm.trans hd'
          cases hkind.symm.trans hkind'
          cases hp.symm.trans hbase
          exact hv
        | _ => simp_all
      · exact fun h => .subrange hd hkind hp h False.elim
    | _ =>
      rw [hkind] at hc
      rw [hc] at hnominal
      cases hnominal

/-- Up to ranges, compatible types have the same inhabitants. -/
theorem inhabits_of_compatible {a b : TypeId} (h : t.compatible a b = true)
    (hv : t.Inhabits False a v) : t.Inhabits False b v := by
  obtain ⟨x, y, hx, hy, hcategory, hroot⟩ := compatible_iff.mp h
  cases hnominal : x.category.isNominal with
  | true =>
    obtain ⟨r, ha, hb⟩ := hroot hnominal
    exact (inhabits_rootWithin hb).mpr ((inhabits_rootWithin ha).mp hv)
  | false =>
    rw [inhabits_of_category hx hnominal] at hv
    rw [inhabits_of_category hy (hcategory ▸ hnominal), ← hcategory]
    exact hv

end TypeTable

end StructuredText
