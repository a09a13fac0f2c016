-- SUMMARY: Tables in which every type that is referred to is declared, and what is asked of their types.
import StructuredText.Proofs.Compatible
import StructuredText.Proofs.Results
import StructuredText.TypeTable.Assign

/-!
# Complete tables of types

In a complete table every reference of a declaration to another type is resolved and every enumeration has a
value. Then whatever is asked of a type fails with ordinary errors only.
-/

namespace StructuredText

open Reporting

/-- The types that a declaration refers to. -/
def TypeKind.refs : TypeKind → List TypeRef
  | .alias part _ | .subrange part _ _ _ | .array part _ _ => [part]
  | .struct members => members.map (·.type)
  | .elementary _ | .enumeration .. | .block _ => []

-- ---------------------------------------------------------------------------
-- Initial values
-- ---------------------------------------------------------------------------

theorem Dimension.expand_orderly (ds : List Dimension) (items : List (Nat × Value)) :
    Orderly (Dimension.expand ds items) := by
  induction ds generalizing items with
  | nil =>
    rw [Dimension.expand.eq_def]
    exact .ite (fun _ => .error nofun) fun _ => .pure trivial
  | cons d rest ih =>
    rw [Dimension.expand.eq_def]
    refine .ite (fun _ => .error nofun) fun _ => ?_
    split
    · next heq =>
      cases heq
      refine .foldlM (P := fun _ => True) trivial fun item _ out _ => ?_
      dsimp only
      split
      · exact .ite (fun _ => .pure trivial) fun _ => .bind (ih _) fun _ _ => .pure trivial
      · exact .pure trivial
    · exact .pure trivial

theorem Elementary.canHold_orderly (e : Elementary) (v : Value) :
    Orderly (e.canHold v) := by
  unfold Elementary.canHold
  split <;> first
    | exact .ok trivial
    | exact .ite (fun _ => .ok trivial) fun _ => .error nofun
    | exact .error nofun

theorem getElem?_of_findIdx? {α : Type} {p : α → Bool} {as : List α} {i : Nat} {a : α}
    (hi : as.findIdx? p = some i) (ha : as.find? p = some a) : as[i]? = some a := by
  obtain ⟨hlt, hp, hbefore⟩ := List.findIdx?_eq_some_iff_getElem.mp hi
  obtain ⟨hpa, j, hj, rfl, hbefore'⟩ := List.find?_eq_some_iff_getElem.mp ha
  rcases Nat.lt_trichotomy i j with hij | rfl | hij
  · simpa [hp] using hbefore' i hij
  · exact List.getElem?_eq_getElem hlt
  · exact absurd hpa (by simpa using hbefore j hij)

namespace TypeTable

variable {t : TypeTable} {id : TypeId} {d : TypeDecl}

/-- The identifier is that of a type. -/
def Declares (t : TypeTable) (id : TypeId) : Prop := ∃ d, t.get? id = some d

/-- The reference is resolved to a type of the table. -/
def Resolves (t : TypeTable) (r : TypeRef) : Prop := ∃ id, r.id? = some id ∧ t.Declares id

/--
All types that the declarations of the table refer to are declared, every enumeration has a value, and the
elementary types are there.
-/
structure Complete (t : TypeTable) : Prop where
  refs : ∀ {id d}, t.get? id = some d → ∀ r ∈ d.kind.refs, t.Resolves r
  values : ∀ {id d values initial}, t.get? id = some d → d.kind = .enumeration values initial →
    values ≠ []
  elementary : ∀ id < elementaryCount, t.Declares id

theorem declares_iff : t.Declares id ↔ id < t.types.size := by
  unfold Declares get?
  constructor
  · rintro ⟨d, hd⟩
    exact (Array.getElem?_eq_some_iff.mp hd).1
  · exact fun h => ⟨_, Array.getElem?_eq_getElem h⟩

theorem get_regular (h : t.Declares id) : Regular (t.get id) fun d => t.get? id = some d := by
  obtain ⟨d, hd⟩ := h
  rw [get_eq_ok.mpr hd]
  exact .ok hd

theorem id_regular {r : TypeRef} (h : t.Resolves r) : Regular r.id t.Declares := by
  obtain ⟨id, hr, hid⟩ := h
  rw [ref_id_eq_ok.mpr hr]
  exact .ok hid

section

variable (ht : t.Complete)

include ht

/-- The only reference of a declaration is resolved. -/
theorem Complete.ref {r : TypeRef} (hd : t.get? id = some d) (hr : r ∈ d.kind.refs) :
    Regular r.id t.Declares := id_regular (ht.refs hd r hr)

-- ---------------------------------------------------------------------------
-- Classes and roots
-- ---------------------------------------------------------------------------

theorem Complete.rootWithin_regular (start : TypeId) (steps : Nat) (h : t.Declares id) :
    Regular (t.rootWithin start steps id) t.Declares := by
  induction steps generalizing id with
  | zero => exact .error nofun
  | succ steps ih =>
    rw [rootWithin]
    refine .bind (get_regular h) fun d hd => ?_
    cases hkind : d.kind with
    | «alias» parent initial =>
      exact .bind (ht.ref hd (by simp [hkind, TypeKind.refs])) fun p hp => ih hp
    | _ => exact .pure h

/-- What a type is made of refers to declared types. -/
theorem Complete.kindOf_regular (h : t.Declares id) :
    Regular (t.kindOf id) fun kind => ∀ r ∈ kind.refs, t.Resolves r := by
  refine .bind (ht.rootWithin_regular _ _ h) fun root hroot => ?_
  exact .bind (get_regular hroot) fun d hd => .pure (ht.refs hd)

theorem Complete.elementaryOf_orderly (h : t.Declares id) : Orderly (t.elementaryOf id) := by
  unfold elementaryOf
  generalize maxNesting + 1 = steps
  suffices ∀ start, Orderly (t.elementaryWithin start steps id) from this id
  intro start
  induction steps generalizing id with
  | zero => exact .error nofun
  | succ steps ih =>
    rw [elementaryWithin]
    refine .bind (get_regular h) fun d hd => ?_
    cases hkind : d.kind with
    | «alias» parent initial =>
      exact .bind (ht.ref hd (by simp [hkind, TypeKind.refs])) fun p hp => ih hp
    | subrange base min max initial =>
      exact .bind (ht.ref hd (by simp [hkind, TypeKind.refs])) fun p hp => ih hp
    | _ => exact .pure trivial

-- ---------------------------------------------------------------------------
-- Creating values
-- ---------------------------------------------------------------------------

omit ht in
theorem chooseValue_orderly (type : Ident) (values : List Ident) (chosen : Ident) :
    Orderly (chooseValue type values chosen) := by
  unfold chooseValue
  split
  · exact .ok trivial
  · exact .error nofun

/-- Values of a declared type are created, or the initial value is refused with an ordinary error. -/
theorem Complete.createWithin_orderly (depth : Nat) (h : t.Declares id) (init : Option Value) :
    Orderly (t.createWithin depth id init) := by
  induction depth generalizing id init with
  | zero =>
    rw [createWithin_zero]
    exact .error (by rintro ⟨⟩)
  | succ depth ih =>
    rw [createWithin]
    refine .bind (get_regular h) fun d hd => ?_
    cases hkind : d.kind with
    | elementary e =>
      cases init with
      | none => exact .pure trivial
      | some v => exact .bind (e.canHold_orderly v) fun _ _ => .pure trivial
    | «alias» parent initial =>
      exact .bind (ht.ref hd (by simp [hkind, TypeKind.refs])) fun p hp => ih hp _
    | subrange base min max initial =>
      refine .bind (ht.ref hd (by simp [hkind, TypeKind.refs])) fun p hp => ?_
      refine .bind (ih hp _) fun v _ => .bind v.toInteger_orderly fun i _ => ?_
      exact .ite (fun _ => .fail (by rintro ⟨⟩)) fun _ => .pure trivial
    | enumeration values initial =>
      dsimp only
      split
      · exact chooseValue_orderly _ _ _
      · exact .fail (by rintro ⟨⟩)
      · exact chooseValue_orderly _ _ _
      · split
        · exact chooseValue_orderly _ _ _
        · next hempty => exact absurd (List.head?_eq_none_iff.mp hempty) (ht.values hd hkind)
    | array element dimensions initial =>
      refine .bind (ht.ref hd (by simp [hkind, TypeKind.refs])) fun p hp => ?_
      refine .ite (fun _ => .fail (by rintro ⟨⟩)) fun _ => ?_
      have hcreate (vs : List Value) : Orderly (do
          pure (.array (← vs.mapM fun v => t.createWithin depth p (some v))) :
            Except ValueError Value) :=
        .bind (.mapM (R := fun _ _ => True) fun v _ => ih hp _) fun _ _ => .pure trivial
      split
      · exact .bind (ih hp _) fun _ _ => .pure trivial
      · exact .bind (Dimension.expand_orderly _ _) fun vs _ => hcreate vs
      · exact .ite (fun _ => .fail (by rintro ⟨⟩)) fun _ => hcreate _
      · exact .fail (by rintro ⟨⟩)
    | struct members =>
      have hmember : ∀ m ∈ members, Regular m.type.id t.Declares := fun m hm =>
        ht.ref hd (by simp only [hkind, TypeKind.refs]; exact List.mem_map_of_mem hm)
      dsimp only
      split
      · refine .bind (.mapM (R := fun _ _ => True) fun m hm => ?_) fun _ _ => .pure trivial
        exact .bind (hmember m hm) fun p hp => .bind (ih hp _) fun _ _ => .pure trivial
      · split
        · exact .fail (by rintro ⟨⟩)
        · refine .bind (.mapM (R := fun _ _ => True) fun m hm => ?_) fun _ _ => .pure trivial
          split
          · exact .bind (hmember m hm) fun p hp => .bind (ih hp _) fun _ _ => .pure trivial
          · exact .fail (by rintro ⟨⟩)
      · exact .fail (by rintro ⟨⟩)
    | block pou =>
      dsimp only
      split
      · exact .pure trivial
      · exact .ite (fun _ => .pure trivial) fun _ => .fail (by rintro ⟨⟩)
      · exact .fail (by rintro ⟨⟩)

theorem Complete.create_orderly (h : t.Declares id) (init : Option Value) : Orderly (t.create id init) :=
  ht.createWithin_orderly _ h _

theorem Complete.coerce_orderly (h : t.Declares id) (v : Value) : Orderly (t.coerce id v) :=
  ht.createWithin_orderly _ h _

theorem Complete.canHold_orderly (h : t.Declares id) (v : Value) : Orderly (t.canHold id v) :=
  (Regular.map ((ht.coerce_orderly h v).mono fun _ _ => trivial) : Orderly ((fun _ => ()) <$> t.coerce id v))

/-- Whether a value may be assigned to a type is decided, or refused with an ordinary error. -/
theorem Complete.assignable_orderly {target : Option TypeId} (h : ∀ id, target = some id → t.Declares id)
    (source : Option TypeId) (storage : StorageClass) (v : Value) :
    Orderly (t.assignable target source storage v) := by
  cases target with
  | none => exact .pure trivial
  | some target =>
    have constant : Orderly (if storage.constant then t.canHold target v else pure () :
        Except ValueError Unit) :=
      .ite (fun _ => ht.canHold_orderly (h target rfl) v) fun _ => .pure trivial
    cases source with
    | none => exact constant
    | some source => exact .guarded (by rintro ⟨⟩) constant

-- ---------------------------------------------------------------------------
-- Parts and names
-- ---------------------------------------------------------------------------

/-- A member that a type has is one of the members of a structure. -/
theorem Complete.memberOf_regular (h : t.Declares id) (name : Ident) :
    Regular (t.memberOf id name) fun found => ∀ position part, found = some (position, part) →
      t.Declares part ∧ ∃ members m, t.kindOf id = .ok (.struct members) ∧
        members[position]? = some m ∧ m.type.id? = some part := by
  refine .bind ((ht.kindOf_regular h).and_ok fun kind hkind hrefs => And.intro hkind hrefs)
    fun kind ⟨hkind, hrefs⟩ => ?_
  cases kind with
  | struct members =>
    dsimp only
    split
    · next i m hi hm =>
      have hposition := getElem?_of_findIdx? hi hm
      have hm : m.type ∈ members.map (·.type) := List.mem_map_of_mem (List.mem_of_getElem? hposition)
      obtain ⟨part, hpart, hdeclared⟩ := hrefs m.type hm
      rw [ref_id_eq_ok.mpr hpart]
      refine .pure fun position part' heq => ?_
      cases heq
      exact ⟨hdeclared, members, m, hkind, hposition, hpart⟩
    · exact .pure nofun
  | _ => exact .pure nofun

/-- The element type of an array type is declared. -/
theorem Complete.arrayOf_regular (h : t.Declares id) :
    Regular (t.arrayOf id) fun found => ∀ part dimensions, found = some (part, dimensions) →
      t.Declares part ∧ ∃ element initial, t.kindOf id = .ok (.array element dimensions initial) ∧
        element.id? = some part := by
  refine .bind ((ht.kindOf_regular h).and_ok fun kind hkind hrefs => And.intro hkind hrefs)
    fun kind ⟨hkind, hrefs⟩ => ?_
  cases kind with
  | array element dimensions initial =>
    obtain ⟨part, hpart, hdeclared⟩ := hrefs element List.mem_cons_self
    dsimp only
    rw [ref_id_eq_ok.mpr hpart]
    refine .pure fun part' dimensions' heq => ?_
    cases heq
    exact ⟨hdeclared, element, initial, hkind, hpart⟩
  | _ => exact .pure nofun

theorem Complete.blockOf_regular (h : t.Declares id) : Regular (t.blockOf id) fun found =>
    ∀ pou, found = some pou → t.kindOf id = .ok (.block pou) := by
  refine .bind ((ht.kindOf_regular h).and_ok fun kind hkind _ => hkind) fun kind hkind => ?_
  split
  · refine .pure fun pou heq => ?_
    cases heq
    exact hkind
  · exact .pure nofun

theorem Complete.lookup?_declares {name : Ident} (h : t.lookup? name = some id) : t.Declares id := by
  unfold lookup? at h
  split at h
  · next found hfound =>
    cases h
    exact ht.elementary _ (List.findIdx?_eq_some_iff_getElem.mp hfound).1
  · exact declares_iff.mpr (Array.findIdx?_eq_some_iff_getElem.mp h).1

end

end TypeTable

end StructuredText
