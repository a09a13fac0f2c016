-- SUMMARY: A value that inhabits a type is left as it is when it is converted to the type.
import StructuredText.Proofs.Inhabits

/-!
# Inhabitants are created from themselves

Converting an inhabitant of a type to that type leaves it as it is, as long as the members of structures have
names of their own and the type is not nested too deep.
-/

namespace StructuredText.TypeTable

variable {t : TypeTable} {id : TypeId} {d : TypeDecl} {depth : Nat} {init : Option Value}

/-- The parts of a type are nested less deep than the bound. -/
def Within (t : TypeTable) : (depth : Nat) → TypeId → Prop
  | 0, _ => False
  | depth + 1, id => ∃ d, t.get? id = some d ∧
    match d.kind with
    | .elementary _ | .enumeration .. | .block _ => True
    | .alias part _ | .subrange part _ _ _ => ∃ p, part.id? = some p ∧ t.Within depth p
    | .array part dimensions _ =>
      ∃ p, part.id? = some p ∧ (Dimension.totalEntries dimensions = 0 ∨ t.Within depth p)
    | .struct members => ∀ m ∈ members, ∃ p, m.type.id? = some p ∧ t.Within depth p

/-- A type of which a value has been created is not nested too deep. -/
theorem within_of_createWithin {v : Value} (h : t.createWithin depth id init = .ok v) :
    t.Within depth id := by
  induction depth generalizing id init v with
  | zero => cases h
  | succ depth ih =>
    obtain ⟨d, hd⟩ := get?_of_createWithin h
    refine ⟨d, hd, ?_⟩
    cases hkind : d.kind with
    | elementary e => trivial
    | enumeration values initial => trivial
    | block pou => trivial
    | «alias» parent initial =>
      obtain ⟨p, hp⟩ := parent_of_createWithin hd hkind h
      rw [createWithin_alias hd hkind hp] at h
      exact ⟨p, hp, ih h⟩
    | subrange base min max initial =>
      obtain ⟨b, hb⟩ := base_of_createWithin hd hkind h
      obtain ⟨h, -⟩ := (createWithin_subrange hd hkind hb).mp h
      exact ⟨b, hb, ih h⟩
    | array element dimensions initial =>
      obtain ⟨e, vs, he, rfl, -, hlength, hvs⟩ := createWithin_array hd hkind h
      refine ⟨e, he, ?_⟩
      rcases hvs with ⟨w, -, hw, -⟩ | ⟨inits, hinits, -⟩
      · exact .inr (ih hw)
      · cases hinits with
        | nil => exact .inl hlength.symm
        | cons hfirst _ => exact .inr (ih hfirst)
    | struct members =>
      obtain ⟨ms, rfl, hms⟩ := createWithin_struct hd hkind h
      intro m hm
      obtain ⟨nv, -, -, e, i, he, hv, -⟩ := exists_of_mem_left hms hm
      exact ⟨e, he, ih hv⟩

/-- In a structure with names of its own each member is found under its name. -/
theorem find?_member {members : List StructMember} {ms : List (Ident × Value)}
    (hdistinct : members.Pairwise fun a b => a.name.key ≠ b.name.key)
    (hnames : ms.map (·.1) = members.map (·.name)) :
    List.Forall₂ (fun m nv => ms.find? (·.1 == m.name) = some nv) members ms := by
  induction members generalizing ms with
  | nil =>
    rw [List.map_nil, List.map_eq_nil_iff] at hnames
    subst hnames
    exact .nil
  | cons m members ih =>
    cases ms with
    | nil => cases hnames
    | cons nv ms =>
      simp only [List.map_cons, List.cons.injEq] at hnames
      obtain ⟨hname, hnames⟩ := hnames
      obtain ⟨hfirst, hdistinct⟩ := List.pairwise_cons.mp hdistinct
      refine .cons ?_ ((forall₂_and_mem (ih hdistinct hnames)).imp fun m' nv' ⟨hm', hfind⟩ => ?_)
      · rw [List.find?_cons_of_pos]
        exact Ident.beq_iff.mpr (by rw [hname])
      · rw [List.find?_cons_of_neg, hfind]
        intro heq
        rw [hname] at heq
        exact hfirst m' hm' (Ident.beq_iff.mp heq)

theorem forall₂_of_map_eq {members : List StructMember} {ms : List (Ident × Value)}
    (hnames : ms.map (·.1) = members.map (·.name)) :
    List.Forall₂ (fun m nv => nv.1 = m.name) members ms := by
  induction members generalizing ms with
  | nil =>
    rw [List.map_nil, List.map_eq_nil_iff] at hnames
    subst hnames
    exact .nil
  | cons m members ih =>
    cases ms with
    | nil => cases hnames
    | cons nv ms =>
      simp only [List.map_cons, List.cons.injEq] at hnames
      exact .cons hnames.1 (ih hnames.2)

theorem find?_unknown {members : List StructMember} {ms : List (Ident × Value)}
    (hnames : ms.map (·.1) = members.map (·.name)) :
    ms.find? (fun (name, _) => !members.any (·.name == name)) = none := by
  refine List.find?_eq_none.mpr fun nv hnv => ?_
  have hmem : nv.1 ∈ members.map (·.name) := hnames ▸ List.mem_map_of_mem hnv
  obtain ⟨m, hm, hname⟩ := List.mem_map.mp hmem
  have hany : members.any (·.name == nv.1) = true :=
    List.any_eq_true.mpr ⟨m, hm, Ident.beq_iff.mpr (by rw [hname])⟩
  simp [hany]

/-- A structure is created from itself if each member is found under its name and created from itself. -/
theorem createWithin_some_struct (hd : t.get? id = some d) {members : List StructMember}
    {ms : List (Ident × Value)} (hkind : d.kind = .struct members)
    (hnames : ms.map (·.1) = members.map (·.name))
    (h : List.Forall₂ (fun m nv => nv.1 = m.name ∧ ms.find? (·.1 == m.name) = some nv ∧
      ∃ e, m.type.id? = some e ∧ t.createWithin depth e (some nv.2) = .ok nv.2) members ms) :
    t.createWithin (depth + 1) id (some (.struct ms)) = .ok (.struct ms) := by
  rw [createWithin]
  simp only [get_eq_ok.mpr hd, Except.ok_bind, hkind]
  rw [find?_unknown hnames]
  simp only
  rw [List.mapM_eq_ok.mpr (h.imp fun m nv hm => ?_)]
  · rfl
  · obtain ⟨hname, hfind, e, he, hv⟩ := hm
    rw [← hname] at hfind ⊢
    simp only [hfind, ref_id_eq_ok.mpr he, hv, Except.ok_bind]
    rfl

/-- An inhabitant of a type is created from itself. -/
theorem createWithin_of_inhabits (hdistinct : t.DistinctMembers) {v : Value}
    (hw : t.Within depth id) (h : t.Inhabits True id v) : t.createWithin depth id (some v) = .ok v := by
  induction depth generalizing id v with
  | zero => cases hw
  | succ depth ih =>
    obtain ⟨d, hd, hw⟩ := hw
    cases h with
    | elementary hd' hkind hv =>
      obtain ⟨hhold, hform⟩ := hv.range trivial
      rw [createWithin_elementary hd' hkind]
      simp only [hhold, Except.ok_bind, hform]
      rfl
    | «alias» hd' hkind hparent h =>
      rw [hd] at hd'
      cases hd'
      rw [hkind] at hw
      obtain ⟨p, hp, hw⟩ := hw
      rw [hparent] at hp
      cases hp
      rw [createWithin_alias hd hkind hparent]
      exact ih hw h
    | subrange hd' hkind hbase h hrange =>
      rw [hd] at hd'
      cases hd'
      rw [hkind] at hw
      obtain ⟨p, hp, hw⟩ := hw
      rw [hbase] at hp
      cases hp
      exact (createWithin_subrange hd hkind hbase).mpr ⟨ih hw h, hrange trivial⟩
    | enumeration hd' hkind hname =>
      rw [createWithin_some_enumeration hd' hkind]
      unfold chooseValue
      rw [hname]
    | @array _ _ element dimensions initial e vs hd' hkind helement hlength hsize h =>
      rw [hd] at hd'
      cases hd'
      rw [hkind] at hw
      obtain ⟨p, hp, hw⟩ := hw
      rw [helement] at hp
      cases hp
      have hall : List.Forall₂ (fun v w => t.createWithin depth e (some v) = .ok w) vs vs := by
        refine List.forall₂_same.mpr fun v hv => ?_
        rcases hw with hzero | hw
        · rw [hzero, List.length_eq_zero_iff] at hlength
          rw [hlength] at hv
          cases hv
        · exact ih hw (h v hv)
      rw [createWithin_some_array hd hkind helement hsize hlength, List.mapM_eq_ok.mpr hall]
      rfl
    | @struct _ _ members ms hd' hkind hnames htypes h =>
      rw [hd] at hd'
      cases hd'
      rw [hkind] at hw
      refine createWithin_some_struct hd hkind hnames ?_
      have hfind := find?_member (hdistinct id d members hd hkind) hnames
      have hname := forall₂_of_map_eq hnames
      refine List.forall₂_iff_get.mpr ⟨hfind.length_eq, fun i hi hi' => ?_⟩
      have hm : members[i]? = some (members.get ⟨i, hi⟩) := List.getElem?_eq_getElem hi
      have hnv : ms[i]? = some (ms.get ⟨i, hi'⟩) := List.getElem?_eq_getElem hi'
      obtain ⟨e, he, hw⟩ := hw _ (List.getElem_mem hi)
      refine ⟨forall₂_getElem? hname hm hnv, forall₂_getElem? hfind hm hnv, e, he, ?_⟩
      exact ih hw (h i _ _ e hm hnv he)
    | block hd' hkind href => exact createWithin_some_block hd' hkind href

/-- What has been created for a type once shows that its inhabitants are left as they are. -/
theorem coerce_of_inhabits (hdistinct : t.DistinctMembers) {v w : Value}
    (hw : t.create id init = .ok w) (h : t.Inhabits True id v) : t.coerce id v = .ok v :=
  createWithin_of_inhabits hdistinct (within_of_createWithin hw) h

end StructuredText.TypeTable
