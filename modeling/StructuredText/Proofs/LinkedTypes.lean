-- SUMMARY: Linking the types of a merged library completes its table of types.
import StructuredText.Link.Types
import StructuredText.Proofs.Merged

/-!
# Linked types

Linking fills in the identifiers of the types that declarations refer to, and changes nothing else about them. Every
reference of a declaration is among the uses of types, so when no use is refused all of them are filled in. A type that
has a default value has whatever it takes to create one.
-/

namespace StructuredText

-- ---------------------------------------------------------------------------
-- Filling in identifiers
-- ---------------------------------------------------------------------------

/-- The kind is the other one with some of its references filled in. -/
structure TypeKind.Filled (kind kind' : TypeKind) : Prop where
  initials : kind'.initials = kind.initials
  slots : ∀ slot r', kind'.slotRef? slot = some r' → ∃ r, kind.slotRef? slot = some r
  declared : kind.IsDeclared → kind'.IsDeclared
  block : ∀ pou, kind = .block pou → kind' = .block pou
  elementary : ∀ e, kind = .elementary e → kind' = .elementary e

theorem TypeKind.Filled.refl (kind : TypeKind) : kind.Filled kind :=
  ⟨rfl, fun _ r h => ⟨r, h⟩, id, fun _ => id, fun _ => id⟩

theorem TypeKind.Filled.trans {kind kind' kind'' : TypeKind} (h : kind.Filled kind') (h' : kind'.Filled kind'') :
    kind.Filled kind'' := by
  refine ⟨h'.initials.trans h.initials, fun slot r hr => ?_, fun hd => h'.declared (h.declared hd),
    fun pou hb => h'.block pou (h.block pou hb), fun e he => h'.elementary e (h.elementary e he)⟩
  obtain ⟨r', hr'⟩ := h'.slots slot r hr
  exact h.slots slot r' hr'

namespace Link

/-- A change of a member that keeps its initial value. -/
theorem initials_modify (members : List StructMember) (position : Nat) (f : StructMember → StructMember)
    (hf : ∀ m, (f m).initial = m.initial) :
    (TypeKind.struct (members.modify position f)).initials = (TypeKind.struct members).initials := by
  have hmap : (members.modify position f).map (·.initial) = members.map (·.initial) := by
    refine List.ext_getElem? fun i => ?_
    rw [List.getElem?_map, List.getElem?_map, List.getElem?_modify]
    split <;> cases members[i]? <;> simp [hf]
  have hfilter (ms : List StructMember) : ms.filterMap (·.initial) = (ms.map (·.initial)).filterMap id := by
    rw [List.filterMap_map]
    rfl
  simp only [TypeKind.initials]
  rw [hfilter, hfilter members, hmap]

/-- The identifier of the only reference of a declaration is filled in. -/
theorem filled_single {kind kind' : TypeKind} {slot : TypeSlot} {r r' : TypeRef} {id : TypeId}
    (hinitials : kind'.initials = kind.initials) (hdeclared : kind.IsDeclared) (hdeclared' : kind'.IsDeclared)
    (hr : kind.slotRef? slot = some r) (hr' : kind'.slotRef? slot = some r') (hid : r'.id? = some id)
    (honly : ∀ slot' ≠ slot, kind.slotRef? slot' = none ∧ kind'.slotRef? slot' = none) :
    kind.Filled kind' ∧ (∃ r, kind'.slotRef? slot = some r ∧ r.id? = some id) ∧
      ∀ slot' ≠ slot, kind'.slotRef? slot' = kind.slotRef? slot' := by
  refine ⟨⟨hinitials, fun slot' r'' hr'' => ?_, fun _ => hdeclared', ?_, ?_⟩, ⟨r', hr', hid⟩,
    fun slot' hne => (honly slot' hne).2.trans (honly slot' hne).1.symm⟩
  · by_cases heq : slot' = slot
    · exact ⟨r, heq ▸ hr⟩
    · cases (honly slot' heq).2.symm.trans hr''
  · rintro pou rfl
    exact hdeclared.elim
  · rintro e rfl
    exact hdeclared.elim

/-- The reference at the place is filled in, and the other ones stay as they are. -/
theorem setSlot?_spec {kind kind' : TypeKind} {slot : TypeSlot} {id : TypeId} (h : setSlot? kind slot id = some kind') :
    kind.Filled kind' ∧ (∃ r, kind'.slotRef? slot = some r ∧ r.id? = some id) ∧
      ∀ slot' ≠ slot, kind'.slotRef? slot' = kind.slotRef? slot' := by
  unfold setSlot? at h
  split at h
  · cases h
    refine filled_single rfl trivial trivial rfl rfl rfl ?_
    rintro (_ | _ | _ | _) hne <;> first | exact ⟨rfl, rfl⟩ | exact absurd rfl hne
  · cases h
    refine filled_single rfl trivial trivial rfl rfl rfl ?_
    rintro (_ | _ | _ | _) hne <;> first | exact ⟨rfl, rfl⟩ | exact absurd rfl hne
  · cases h
    refine filled_single rfl trivial trivial rfl rfl rfl ?_
    rintro (_ | _ | _ | _) hne <;> first | exact ⟨rfl, rfl⟩ | exact absurd rfl hne
  · next members position =>
    obtain ⟨hlt, h⟩ := Option.ite_none_right_eq_some.mp h
    cases h
    obtain ⟨m, hm⟩ : ∃ m, members[position]? = some m := ⟨_, List.getElem?_eq_getElem hlt⟩
    refine ⟨⟨?_, fun slot r hr => ?_, fun _ => trivial, nofun, nofun⟩, ⟨{ m.type with id? := some id }, ?_, rfl⟩, fun slot hne => ?_⟩
    · exact initials_modify members position _ fun _ => rfl
    · cases slot with
      | member i =>
        obtain ⟨m', hm', -⟩ := Option.map_eq_some_iff.mp hr
        have hlt := (List.getElem?_eq_some_iff.mp hm').1
        rw [List.length_modify] at hlt
        exact ⟨_, by rw [TypeKind.slotRef?, List.getElem?_eq_getElem hlt]; rfl⟩
      | parent | base | element => cases hr
    · simp [TypeKind.slotRef?, hm]
    · cases slot with
      | member i =>
        have hi : position ≠ i := fun heq => hne (heq ▸ rfl)
        simp [TypeKind.slotRef?, hi]
      | parent | base | element => rfl
  · cases h

-- ---------------------------------------------------------------------------
-- Uses of types
-- ---------------------------------------------------------------------------

/-- The use of a type is linked: its place in the declaration of the holder is filled in. -/
def Linked (types : TypeTable) (use : TypeUse) : Prop :=
  ∃ holder d r, types.lookup? use.holder = some holder ∧ types.get? holder = some d ∧
    d.kind.slotRef? use.slot = some r ∧ types.Resolves r

/-- The table is the other one with some of the references of its declarations filled in. -/
structure TypesFilled (types types' : TypeTable) : Prop where
  names : types'.types.map (·.name) = types.types.map (·.name)
  kinds : ∀ id d, types.get? id = some d → ∃ d', types'.get? id = some d' ∧ d'.name = d.name ∧ d.kind.Filled d'.kind

theorem TypesFilled.refl (types : TypeTable) : TypesFilled types types := ⟨rfl, fun _ d hd => ⟨d, hd, rfl, .refl _⟩⟩

theorem TypesFilled.trans {t t' t'' : TypeTable} (h : TypesFilled t t') (h' : TypesFilled t' t'') : TypesFilled t t'' := by
  refine ⟨h'.names.trans h.names, fun id d hd => ?_⟩
  obtain ⟨d', hd', hname, hkind⟩ := h.kinds id d hd
  obtain ⟨d'', hd'', hname', hkind'⟩ := h'.kinds id d' hd'
  exact ⟨d'', hd'', hname'.trans hname, hkind.trans hkind'⟩

theorem lookup?_congr {t t' : TypeTable} (h : t'.types.map (·.name) = t.types.map (·.name)) (name : Ident) :
    t'.lookup? name = t.lookup? name := by
  have hfind (t : TypeTable) : t.types.findIdx? (·.name == name) = (t.types.map (·.name)).findIdx? (· == name) := by
    rw [Array.findIdx?_map]
    rfl
  unfold TypeTable.lookup?
  rw [hfind, hfind t, h]

/-- Every type of the filled table is what a type of the other one has become. -/
theorem TypesFilled.exists_of_get? {t t' : TypeTable} (h : TypesFilled t t') {id : TypeId} {d' : TypeDecl}
    (hd' : t'.get? id = some d') : ∃ d, t.get? id = some d ∧ d'.name = d.name ∧ d.kind.Filled d'.kind := by
  have hsize : t'.types.size = t.types.size := by simpa using congrArg Array.size h.names
  obtain ⟨d, hd⟩ := TypeTable.declares_iff.mpr (hsize ▸ TypeTable.declares_iff.mp ⟨d', hd'⟩)
  obtain ⟨d'', hd'', hname, hkind⟩ := h.kinds id d hd
  cases hd'.symm.trans hd''
  exact ⟨d, hd, hname, hkind⟩

theorem TypesFilled.declares {t t' : TypeTable} (h : TypesFilled t t') {id : TypeId} (hid : t.Declares id) :
    t'.Declares id := by
  obtain ⟨d, hd⟩ := hid
  obtain ⟨d', hd', -⟩ := h.kinds id d hd
  exact ⟨d', hd'⟩

variable {l l' : Library} {use : TypeUse} {id : TypeId}

theorem setUse?_eq_some (h : setUse? l use id = some l') :
    ∃ holder d kind, l.types.lookup? use.holder = some holder ∧ l.types.get? holder = some d ∧
      setSlot? d.kind use.slot id = some kind ∧
      l' = { l with types := ⟨l.types.types.setIfInBounds holder { d with kind }⟩ } := by
  obtain ⟨holder, hholder, h⟩ := Option.bind_eq_some_iff.mp h
  obtain ⟨d, hd, h⟩ := Option.bind_eq_some_iff.mp h
  obtain ⟨kind, hkind, h⟩ := Option.bind_eq_some_iff.mp h
  cases h
  exact ⟨holder, d, kind, hholder, hd, hkind, rfl⟩

theorem get?_set {t : TypeTable} {holder : TypeId} {d : TypeDecl} (hd : t.get? holder = some d) (d' : TypeDecl) :
    (TypeTable.mk (t.types.setIfInBounds holder d')).get? id = if holder = id then some d' else t.get? id := by
  obtain ⟨hlt, -⟩ := Array.getElem?_eq_some_iff.mp hd
  unfold TypeTable.get?
  rw [Array.getElem?_setIfInBounds]
  simp [hlt]

/-- Linking a use fills in its place and keeps the places that are filled in. -/
theorem setUse?_spec (h : setUse? l use id = some l') (hid : l.types.Declares id) :
    l' = { l with types := l'.types } ∧ TypesFilled l.types l'.types ∧ Linked l'.types use ∧
      ∀ use', Linked l.types use' → Linked l'.types use' := by
  obtain ⟨holder, d, kind, hholder, hd, hkind, rfl⟩ := setUse?_eq_some h
  obtain ⟨hfilled, ⟨r, hr, hrid⟩, hother⟩ := setSlot?_spec hkind
  have htypes : TypesFilled l.types ⟨l.types.types.setIfInBounds holder { d with kind }⟩ := by
    refine ⟨?_, fun id' d' hd' => ?_⟩
    · have hsame : (l.types.types.map (·.name))[holder]? = some d.name := by
        rw [Array.getElem?_map, show l.types.types[holder]? = some d from hd]
        rfl
      obtain ⟨hlt, hname⟩ := Array.getElem?_eq_some_iff.mp hsame
      rw [Array.map_setIfInBounds, Array.setIfInBounds, dif_pos hlt, ← hname]
      exact Array.set_getElem_self hlt
    · rw [get?_set hd]
      split
      · next heq =>
        subst heq
        cases hd.symm.trans hd'
        exact ⟨_, rfl, rfl, hfilled⟩
      · exact ⟨d', hd', rfl, .refl _⟩
  refine ⟨rfl, htypes, ⟨holder, { d with kind }, r, (lookup?_congr htypes.names _).trans hholder, ?_, hr, id, hrid, htypes.declares hid⟩,
    fun use' huse' => ?_⟩
  · rw [get?_set hd, if_pos rfl]
  · obtain ⟨holder', d', r', hholder', hd', hr', id', hrid', hid'⟩ := huse'
    by_cases heq : holder = holder'
    · subst heq
      cases hd.symm.trans hd'
      by_cases hslot : use'.slot = use.slot
      · refine ⟨holder, { d with kind }, r, (lookup?_congr htypes.names _).trans hholder', ?_, hslot ▸ hr, id, hrid, htypes.declares hid⟩
        rw [get?_set hd, if_pos rfl]
      · refine ⟨holder, { d with kind }, r', (lookup?_congr htypes.names _).trans hholder', ?_,
          (hother _ hslot).trans hr', id', hrid', htypes.declares hid'⟩
        rw [get?_set hd, if_pos rfl]
    · refine ⟨holder', d', r', (lookup?_congr htypes.names _).trans hholder', ?_, hr', id', hrid', htypes.declares hid'⟩
      rw [get?_set hd, if_neg heq]
      exact hd'

-- ---------------------------------------------------------------------------
-- All uses
-- ---------------------------------------------------------------------------

/-- What is linked of the uses while the tasks are left: the table is filled in, and every other use is linked. -/
structure Linking (l₀ : Library) (uses : List TypeUse) (tasks : List (Reference TypeUse × Option TypeId))
    (l : Library) : Prop where
  same : l = { l₀ with types := l.types }
  filled : TypesFilled l₀.types l.types
  found : ∀ task ∈ tasks, ∀ id, task.2 = some id → l₀.types.Declares id
  linked : ∀ use ∈ uses, use ∈ tasks.map (·.1.referrer) ∨ Linked l.types use

theorem Linking.step {l₀ : Library} {uses : List TypeUse} {task : Reference TypeUse × Option TypeId}
    {tasks : List (Reference TypeUse × Option TypeId)} (hbind : bindUse task.1 task.2 l = (none, l'))
    (h : Linking l₀ uses (task :: tasks) l) : Linking l₀ uses tasks l' := by
  obtain ⟨r, found⟩ := task
  obtain ⟨hsame, hfilled, hfound, hlinked⟩ := h
  unfold bindUse at hbind
  cases found with
  | none => cases congrArg Prod.fst hbind
  | some id =>
    dsimp only at hbind
    split at hbind
    · next l₁ hset =>
      cases hbind
      have hdeclared : l.types.Declares id := hfilled.declares (hfound _ List.mem_cons_self id rfl)
      obtain ⟨hsame', hfilled', huse, hkeeps⟩ := setUse?_spec hset hdeclared
      refine ⟨?_, hfilled.trans hfilled', fun task htask => hfound task (List.mem_cons_of_mem _ htask), fun use hmem => ?_⟩
      · rw [hsame', hsame]
      · obtain hleft | hdone := hlinked use hmem
        · obtain rfl | hleft := List.mem_cons.mp hleft
          · exact .inr huse
          · exact .inl hleft
        · exact .inr (hkeeps use hdone)
    · cases congrArg Prod.fst hbind

theorem refusal_state {τ : Type} (check : Except Diagnostic Unit) (state : τ) : (refusal check state).2 = state := by
  cases check <;> rfl

theorem entries_usePool (uses : List TypeUse) : (usePool uses).entries.Perm (uses.flatMap fun use =>
    [⟨⟨some use.target, use, use.span⟩, match use.slot with | .member _ => false | _ => true⟩]) := by
  rw [← List.nil_append (List.flatMap _ uses)]
  exact RefPool.entries_foldl _ _ (fun p use => p.entries_add use.target use use.span _) uses {}

/-- All uses of types are linked if none of them is refused. -/
theorem linked_of_linkUses {uses : List TypeUse} (h : linkUses uses l = .ok l')
    (hlookup : ∀ name id, l.types.lookup? name = some id → l.types.Declares id) :
    l' = { l with types := l'.types } ∧ TypesFilled l.types l'.types ∧ ∀ use ∈ uses, Linked l'.types use := by
  obtain ⟨hnone, hresult⟩ := finish_eq_ok.mp h
  have htrigger : ((usePool uses).resolve l.types.lookup?).trigger
      { resolved := bindUse, check := fun r l => refusal (checkUse r l.types) l } l = ([], l') :=
    Prod.ext hnone hresult
  have hvisit := RefPool.visit_of_trigger (fun r l => refusal_state (checkUse r l.types) l) htrigger
  have hreferrers : (((usePool uses).lookups l.types.lookup?).map (·.1.referrer)).Perm uses := by
    rw [RefPool.referrers_lookups]
    refine ((entries_usePool uses).map _).trans ?_
    simp [List.map_flatMap]
  have hstart : Linking l uses ((usePool uses).lookups l.types.lookup?) l := by
    refine ⟨rfl, .refl _, fun task htask id hid => ?_, fun use huse => .inl (hreferrers.symm.subset huse)⟩
    obtain ⟨name, hname⟩ := RefPool.found_of_mem_lookups htask
    exact hlookup name id (hname.symm.trans hid)
  have hlinked := RefPool.visit_unrefused (J := Linking l uses) (fun _ _ _ _ hbind h => h.step hbind) _ _ _ hvisit hstart
  exact ⟨hlinked.same, hlinked.filled, fun use huse => (hlinked.linked use huse).resolve_left (by simp)⟩

end Link

-- ---------------------------------------------------------------------------
-- Whole tables
-- ---------------------------------------------------------------------------

/-- The types of the library are linked. -/
structure Library.Typed (l : Library) : Prop where
  types : l.types.Complete
  initials : l.types.Proper fun _ => False
  blocks : ∀ id d pou, l.types.get? id = some d → d.kind = .block pou → HasBlock l.pous pou

namespace Link

variable {l l' : Library} {uses : List TypeUse}

theorem lookup?_declares (hl : l.Merged uses) {name : Ident} {id : TypeId} (h : l.types.lookup? name = some id) :
    l.types.Declares id := by
  unfold TypeTable.lookup? at h
  split at h
  · next found hfound =>
    cases h
    have hlt := (List.findIdx?_eq_some_iff_getElem.mp hfound).1
    exact TypeTable.declares_iff.mpr (Nat.lt_of_lt_of_le hlt hl.size)
  · exact TypeTable.declares_iff.mpr (Array.findIdx?_eq_some_iff_getElem.mp h).1

theorem values_of_checkDefault {types : TypeTable} {id : TypeId} {d : TypeDecl} {values : List Ident}
    {initial : Option Ident} (h : checkDefault types id = none) (hd : types.get? id = some d)
    (hkind : d.kind = .enumeration values initial) : values ≠ [] := by
  unfold checkDefault at h
  simp only [hd, hkind] at h
  split at h
  · next v hcreate =>
    obtain ⟨chosen, hchoose⟩ := TypeTable.createWithin_enumeration hd hkind hcreate
    obtain ⟨name, -, hfind⟩ := TypeTable.find?_of_chooseValue hchoose
    exact List.ne_nil_of_mem (List.mem_of_find?_eq_some hfind)
  · cases h

theorem initial_elementary {id : TypeId} {d : TypeDecl} (h : TypeTable.initial.get? id = some d) :
    ∃ e, d.kind = .elementary e := by
  have hmem : d ∈ TypeTable.initial.types.toList := Array.mem_toList_iff.mpr (Array.mem_of_getElem? h)
  obtain ⟨e, -, rfl⟩ := List.mem_map.mp hmem
  exact ⟨e, rfl⟩

/-- A type of the linked table is elementary, a function block, or what a fresh type has become. -/
theorem kind_of_filled {types : TypeTable} (hl : l.Merged uses) (hfilled : TypesFilled l.types types) {id : TypeId}
    {d : TypeDecl} (hd : types.get? id = some d) :
    (∃ e, d.kind = .elementary e) ∨ (∃ pou, HasBlock l.pous pou ∧ d.kind = .block pou) ∨
      ∃ d₀ : TypeDecl, l.types.lookup? d₀.name = some id ∧ d₀.Fresh uses ∧ d₀.kind.Filled d.kind := by
  obtain ⟨d₀, hd₀, -, hkind⟩ := hfilled.exists_of_get? hd
  rcases Nat.lt_or_ge id TypeTable.elementaryCount with hlt | hge
  · obtain ⟨e, he⟩ := initial_elementary ((hl.initial id hlt).symm.trans hd₀)
    exact .inl ⟨e, hkind.elementary e he⟩
  · obtain hfresh | ⟨pou, hpou, hblock⟩ := hl.types id d₀ hge hd₀
    · exact .inr (.inr ⟨d₀, hl.indexed id d₀ hge hd₀, hfresh, hkind⟩)
    · exact .inr (.inl ⟨pou, hpou, hkind.block pou hblock⟩)

/-- Linking the types of a merged library completes them, and changes nothing else. -/
theorem typed_of_linkTypes (hl : l.Merged uses) (h : linkTypes uses l = .ok l') :
    l'.Typed ∧ l' = { l with types := l'.types } := by
  obtain ⟨l₁, huses, h⟩ := Except.bind_eq_ok.mp h
  obtain ⟨_, -, h⟩ := Except.bind_eq_ok.mp h
  obtain ⟨hdefaults, rfl⟩ := finish_eq_ok.mp h
  obtain ⟨hsame, hfilled, hlinked⟩ := linked_of_linkUses huses fun _ _ => lookup?_declares hl
  have hpous : l₁.pous = l.pous := by rw [hsame]
  refine ⟨⟨⟨fun {id d} hd r hr => ?_, fun {id d values initial} hd hkind => ?_, fun id hid => ?_⟩, ?_, ?_⟩, hsame⟩
  · obtain ⟨e, he⟩ | ⟨pou, -, hblock⟩ | ⟨d₀, hindexed, hfresh, hkind⟩ := kind_of_filled hl hfilled hd
    · simp [he, TypeKind.refs] at hr
    · simp [hblock, TypeKind.refs] at hr
    · obtain ⟨slot, hslot⟩ := TypeKind.exists_slotRef? hr
      obtain ⟨r₀, hr₀⟩ := hkind.slots slot r hslot
      obtain ⟨use, huse, hholder, rfl⟩ := hfresh.covered slot r₀ hr₀
      obtain ⟨holder, d', r', hfound, hd', hr', hresolves⟩ := hlinked use huse
      rw [lookup?_congr hfilled.names, hholder, hindexed] at hfound
      cases hfound
      cases hd.symm.trans hd'
      cases hslot.symm.trans hr'
      exact hresolves
  · refine values_of_checkDefault ?_ hd hkind
    exact List.filterMap_eq_nil_iff.mp hdefaults id (List.mem_range.mpr (TypeTable.declares_iff.mp ⟨d, hd⟩))
  · have hlt : id < l.types.types.size := Nat.lt_of_lt_of_le hid hl.size
    exact hfilled.declares (TypeTable.declares_iff.mpr hlt)
  · intro id d hd v hv
    obtain ⟨e, he⟩ | ⟨pou, -, hblock⟩ | ⟨d₀, -, hfresh, hkind⟩ := kind_of_filled hl hfilled hd
    · simp [he, TypeKind.initials] at hv
    · simp [hblock, TypeKind.initials] at hv
    · exact hfresh.initials v (hkind.initials ▸ hv)
  · intro id d pou hd hblock
    obtain ⟨e, he⟩ | ⟨pou', hpou, hblock'⟩ | ⟨d₀, -, hfresh, hkind⟩ := kind_of_filled hl hfilled hd
    · cases hblock.symm.trans he
    · cases hblock.symm.trans hblock'
      exact hpous ▸ hpou
    · have hdeclared := hkind.declared hfresh.declared
      rw [hblock] at hdeclared
      exact hdeclared.elim

end Link

end StructuredText
