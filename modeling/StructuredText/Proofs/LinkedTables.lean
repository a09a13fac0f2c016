-- SUMMARY: The types of a linked library have default values, bounds in order, and subranges of integers.
import StructuredText.Proofs.LinkedLibrary

/-!
# Checked types

Types are checked when they are linked, and none of the later stages changes them. So what the checks establish holds of
the types of every linked library.
-/

namespace StructuredText

/-- What the checks of declared types establish. -/
structure TypeTable.Checked (t : TypeTable) : Prop where
  created : ∀ id, t.Declares id → ∃ v, t.create id none = .ok v
  bounds : ∀ id d element dimensions initial, t.get? id = some d → d.kind = .array element dimensions initial →
    ∀ dim ∈ dimensions, dim.min ≤ dim.max
  bases : ∀ id d base min max initial, t.get? id = some d → d.kind = .subrange base min max initial →
    ∃ b c, base.id? = some b ∧ t.classOf b = .ok c ∧ c.category.isInteger = true

namespace Link

variable {l l' : Library} {uses : List TypeUse}

-- ---------------------------------------------------------------------------
-- Checks of uses
-- ---------------------------------------------------------------------------

theorem refusal_eq_none {τ : Type} {check : Except Diagnostic Unit} {state : τ} :
    (refusal check state).1 = none ↔ check = .ok () := by
  cases check <;> simp [refusal]

/-- Every use of a type but that by a member has passed its check. -/
theorem checked_of_linkUses (h : linkUses uses l = .ok l') {use : TypeUse} (huse : use ∈ uses)
    (hslot : ∀ position, use.slot ≠ .member position) :
    checkUse ⟨some use.target, use, use.span⟩ l'.types = .ok () := by
  obtain ⟨hnone, hresult⟩ := finish_eq_ok.mp h
  have htrigger : ((usePool uses).resolve l.types.lookup?).trigger
      { resolved := bindUse, check := fun r l => refusal (checkUse r l.types) l } l = ([], l') :=
    Prod.ext hnone hresult
  have hpassed := RefPool.accepted_of_trigger (fun r l => refusal_state (checkUse r l.types) l) htrigger
  -- only the uses by members were put into the pool without a check
  refine refusal_eq_none.mp (hpassed ⟨some use.target, use, use.span⟩ (List.mem_append_left _ ?_))
  refine List.mem_map.mpr ⟨⟨⟨some use.target, use, use.span⟩, true⟩, List.mem_filter.mpr ⟨?_, rfl⟩, rfl⟩
  refine (entries_usePool uses).symm.subset (List.mem_flatMap.mpr ⟨use, huse, List.mem_singleton.mpr ?_⟩)
  cases hkind : use.slot with
  | member position => exact absurd hkind (hslot position)
  | parent | base | element => rfl

/-- The place of a reference in a linked declaration has passed its check. -/
theorem checkUse_of_linkUses (hl : l.Merged uses) (h : linkUses uses l = .ok l') {id : TypeId} {d : TypeDecl}
    (hd : l'.types.get? id = some d) (slot : TypeSlot) (hslot : ∀ position, slot ≠ .member position) {r : TypeRef}
    (hr : d.kind.slotRef? slot = some r) :
    ∃ ref : Reference TypeUse, ref.referrer.slot = slot ∧ l'.types.lookup? ref.referrer.holder = some id ∧
      checkUse ref l'.types = .ok () := by
  obtain ⟨-, hfilled, -⟩ := linked_of_linkUses h fun _ _ => lookup?_declares hl
  obtain ⟨e, he⟩ | ⟨pou, -, hblock⟩ | ⟨d₀, hindexed, hfresh, hkind⟩ := kind_of_filled hl hfilled hd
  · simp [he, TypeKind.slotRef?] at hr
  · simp [hblock, TypeKind.slotRef?] at hr
  · obtain ⟨r₀, hr₀⟩ := hkind.slots slot r hr
    obtain ⟨use, huse, hholder, rfl⟩ := hfresh.covered slot r₀ hr₀
    refine ⟨⟨some use.target, use, use.span⟩, rfl, ?_, checked_of_linkUses h huse hslot⟩
    rw [lookup?_congr hfilled.names]
    exact hholder ▸ hindexed

/-- What the check of a use looks at. -/
theorem checkUse_eq {ref : Reference TypeUse} {types : TypeTable} {id : TypeId} {d : TypeDecl}
    (hid : types.lookup? ref.referrer.holder = some id) (hd : types.get? id = some d) :
    checkUse ref types = match ref.referrer.slot, d.kind with
      | .parent, .alias parent initial => checkAlias types ref.span parent initial
      | .base, .subrange base min max initial => checkSubrange types id d base min max initial
      | .element, .array _ dimensions _ => checkBounds d dimensions
      | _, _ => pure () := by
  unfold checkUse
  simp only [hid, TypeTable.get_eq_ok.mpr hd]
  rfl

theorem bounds_of_checkBounds {d : TypeDecl} {dimensions : List Dimension} (h : checkBounds d dimensions = .ok ()) :
    ∀ dim ∈ dimensions, dim.min ≤ dim.max := by
  unfold checkBounds at h
  split at h
  · cases h
  · next hnone =>
    intro dim hdim
    simpa using List.find?_eq_none.mp hnone dim hdim

theorem base_of_checkSubrange {types : TypeTable} {id : TypeId} {d : TypeDecl} {base : TypeRef} {min max : Int}
    {initial : Option Value} (h : checkSubrange types id d base min max initial = .ok ()) :
    ∃ b c, base.id? = some b ∧ types.classOf b = .ok c ∧ c.category.isInteger = true := by
  obtain ⟨b, hb, h⟩ := Except.bind_eq_ok.mp h
  obtain ⟨c, hc, h⟩ := Except.bind_eq_ok.mp h
  refine ⟨b, c, TypeTable.ref_id_eq_ok.mp (atSpan_eq_ok.mp hb), atSpan_eq_ok.mp hc, ?_⟩
  cases hinteger : c.category.isInteger with
  | true => rfl
  | false =>
    rw [if_pos (by simp [hinteger])] at h
    cases h

theorem exists_create_of_checkDefault {types : TypeTable} {id : TypeId} {d : TypeDecl} (hd : types.get? id = some d)
    (h : checkDefault types id = none) : ∃ v, types.create id none = .ok v := by
  unfold checkDefault at h
  simp only [hd] at h
  split at h
  · next e hkind => exact ⟨_, TypeTable.createWithin_elementary hd hkind⟩
  · next pou hkind =>
    refine ⟨.block ⟨pou, none⟩, ?_⟩
    unfold TypeTable.create
    rw [TypeTable.createWithin]
    simp only [TypeTable.get_eq_ok.mpr hd, Except.ok_bind, hkind]
    rfl
  · split at h
    · next v hv => exact ⟨v, hv⟩
    · cases h

/-- The types that are linked have passed their checks. -/
theorem checked_of_linkTypes (hl : l.Merged uses) (h : linkTypes uses l = .ok l') : l'.types.Checked := by
  obtain ⟨l₁, huses, h⟩ := Except.bind_eq_ok.mp h
  obtain ⟨_, -, h⟩ := Except.bind_eq_ok.mp h
  obtain ⟨hdefaults, rfl⟩ := finish_eq_ok.mp h
  refine ⟨fun id ⟨d, hd⟩ => ?_, fun id d element dimensions initial hd hkind => ?_,
    fun id d base min max initial hd hkind => ?_⟩
  · refine exists_create_of_checkDefault hd ?_
    exact List.filterMap_eq_nil_iff.mp hdefaults id (List.mem_range.mpr (TypeTable.declares_iff.mp ⟨d, hd⟩))
  · obtain ⟨ref, hslot, hholder, hcheck⟩ := checkUse_of_linkUses hl huses hd .element nofun
      (hkind ▸ rfl : d.kind.slotRef? .element = some element)
    rw [checkUse_eq hholder hd, hslot, hkind] at hcheck
    exact bounds_of_checkBounds hcheck
  · obtain ⟨ref, hslot, hholder, hcheck⟩ := checkUse_of_linkUses hl huses hd .base nofun
      (hkind ▸ rfl : d.kind.slotRef? .base = some base)
    rw [checkUse_eq hholder hd, hslot, hkind] at hcheck
    exact base_of_checkSubrange hcheck

-- ---------------------------------------------------------------------------
-- Later stages
-- ---------------------------------------------------------------------------

theorem types_modifyVar (l : Library) (owner : Owner) (name : Ident) (f : VarDecl → VarDecl) :
    (l.modifyVar owner name f).types = l.types := by
  cases owner <;> rfl

theorem types_of_linkHeader {owner : Owner} {vars : List VarDecl} :
    (linkHeader owner vars l).2.types = l.types := by
  refine RefPool.trigger_invariant (I := fun l' : Library => l'.types = l.types) (fun r found l' h => ?_)
    (fun r l' h => ?_) rfl
  · cases found with
    | none => exact h
    | some id =>
      unfold bindVarType
      dsimp only
      split
      · exact (types_modifyVar l' ..).trans h
      · exact h
  · rw [refusal_state]
    exact h

/-- A step over the units that reports errors and keeps the types. -/
theorem types_of_foldl {α : Type} {step : List Diagnostic × Library → α → List Diagnostic × Library}
    (hstep : ∀ s a, (step s a).2.types = s.2.types) (as : List α) (s : List Diagnostic × Library) :
    (as.foldl step s).2.types = s.2.types := by
  induction as generalizing s with
  | nil => rfl
  | cons a as ih => exact (ih (step s a)).trans (hstep s a)

theorem types_of_linkHeaders {pous : List Nat} (h : linkHeaders pous l = .ok l') : l'.types = l.types := by
  obtain ⟨-, rfl⟩ := finish_eq_ok.mp h
  refine types_of_foldl (fun s i => ?_) pous ([], l)
  dsimp only
  split
  · rfl
  · exact types_of_linkHeader

theorem types_of_linkGlobals (h : linkGlobals l = .ok l') : l'.types = l.types := by
  obtain ⟨_, -, h⟩ := Except.bind_eq_ok.mp h
  obtain ⟨globals, -, h⟩ := Except.bind_eq_ok.mp h
  cases h
  exact types_of_linkHeader

theorem types_of_linkExternals {pou : Nat} : (linkExternals l pou).2.types = l.types := by
  unfold linkExternals
  split
  · rfl
  · refine RefPool.trigger_invariant (I := fun l' : Library => l'.types = l.types) (fun r found l' h => ?_)
      (fun _ _ => id) rfl
    cases found <;> exact h

theorem types_of_linkReferences (h : linkReferences l = .ok l') : l'.types = l.types := by
  obtain ⟨-, rfl⟩ := finish_eq_ok.mp h
  refine types_of_foldl ?_ (List.range l.pous.length) ([], l)
  exact fun s i => types_of_linkExternals

theorem types_of_createVars {select : PouKind → Bool} (h : createVars select l = .ok l') : l'.types = l.types :=
  (revised_of_createVars h).types

theorem types_of_linkBlocks (h : linkBlocks l = .ok l') : l'.types = l.types := by
  obtain ⟨_, -, h⟩ := Except.bind_eq_ok.mp h
  obtain ⟨_, -, h⟩ := Except.bind_eq_ok.mp h
  exact types_of_createVars h

theorem types_of_linkAllCalls (l : Library) : (linkAllCalls l).2.types = l.types := rfl

theorem types_of_prepareBodies {epsilon : Float} (h : prepareBodies epsilon l = .ok l') : l'.types = l.types := by
  obtain ⟨pous, rfl, -⟩ := forall₂_of_prepareBodies h
  rfl

/-- The types of a library are those that its merged units were linked to. -/
theorem types_of_stages {units : List CompilationUnit} {options : Options} (hunits : ∀ u ∈ units, u.Fresh)
    (h : stages units options = .ok l) :
    ∃ l₁ l₂, Library.Merged (units.flatMap (·.uses)) l₁ ∧ linkTypes (units.flatMap (·.uses)) l₁ = .ok l₂ ∧
      l.types = l₂.types := by
  obtain ⟨l₁, hmerge, h⟩ := Except.bind_eq_ok.mp h
  obtain ⟨l₂, htypes, h⟩ := Except.bind_eq_ok.mp h
  obtain ⟨l₃, hblockHeaders, h⟩ := Except.bind_eq_ok.mp h
  obtain ⟨l₄, hglobals, h⟩ := Except.bind_eq_ok.mp h
  obtain ⟨l₅, hreferences, h⟩ := Except.bind_eq_ok.mp h
  obtain ⟨l₆, hblocks, h⟩ := Except.bind_eq_ok.mp h
  obtain ⟨l₇, hheaders, h⟩ := Except.bind_eq_ok.mp h
  obtain ⟨l₈, hvalues, h⟩ := Except.bind_eq_ok.mp h
  obtain ⟨l₉, hcalls, hprepare⟩ := Except.bind_eq_ok.mp h
  obtain ⟨-, hlinked⟩ := finish_eq_ok.mp hcalls
  refine ⟨l₁, l₂, merged_of_merge hunits hmerge, htypes, ?_⟩
  calc l.types = l₉.types := types_of_prepareBodies hprepare
    _ = l₈.types := hlinked ▸ types_of_linkAllCalls l₈
    _ = l₇.types := types_of_createVars hvalues
    _ = l₆.types := types_of_linkHeaders hheaders
    _ = l₅.types := types_of_linkBlocks hblocks
    _ = l₄.types := types_of_linkReferences hreferences
    _ = l₃.types := types_of_linkGlobals hglobals
    _ = l₂.types := types_of_linkHeaders hblockHeaders

end Link

/-- The types of what is linked from fresh units have passed their checks. -/
theorem checked_of_link {units : List CompilationUnit} {options : Options} {l : Library}
    (hunits : ∀ u ∈ units, u.Fresh) (h : link units options = .ok l) : l.types.Checked := by
  obtain ⟨l₁, l₂, hmerged, htypes, hsame⟩ := Link.types_of_stages hunits (stages_of_link h)
  rw [hsame]
  exact Link.checked_of_linkTypes hmerged htypes

end StructuredText
