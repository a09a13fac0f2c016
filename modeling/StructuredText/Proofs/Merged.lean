-- SUMMARY: Merging fresh units: declared types are found by their names, and function blocks have units.
import StructuredText.Link.Merge
import StructuredText.Proofs.Exits
import StructuredText.Proofs.Units

/-!
# Merged libraries

What is merged is as fresh as the units that it comes from. Since a name that is taken is refused, every declared type
is found by its name, and no two units have the same name. The type of a function block is added just before its unit.
-/

namespace StructuredText

namespace TypeTable

variable {t t' : TypeTable} {d : TypeDecl} {id : TypeId} {name : Ident}

/-- Every declared type is found by its name. -/
def Indexed (t : TypeTable) : Prop :=
  ∀ id d, elementaryCount ≤ id → t.get? id = some d → t.lookup? d.name = some id

theorem lookup?_eq_none : t.lookup? name = none ↔
    Elementary.find? name = none ∧ t.types.findIdx? (·.name == name) = none := by
  unfold lookup?
  cases Elementary.find? name <;> simp

theorem add_eq_ok (h : t.add d = .ok t') : t.lookup? d.name = none ∧ t' = ⟨t.types.push d⟩ := by
  unfold add at h
  split at h
  · cases h
  · next hnone =>
    cases h
    exact ⟨hnone, rfl⟩

theorem lookup?_push (h : t.lookup? name = some id) : (TypeTable.mk (t.types.push d)).lookup? name = some id := by
  unfold lookup? at h ⊢
  split
  · next heq =>
    rw [heq] at h
    exact h
  · next heq =>
    simp only [heq] at h
    rw [Array.findIdx?_push, h]
    rfl

theorem get?_push : (TypeTable.mk (t.types.push d)).get? id = if id = t.types.size then some d else t.get? id :=
  Array.getElem?_push

theorem Indexed.push (ht : t.Indexed) (h : t.lookup? d.name = none) : (TypeTable.mk (t.types.push d)).Indexed := by
  intro id d' hid hd'
  rw [get?_push] at hd'
  split at hd'
  · next heq =>
    cases hd'
    subst heq
    obtain ⟨helementary, hnew⟩ := lookup?_eq_none.mp h
    simp only [lookup?, helementary, Array.findIdx?_push, hnew, Option.none_or]
    exact if_pos (Ident.beq_iff.mpr rfl)
  · exact lookup?_push (ht id d' hid hd')

end TypeTable

/-- There is a function block at the position. -/
def HasBlock (pous : List Pou) (pou : Nat) : Prop := ∃ p, pous[pou]? = some p ∧ p.kind = .functionBlock

/-- A library of fresh declarations, before they are linked to each other. -/
structure Library.Merged (uses : List TypeUse) (l : Library) : Prop where
  initial : ∀ id < TypeTable.elementaryCount, l.types.get? id = TypeTable.initial.get? id
  size : TypeTable.elementaryCount ≤ l.types.types.size
  indexed : l.types.Indexed
  types : ∀ id d, TypeTable.elementaryCount ≤ id → l.types.get? id = some d →
    d.Fresh uses ∨ ∃ pou, HasBlock l.pous pou ∧ d.kind = .block pou
  globals : ∀ v ∈ l.globals, v.Fresh ∧ v.isExternal = false
  vars : ∀ p ∈ l.pous, ∀ v ∈ p.vars, v.Fresh
  bodies : ∀ p ∈ l.pous, Body.Unlinked p.body p.pools
  names : l.pous.Pairwise fun p q => (p.name == q.name) = false

theorem HasBlock.grow {pous pous' : List Pou} {pou : Nat} (h : HasBlock pous pou) (hpous : pous <+: pous') :
    HasBlock pous' pou := by
  obtain ⟨p, hp, hkind⟩ := h
  obtain ⟨added, rfl⟩ := hpous
  obtain ⟨hlt, -⟩ := List.getElem?_eq_some_iff.mp hp
  exact ⟨p, (List.getElem?_append_left hlt).trans hp, hkind⟩

namespace Link

variable {uses : List TypeUse} {l : Library}

theorem merged_empty (memorySize : Nat) : ({ memorySize } : Library).Merged uses := by
  refine ⟨fun _ _ => rfl, Nat.le_refl _, fun id d hid hd => ?_, fun id d hid hd => ?_, by simp, by simp, by simp, by simp⟩
  all_goals
    have hlt : id < TypeTable.elementaryCount := (Array.getElem?_eq_some_iff.mp hd).1
    omega

/-- A type with a name that is free is added. -/
theorem types_push (hl : l.Merged uses) {d : TypeDecl} (hfree : l.types.lookup? d.name = none)
    (pous : List Pou) (hpous : l.pous <+: pous)
    (hd : d.Fresh uses ∨ ∃ pou, HasBlock pous pou ∧ d.kind = .block pou) :
    let types : TypeTable := ⟨l.types.types.push d⟩
    (∀ id < TypeTable.elementaryCount, types.get? id = TypeTable.initial.get? id) ∧
      TypeTable.elementaryCount ≤ types.types.size ∧ types.Indexed ∧
      ∀ id d', TypeTable.elementaryCount ≤ id → types.get? id = some d' →
        d'.Fresh uses ∨ ∃ pou, HasBlock pous pou ∧ d'.kind = .block pou := by
  refine ⟨fun id hid => ?_, ?_, hl.indexed.push hfree, fun id d' hid hd' => ?_⟩
  · have hne : id ≠ l.types.types.size := by have := hl.size; omega
    rw [TypeTable.get?_push, if_neg hne]
    exact hl.initial id hid
  · rw [Array.size_push]
    exact Nat.le_succ_of_le hl.size
  · rw [TypeTable.get?_push] at hd'
    split at hd'
    · cases hd'
      exact hd
    · exact (hl.types id d' hid hd').imp_right fun ⟨pou, hpou, hkind⟩ => ⟨pou, hpou.grow hpous, hkind⟩

/-- The library stays merged. -/
def KeepsMerged {α : Type} (uses : List TypeUse) (m : Merging α) : Prop :=
  ∀ s, s.1.Merged uses → (m s).2.1.Merged uses

theorem KeepsMerged.forM {α : Type} {f : α → Merging Unit} {as : List α} (h : ∀ a ∈ as, KeepsMerged uses (f a)) :
    KeepsMerged uses (as.forM f) := by
  induction as with
  | nil => exact fun s hs => hs
  | cons a as ih =>
    exact fun s hs => ih (fun a' ha => h a' (List.mem_cons_of_mem a ha)) _ (h a List.mem_cons_self s hs)

theorem merging_bind {α β : Type} (m : Merging α) (k : α → Merging β) (s : Library × List Diagnostic) :
    (m >>= k) s = k (m s).1 (m s).2 := rfl

theorem addType_apply (d : TypeDecl) (l : Library) (ds : List Diagnostic) :
    addType d (l, ds) = match l.types.add d with
      | .ok types => (true, ({ l with types }, ds))
      | .error existing =>
        (false, (l, ds ++ [duplicate d.name (((l.types.get? existing).map (·.span)).getD .builtin)])) := by
  show (match l.types.add d with
      | .ok types => do
        set ({ l with types }, ds)
        pure true
      | .error existing => do
        report (duplicate d.name (((l.types.get? existing).map (·.span)).getD .builtin))
        pure false : Merging Bool) (l, ds) = _
  cases l.types.add d <;> rfl

/-- A type is added if its name is free. -/
theorem addType_run (d : TypeDecl) (l : Library) (ds : List Diagnostic) :
    (l.types.lookup? d.name = none ∧
      addType d (l, ds) = (true, ({ l with types := ⟨l.types.types.push d⟩ }, ds))) ∨
    ∃ ds', addType d (l, ds) = (false, (l, ds')) := by
  rw [addType_apply]
  cases h : l.types.add d with
  | ok types =>
    obtain ⟨hfree, rfl⟩ := TypeTable.add_eq_ok h
    exact .inl ⟨hfree, rfl⟩
  | error existing => exact .inr ⟨_, rfl⟩

theorem addType_keeps {d : TypeDecl} (hd : d.Fresh uses) :
    KeepsMerged uses (do let _ ← addType d : Merging Unit) := by
  rintro ⟨l, ds⟩ hl
  show ((addType d (l, ds)).2.1).Merged uses
  obtain ⟨hfree, heq⟩ | ⟨ds', heq⟩ := addType_run d l ds
  · rw [heq]
    obtain ⟨hinitial, hsize, hindexed, htypes⟩ := types_push hl hfree l.pous List.prefix_rfl (.inl hd)
    exact ⟨hinitial, hsize, hindexed, htypes, hl.globals, hl.vars, hl.bodies, hl.names⟩
  · rw [heq]
    exact hl

theorem addGlobal_apply (v : VarDecl) (l : Library) (ds : List Diagnostic) :
    addGlobal v (l, ds) = (match l.globals.find? (·.name == v.name) with
      | some existing => report (duplicate v.name existing.span)
      | none => set ({ l with globals := l.globals ++ [v] }, ds) : Merging Unit) (l, ds) := rfl

theorem addGlobal_keeps {v : VarDecl} (hv : v.Fresh) (hexternal : v.isExternal = false) :
    KeepsMerged uses (addGlobal v) := by
  rintro ⟨l, ds⟩ hl
  show ((addGlobal v (l, ds)).2.1).Merged uses
  rw [addGlobal_apply]
  cases l.globals.find? (·.name == v.name) with
  | some existing => exact hl
  | none =>
    refine ⟨hl.initial, hl.size, hl.indexed, hl.types, fun v' hv' => ?_, hl.vars, hl.bodies, hl.names⟩
    obtain hv' | hv' := List.mem_append.mp hv'
    · exact hl.globals v' hv'
    · obtain rfl := List.mem_singleton.mp hv'
      exact ⟨hv, hexternal⟩

/-- A unit is added with the type of its function block. -/
theorem pous_push (hl : l.Merged uses) {types : TypeTable} {p : Pou}
    (htypes : (∀ id < TypeTable.elementaryCount, types.get? id = TypeTable.initial.get? id) ∧
      TypeTable.elementaryCount ≤ types.types.size ∧ types.Indexed ∧
      ∀ id d', TypeTable.elementaryCount ≤ id → types.get? id = some d' →
        d'.Fresh uses ∨ ∃ pou, HasBlock (l.pous ++ [p]) pou ∧ d'.kind = .block pou)
    (hvars : ∀ v ∈ p.vars, v.Fresh) (hbody : Body.Unlinked p.body p.pools)
    (hfree : l.pous.find? (·.name == p.name) = none) :
    ({ l with types, pous := l.pous ++ [p] }).Merged uses := by
  obtain ⟨hinitial, hsize, hindexed, htypes⟩ := htypes
  refine ⟨hinitial, hsize, hindexed, htypes, hl.globals, fun q hq => ?_, fun q hq => ?_, ?_⟩
  · obtain hq | hq := List.mem_append.mp hq
    · exact hl.vars q hq
    · obtain rfl := List.mem_singleton.mp hq
      exact hvars
  · obtain hq | hq := List.mem_append.mp hq
    · exact hl.bodies q hq
    · obtain rfl := List.mem_singleton.mp hq
      exact hbody
  · refine List.pairwise_append.mpr ⟨hl.names, List.pairwise_singleton _ _, fun q hq q' hq' => ?_⟩
    obtain rfl := List.mem_singleton.mp hq'
    exact Bool.eq_false_iff.mpr (List.find?_eq_none.mp hfree q hq)

theorem addPou_apply (p : Pou) (l : Library) (ds : List Diagnostic) :
    addPou p (l, ds) = (match l.pous.find? (·.name == p.name) with
      | some existing => report (duplicate p.name existing.span)
      | none => do
        let type : TypeDecl := { name := p.name, kind := .block l.pous.length, span := p.span }
        let free ← if p.kind = .functionBlock then addType type else pure true
        if free then modify fun (l, ds) => ({ l with pous := l.pous ++ [p] }, ds) : Merging Unit) (l, ds) := rfl

theorem addPou_keeps {p : Pou} (hvars : ∀ v ∈ p.vars, v.Fresh) (hbody : Body.Unlinked p.body p.pools) :
    KeepsMerged uses (addPou p) := by
  rintro ⟨l, ds⟩ hl
  show ((addPou p (l, ds)).2.1).Merged uses
  rw [addPou_apply]
  cases hfree : l.pous.find? (·.name == p.name) with
  | some existing => exact hl
  | none =>
    dsimp only
    split
    · next hkind =>
      rw [merging_bind]
      obtain ⟨htype, heq⟩ | ⟨ds', heq⟩ := addType_run
        { name := p.name, kind := .block l.pous.length, span := p.span } l ds
      · rw [heq]
        have hpushed := types_push hl htype (l.pous ++ [p]) (List.prefix_append ..)
          (.inr ⟨l.pous.length, ⟨p, List.getElem?_concat_length, hkind⟩, rfl⟩)
        exact pous_push hl hpushed hvars hbody hfree
      · rw [heq]
        exact hl
    · refine pous_push hl ⟨hl.initial, hl.size, hl.indexed, fun id d hid hd => ?_⟩ hvars hbody hfree
      obtain hfresh | ⟨pou, hpou, hkind⟩ := hl.types id d hid hd
      · exact .inl hfresh
      · exact .inr ⟨pou, hpou.grow (List.prefix_append ..), hkind⟩

theorem addUnit_keeps {u : CompilationUnit} (hu : u.Fresh) (huses : u.uses ⊆ uses) : KeepsMerged uses (addUnit u) := by
  intro s hs
  have htypes : KeepsMerged uses (u.types.forM fun d => do let _ ← addType d) :=
    .forM fun d hd => addType_keeps ((hu.types d hd).mono huses)
  have hglobals : KeepsMerged uses (u.globals.forM addGlobal) :=
    .forM fun v hv => addGlobal_keeps (hu.globals v hv).1 (hu.globals v hv).2
  have hpous : KeepsMerged uses (u.pous.forM addPou) :=
    .forM fun p hp => addPou_keeps (hu.vars p hp) (hu.bodies p hp)
  exact hpous _ (hglobals _ (htypes s hs))

/-- Merging fresh units results in a merged library. -/
theorem merged_of_merge {units : List CompilationUnit} {memorySize : Nat} (hunits : ∀ u ∈ units, u.Fresh)
    (h : merge units memorySize = .ok l) : l.Merged (units.flatMap (·.uses)) := by
  have hall : KeepsMerged (units.flatMap (·.uses)) (units.forM addUnit) :=
    .forM fun u hu => addUnit_keeps (hunits u hu) fun use huse => List.mem_flatMap.mpr ⟨u, hu, huse⟩
  obtain ⟨-, rfl⟩ := finish_eq_ok.mp h
  exact hall ({ memorySize }, []) (merged_empty memorySize)

/-- Every unit of the library stays one of those that are merged. -/
def AddsUnits {α : Type} (pous : List Pou) (m : Merging α) : Prop :=
  ∀ s, s.1.pous ⊆ pous → (m s).2.1.pous ⊆ pous

theorem AddsUnits.forM {α : Type} {pous : List Pou} {f : α → Merging Unit} {as : List α}
    (h : ∀ a ∈ as, AddsUnits pous (f a)) : AddsUnits pous (as.forM f) := by
  induction as with
  | nil => exact fun s hs => hs
  | cons a as ih =>
    exact fun s hs => ih (fun a' ha => h a' (List.mem_cons_of_mem a ha)) _ (h a List.mem_cons_self s hs)

theorem addType_addsUnits (pous : List Pou) (d : TypeDecl) : AddsUnits pous (do let _ ← addType d : Merging Unit) := by
  rintro ⟨l, ds⟩ hl
  show ((addType d (l, ds)).2.1).pous ⊆ pous
  obtain ⟨-, heq⟩ | ⟨ds', heq⟩ := addType_run d l ds <;> rw [heq] <;> exact hl

theorem addGlobal_addsUnits (pous : List Pou) (v : VarDecl) : AddsUnits pous (addGlobal v) := by
  rintro ⟨l, ds⟩ hl
  show ((addGlobal v (l, ds)).2.1).pous ⊆ pous
  rw [addGlobal_apply]
  cases l.globals.find? (·.name == v.name) <;> exact hl

theorem addPou_addsUnits {pous : List Pou} {p : Pou} (hp : p ∈ pous) : AddsUnits pous (addPou p) := by
  rintro ⟨l, ds⟩ hl
  have hpushed : l.pous ++ [p] ⊆ pous := List.append_subset.mpr ⟨hl, List.cons_subset.mpr ⟨hp, List.nil_subset _⟩⟩
  show ((addPou p (l, ds)).2.1).pous ⊆ pous
  rw [addPou_apply]
  cases l.pous.find? (·.name == p.name) with
  | some existing => exact hl
  | none =>
    dsimp only
    split
    · rw [merging_bind]
      obtain ⟨-, heq⟩ | ⟨ds', heq⟩ := addType_run
        { name := p.name, kind := .block l.pous.length, span := p.span } l ds <;> rw [heq]
      · exact hpushed
      · exact hl
    · exact hpushed

/-- What is merged has no units but those of the parts. -/
theorem mem_units_of_merge {units : List CompilationUnit} {memorySize : Nat} (h : merge units memorySize = .ok l)
    {p : Pou} (hp : p ∈ l.pous) : ∃ u ∈ units, p ∈ u.pous := by
  have hall : AddsUnits (units.flatMap (·.pous)) (units.forM addUnit) := .forM fun u hu s hs => by
    have htypes : AddsUnits (units.flatMap (·.pous)) (u.types.forM fun d => do let _ ← addType d) :=
      .forM fun d _ => addType_addsUnits _ d
    have hglobals : AddsUnits (units.flatMap (·.pous)) (u.globals.forM addGlobal) :=
      .forM fun v _ => addGlobal_addsUnits _ v
    have hpous : AddsUnits (units.flatMap (·.pous)) (u.pous.forM addPou) :=
      .forM fun p hp => addPou_addsUnits (List.mem_flatMap.mpr ⟨u, hu, hp⟩)
    exact hpous _ (hglobals _ (htypes s hs))
  obtain ⟨-, rfl⟩ := finish_eq_ok.mp h
  exact List.mem_flatMap.mp (hall ({ memorySize }, []) (List.nil_subset _) hp)

end Link

end StructuredText
