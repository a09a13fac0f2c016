-- SUMMARY: Function blocks that hold instances of themselves, and the variables at which they are reported.
import StructuredText.Link.Variables
import StructuredText.Proofs.RecursiveTypes

/-!
# Function blocks that hold themselves

A variable holds instances of the function blocks that its type is made of. A function block that is reached from
itself along its variables is refused. There is one report for each step from a block to a block that leads back. It
names the last variable that makes the step, whether that variable is external or not. So a variable is named as often
as it makes the last step to a block, and an earlier variable with the same type is not named at all.
-/

namespace StructuredText

open Relation (TransGen ReflTransGen)

-- ---------------------------------------------------------------------------
-- Function blocks in types
-- ---------------------------------------------------------------------------

namespace TypeTable

variable {t : TypeTable} {id : TypeId} {block : Nat} {blocks : List Nat}

/-- A value of the type is made of instances of the function block, among other parts. -/
def MadeOf (t : TypeTable) (id : TypeId) (block : Nat) : Prop :=
  ∃ part d, ReflTransGen t.Contains id part ∧ t.get? part = some d ∧ d.kind = .block block

theorem madeOf_iff : t.MadeOf id block ↔
    (∃ d, t.get? id = some d ∧ d.kind = .block block) ∨ ∃ part, t.Contains id part ∧ t.MadeOf part block := by
  constructor
  · rintro ⟨part, d, hreach, hd, hkind⟩
    obtain rfl | ⟨next, hnext, hreach⟩ := ReflTransGen.cases_head hreach
    · exact .inl ⟨d, hd, hkind⟩
    · exact .inr ⟨next, hnext, part, d, hreach, hd, hkind⟩
  · rintro (⟨d, hd, hkind⟩ | ⟨next, hnext, part, d, hreach, hd, hkind⟩)
    · exact ⟨id, d, .refl, hd, hkind⟩
    · exact ⟨part, d, .head hnext hreach, hd, hkind⟩

theorem mem_blocksWithin {depth : Nat} (h : t.blocksWithin depth id = .ok blocks) :
    block ∈ blocks ↔ t.MadeOf id block := by
  induction depth generalizing id blocks with
  | zero => cases h
  | succ depth ih =>
    rw [blocksWithin] at h
    obtain ⟨d, hd, h⟩ := Except.bind_eq_ok.mp h
    have hd := get_eq_ok.mp hd
    rw [madeOf_iff]
    split at h
    · next pou hkind =>
      cases h
      have hnone (part : TypeId) : ¬ t.Contains id part := by simp [Contains, contained, hd, hkind, TypeKind.parts]
      simp [hd, hkind, hnone, eq_comm]
    · next hkind =>
      obtain ⟨parts, hparts, h⟩ := Except.bind_eq_ok.mp h
      cases h
      have hself : ¬ ∃ d, t.get? id = some d ∧ d.kind = .block block := by
        rintro ⟨d', hd', hkind'⟩
        exact hkind block (Option.some.inj (hd.symm.trans hd') ▸ hkind')
      rw [or_iff_right hself]
      have hparts := List.mapM_eq_ok.mp hparts
      have hflatten {ids : List TypeId} {parts : List (List Nat)}
          (hparts : List.Forall₂ (fun part bs => t.blocksWithin depth part = .ok bs) ids parts) :
          block ∈ parts.flatten ↔ ∃ part ∈ ids, t.MadeOf part block := by
        induction hparts with
        | nil => simp
        | cons hfirst _ ihrest => rw [List.flatten_cons, List.mem_append, List.exists_mem_cons_iff, ih hfirst, ihrest]
      exact hflatten hparts

end TypeTable

namespace Link

variable {types : TypeTable} {l : Library} {p : Pou} {v w : VarDecl} {vars : List VarDecl} {i block : Nat}
  {components : Graph → List (List Nat)}

-- ---------------------------------------------------------------------------
-- Function blocks in variables
-- ---------------------------------------------------------------------------

/-- The variable holds instances of the function block. -/
def Holds (types : TypeTable) (v : VarDecl) (block : Nat) : Prop :=
  ∃ type, v.type.id? = some type ∧ types.MadeOf type block

theorem mem_blocksOfVar {blocks : List Nat} (h : blocksOfVar types v = .ok blocks) :
    block ∈ blocks ↔ Holds types v block := by
  unfold Holds
  unfold blocksOfVar at h
  split at h
  · next hnone =>
    cases h
    simp [hnone]
  · next type htype =>
    rw [Except.mapError_eq_ok] at h
    simp [htype, TypeTable.mem_blocksWithin h]

/-- The last of the variables that hold instances of the function block. -/
def LastHolder (types : TypeTable) (vars : List VarDecl) (block : Nat) (v : VarDecl) : Prop :=
  ∃ before after, vars = before ++ v :: after ∧ Holds types v block ∧ ∀ w ∈ after, ¬ Holds types w block

theorem lastHolder_cons : LastHolder types (v :: vars) block w ↔
    LastHolder types vars block w ∨ (w = v ∧ Holds types v block ∧ ∀ w ∈ vars, ¬ Holds types w block) := by
  constructor
  · rintro ⟨before, after, heq, hholds, hafter⟩
    obtain ⟨rfl, heq⟩ | ⟨before, rfl, rfl⟩ := List.cons_eq_append_iff.mp heq
    · cases heq
      exact .inr ⟨rfl, hholds, hafter⟩
    · exact .inl ⟨before, after, rfl, hholds, hafter⟩
  · rintro (⟨before, after, rfl, hholds, hafter⟩ | ⟨rfl, hholds, hafter⟩)
    · exact ⟨v :: before, after, rfl, hholds, hafter⟩
    · exact ⟨[], vars, rfl, hholds, hafter⟩

theorem exists_lastHolder : (∃ v, LastHolder types vars block v) ↔ ∃ v ∈ vars, Holds types v block := by
  induction vars with
  | nil => simp [LastHolder]
  | cons v vars ih =>
    simp only [lastHolder_cons, exists_or, exists_eq_left, List.exists_mem_cons_iff, ih]
    by_cases hlater : ∃ w ∈ vars, Holds types w block
    · exact iff_of_true (.inl hlater) (.inr hlater)
    · rw [or_iff_right hlater, or_iff_left hlater]
      exact and_iff_left fun w hw hholds => hlater ⟨w, hw, hholds⟩

/-- Notes that the variable holds instances of the block, in place of an earlier variable. -/
def hold (blocks : List (Nat × VarDecl)) (held : Nat × VarDecl) : List (Nat × VarDecl) :=
  if blocks.any (·.1 = held.1) then blocks.map fun b => if b.1 = held.1 then held else b else blocks ++ [held]

theorem mem_hold {blocks : List (Nat × VarDecl)} {held entry : Nat × VarDecl} :
    entry ∈ hold blocks held ↔ entry = held ∨ entry.1 ≠ held.1 ∧ entry ∈ blocks := by
  unfold hold
  split
  · next hsome =>
    obtain ⟨old, hold, heq⟩ : ∃ b ∈ blocks, b.1 = held.1 := by simpa using hsome
    rw [List.mem_map]
    constructor
    · rintro ⟨b, hb, rfl⟩
      split
      · exact .inl rfl
      · next hne => exact .inr ⟨hne, hb⟩
    · rintro (rfl | ⟨hne, hentry⟩)
      · exact ⟨old, hold, if_pos heq⟩
      · exact ⟨entry, hentry, if_neg hne⟩
  · next hnone =>
    have hnone (b : Nat × VarDecl) (hb : b ∈ blocks) : b.1 ≠ held.1 := fun heq =>
      hnone (List.any_eq_true.mpr ⟨b, hb, decide_eq_true heq⟩)
    rw [List.mem_append, List.mem_singleton, or_comm]
    exact or_congr_right ⟨fun hentry => ⟨hnone entry hentry, hentry⟩, And.right⟩

theorem nodup_hold {blocks : List (Nat × VarDecl)} (h : (blocks.map (·.1)).Nodup) (held : Nat × VarDecl) :
    ((hold blocks held).map (·.1)).Nodup := by
  unfold hold
  split
  · rw [List.map_map]
    have hkeys : ((·.1) ∘ fun b : Nat × VarDecl => if b.1 = held.1 then held else b) = (·.1) := by
      funext b
      simp only [Function.comp_apply]
      split
      · next heq => exact heq.symm
      · rfl
    rwa [hkeys]
  · next hnone =>
    have hnone (b : Nat × VarDecl) (hb : b ∈ blocks) : b.1 ≠ held.1 := fun heq =>
      hnone (List.any_eq_true.mpr ⟨b, hb, decide_eq_true heq⟩)
    rw [List.map_append]
    refine List.nodup_append.mpr ⟨h, List.nodup_singleton _, ?_⟩
    rintro _ hkey _ hheld rfl
    obtain ⟨b, hb, heq⟩ := List.mem_map.mp hkey
    exact hnone b hb (heq.trans (List.mem_singleton.mp hheld))

theorem nodup_foldl_hold {blocks : List (Nat × VarDecl)} (h : (blocks.map (·.1)).Nodup)
    (entries : List (Nat × VarDecl)) : ((entries.foldl hold blocks).map (·.1)).Nodup := by
  induction entries generalizing blocks with
  | nil => exact h
  | cons held entries ih => exact ih (nodup_hold h held)

theorem mem_foldl_hold (v : VarDecl) (cs : List Nat) {blocks : List (Nat × VarDecl)} {entry : Nat × VarDecl} :
    entry ∈ (cs.map (·, v)).foldl hold blocks ↔ entry.1 ∈ cs ∧ entry.2 = v ∨ entry.1 ∉ cs ∧ entry ∈ blocks := by
  induction cs generalizing blocks with
  | nil => simp
  | cons c cs ih =>
    rw [List.map_cons, List.foldl_cons, ih, mem_hold, List.mem_cons, Prod.ext_iff]
    tauto

/-- Each block is listed with the last variable that holds instances of it. -/
theorem mem_heldBlocks {held : List (Nat × VarDecl)} (h : heldBlocks types p = .ok held) :
    (block, w) ∈ held ↔ LastHolder types p.vars block w := by
  obtain ⟨entries, hentries, h⟩ := Except.bind_eq_ok.mp h
  cases h
  have hfold (vars : List VarDecl) (entries : List (List (Nat × VarDecl))) (blocks : List (Nat × VarDecl))
      (hentries : List.Forall₂ (fun v entry => (do pure ((← blocksOfVar types v).map (·, v))) = Except.ok entry)
        vars entries) : (block, w) ∈ entries.flatten.foldl hold blocks ↔
        LastHolder types vars block w ∨ (∀ v ∈ vars, ¬ Holds types v block) ∧ (block, w) ∈ blocks := by
    induction hentries generalizing blocks with
    | nil => simp [LastHolder]
    | @cons v entry vars entries hentry _ ih =>
      obtain ⟨cs, hcs, hentry⟩ := Except.bind_eq_ok.mp hentry
      cases hentry
      rw [List.flatten_cons, List.foldl_append, ih, mem_foldl_hold, mem_blocksOfVar hcs, lastHolder_cons,
        List.forall_mem_cons]
      tauto
  refine (hfold p.vars entries [] (List.mapM_eq_ok.mp hentries)).trans (or_iff_left ?_)
  exact fun hnone => List.not_mem_nil hnone.2

theorem nodup_heldBlocks {held : List (Nat × VarDecl)} (h : heldBlocks types p = .ok held) :
    (held.map (·.1)).Nodup := by
  obtain ⟨entries, -, h⟩ := Except.bind_eq_ok.mp h
  cases h
  have hnil : (([] : List (Nat × VarDecl)).map (·.1)).Nodup := List.nodup_nil
  exact nodup_foldl_hold hnil entries.flatten

-- ---------------------------------------------------------------------------
-- Reports
-- ---------------------------------------------------------------------------

/-- An instance of the function block at the one position holds instances of the other function block. -/
def HoldsBlock (l : Library) (i block : Nat) : Prop :=
  ∃ p, l.pous[i]? = some p ∧ p.kind = .functionBlock ∧ ∃ v ∈ p.vars, Holds l.types v block

theorem mem_pousOf {kind : PouKind → Bool} : i ∈ l.pousOf kind ↔ ∃ p, l.pous[i]? = some p ∧ kind p.kind = true := by
  simp [Library.pousOf, List.mem_zipIdx_iff_getElem?]

/-- The steps from each block to the blocks that it holds, with the variables that make them. -/
structure Steps (l : Library) (edges : Nat → List (Nat × VarDecl)) : Prop where
  nodup : ∀ i, ((edges i).map (·.1)).Nodup
  mem : ∀ {i block v}, (block, v) ∈ edges i ↔
    ∃ p, l.pous[i]? = some p ∧ p.kind = .functionBlock ∧ LastHolder l.types p.vars block v

/-- The steps that lead back to where they start, with what is reported for them. -/
def reportsOf (components : Graph → List (List Nat)) (l : Library) (edges : Nat → List (Nat × VarDecl)) :
    List Diagnostic :=
  (components (Graph.ofEdges (l.pousOf (· = .functionBlock)) fun i => (edges i).map (·.1))).flatMap fun members =>
    (members.mergeSort (· ≤ ·)).flatMap fun i =>
      match l.pous[i]? with
      | none => []
      | some p => ((edges i).filter (members.contains ·.1)).map fun (_, v) => containsItself p v

theorem lookup_of_forall₂ {β : Type} {is : List Nat} {held : List (Nat × β)} {R : Nat → β → Prop}
    (h : List.Forall₂ (fun i entry => entry.1 = i ∧ R i entry.2) is held) :
    (i ∈ is → ∃ b, held.lookup i = some b ∧ R i b) ∧ (i ∉ is → held.lookup i = none) := by
  induction h with
  | nil => simp
  | @cons j entry is held hentry _ ih =>
    obtain ⟨j', b⟩ := entry
    obtain ⟨rfl, hb⟩ := hentry
    rw [List.lookup_cons]
    by_cases heq : i = j'
    · subst heq
      simpa using hb
    · have hne : (i == j') = false := by simpa using heq
      simpa [hne, heq] using ih

theorem exists_steps {ds : List Diagnostic} (h : recursiveBlocks components l = .ok ds) :
    ∃ edges, Steps l edges ∧ ds = reportsOf components l edges := by
  obtain ⟨held, hheld, h⟩ := Except.bind_eq_ok.mp h
  cases h
  refine ⟨fun i => (held.lookup i).getD [], ?_, rfl⟩
  have hunits : List.Forall₂ (fun i entry => entry.1 = i ∧
      ∃ p, l.pous[i]? = some p ∧ p.kind = .functionBlock ∧ heldBlocks l.types p = .ok entry.2)
      (l.pousOf (· = .functionBlock)) held := by
    have hpous : ∀ i ∈ l.pousOf (· = .functionBlock), ∃ p, l.pous[i]? = some p ∧ p.kind = .functionBlock := by
      simp [mem_pousOf]
    refine ((List.forall₂_and_left _ _).mpr ⟨hpous, List.mapM_eq_ok.mp hheld⟩).imp ?_
    rintro i entry ⟨⟨p, hp, hkind⟩, hentry⟩
    rw [hp] at hentry
    obtain ⟨blocks, hblocks, hentry⟩ := Except.bind_eq_ok.mp hentry
    cases hentry
    exact ⟨rfl, p, hp, hkind, hblocks⟩
  have hlookup (i : Nat) := lookup_of_forall₂ (i := i) (R := fun i blocks => ∃ p, l.pous[i]? = some p ∧
    p.kind = .functionBlock ∧ heldBlocks l.types p = .ok blocks) hunits
  refine ⟨fun i => ?_, fun {i block v} => ?_⟩
  all_goals by_cases hi : i ∈ l.pousOf (· = .functionBlock)
  · obtain ⟨blocks, hblocks, p, -, -, hheld⟩ := (hlookup i).1 hi
    simpa [hblocks] using nodup_heldBlocks hheld
  · simp [(hlookup i).2 hi]
  · obtain ⟨blocks, hblocks, p, hp, hkind, hheld⟩ := (hlookup i).1 hi
    simp [hblocks, hp, hkind, mem_heldBlocks hheld]
  · have hnone : ¬ ∃ p, l.pous[i]? = some p ∧ p.kind = .functionBlock := by simpa [mem_pousOf] using hi
    simp only [(hlookup i).2 hi, Option.getD_none, List.not_mem_nil, false_iff]
    exact fun ⟨p, hp, hkind, _⟩ => hnone ⟨p, hp, hkind⟩

theorem Steps.closed {edges : Nat → List (Nat × VarDecl)} (hedges : Steps l edges) :
    (Graph.ofEdges (l.pousOf (· = .functionBlock)) fun i => (edges i).map (·.1)).Closed := by
  refine Graph.closed_ofEdges fun i block hblock => ?_
  obtain ⟨step, hstep, -⟩ := List.mem_map.mp hblock
  obtain ⟨p, hp, hkind, -⟩ := hedges.mem.mp hstep
  exact mem_pousOf.mpr ⟨p, hp, decide_eq_true hkind⟩

theorem Steps.edge {edges : Nat → List (Nat × VarDecl)} (hedges : Steps l edges) :
    (Graph.ofEdges (l.pousOf (· = .functionBlock)) fun i => (edges i).map (·.1)).Edge = HoldsBlock l := by
  funext i block
  refine propext ?_
  calc block ∈ (edges i).map (·.1)
    _ ↔ ∃ v, (block, v) ∈ edges i := by simp
    _ ↔ ∃ p, l.pous[i]? = some p ∧ p.kind = .functionBlock ∧ ∃ v, LastHolder l.types p.vars block v := by
      simp only [hedges.mem]
      tauto
    _ ↔ HoldsBlock l i block := by simp only [exists_lastHolder, HoldsBlock]

theorem forall₂_flatMap {α β γ : Type} {R : β → γ → Prop} {f : α → List β} {g : α → List γ} {as : List α}
    (h : ∀ a ∈ as, List.Forall₂ R (f a) (g a)) : List.Forall₂ R (as.flatMap f) (as.flatMap g) := by
  have hsame : List.Forall₂ (fun a a' => a' = a ∧ a ∈ as) as as := List.forall₂_same.mpr fun a ha => ⟨rfl, ha⟩
  refine List.rel_flatMap hsame ?_
  rintro a a' ⟨heq, ha⟩
  rw [heq]
  exact h a ha

/-- The steps within the components of a graph. -/
def innerEdges (g : Graph) (components : List (List Nat)) : List (Nat × Nat) :=
  components.flatMap fun members =>
    (members.mergeSort (· ≤ ·)).flatMap fun i => ((g.next i).filter (members.contains ·)).map (i, ·)

theorem mem_innerEdges {g : Graph} (hg : g.Closed) {components : List (List Nat)} (h : g.IsComponents components) :
    (i, block) ∈ innerEdges g components ↔ g.Edge i block ∧ ReflTransGen g.Edge block i := by
  simp only [innerEdges, List.mem_flatMap, List.mem_mergeSort, List.mem_map, List.mem_filter, List.contains_iff_mem]
  constructor
  · rintro ⟨members, hmembers, i, hi, block, ⟨hedge, hblock⟩, heq⟩
    cases heq
    exact ⟨hedge, ((h.mem_iff hmembers hi).mp hblock).2.2⟩
  · rintro ⟨hedge, hback⟩
    obtain ⟨members, hmembers, hi⟩ := h.exists_component (hg.source hedge)
    have hblock := (h.mem_iff hmembers hi).mpr ⟨hg.target hedge, .single hedge, hback⟩
    exact ⟨members, hmembers, i, hi, block, ⟨hedge, hblock⟩, rfl⟩

theorem nodup_innerEdges {g : Graph} (hg : g.Closed) {components : List (List Nat)} (h : g.IsComponents components)
    (hnext : ∀ i, (g.next i).Nodup) : (innerEdges g components).Nodup := by
  have hfirst (members : List Nat) (i : Nat) :
      ∀ step ∈ ((g.next i).filter (members.contains ·)).map (i, ·), step.1 = i := by
    intro step hstep
    obtain ⟨block, -, rfl⟩ := List.mem_map.mp hstep
    rfl
  have hcomponents := List.nodup_flatten.mp (h.nodup hg)
  refine List.nodup_flatMap.mpr ⟨fun members hmembers => List.nodup_flatMap.mpr ⟨fun i _ => ?_, ?_⟩, ?_⟩
  · exact ((hnext i).filter _).map (Prod.mk_right_injective i)
  · have hmembers := (List.mergeSort_perm members (· ≤ ·)).nodup_iff.mpr (hcomponents.1 members hmembers)
    refine hmembers.imp fun {i j} hne step hi hj => hne ?_
    rw [← hfirst members i step hi, hfirst members j step hj]
  · refine hcomponents.2.imp fun {members members'} hdisjoint step hstep hstep' => ?_
    obtain ⟨i, hi, hstep⟩ := List.mem_flatMap.mp hstep
    obtain ⟨j, hj, hstep'⟩ := List.mem_flatMap.mp hstep'
    refine hdisjoint (List.mem_mergeSort.mp hi) ?_
    rw [← hfirst members i step hstep, hfirst members' j step hstep']
    exact List.mem_mergeSort.mp hj

/--
There is one report for each step from a function block to one that it holds and from which it is reached. It is made
at the last variable that holds instances of that function block.
-/
theorem recursiveBlocks_reports {ds : List Diagnostic} (hcomponents : ∀ g : Graph, g.Closed → g.IsComponents (components g))
    (h : recursiveBlocks components l = .ok ds) :
    ∃ steps : List (Nat × Nat), steps.Nodup ∧
      (∀ i block, (i, block) ∈ steps ↔ HoldsBlock l i block ∧ ReflTransGen (HoldsBlock l) block i) ∧
      List.Forall₂ (fun step d => ∃ p v, l.pous[step.1]? = some p ∧ LastHolder l.types p.vars step.2 v ∧
        d = containsItself p v) steps ds := by
  obtain ⟨edges, hedges, rfl⟩ := exists_steps h
  have hscc := hcomponents _ hedges.closed
  refine ⟨_, nodup_innerEdges hedges.closed hscc hedges.nodup, fun i block => ?_, ?_⟩
  · rw [mem_innerEdges hedges.closed hscc, hedges.edge]
  · refine forall₂_flatMap fun members _ => forall₂_flatMap fun i _ => ?_
    have hnext : (Graph.ofEdges (l.pousOf (· = .functionBlock)) fun i => (edges i).map (·.1)).next i =
      (edges i).map (·.1) := rfl
    rw [hnext, List.filter_map, List.map_map]
    cases hp : l.pous[i]? with
    | none =>
      have hnil : edges i = [] := List.eq_nil_iff_forall_not_mem.mpr fun step hstep => by
        obtain ⟨p, hp', -⟩ := hedges.mem.mp hstep
        cases hp.symm.trans hp'
      rw [hnil]
      exact .nil
    | some p =>
      refine List.forall₂_map_left_iff.mpr (List.forall₂_map_right_iff.mpr (List.forall₂_same.mpr ?_))
      rintro ⟨block, v⟩ hstep
      obtain ⟨p', hp', -, hlast⟩ := hedges.mem.mp (List.mem_filter.mp hstep).1
      cases hp.symm.trans hp'
      exact ⟨p, v, hp, hlast, rfl⟩

/-- Nothing is reported exactly if no function block is reached from itself. -/
theorem recursiveBlocks_eq_nil_iff {ds : List Diagnostic}
    (hcomponents : ∀ g : Graph, g.Closed → g.IsComponents (components g)) (h : recursiveBlocks components l = .ok ds) :
    ds = [] ↔ ∀ i, ¬ TransGen (HoldsBlock l) i i := by
  obtain ⟨steps, -, hsteps, hreports⟩ := recursiveBlocks_reports hcomponents h
  constructor
  · rintro rfl i hreach
    obtain ⟨block, hheld, hback⟩ := TransGen.head'_iff.mp hreach
    rw [List.forall₂_nil_right_iff.mp hreports] at hsteps
    exact List.not_mem_nil ((hsteps i block).mpr ⟨hheld, hback⟩)
  · intro hacyclic
    have hnone : steps = [] := List.eq_nil_iff_forall_not_mem.mpr fun ⟨i, block⟩ hstep => by
      obtain ⟨hheld, hback⟩ := (hsteps i block).mp hstep
      exact hacyclic i (.head' hheld hback)
    rw [hnone] at hreports
    exact List.forall₂_nil_left_iff.mp hreports

end Link

end StructuredText
