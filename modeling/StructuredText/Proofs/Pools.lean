-- SUMMARY: The references in a pool, what they are handed, and what a visit of them keeps.
import StructuredText.Proofs.Regular
import StructuredText.RefPool

/-!
# Pools of references

Groups do not matter for what a pool does: every reference that was added is handed what was found for the name of its
group. What a visit keeps follows from what one visited item keeps; a property that only holds if no item was refused
is followed along with it.
-/

namespace StructuredText

open Reporting

namespace RefPool

variable {ρ σ τ α : Type}

-- ---------------------------------------------------------------------------
-- References in a pool
-- ---------------------------------------------------------------------------

theorem entries_addEntry (name : Ident) (entry : RefEntry ρ) (gs : List (RefGroup ρ σ)) :
    ((addEntry name entry gs).flatMap (·.entries)).Perm (gs.flatMap (·.entries) ++ [entry]) := by
  induction gs with
  | nil => simp [addEntry]
  | cons g gs ih =>
    rw [addEntry]
    split
    · simp only [List.flatMap_cons, List.append_assoc]
      exact List.perm_append_comm.append_left _
    · simpa only [List.flatMap_cons, List.append_assoc] using ih.append_left _

theorem entries_add (p : RefPool ρ σ) (name : Ident) (referrer : ρ) (span : Span) (checked : Bool) :
    (p.add name referrer span checked).entries.Perm (p.entries ++ [⟨⟨some name, referrer, span⟩, checked⟩]) :=
  entries_addEntry name _ p.groups

/-- The references that are added one item after the other. -/
theorem entries_foldl (step : RefPool ρ σ → α → RefPool ρ σ) (added : α → List (RefEntry ρ))
    (h : ∀ p a, (step p a).entries.Perm (p.entries ++ added a)) (items : List α) (p : RefPool ρ σ) :
    (items.foldl step p).entries.Perm (p.entries ++ items.flatMap added) := by
  induction items generalizing p with
  | nil => simp
  | cons a items ih =>
    rw [List.foldl_cons, List.flatMap_cons, ← List.append_assoc]
    exact (ih (step p a)).trans ((h p a).append_right _)

/-- Every reference in a pool that was empty has been added for one of the items. -/
theorem exists_of_mem_foldl (step : RefPool ρ σ → α → RefPool ρ σ) (added : α → List (RefEntry ρ))
    (h : ∀ p a, (step p a).entries.Perm (p.entries ++ added a)) (items : List α) :
    ∀ entry ∈ (items.foldl step {}).entries, ∃ a ∈ items, entry ∈ added a :=
  fun _ hentry => List.mem_flatMap.mp ((entries_foldl step added h items {}).subset hentry)

/-- The references with what a table has for the names of their groups. -/
def lookups (p : RefPool ρ σ) (lookup : Ident → Option σ) : List (Reference ρ × Option σ) :=
  p.groups.flatMap fun g => g.entries.map fun entry => (entry.reference, lookup g.name)

theorem map_fst_lookups (p : RefPool ρ σ) (lookup : Ident → Option σ) :
    (p.lookups lookup).map (·.1) = p.entries.map (·.reference) := by
  simp [lookups, entries, List.map_flatMap, Function.comp_def]

theorem referrers_lookups (p : RefPool ρ σ) (lookup : Ident → Option σ) :
    (p.lookups lookup).map (·.1.referrer) = p.entries.map (·.reference.referrer) := by
  have h := congrArg (List.map (·.referrer)) (p.map_fst_lookups lookup)
  rwa [List.map_map, List.map_map] at h

theorem entry_of_mem_lookups {p : RefPool ρ σ} {lookup : Ident → Option σ} {task : Reference ρ × Option σ}
    (h : task ∈ p.lookups lookup) : ∃ entry ∈ p.entries, entry.reference = task.1 :=
  List.mem_map.mp (p.map_fst_lookups lookup ▸ List.mem_map_of_mem h)

theorem found_of_mem_lookups {p : RefPool ρ σ} {lookup : Ident → Option σ} {task : Reference ρ × Option σ}
    (h : task ∈ p.lookups lookup) : ∃ name, task.2 = lookup name := by
  obtain ⟨g, -, h⟩ := List.mem_flatMap.mp h
  obtain ⟨entry, -, rfl⟩ := List.mem_map.mp h
  exact ⟨g.name, rfl⟩

-- ---------------------------------------------------------------------------
-- Visits
-- ---------------------------------------------------------------------------

theorem visit_map {β : Type} (action : β → τ → Option Diagnostic × τ) (f : α → β) (items : List α) (s : τ) :
    visit action (items.map f) s = visit (fun a => action (f a)) items s := by
  induction items generalizing s with
  | nil => rfl
  | cons a items ih => simp only [List.map_cons, visit, ih]

/-- A pool that is looked up hands every reference what was found, and then runs the checks. -/
theorem trigger_resolve (p : RefPool ρ σ) (lookup : Ident → Option σ) (handler : Handler ρ σ τ) (s : τ) :
    (p.resolve lookup).trigger handler s =
      let (errors, s) := visit (fun task => handler.resolved task.1 task.2) (p.lookups lookup) s
      if errors.isEmpty then visit handler.check p.checkTasks s else (errors, s) := by
  have htasks : (p.resolve lookup).groups.flatMap groupTasks = (p.lookups lookup).map .ok := by
    simp only [resolve, lookups, List.flatMap_map, List.map_flatMap, List.map_map]
    refine List.flatMap_congr fun g _ => ?_
    unfold groupTasks
    cases lookup g.name <;> rfl
  have hchecks : (p.resolve lookup).checkTasks = p.checkTasks := by
    simp [checkTasks, entries, resolve, List.flatMap_map]
  rw [trigger, htasks, hchecks, visit_map]

theorem visit_unchecked (items : List α) (s : τ) : visit (fun _ s => (none, s)) items s = ([], s) := by
  induction items with
  | nil => rfl
  | cons a items ih =>
    simp only [visit, ih]
    rfl

/-- What was found before has no influence. -/
@[simp] theorem resolve_reset (p : RefPool ρ σ) (lookup : Ident → Option σ) :
    p.reset.resolve lookup = p.resolve lookup := by
  simp only [resolve, reset, List.map_map]
  rfl

/-- A pool without checks hands every reference what was found. -/
theorem trigger_unchecked (p : RefPool ρ σ) (lookup : Ident → Option σ)
    (resolved : Reference ρ → Option σ → τ → Option Diagnostic × τ) (s : τ) :
    (p.resolve lookup).trigger { resolved } s = visit (fun task => resolved task.1 task.2) (p.lookups lookup) s := by
  rw [trigger_resolve]
  dsimp only
  split
  · next hnone => rw [visit_unchecked, ← List.isEmpty_iff.mp hnone]
  · rfl

/-- The item is refused with an ordinary error, or it is not; the invariant holds in any case. -/
def Passes (I J : τ → Prop) : Option Diagnostic × τ → Prop
  | (none, s) => I s ∧ J s
  | (some d, s) => I s ∧ Ordinary d

/--
An invariant of the items that are left, which every item keeps while it is refused with ordinary errors only, and
another one, which every item keeps that is not refused.
-/
theorem visit_keeps {action : α → τ → Option Diagnostic × τ} {I J : List α → τ → Prop}
    (h : ∀ a rest s, I (a :: rest) s → Passes (I rest) (fun s' => J (a :: rest) s → J rest s') (action a s)) :
    ∀ items s, I items s → Ordinary (visit action items s).1 ∧ I [] (visit action items s).2 ∧
      ((visit action items s).1 = [] → J items s → J [] (visit action items s).2)
  | [], s, hI => ⟨by simp [visit, Reporting.Ordinary], hI, fun _ hJ => hJ⟩
  | a :: rest, s, hI => by
    have hfirst := h a rest s hI
    rw [visit]
    rcases haction : action a s with ⟨_ | d, s'⟩ <;> rw [haction] at hfirst <;> dsimp only
    · obtain ⟨hds, hrest, hJ⟩ := visit_keeps h rest s' hfirst.1
      exact ⟨hds, hrest, fun hnone hall => hJ hnone (hfirst.2 hall)⟩
    · obtain ⟨hds, hrest, -⟩ := visit_keeps h rest s' hfirst.1
      exact ⟨List.forall_mem_cons.mpr ⟨hfirst.2, hds⟩, hrest, nofun⟩

-- ---------------------------------------------------------------------------
-- Visits without refusals
-- ---------------------------------------------------------------------------

/-- What every item keeps that is not refused holds in the end if no item was. -/
theorem visit_unrefused {action : α → τ → Option Diagnostic × τ} {J : List α → τ → Prop}
    (h : ∀ a rest s s', action a s = (none, s') → J (a :: rest) s → J rest s') :
    ∀ items s s', visit action items s = ([], s') → J items s → J [] s'
  | [], s, s', hvisit, hJ => by
    cases hvisit
    exact hJ
  | a :: rest, s, s', hvisit, hJ => by
    rw [visit] at hvisit
    rcases haction : action a s with ⟨_ | d, s₁⟩ <;> rw [haction] at hvisit <;> dsimp only at hvisit
    · exact visit_unrefused h rest s₁ s' hvisit (h a rest s s₁ haction hJ)
    · cases congrArg Prod.fst hvisit

/-- What every item keeps is kept by the visit. -/
theorem visit_invariant {action : α → τ → Option Diagnostic × τ} {I : τ → Prop} (h : ∀ a s, I s → I (action a s).2)
    (items : List α) (s : τ) (hs : I s) : I (visit action items s).2 := by
  induction items generalizing s with
  | nil => exact hs
  | cons a items ih =>
    rw [visit]
    exact ih _ (h a s hs)

/-- Items that change nothing leave the state as it is. -/
theorem visit_state {action : α → τ → Option Diagnostic × τ} (h : ∀ a s, (action a s).2 = s) (items : List α) (s : τ) :
    (visit action items s).2 = s :=
  visit_invariant (I := (· = s)) (fun a s' hs => (h a s').trans hs) items s rfl

/-- If no reference was refused and no check failed, the checks have left the state as it was before them. -/
theorem visit_of_trigger {p : RefPool ρ σ} {lookup : Ident → Option σ} {handler : Handler ρ σ τ} {s s' : τ}
    (hcheck : ∀ r s, (handler.check r s).2 = s) (h : (p.resolve lookup).trigger handler s = ([], s')) :
    visit (fun task => handler.resolved task.1 task.2) (p.lookups lookup) s = ([], s') := by
  rw [trigger_resolve] at h
  rcases hvisit : visit (fun task => handler.resolved task.1 task.2) (p.lookups lookup) s with ⟨errors, s₁⟩
  simp only [hvisit] at h
  split at h
  · next hnone =>
    have hkept : s₁ = s' := by
      rw [← visit_state hcheck p.checkTasks s₁]
      exact congrArg Prod.snd h
    rw [hvisit, List.isEmpty_iff.mp hnone, hkept]
  · next hsome =>
    cases h
    exact absurd List.isEmpty_nil hsome

/-- A visit that refuses nothing and changes nothing has accepted every item. -/
theorem accepted_of_visit {s : τ} {action : α → τ → Option Diagnostic × τ} (hstate : ∀ a s, (action a s).2 = s)
    {items : List α} (h : (visit action items s).1 = []) : ∀ a ∈ items, (action a s).1 = none := by
  induction items with
  | nil => exact List.forall_mem_nil _
  | cons a items ih =>
    have hvisit : (visit action (a :: items) s).1 = (action a s).1.toList ++ (visit action items (action a s).2).1 := rfl
    rw [hvisit, hstate] at h
    obtain ⟨hfirst, hrest⟩ := List.append_eq_nil_iff.mp h
    exact List.forall_mem_cons.mpr ⟨Option.toList_eq_nil_iff.mp hfirst, ih hrest⟩

/-- If no reference was refused and no check failed, every check has passed in the end. -/
theorem accepted_of_trigger {p : RefPool ρ σ} {lookup : Ident → Option σ} {handler : Handler ρ σ τ} {s s' : τ}
    (hcheck : ∀ r s, (handler.check r s).2 = s) (h : (p.resolve lookup).trigger handler s = ([], s')) :
    ∀ r ∈ p.checkTasks, (handler.check r s').1 = none := by
  have hvisit := visit_of_trigger hcheck h
  rw [trigger_resolve, hvisit] at h
  exact accepted_of_visit hcheck (congrArg Prod.fst h)

/-- What every reference and every check keeps is kept by the pool. -/
theorem trigger_invariant {p : RefPool ρ σ} {handler : Handler ρ σ τ} {s : τ} {I : τ → Prop}
    (hresolved : ∀ r found s, I s → I (handler.resolved r found s).2) (hcheck : ∀ r s, I s → I (handler.check r s).2)
    (hs : I s) : I (p.trigger handler s).2 := by
  unfold trigger
  generalize hvisit : visit _ (p.groups.flatMap groupTasks) s = visited
  have hvisited : I visited.2 := by
    rw [← hvisit]
    refine visit_invariant (fun task s hs => ?_) _ s hs
    cases task with
    | ok task => exact hresolved task.1 task.2 s hs
    | error d => exact hs
  dsimp only
  split
  · exact visit_invariant hcheck _ _ hvisited
  · exact hvisited

end RefPool

end StructuredText
