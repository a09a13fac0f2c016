-- SUMMARY: What the callbacks of a pool are called with, and in which order, for any history of the pool.
import StructuredText.Proofs.Pools

/-!
# Callbacks of a pool

References are added to a pool one by one, and whole pools are merged. What a pool is in the end does not depend on how
its references got there: they are in groups, one for each name in the order in which the names were first mentioned,
and within a group in the order in which they were added. A run of the callbacks goes through the groups once. The
checks are a second run, which takes place only if the first one refused nothing.
-/

namespace StructuredText.RefPool

variable {ρ σ τ : Type}

-- ---------------------------------------------------------------------------
-- Histories
-- ---------------------------------------------------------------------------

/-- A reference as it is added to a pool. -/
structure Registration (ρ : Type) where
  name : Ident
  referrer : ρ
  span : Span
  checked : Bool

namespace Registration

def reference (r : Registration ρ) : Reference ρ := ⟨some r.name, r.referrer, r.span⟩

def entry (r : Registration ρ) : RefEntry ρ := ⟨r.reference, r.checked⟩

end Registration

/-- The ways to make a pool. -/
inductive History (ρ : Type) where
  | empty
  | add (h : History ρ) (r : Registration ρ)
  | addCheck (h : History ρ) (referrer : ρ) (span : Span)
  | append (h other : History ρ)

namespace History

def pool : History ρ → RefPool ρ σ
  | empty => {}
  | add h r => h.pool.add r.name r.referrer r.span r.checked
  | addCheck h referrer span => h.pool.addCheck referrer span
  | append h other => h.pool.append other.pool

/-- The references in the order in which they were added. Those of a pool that is merged come last. -/
def registered : History ρ → List (Registration ρ)
  | empty => []
  | add h r => h.registered ++ [r]
  | addCheck h _ _ => h.registered
  | append h other => h.registered ++ other.registered

/-- The checks that look up no name, in the order in which they were added. -/
def checks : History ρ → List (Reference ρ)
  | empty => []
  | add h _ => h.checks
  | addCheck h referrer span => h.checks ++ [⟨none, referrer, span⟩]
  | append h other => h.checks ++ other.checks

end History

-- ---------------------------------------------------------------------------
-- Groups
-- ---------------------------------------------------------------------------

/-- The names of the references, each one as it was first mentioned. -/
def mentioned (rs : List (Registration ρ)) : List Ident := (rs.map (·.name)).eraseDups

/-- The references to a name. -/
def ofName (rs : List (Registration ρ)) (name : Ident) : List (Registration ρ) := rs.filter (·.name == name)

/-- The references, group by group. -/
def inGroups (rs : List (Registration ρ)) : List (Registration ρ) := (mentioned rs).flatMap (ofName rs)

def groupsOf (rs : List (Registration ρ)) : List (RefGroup ρ σ) :=
  (mentioned rs).map fun name => { name, entries := (ofName rs name).map (·.entry) }

/-- The references to names of which something holds. It depends on the name only, not on its spelling. -/
def select (p : String → Bool) (rs : List (Registration ρ)) : List (Registration ρ) := rs.filter (p ·.name.key)

/-- The references to other names. -/
def others (rs : List (Registration ρ)) (name : Ident) : List (Registration ρ) := select (· != name.key) rs

variable {r : Registration ρ} {rs rs' : List (Registration ρ)} {name : Ident} {p q : String → Bool}

theorem ofName_eq_select (rs : List (Registration ρ)) (name : Ident) : ofName rs name = select (· == name.key) rs := rfl

theorem select_cons (h : p r.name.key = true) (rs : List (Registration ρ)) : select p (r :: rs) = r :: select p rs :=
  List.filter_cons_of_pos h

theorem select_cons_of_not (h : p r.name.key = false) (rs : List (Registration ρ)) :
    select p (r :: rs) = select p rs := List.filter_cons_of_neg (by simp [h])

theorem select_append (rs rs' : List (Registration ρ)) : select p (rs ++ rs') = select p rs ++ select p rs' :=
  List.filter_append ..

theorem ofName_append (rs rs' : List (Registration ρ)) (name : Ident) :
    ofName (rs ++ rs') name = ofName rs name ++ ofName rs' name := List.filter_append ..

theorem select_and (rs : List (Registration ρ)) : select p (select q rs) = select (fun key => p key && q key) rs :=
  List.filter_filter

theorem select_comm (rs : List (Registration ρ)) : select p (select q rs) = select q (select p rs) := by
  rw [select_and, select_and]
  exact List.filter_congr fun _ _ => Bool.and_comm _ _

/-- What is selected already by a stronger condition. -/
theorem select_select (h : ∀ key, q key = true → p key = true) (rs : List (Registration ρ)) :
    select p (select q rs) = select q rs :=
  List.filter_eq_self.mpr fun _ hr => h _ (List.mem_filter.mp hr).2

theorem select_select_of_not (h : ∀ key, q key = true → p key = false) (rs : List (Registration ρ)) :
    select p (select q rs) = [] :=
  List.filter_eq_nil_iff.mpr fun r hr => by simp [h _ (List.mem_filter.mp hr).2]

theorem others_cons (r : Registration ρ) (rs : List (Registration ρ)) : others (r :: rs) r.name = others rs r.name :=
  select_cons_of_not (by simp) rs

/-- A list of references goes by the groups of its names. -/
theorem group_induction {motive : List (Registration ρ) → Prop} (nil : motive [])
    (cons : ∀ r rs, motive (others rs r.name) → motive (r :: rs)) (rs : List (Registration ρ)) : motive rs :=
  match rs with
  | [] => nil
  | r :: rs => cons r rs (group_induction nil cons (others rs r.name))
termination_by rs.length
decreasing_by exact Nat.lt_succ_of_le (List.length_filter_le _ _)

theorem mentioned_cons : mentioned (r :: rs) = r.name :: mentioned (others rs r.name) := by
  rw [mentioned, List.map_cons, List.eraseDups_cons, List.filter_map]
  rfl

theorem mem_of_mem_mentioned (h : name ∈ mentioned rs) : ∃ r ∈ rs, r.name = name := by
  induction rs using group_induction with
  | nil => simp [mentioned] at h
  | cons r rs ih =>
    rw [mentioned_cons] at h
    obtain rfl | h := List.mem_cons.mp h
    · exact ⟨r, List.mem_cons_self, rfl⟩
    · obtain ⟨r', hr', hname⟩ := ih h
      exact ⟨r', List.mem_cons_of_mem r (List.mem_filter.mp hr').1, hname⟩

/-- The names that are mentioned besides the first one have their references besides those to the first one. -/
theorem ofName_cons_of_mentioned (h : name ∈ mentioned (others rs r.name)) :
    ofName (r :: rs) name = ofName (others rs r.name) name := by
  obtain ⟨r', hr', rfl⟩ := mem_of_mem_mentioned h
  have hother : r'.name.key ≠ r.name.key := by simpa using (List.mem_filter.mp hr').2
  rw [ofName_eq_select, ofName_eq_select, others, select_comm, select_cons_of_not (by simpa using hother.symm)]
  refine (select_select (fun key hkey => ?_) rs).symm
  rw [beq_iff_eq.mp hkey]
  simpa using hother

theorem groupsOf_cons : (groupsOf (r :: rs) : List (RefGroup ρ σ)) =
    { name := r.name, entries := (ofName (r :: rs) r.name).map (·.entry) } :: groupsOf (others rs r.name) := by
  rw [groupsOf, mentioned_cons, List.map_cons, groupsOf]
  refine congrArg (_ :: ·) (List.map_congr_left fun name hname => ?_)
  rw [ofName_cons_of_mentioned hname]

theorem inGroups_cons : inGroups (r :: rs) = ofName (r :: rs) r.name ++ inGroups (others rs r.name) := by
  rw [inGroups, mentioned_cons, List.flatMap_cons, inGroups]
  exact congrArg (_ ++ ·) (List.flatMap_congr fun name hname => ofName_cons_of_mentioned hname)

theorem inGroups_perm (rs : List (Registration ρ)) : (inGroups rs).Perm rs := by
  induction rs using group_induction with
  | nil => exact .refl _
  | cons r rs ih =>
    rw [inGroups_cons]
    refine (ih.append_left _).trans ?_
    rw [← others_cons]
    exact List.filter_append_perm _ _

theorem head?_inGroups (rs : List (Registration ρ)) : (inGroups rs).head? = rs.head? := by
  cases rs with
  | nil => rfl
  | cons r rs => rw [inGroups_cons, ofName_eq_select, select_cons (by simp)]; rfl

/-- Leaving names out and putting the rest in groups can be done in any order. -/
theorem select_inGroups (p : String → Bool) (rs : List (Registration ρ)) :
    select p (inGroups rs) = inGroups (select p rs) := by
  induction rs using group_induction with
  | nil => rfl
  | cons r rs ih =>
    rw [inGroups_cons, select_append, ih, ofName_eq_select]
    cases hp : p r.name.key with
    | true =>
      rw [select_comm, select_cons hp, inGroups_cons, others, select_comm]
      rfl
    | false =>
      rw [select_select_of_not (by simpa using hp), select_cons_of_not hp, List.nil_append, others, select_comm]
      refine congrArg inGroups (select_select (fun key hkey => ?_) rs)
      have hne : key ≠ r.name.key := by
        rintro rfl
        exact absurd (hkey.symm.trans hp) nofun
      simpa using hne

theorem ofName_inGroups (rs : List (Registration ρ)) (name : Ident) : ofName (inGroups rs) name = ofName rs name := by
  rw [ofName_eq_select, select_inGroups, ← ofName_eq_select]
  cases hrs : ofName rs name with
  | nil => rfl
  | cons r rest =>
    have hall (r' : Registration ρ) (hr' : r' ∈ r :: rest) : r'.name.key = r.name.key := by
      have hname : ∀ r' ∈ r :: rest, r'.name.key = name.key := fun r' hr' =>
        Ident.beq_iff.mp (List.mem_filter.mp (hrs.symm ▸ hr' : r' ∈ ofName rs name)).2
      rw [hname r' hr', hname r List.mem_cons_self]
    have hself : ofName (r :: rest) r.name = r :: rest :=
      List.filter_eq_self.mpr fun r' hr' => Ident.beq_iff.mpr (hall r' hr')
    have hnone : others (r :: rest) r.name = [] := List.filter_eq_nil_iff.mpr fun r' hr' => by simp [hall r' hr']
    rw [inGroups_cons, hself, ← others_cons, hnone]
    exact List.append_nil _

/--
References are in the same groups if those to each name are the same, and of any names the same one is mentioned first.
-/
theorem groupsOf_congr (hnames : ∀ name, ofName rs name = ofName rs' name)
    (hfirst : ∀ p, (select p rs).head? = (select p rs').head?) :
    (groupsOf rs : List (RefGroup ρ σ)) = groupsOf rs' := by
  have hall (rs : List (Registration ρ)) : select (fun _ => true) rs = rs := List.filter_eq_self.mpr fun _ _ => rfl
  have hhead := hfirst fun _ => true
  rw [hall, hall] at hhead
  induction rs using group_induction generalizing rs' with
  | nil => rw [List.head?_eq_none_iff.mp hhead.symm]
  | cons r rs ih =>
    obtain ⟨rest, rfl⟩ := List.head?_eq_some_iff.mp hhead.symm
    have hnames' (name : Ident) : ofName (others rs r.name) name = ofName (others rest r.name) name := by
      rw [← others_cons r rs, ← others_cons r rest, ofName_eq_select, ofName_eq_select, others, others, select_comm]
      rw [← ofName_eq_select, hnames, ofName_eq_select, select_comm]
    have hfirst' (p : String → Bool) :
        (select p (others rs r.name)).head? = (select p (others rest r.name)).head? := by
      rw [← others_cons r rs, ← others_cons r rest, others, others, select_and, select_and]
      exact hfirst _
    rw [groupsOf_cons, groupsOf_cons, hnames, ih hnames' hfirst' (by simpa only [hall] using hfirst' fun _ => true)]

theorem groupsOf_append_inGroups (rs rs' : List (Registration ρ)) :
    (groupsOf (rs ++ inGroups rs') : List (RefGroup ρ σ)) = groupsOf (rs ++ rs') := by
  refine groupsOf_congr (fun name => ?_) fun p => ?_
  · rw [ofName_append, ofName_append, ofName_inGroups]
  · rw [select_append, select_append, select_inGroups, List.head?_append, List.head?_append, head?_inGroups]

-- ---------------------------------------------------------------------------
-- Groups of a pool
-- ---------------------------------------------------------------------------

/-- A reference joins the group of its name, or starts a group. -/
theorem addEntry_groupsOf (rs : List (Registration ρ)) (r : Registration ρ) :
    addEntry r.name r.entry (groupsOf rs : List (RefGroup ρ σ)) = groupsOf (rs ++ [r]) := by
  induction rs using group_induction with
  | nil =>
    rw [List.nil_append, groupsOf_cons]
    simp [addEntry, ofName_eq_select, select, groupsOf, mentioned, others]
  | cons first rs ih =>
    have happend : others (rs ++ [r]) first.name = others rs first.name ++ others [r] first.name := select_append ..
    rw [List.cons_append, groupsOf_cons, groupsOf_cons, addEntry, ← List.cons_append, ofName_append, happend]
    cases hsame : first.name == r.name with
    | true =>
      have hkey := Ident.beq_iff.mp hsame
      have hjoin : ofName [r] first.name = [r] := List.filter_cons_of_pos (Ident.beq_iff.mpr hkey.symm)
      have hnone : others [r] first.name = [] := select_cons_of_not (by simp [hkey]) []
      rw [hjoin, hnone, List.append_nil, List.map_append]
      rfl
    | false =>
      have hkey : first.name.key ≠ r.name.key := fun heq => by simp [Ident.beq_iff.mpr heq] at hsame
      have hjoin : ofName [r] first.name = [] :=
        List.filter_cons_of_neg fun hname => hkey (Ident.beq_iff.mp hname).symm
      have hrest : others [r] first.name = [r] := select_cons (by simpa using hkey.symm) []
      rw [hjoin, hrest, List.append_nil, ← ih]
      rfl

theorem foldl_groupsOf (rs rs' : List (Registration ρ)) :
    rs'.foldl (fun groups r => addEntry r.name r.entry groups) (groupsOf rs : List (RefGroup ρ σ)) =
      groupsOf (rs ++ rs') := by
  induction rs' generalizing rs with
  | nil => rw [List.append_nil, List.foldl_nil]
  | cons r rs' ih => rw [List.foldl_cons, addEntry_groupsOf, ih, List.append_assoc, List.singleton_append]

theorem entries_groupsOf (rs : List (Registration ρ)) :
    (groupsOf rs : List (RefGroup ρ σ)).flatMap (·.entries) = (inGroups rs).map (·.entry) := by
  rw [groupsOf, inGroups, List.flatMap_map, List.map_flatMap]

/-- However a pool was made, its references are in the groups of their names. -/
theorem History.groups_pool (h : History ρ) : (h.pool : RefPool ρ σ).groups = groupsOf h.registered := by
  induction h with
  | empty => rfl
  | add h r ih =>
    rw [pool, registered, RefPool.add, ih]
    exact addEntry_groupsOf _ r
  | addCheck h referrer span ih => exact ih
  | append h other ih ihother =>
    rw [pool, registered, RefPool.append, RefPool.entries, ih, ihother, entries_groupsOf, List.foldl_map]
    exact (foldl_groupsOf _ _).trans (groupsOf_append_inGroups _ _)

theorem History.checks_pool (h : History ρ) : (h.pool : RefPool ρ σ).checks = h.checks := by
  induction h with
  | empty => rfl
  | add h r ih => exact ih
  | addCheck h referrer span ih => rw [pool, checks, RefPool.addCheck, ih]
  | append h other ih ihother => rw [pool, checks, RefPool.append, ih, ihother]

theorem History.lookups_pool (h : History ρ) (lookup : Ident → Option σ) : (h.pool : RefPool ρ σ).lookups lookup =
    (mentioned h.registered).flatMap fun name => (ofName h.registered name).map fun r =>
      (r.reference, lookup name) := by
  simp only [lookups, h.groups_pool, groupsOf, List.flatMap_map, List.map_map]
  rfl

theorem History.checkTasks_pool (h : History ρ) : (h.pool : RefPool ρ σ).checkTasks =
    ((inGroups h.registered).filter (·.checked)).map (·.reference) ++ h.checks := by
  rw [checkTasks, h.checks_pool, entries, h.groups_pool, entries_groupsOf, List.filter_map, List.map_map]
  rfl

-- ---------------------------------------------------------------------------
-- Calls
-- ---------------------------------------------------------------------------

/-- A call of one of the two functions of a handler. -/
inductive Call (ρ σ : Type) where
  | resolved (reference : Reference ρ) (answer : Option σ)
  | check (reference : Reference ρ)

def Call.reference : Call ρ σ → Reference ρ
  | .resolved reference _ | .check reference => reference

/-- Calls with the diagnostics that were returned. -/
abbrev Log (ρ σ : Type) := List (Call ρ σ × Option Diagnostic)

/-- The result of a call, which is added to the log. -/
def note (call : Call ρ σ) (result : Option Diagnostic × τ) (log : Log ρ σ) : Option Diagnostic × (τ × Log ρ σ) :=
  (result.1, result.2, log ++ [(call, result.1)])

/-- The handler, with a log of its calls next to the state. -/
def Handler.logged (handler : Handler ρ σ τ) : Handler ρ σ (τ × Log ρ σ) where
  resolved reference answer s := note (.resolved reference answer) (handler.resolved reference answer s.1) s.2
  check reference s := note (.check reference) (handler.check reference s.1) s.2

/-- A visit calls back for each item in turn and returns the diagnostics in the order of the calls. -/
theorem visit_logged {α : Type} (action : α → τ → Option Diagnostic × τ) (call : α → Call ρ σ) (items : List α) (s : τ)
    (log : Log ρ σ) : ∃ calls : Log ρ σ,
      visit (fun a s => note (call a) (action a s.1) s.2) items (s, log) =
        ((visit action items s).1, (visit action items s).2, log ++ calls) ∧
      calls.map (·.1) = items.map call ∧ calls.filterMap (·.2) = (visit action items s).1 := by
  induction items generalizing s log with
  | nil => exact ⟨[], by rw [List.append_nil]; rfl, rfl, rfl⟩
  | cons a items ih =>
    obtain ⟨calls, hvisit, hcalls, hreturned⟩ := ih (action a s).2 (log ++ [(call a, (action a s).1)])
    refine ⟨(call a, (action a s).1) :: calls, ?_, ?_, ?_⟩
    · rw [visit, note, visit]
      simp only [hvisit, List.append_assoc, List.singleton_append]
    · rw [List.map_cons, List.map_cons, hcalls]
    · have hvisit : (visit action (a :: items) s).1 =
          (action a s).1.toList ++ (visit action items (action a s).2).1 := rfl
      rw [hvisit, ← hreturned, List.filterMap_cons]
      cases (action a s).1 <;> rfl

/--
The calls of a run: those of the references, and then those of the checks. Each reference may have functions of its
own, which are then part of its referrer.
-/
structure TwoPhases (h : History ρ) (lookup : Ident → Option σ) (first second : Log ρ σ) (ds : List Diagnostic) :
    Prop where
  /-- The groups are gone through in turn, with the answer for the name of the group. -/
  grouped : first.map (·.1) = (mentioned h.registered).flatMap fun name =>
    (ofName h.registered name).map fun r => .resolved r.reference (lookup name)
  /-- There is one call for each reference. -/
  complete : (first.map (·.1.reference)).Perm (h.registered.map (·.reference))
  /-- A table that does not tell spellings of a name apart answers for the name of the reference itself. -/
  answered : (∀ name name', (name == name') = true → lookup name = lookup name') →
    (first.map (·.1)).Perm (h.registered.map fun r => .resolved r.reference (lookup r.name))
  /-- If no reference is refused, then each check is called once, and what the checks return is returned. -/
  checked : (∀ call ∈ first, call.2 = none) →
    second.map (·.1) = (((inGroups h.registered).filter (·.checked)).map (·.reference) ++ h.checks).map .check ∧
    (second.map (·.1)).Perm (((h.registered.filter (·.checked)).map (·.reference) ++ h.checks).map .check) ∧
    ds = second.filterMap (·.2)
  /-- If a reference is refused, then there are no checks, and what the references return is returned. -/
  refused : (¬ ∀ call ∈ first, call.2 = none) → second = [] ∧ ds = first.filterMap (·.2)

/-- References that are gone through group by group are gone through once. -/
theorem map_reference_grouped (rs : List (Registration ρ)) (lookup : Ident → Option σ) :
    (((mentioned rs).flatMap fun name => (ofName rs name).map fun r => Call.resolved r.reference (lookup name)).map
      Call.reference).Perm (rs.map (·.reference)) := by
  have hreferences : ((mentioned rs).flatMap fun name => (ofName rs name).map fun r =>
      Call.resolved r.reference (lookup name)).map Call.reference = (inGroups rs).map (·.reference) := by
    rw [inGroups, List.map_flatMap, List.map_flatMap]
    refine List.flatMap_congr fun name _ => ?_
    rw [List.map_map]
    rfl
  rw [hreferences]
  exact (inGroups_perm rs).map _

theorem grouped_eq_map (rs : List (Registration ρ)) {lookup : Ident → Option σ}
    (hlookup : ∀ name name', (name == name') = true → lookup name = lookup name') :
    ((mentioned rs).flatMap fun name => (ofName rs name).map fun r => Call.resolved r.reference (lookup name)) =
      (inGroups rs).map fun r => .resolved r.reference (lookup r.name) := by
  rw [inGroups, List.map_flatMap]
  refine List.flatMap_congr fun name _ => List.map_congr_left fun r hr => ?_
  rw [hlookup r.name name (List.mem_filter.mp hr).2]

/--
Whatever was added to a pool and in whatever way, a run calls back for every reference once, with the answer of the
table for its name. If none is refused, it calls every check once after that.
-/
theorem trigger_in_two_phases (h : History ρ) (lookup : Ident → Option σ) (handler : Handler ρ σ τ) (s : τ) :
    ∃ first second ds s', (h.pool.resolve lookup).trigger handler s = (ds, s') ∧
      (h.pool.resolve lookup).trigger handler.logged (s, []) = (ds, s', first ++ second) ∧
      TwoPhases h lookup first second ds := by
  obtain ⟨first, hfirst, hcalls, hreturned⟩ := visit_logged (fun task => handler.resolved task.1 task.2)
    (fun task => Call.resolved task.1 task.2) (h.pool.lookups lookup) s []
  have hgrouped : first.map (·.1) = (mentioned h.registered).flatMap fun name =>
      (ofName h.registered name).map fun r => .resolved r.reference (lookup name) := by
    rw [hcalls, h.lookups_pool, List.map_flatMap]
    exact List.flatMap_congr fun name _ => List.map_map ..
  have hcomplete : (first.map (·.1.reference)).Perm (h.registered.map (·.reference)) := by
    have hperm := map_reference_grouped h.registered lookup
    rwa [← hgrouped, List.map_map] at hperm
  have hanswered (hlookup : ∀ name name', (name == name') = true → lookup name = lookup name') :
      (first.map (·.1)).Perm (h.registered.map fun r => .resolved r.reference (lookup r.name)) := by
    rw [hgrouped, grouped_eq_map h.registered hlookup]
    exact (inGroups_perm h.registered).map _
  have hsucceeded : (∀ call ∈ first, call.2 = none) ↔ (visit (fun task => handler.resolved task.1 task.2)
      (h.pool.lookups lookup) s).1 = [] := by
    rw [← hreturned, List.filterMap_eq_nil_iff]
  simp only [trigger_resolve]
  rw [show (fun task : Reference ρ × Option σ => handler.logged.resolved task.1 task.2) = fun task s =>
    note (.resolved task.1 task.2) (handler.resolved task.1 task.2 s.1) s.2 from rfl, hfirst]
  generalize visit (fun task => handler.resolved task.1 task.2) (h.pool.lookups lookup) s = visited at *
  obtain ⟨errors, s₁⟩ := visited
  by_cases hnone : errors = []
  · obtain ⟨second, hsecond, hchecks, hreturned'⟩ := visit_logged handler.check Call.check
      (h.pool : RefPool ρ σ).checkTasks s₁ first
    refine ⟨first, second, _, _, if_pos (List.isEmpty_iff.mpr hnone), ?_, ?_⟩
    · exact (if_pos (List.isEmpty_iff.mpr hnone)).trans hsecond
    · refine ⟨hgrouped, hcomplete, hanswered, fun _ => ⟨?_, ?_, hreturned'.symm⟩, ?_⟩
      · rw [hchecks, h.checkTasks_pool]
      · rw [hchecks, h.checkTasks_pool]
        exact ((((inGroups_perm h.registered).filter _).map _).append_right _).map _
      · exact fun hrefused => absurd (hsucceeded.mpr hnone) hrefused
  · have hsome : ¬ errors.isEmpty = true := fun hempty => hnone (List.isEmpty_iff.mp hempty)
    refine ⟨first, [], errors, s₁, if_neg hsome, ?_, ?_⟩
    · exact (if_neg hsome).trans (by rw [List.nil_append, List.append_nil])
    · refine ⟨hgrouped, hcomplete, hanswered, fun hall => ?_, fun _ => ⟨rfl, hreturned.symm⟩⟩
      exact absurd (hsucceeded.mp hall) hnone

end StructuredText.RefPool
