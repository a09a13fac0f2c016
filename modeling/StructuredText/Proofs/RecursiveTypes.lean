-- SUMMARY: Types that contain themselves are reported exactly, and only what is nested too deep is taken for one.
import StructuredText.Link.Types
import StructuredText.Proofs.Coercion
import StructuredText.Proofs.Reachability

/-!
# Types that contain themselves

A type contains itself when it is reached from itself along the parts of types. Each such type is reported once. The
questions that are asked of a type do not look for cycles, they only count how deep they are. So they may fail for a
type without a cycle, but then its parts are followed along a path that is longer than `maxNesting`.
-/

namespace StructuredText

open Relation (TransGen)

-- ---------------------------------------------------------------------------
-- Computations that are not too deep
-- ---------------------------------------------------------------------------

/-- The computation does not fail for a type that contains itself. -/
def Founded {α : Type} (x : Except ValueError α) : Prop := ∀ name, x ≠ .error (.recursive name)

namespace Founded

variable {α β : Type}

theorem ok (a : α) : Founded (.ok a) := nofun

theorem error {e : ValueError} (h : ∀ name, e ≠ .recursive name) : Founded (.error e : Except ValueError α) :=
  fun name heq => h name (Except.error.inj heq)

theorem mismatch (type : Ident) (found : Value) :
    Founded (.error (TypeTable.mismatch type found) : Except ValueError α) :=
  error nofun

theorem notSupported (v : Value) (op : Operation) : Founded (.error (v.notSupported op) : Except ValueError α) :=
  error nofun

theorem bind {x : Except ValueError α} {f : α → Except ValueError β} (hx : Founded x) (hf : ∀ a, Founded (f a)) :
    Founded (x >>= f) := by
  cases x with
  | ok a => exact hf a
  | error e => exact fun name heq => hx name (congrArg Except.error (Except.error.inj heq))

theorem ite {p : Prop} [Decidable p] {x x' : Except ValueError α} (h : Founded x) (h' : Founded x') :
    Founded (if p then x else x') := by
  split
  · exact h
  · exact h'

theorem mapM {f : α → Except ValueError β} {as : List α} (hf : ∀ a ∈ as, Founded (f a)) : Founded (as.mapM f) := by
  induction as with
  | nil => exact ok _
  | cons a as ih =>
    rw [List.mapM_cons]
    refine bind (hf a List.mem_cons_self) fun b => ?_
    exact bind (ih fun a' ha => hf a' (List.mem_cons_of_mem a ha)) fun bs => ok _

theorem foldlM {f : β → α → Except ValueError β} (hf : ∀ b a, Founded (f b a)) (as : List α) (b : β) :
    Founded (as.foldlM f b) := by
  induction as generalizing b with
  | nil => exact ok _
  | cons a as ih =>
    rw [List.foldlM_cons]
    exact bind (hf b a) fun b' => ih b'

theorem ref {r : TypeRef} {f : TypeId → Except ValueError β} (hf : ∀ id, r.id? = some id → Founded (f id)) :
    Founded (r.id >>= f) := by
  unfold TypeRef.id
  cases hr : r.id? with
  | some id => exact hf id hr
  | none => exact error nofun

theorem get {t : TypeTable} {id : TypeId} {f : TypeDecl → Except ValueError β}
    (hf : ∀ d, t.get? id = some d → Founded (f d)) : Founded (t.get id >>= f) := by
  unfold TypeTable.get
  cases hd : t.get? id with
  | some d => exact hf d hd
  | none => exact error nofun

end Founded

theorem Dimension.expand_founded (ds : List Dimension) (items : List (Nat × Value)) :
    Founded (Dimension.expand ds items) := by
  induction ds generalizing items with
  | nil =>
    rw [Dimension.expand.eq_def]
    exact .ite (.error nofun) (.ok _)
  | cons d rest ih =>
    rw [Dimension.expand.eq_def]
    refine .ite (.error nofun) ?_
    split
    · next heq =>
      cases heq
      refine .foldlM (fun out item => ?_) _ _
      dsimp only
      split
      · exact .ite (.ok _) (.bind (ih _) fun _ => .ok _)
      · exact .ok _
    · exact .ok _

theorem Elementary.canHold_founded (e : Elementary) (v : Value) : Founded (e.canHold v) := by
  unfold Elementary.canHold
  split <;> first
    | exact .ok _
    | exact .ite (.ok _) (.error nofun)
    | exact .error nofun

theorem Value.toInteger_founded (v : Value) : Founded v.toInteger := by
  cases v <;> first | exact .ok _ | exact .notSupported _ _

theorem TypeKind.mem_parts (kind : TypeKind) {r : TypeRef} {part : TypeId} (hr : r ∈ kind.refs)
    (hpart : r.id? = some part) : part ∈ kind.parts := by
  cases kind with
  | struct members =>
    obtain ⟨m, hm, rfl⟩ := List.mem_map.mp hr
    exact List.mem_filterMap.mpr ⟨m, hm, hpart⟩
  | elementary _ | enumeration _ _ | block _ => exact absurd hr List.not_mem_nil
  | _ =>
    cases List.mem_singleton.mp hr
    exact Option.mem_toList.mpr hpart

namespace TypeTable

variable {t : TypeTable} {id part : TypeId} {d : TypeDecl} {r : TypeRef} {depth : Nat}

theorem chooseValue_founded (type : Ident) (values : List Ident) (chosen : Ident) :
    Founded (chooseValue type values chosen) := by
  unfold chooseValue
  split
  · exact .ok _
  · exact .error nofun

-- ---------------------------------------------------------------------------
-- Containment
-- ---------------------------------------------------------------------------

/-- A value of the type is directly made of values of the other one. -/
def Contains (t : TypeTable) (id part : TypeId) : Prop := part ∈ t.contained id

/-- Parts of the type can be followed as often. -/
def Nests (t : TypeTable) : Nat → TypeId → Prop
  | 0, _ => True
  | depth + 1, id => ∃ part, t.Contains id part ∧ t.Nests depth part

theorem contains_of_ref (hd : t.get? id = some d) (hr : r ∈ d.kind.refs) (hpart : r.id? = some part) :
    t.Contains id part := by
  rw [Contains, contained, hd]
  exact d.kind.mem_parts hr hpart

theorem Contains.lt_size (h : t.Contains id part) : id < t.types.size := by
  refine declares_iff.mp ?_
  unfold Contains contained at h
  split at h
  · next d hd => exact ⟨d, hd⟩
  · exact absurd h List.not_mem_nil

theorem lt_size_of_transGen (h : TransGen t.Contains id part) : id < t.types.size := by
  obtain ⟨next, hnext, -⟩ := TransGen.head'_iff.mp h
  exact hnext.lt_size

/-- What is followed into a reference is not nested as deep as the declaration. -/
theorem not_nests_ref (h : ¬ t.Nests (depth + 1) id) (hd : t.get? id = some d) (hr : r ∈ d.kind.refs)
    (hpart : r.id? = some part) : ¬ t.Nests depth part :=
  fun hnests => h ⟨part, contains_of_ref hd hr hpart, hnests⟩

theorem path_of_nests (h : t.Nests depth id) : ∃ path : List TypeId, (id :: path).IsChain t.Contains ∧
    path.length = depth := by
  induction depth generalizing id with
  | zero => exact ⟨[], .singleton id, rfl⟩
  | succ depth ih =>
    obtain ⟨part, hpart, hnests⟩ := h
    obtain ⟨path, hpath, hlength⟩ := ih hnests
    exact ⟨part :: path, .cons_cons hpart hpath, by simp [hlength]⟩

/-- Without types that contain themselves, every path of parts is free of repetitions. -/
theorem nodup_of_isChain (hacyclic : ∀ id, ¬ TransGen t.Contains id id) {path : List TypeId}
    (hpath : path.IsChain t.Contains) : path.Nodup := by
  have hpairs : path.Pairwise (TransGen t.Contains) := (hpath.imp fun _ _ => .single).pairwise
  refine hpairs.imp fun {id part} hreach heq => ?_
  exact hacyclic part (heq ▸ hreach)

/-- Every type of a path but the last one is declared. -/
theorem length_path_le {path : List TypeId} (hpath : path.IsChain t.Contains) (hnodup : path.Nodup) :
    path.length ≤ t.types.size + 1 := by
  have hdeclared : ∀ id ∈ path.dropLast, id < t.types.size := by
    clear hnodup
    induction hpath with
    | nil => simp
    | singleton => simp
    | cons_cons hpart _ ih =>
      rw [List.dropLast_cons_cons]
      exact List.forall_mem_cons.mpr ⟨hpart.lt_size, ih⟩
  have hsubset : path.dropLast ⊆ List.range t.types.size := fun id hid => List.mem_range.mpr (hdeclared id hid)
  have hle := (List.subperm_of_subset (hnodup.sublist (List.dropLast_sublist path)) hsubset).length_le
  rw [List.length_dropLast, List.length_range] at hle
  omega

-- ---------------------------------------------------------------------------
-- Questions about types
-- ---------------------------------------------------------------------------

theorem classWithin_founded (h : ¬ t.Nests depth id) : Founded (t.classWithin depth id) := by
  induction depth generalizing id with
  | zero => exact absurd trivial h
  | succ depth ih =>
    rw [classWithin]
    refine .get fun d hd => ?_
    cases hkind : d.kind with
    | «alias» parent initial =>
      refine .ref fun p hp => .bind (ih ?_) fun _ => .ok _
      exact not_nests_ref h hd (by simp [hkind, TypeKind.refs]) hp
    | subrange base min max initial =>
      refine .ref fun p hp => .bind (ih ?_) fun _ => .ok _
      exact not_nests_ref h hd (by simp [hkind, TypeKind.refs]) hp
    | _ => exact .ok _

theorem rootWithin_founded (start : TypeId) (h : ¬ t.Nests depth id) : Founded (t.rootWithin start depth id) := by
  induction depth generalizing id with
  | zero => exact absurd trivial h
  | succ depth ih =>
    rw [rootWithin]
    refine .get fun d hd => ?_
    cases hkind : d.kind with
    | «alias» parent initial =>
      exact .ref fun p hp => ih (not_nests_ref h hd (by simp [hkind, TypeKind.refs]) hp)
    | _ => exact .ok _

theorem elementaryWithin_founded (start : TypeId) (h : ¬ t.Nests depth id) :
    Founded (t.elementaryWithin start depth id) := by
  induction depth generalizing id with
  | zero => exact absurd trivial h
  | succ depth ih =>
    rw [elementaryWithin]
    refine .get fun d hd => ?_
    cases hkind : d.kind with
    | «alias» parent initial =>
      exact .ref fun p hp => ih (not_nests_ref h hd (by simp [hkind, TypeKind.refs]) hp)
    | subrange base min max initial =>
      exact .ref fun p hp => ih (not_nests_ref h hd (by simp [hkind, TypeKind.refs]) hp)
    | _ => exact .ok _

theorem createWithin_founded (h : ¬ t.Nests depth id) (init : Option Value) :
    Founded (t.createWithin depth id init) := by
  induction depth generalizing id init with
  | zero => exact absurd trivial h
  | succ depth ih =>
    rw [createWithin]
    refine .get fun d hd => ?_
    cases hkind : d.kind with
    | elementary e =>
      cases init with
      | none => exact .ok _
      | some v => exact .bind (e.canHold_founded v) fun _ => .ok _
    | «alias» parent initial =>
      exact .ref fun p hp => ih (not_nests_ref h hd (by simp [hkind, TypeKind.refs]) hp) _
    | subrange base min max initial =>
      refine .ref fun p hp => .bind (ih (not_nests_ref h hd (by simp [hkind, TypeKind.refs]) hp) _) fun v => ?_
      exact .bind v.toInteger_founded fun i => .ite (.error (by simp)) (.ok _)
    | enumeration values initial =>
      dsimp only
      split
      · exact chooseValue_founded _ _ _
      · exact .mismatch _ _
      · exact chooseValue_founded _ _ _
      · split
        · exact chooseValue_founded _ _ _
        · exact .error (by simp)
    | array element dimensions initial =>
      refine .ref fun p hp => .ite (.error (by simp)) ?_
      have hp := not_nests_ref h hd (by simp [hkind, TypeKind.refs]) hp
      have hcreate (vs : List Value) : Founded (do
          pure (.array (← vs.mapM fun v => t.createWithin depth p (some v))) : Except ValueError Value) :=
        .bind (.mapM fun v _ => ih hp _) fun _ => .ok _
      split
      · exact .bind (ih hp _) fun _ => .ok _
      · exact .bind (Dimension.expand_founded _ _) fun vs => hcreate vs
      · exact .ite (.error (by simp)) (hcreate _)
      · exact .mismatch _ _
    | struct members =>
      have hmember (m : StructMember) (hm : m ∈ members) (init : Option Value) : Founded (do
          pure (m.name, ← t.createWithin depth (← m.type.id) init)) := by
        refine .ref fun p hp => .bind (ih (not_nests_ref h hd ?_ hp) _) fun _ => .ok _
        simp only [hkind, TypeKind.refs]
        exact List.mem_map_of_mem hm
      dsimp only
      split
      · exact .bind (.mapM fun m hm => hmember m hm _) fun _ => .ok _
      · split
        · exact .error (by simp)
        · refine .bind (.mapM fun m hm => ?_) fun _ => .ok _
          split
          · exact hmember m hm _
          · exact .error (by simp)
      · exact .mismatch _ _
    | block pou =>
      dsimp only
      split
      · exact .ok _
      · exact .ite (.ok _) (.notSupported _ _)
      · exact .notSupported _ _

end TypeTable

-- ---------------------------------------------------------------------------
-- Reports
-- ---------------------------------------------------------------------------

namespace Link

variable {t : TypeTable}

theorem closed_containment (t : TypeTable) : (containment t).Closed :=
  Graph.closed_ofEdges fun _ _ hpart => List.mem_range.mpr (TypeTable.Contains.lt_size hpart)

theorem mem_reportAll (reported component : List TypeId) (id : TypeId) :
    id ∈ reportAll reported component ↔ id ∈ reported ∨ id ∈ component := by
  rw [reportAll, Graph.mem_foldl_insert, List.mem_mergeSort]

theorem nodup_recursiveIds (g : Graph) (components : List (List TypeId)) : (recursiveIds g components).Nodup := by
  unfold recursiveIds
  generalize hseen : ([] : List TypeId) = seen
  have hnodup : seen.Nodup := hseen ▸ List.nodup_nil
  clear hseen
  induction components generalizing seen with
  | nil => exact hnodup
  | cons component components ih =>
    rw [List.foldl_cons]
    refine ih _ ?_
    split
    · exact Graph.nodup_foldl_insert _ hnodup
    · exact hnodup

theorem mem_recursiveIds (g : Graph) (components : List (List TypeId)) (id : TypeId) :
    id ∈ recursiveIds g components ↔ ∃ component ∈ components, isCyclic g component = true ∧ id ∈ component := by
  suffices hfold : ∀ seen, id ∈ components.foldl (fun reported component =>
      if isCyclic g component then reportAll reported component else reported) seen ↔
        id ∈ seen ∨ ∃ component ∈ components, isCyclic g component = true ∧ id ∈ component by
    simpa [recursiveIds] using hfold []
  induction components with
  | nil => simp
  | cons component components ih =>
    intro seen
    rw [List.foldl_cons, ih, List.exists_mem_cons_iff]
    split
    · next hcyclic => simp [mem_reportAll, hcyclic, or_assoc]
    · next hcyclic => simp [hcyclic]

/-- The nodes of a component are on a cycle exactly if there are several of them or the only one has an edge to itself. -/
theorem isCyclic_iff {g : Graph} (hg : g.Closed) {components : List (List Nat)} (h : g.IsComponents components)
    {component : List Nat} (hcomponent : component ∈ components) {n : Nat} (hn : n ∈ component) :
    isCyclic g component = true ↔ TransGen g.Edge n n := by
  have hnodup : component.Nodup := (List.nodup_flatten.mp (h.nodup hg)).1 component hcomponent
  match component with
  | [] => cases hn
  | [k] =>
    cases List.mem_singleton.mp hn
    have hself : isCyclic g [n] = true ↔ g.Edge n n := by simp [isCyclic, Graph.Edge]
    rw [hself]
    refine ⟨.single, fun hcycle => ?_⟩
    obtain ⟨m, hedge, hback⟩ := TransGen.head'_iff.mp hcycle
    have hm : m ∈ [n] := (h.mem_iff hcomponent hn).mpr ⟨hg.target hedge, .single hedge, hback⟩
    rwa [List.mem_singleton.mp hm] at hedge
  | k :: k' :: rest =>
    -- One of the first two nodes is another one than `n`.
    have hother : ∃ m ∈ k :: k' :: rest, m ≠ n := by
      by_cases hk : k = n
      · exact ⟨k', by simp, fun hk' => (List.nodup_cons.mp hnodup).1 (by simp [hk, hk'])⟩
      · exact ⟨k, by simp, hk⟩
    obtain ⟨m, hm, hne⟩ := hother
    obtain ⟨-, hforth, hback⟩ := (h.mem_iff hcomponent hn).mp hm
    refine iff_of_true (by simp [isCyclic]) ?_
    exact ((Relation.reflTransGen_iff_eq_or_transGen.mp hforth).resolve_left hne).trans_left hback

/-- The types of the components that are cycles are the types that contain themselves. -/
theorem mem_recursiveIds_containment {components : List (List TypeId)}
    (h : (containment t).IsComponents components) (id : TypeId) :
    id ∈ recursiveIds (containment t) components ↔ TransGen t.Contains id id := by
  have hclosed := closed_containment t
  rw [mem_recursiveIds]
  constructor
  · rintro ⟨component, hcomponent, hcyclic, hid⟩
    exact (isCyclic_iff hclosed h hcomponent hid).mp hcyclic
  · intro hreach
    obtain ⟨part, hpart, -⟩ := TransGen.head'_iff.mp hreach
    obtain ⟨component, hcomponent, hid⟩ := h.exists_component (hclosed.source hpart)
    exact ⟨component, hcomponent, (isCyclic_iff hclosed h hcomponent hid).mpr hreach, hid⟩

/--
Whatever finds the strongly connected components, each type that contains itself is reported once, and no other type
is. If none is and no path along the parts of types is longer than `maxNesting`, then no question that is asked of a
type fails as if it contained itself.
-/
theorem recursive_types_exact (t : TypeTable) (components : Graph → List (List TypeId))
    (hcomponents : (containment t).IsComponents (components (containment t))) :
    (∃ ids : List TypeId, ids.Nodup ∧ (∀ id, id ∈ ids ↔ TransGen t.Contains id id) ∧
      List.Forall₂ (fun id diagnostic => ∃ d, t.get? id = some d ∧
        diagnostic = (Diagnostic.of .recursiveCycle d.span s!"{d.name.text} contains itself").withContext
          "type" d.name.text) ids (recursiveTypes components t)) ∧
    (recursiveTypes components t = [] →
      (∀ path : List TypeId, path.IsChain t.Contains → path.Nodup → path.length ≤ maxNesting + 1) →
      ∀ id name, t.classOf id ≠ .error (.recursive name) ∧ t.rootOf id ≠ .error (.recursive name) ∧
        t.elementaryOf id ≠ .error (.recursive name) ∧ t.create id none ≠ .error (.recursive name)) := by
  have hrecursive := mem_recursiveIds_containment hcomponents
  have hreports : List.Forall₂ (fun id diagnostic => ∃ d, t.get? id = some d ∧
      diagnostic = (Diagnostic.of .recursiveCycle d.span s!"{d.name.text} contains itself").withContext
        "type" d.name.text) (recursiveIds (containment t) (components (containment t)))
          (recursiveTypes components t) := by
    have hdeclared : ∀ id ∈ recursiveIds (containment t) (components (containment t)), ∃ d, t.get? id = some d :=
      fun id hid => TypeTable.declares_iff.mpr (TypeTable.lt_size_of_transGen ((hrecursive id).mp hid))
    rw [show recursiveTypes components t =
      (recursiveIds (containment t) (components (containment t))).filterMap _ from rfl]
    generalize recursiveIds (containment t) (components (containment t)) = ids at hdeclared ⊢
    induction ids with
    | nil => exact .nil
    | cons id ids ih =>
      obtain ⟨⟨d, hd⟩, hrest⟩ := List.forall_mem_cons.mp hdeclared
      rw [List.filterMap_cons, hd]
      exact .cons ⟨d, hd, rfl⟩ (ih hrest)
  refine ⟨⟨_, nodup_recursiveIds _ _, hrecursive, hreports⟩, fun hnone hpaths id name => ?_⟩
  have hacyclic (id : TypeId) : ¬ TransGen t.Contains id id := by
    rw [hnone] at hreports
    rw [← hrecursive, List.forall₂_nil_right_iff.mp hreports]
    exact List.not_mem_nil
  have hshallow : ¬ t.Nests (maxNesting + 1) id := by
    intro hnests
    obtain ⟨path, hpath, hlength⟩ := TypeTable.path_of_nests hnests
    have hle := hpaths _ hpath (TypeTable.nodup_of_isChain hacyclic hpath)
    rw [List.length_cons, hlength] at hle
    omega
  exact ⟨TypeTable.classWithin_founded hshallow name, TypeTable.rootWithin_founded id hshallow name,
    TypeTable.elementaryWithin_founded id hshallow name, TypeTable.createWithin_founded hshallow none name⟩

/-- A structure with a member of a subrange is not recursive, and its table has no long paths. -/
theorem recursive_types_exact_depth : ∃ unit l, parseUnit depthSource .anonymous = .ok unit ∧ link [unit] {} = .ok l ∧
    (containment l.types).IsComponents (containment l.types).components ∧
    recursiveTypes Graph.components l.types = [] ∧
    (∀ path : List TypeId, path.IsChain l.types.Contains → path.Nodup → path.length ≤ maxNesting + 1) ∧
    l.types.Contains 22 21 ∧ ∀ name, l.types.create 22 none ≠ .error (.recursive name) := by
  have hrun : (linkSource depthSource).toOption.any (fun l => (recursiveTypes Graph.components l.types).isEmpty &&
      (decide (l.types.types.size ≤ maxNesting) && (l.types.contained 22).contains 21)) = true := by
    have hchars : depthSource.toList = _ := String.toList_ofList
    rw [linkSource, parseUnit, tokenize_of_toList hchars]
    decide +kernel
  obtain ⟨unit, l, hparse, hlink, hfacts⟩ := exists_of_linkSource hrun
  simp only [Bool.and_eq_true, List.isEmpty_iff, decide_eq_true_eq, List.contains_iff_mem] at hfacts
  obtain ⟨hnone, hsize, hpart⟩ := hfacts
  have hpaths (path : List TypeId) (hpath : path.IsChain l.types.Contains) (hnodup : path.Nodup) :
      path.length ≤ maxNesting + 1 :=
    (TypeTable.length_path_le hpath hnodup).trans (Nat.succ_le_succ hsize)
  have hcomponents := Graph.isComponents_components (closed_containment l.types)
  refine ⟨unit, l, hparse, hlink, hcomponents, hnone, hpaths, hpart, fun name => ?_⟩
  exact ((recursive_types_exact l.types Graph.components hcomponents).2 hnone hpaths 22 name).2.2.2

end Link

end StructuredText
