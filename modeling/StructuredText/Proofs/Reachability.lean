-- SUMMARY: The nodes that are reached in a graph, and its strongly connected components.
import Mathlib.Data.Finset.Card
import Mathlib.Logic.Relation
import StructuredText.Graph

/-!
# Reachability

A search for all nodes that are reached stops once it finds no new ones, which is after at most as many rounds as there
are nodes. A depth first search leaves every node once. So the components are the classes of nodes that are reached
from each other, and every node is in one of them.
-/

namespace StructuredText.Graph

open Relation (TransGen ReflTransGen)

variable {g : Graph} {n m : Nat} {seen : List Nat}

def Edge (g : Graph) (n m : Nat) : Prop := m ∈ g.next n

/-- Each node is listed once, and so are both ends of each edge. -/
structure Closed (g : Graph) : Prop where
  nodup : g.nodes.Nodup
  source : ∀ {n m}, g.Edge n m → n ∈ g.nodes
  target : ∀ {n m}, g.Edge n m → m ∈ g.nodes

-- ---------------------------------------------------------------------------
-- Graphs of edges
-- ---------------------------------------------------------------------------

theorem nodup_foldl_insert (ns : List Nat) (hseen : seen.Nodup) :
    (ns.foldl (fun seen n => if seen.contains n then seen else seen ++ [n]) seen).Nodup := by
  induction ns generalizing seen with
  | nil => exact hseen
  | cons n ns ih =>
    rw [List.foldl_cons]
    split
    · exact ih hseen
    · next hn =>
      have hn : n ∉ seen := by simpa using hn
      exact ih (List.nodup_append.mpr ⟨hseen, List.nodup_singleton n, by grind⟩)

theorem mem_foldl_insert (ns : List Nat) :
    m ∈ ns.foldl (fun seen n => if seen.contains n then seen else seen ++ [n]) seen ↔ m ∈ seen ∨ m ∈ ns := by
  induction ns generalizing seen with
  | nil => simp
  | cons n ns ih =>
    rw [List.foldl_cons, ih]
    split
    · next hn =>
      have hn : n ∈ seen := by simpa using hn
      grind
    · simp [or_assoc]

/-- When edges start at the given nodes only, their graph is closed. -/
theorem closed_ofEdges {starts : List Nat} {next : Nat → List Nat} (h : ∀ n, ∀ m ∈ next n, n ∈ starts) :
    (ofEdges starts next).Closed where
  nodup := nodup_foldl_insert _ List.nodup_nil
  source {n m} hedge :=
    (mem_foldl_insert _).mpr (.inr (List.mem_flatMap.mpr ⟨n, h n m hedge, List.mem_cons_self⟩))
  target {n m} hedge :=
    (mem_foldl_insert _).mpr (.inr (List.mem_flatMap.mpr ⟨n, h n m hedge, List.mem_cons_of_mem n hedge⟩))

-- ---------------------------------------------------------------------------
-- Reachability
-- ---------------------------------------------------------------------------

theorem closure_succ (bound : Nat) (seen : List Nat) : g.closure (bound + 1) seen =
    if ((seen.flatMap g.next).filter (!seen.contains ·)).isEmpty then seen
    else g.closure bound (seen ++ ((seen.flatMap g.next).filter (!seen.contains ·)).eraseDups) := rfl

theorem mem_closure_of_mem (bound : Nat) (h : n ∈ seen) : n ∈ g.closure bound seen := by
  induction bound generalizing seen with
  | zero => exact h
  | succ bound ih =>
    rw [closure_succ]
    split
    · exact h
    · exact ih (List.mem_append_left _ h)

/-- What is collected is reached from what was there. -/
theorem exists_of_mem_closure {bound : Nat} (h : m ∈ g.closure bound seen) : ∃ n ∈ seen, ReflTransGen g.Edge n m := by
  induction bound generalizing seen with
  | zero => exact ⟨m, h, .refl⟩
  | succ bound ih =>
    rw [closure_succ] at h
    split at h
    · exact ⟨m, h, .refl⟩
    · obtain ⟨n, hn, hreach⟩ := ih h
      obtain hn | hn := List.mem_append.mp hn
      · exact ⟨n, hn, hreach⟩
      · obtain ⟨k, hk, hedge⟩ := List.mem_flatMap.mp (List.mem_filter.mp (List.mem_eraseDups.mp hn)).1
        exact ⟨k, hk, .head hedge hreach⟩

/-- As many rounds as there are nodes left to be seen are enough. -/
theorem closure_closed (hg : g.Closed) (bound : Nat)
    (hbound : (g.nodes.toFinset \ seen.toFinset).card ≤ bound) :
    ∀ n ∈ g.closure bound seen, ∀ m ∈ g.next n, m ∈ g.closure bound seen := by
  induction bound generalizing seen with
  | zero =>
    intro n hn m hm
    have hall : g.nodes.toFinset ⊆ seen.toFinset :=
      Finset.sdiff_eq_empty_iff_subset.mp (Finset.card_eq_zero.mp (Nat.le_zero.mp hbound))
    exact List.mem_toFinset.mp (hall (List.mem_toFinset.mpr (hg.target hm)))
  | succ bound ih =>
    rw [closure_succ]
    split
    · next hnone =>
      intro n hn m hm
      by_contra hnew
      have hmem : m ∈ (seen.flatMap g.next).filter (!seen.contains ·) :=
        List.mem_filter.mpr ⟨List.mem_flatMap.mpr ⟨n, hn, hm⟩, by simpa using hnew⟩
      rw [List.isEmpty_iff.mp hnone] at hmem
      exact List.not_mem_nil hmem
    · next hsome =>
      have hnew {k : Nat} (hk : k ∈ ((seen.flatMap g.next).filter (!seen.contains ·)).eraseDups) :
          k ∈ g.nodes ∧ k ∉ seen := by
        obtain ⟨hk, hfresh⟩ := List.mem_filter.mp (List.mem_eraseDups.mp hk)
        obtain ⟨n, hn, hedge⟩ := List.mem_flatMap.mp hk
        exact ⟨hg.target hedge, by simpa using hfresh⟩
      obtain ⟨k, hk⟩ := List.exists_mem_of_ne_nil _ fun hnil => hsome (List.isEmpty_iff.mpr hnil)
      have hk := List.mem_eraseDups.mpr hk
      refine ih (Nat.le_of_lt_succ (Nat.lt_of_lt_of_le (Finset.card_lt_card ?_) hbound))
      refine Finset.ssubset_iff_of_subset (fun x hx => ?_) |>.mpr ⟨k, ?_, ?_⟩
      · simp only [Finset.mem_sdiff, List.mem_toFinset, List.mem_append] at hx ⊢
        exact ⟨hx.1, fun h => hx.2 (.inl h)⟩
      · simpa using hnew hk
      · simp only [Finset.mem_sdiff, List.mem_toFinset, List.mem_append, not_and, not_not]
        exact fun _ => .inr hk

theorem mem_reached (hg : g.Closed) : m ∈ g.reached n ↔ TransGen g.Edge n m := by
  constructor
  · intro hm
    obtain ⟨k, hk, hreach⟩ := exists_of_mem_closure hm
    exact .head' hk hreach
  · intro hpath
    obtain ⟨k, hk, hreach⟩ := TransGen.head'_iff.mp hpath
    clear hpath
    have hbound : (g.nodes.toFinset \ (g.next n).toFinset).card ≤ g.nodes.length :=
      (Finset.card_le_card Finset.sdiff_subset).trans (List.toFinset_card_le g.nodes)
    have hclosed := closure_closed hg g.nodes.length hbound
    rw [reached]
    induction hreach with
    | refl => exact mem_closure_of_mem _ hk
    | tail _ hedge ih => exact hclosed _ ih _ hedge

theorem connected_iff (hg : g.Closed) : g.connected n m = true ↔ TransGen g.Edge n m ∧ TransGen g.Edge m n := by
  rw [connected, Bool.and_eq_true, List.contains_iff_mem, List.contains_iff_mem, mem_reached hg, mem_reached hg]

-- ---------------------------------------------------------------------------
-- Depth first search
-- ---------------------------------------------------------------------------

/-- A search has seen nodes only, and each one once. -/
structure Proper (g : Graph) (state : List Nat × List Nat) : Prop where
  nodup : state.1.Nodup
  nodes : ∀ n ∈ state.1, n ∈ g.nodes

/-- All nodes that are seen in addition are left. -/
def Extends (state state' : List Nat × List Nat) : Prop :=
  ∃ new, state'.1.Perm (new ++ state.1) ∧ state'.2 = state.2 ++ new

variable {s s' s'' : List Nat × List Nat}

theorem Extends.refl (s : List Nat × List Nat) : Extends s s := ⟨[], .refl _, (List.append_nil _).symm⟩

theorem Extends.trans (h : Extends s s') (h' : Extends s' s'') : Extends s s'' := by
  obtain ⟨new, hseen, hleft⟩ := h
  obtain ⟨new', hseen', hleft'⟩ := h'
  refine ⟨new ++ new', ?_, by rw [hleft', hleft, List.append_assoc]⟩
  calc s''.1.Perm (new' ++ s'.1) := hseen'
    _ |>.Perm (new' ++ (new ++ s.1)) := hseen.append_left new'
    _ |>.Perm ((new ++ new') ++ s.1) := by
      rw [← List.append_assoc]
      exact List.perm_append_comm.append_right s.1

theorem Extends.subset (h : Extends s s') (hn : n ∈ s.1) : n ∈ s'.1 := by
  obtain ⟨new, hseen, -⟩ := h
  exact hseen.symm.subset (List.mem_append_right new hn)

theorem Extends.length_le (h : Extends s s') : s.1.length ≤ s'.1.length := by
  obtain ⟨new, hseen, -⟩ := h
  simp [hseen.length_eq]

/-- The search from a node ends, has seen the node, and has left what it has seen. -/
def Searches (g : Graph) (s s' : List Nat × List Nat) (ns : List Nat) : Prop :=
  g.Proper s' ∧ Extends s s' ∧ ∀ n ∈ ns, n ∈ s'.1

theorem searches_foldl {depth : Nat}
    (h : ∀ s n, g.Proper s → n ∈ g.nodes → g.nodes.length < depth + s.1.length → g.Searches s (g.visit depth s n) [n])
    (ns : List Nat) (hns : ∀ n ∈ ns, n ∈ g.nodes) (hs : g.Proper s) (hdepth : g.nodes.length < depth + s.1.length) :
    g.Searches s (ns.foldl (g.visit depth) s) ns := by
  induction ns generalizing s with
  | nil => exact ⟨hs, .refl s, by simp⟩
  | cons n ns ih =>
    obtain ⟨hn, hns⟩ := List.forall_mem_cons.mp hns
    obtain ⟨hproper, hextends, hseen⟩ := h s n hs hn hdepth
    have hlength := hextends.length_le
    obtain ⟨hproper', hextends', hseen'⟩ := ih hns hproper (by omega)
    refine ⟨hproper', hextends.trans hextends', List.forall_mem_cons.mpr ⟨?_, hseen'⟩⟩
    exact hextends'.subset (hseen n (List.mem_singleton_self n))

/-- Each level of the search has one more node on its way, so the nodes are used up before the levels are. -/
theorem searches_visit (hg : g.Closed) (depth : Nat) (s : List Nat × List Nat) (n : Nat) (hs : g.Proper s)
    (hn : n ∈ g.nodes) (hdepth : g.nodes.length < depth + s.1.length) : g.Searches s (g.visit depth s n) [n] := by
  induction depth generalizing s n with
  | zero =>
    have hle := (List.subperm_of_subset hs.nodup hs.nodes).length_le
    omega
  | succ depth ih =>
    obtain ⟨seen, left⟩ := s
    rw [visit]
    split
    · next hseen => exact ⟨hs, .refl _, by simpa using hseen⟩
    · next hnew =>
      have hnew : n ∉ seen := by simpa using hnew
      have hproper : g.Proper (n :: seen, left) :=
        ⟨List.nodup_cons.mpr ⟨hnew, hs.nodup⟩, List.forall_mem_cons.mpr ⟨hn, hs.nodes⟩⟩
      have hrest := searches_foldl ih (g.next n) (fun _ => hg.target) hproper (by simp at hdepth ⊢; omega)
      generalize (g.next n).foldl (g.visit depth) (n :: seen, left) = state at hrest ⊢
      obtain ⟨hstate, ⟨new, hperm, hleft⟩, -⟩ := hrest
      refine ⟨⟨hstate.nodup, hstate.nodes⟩, ⟨new ++ [n], ?_, ?_⟩, ?_⟩
      · simpa using hperm
      · simp [hleft]
      · exact fun k hk => hperm.symm.subset (by simp_all)

/-- A depth first search leaves every node once. -/
theorem leavingOrder_perm (hg : g.Closed) : g.leavingOrder.Perm g.nodes := by
  have hempty : g.Proper ([], []) := ⟨List.nodup_nil, by simp⟩
  have hsearch := searches_foldl (searches_visit hg (g.nodes.length + 1)) g.nodes (fun _ => id) hempty (by simp)
  obtain ⟨hproper, ⟨new, hperm, hleft⟩, hall⟩ := hsearch
  have horder : g.leavingOrder = new := by simpa [leavingOrder] using hleft
  rw [horder]
  refine (List.perm_ext_iff_of_nodup ?_ hg.nodup).mpr fun n => ⟨fun hn => ?_, fun hn => ?_⟩
  · simpa using hperm.nodup_iff.mp hproper.nodup
  · exact hproper.nodes n (hperm.symm.subset (by simpa using hn))
  · simpa using hperm.subset (hall n hn)

-- ---------------------------------------------------------------------------
-- Components
-- ---------------------------------------------------------------------------

/-- The nodes are the same, or each of them is reached from the other one. -/
def Together (g : Graph) (n m : Nat) : Prop := ReflTransGen g.Edge n m ∧ ReflTransGen g.Edge m n

theorem Together.symm (h : g.Together n m) : g.Together m n := ⟨h.2, h.1⟩

theorem Together.trans {k : Nat} (h : g.Together n m) (h' : g.Together m k) : g.Together n k :=
  ⟨h.1.trans h'.1, h'.2.trans h.2⟩

theorem together_iff (hg : g.Closed) : g.Together n m ↔ m = n ∨ g.connected n m = true := by
  rw [connected_iff hg, Together]
  constructor
  · rintro ⟨hforth, hback⟩
    obtain rfl | hforth := Relation.reflTransGen_iff_eq_or_transGen.mp hforth
    · exact .inl rfl
    · refine (Relation.reflTransGen_iff_eq_or_transGen.mp hback).imp Eq.symm fun hback => ⟨hforth, hback⟩
  · rintro (rfl | ⟨hforth, hback⟩)
    · exact ⟨.refl, .refl⟩
    · exact ⟨hforth.to_reflTransGen, hback.to_reflTransGen⟩

theorem mem_componentOf (hg : g.Closed) : m ∈ g.componentOf n ↔ m ∈ g.nodes ∧ g.Together n m := by
  rw [componentOf, List.mem_mergeSort, List.mem_filter, together_iff hg]
  simp

theorem nodup_componentOf (hg : g.Closed) (n : Nat) : (g.componentOf n).Nodup :=
  (List.mergeSort_perm _ _).nodup_iff.mpr (hg.nodup.filter _)

theorem componentsOf_cons (n : Nat) (ns : List Nat) : g.componentsOf (n :: ns) =
    if ns.any (g.connected n ·) then g.componentsOf ns else g.componentOf n :: g.componentsOf ns := rfl

/-- A component is listed for each class of the nodes. -/
theorem mem_flatten_componentsOf (hg : g.Closed) (ns : List Nat) :
    m ∈ (g.componentsOf ns).flatten ↔ m ∈ g.nodes ∧ ∃ n ∈ ns, g.Together n m := by
  induction ns with
  | nil => exact ⟨nofun, fun ⟨_, _, h, _⟩ => nomatch h⟩
  | cons n ns ih =>
    rw [componentsOf_cons]
    split
    · next hlater =>
      rw [ih]
      obtain ⟨k, hk, hconnected⟩ := List.any_eq_true.mp hlater
      have htogether : g.Together k n := ((together_iff hg).mpr (.inr hconnected)).symm
      refine and_congr_right fun _ => ⟨fun ⟨k', hk', h⟩ => ⟨k', List.mem_cons_of_mem n hk', h⟩, ?_⟩
      rintro ⟨k', hk', h⟩
      obtain rfl | hk' := List.mem_cons.mp hk'
      · exact ⟨k, hk, htogether.trans h⟩
      · exact ⟨k', hk', h⟩
    · rw [List.flatten_cons, List.mem_append, mem_componentOf hg, ih, List.exists_mem_cons_iff]
      tauto

theorem nodup_flatten_componentsOf (hg : g.Closed) (ns : List Nat) (hnodup : ns.Nodup) :
    (g.componentsOf ns).flatten.Nodup := by
  induction ns with
  | nil => exact List.nodup_nil
  | cons n ns ih =>
    obtain ⟨hfirst, hnodup⟩ := List.nodup_cons.mp hnodup
    rw [componentsOf_cons]
    split
    · exact ih hnodup
    · next hlast =>
      rw [List.flatten_cons]
      refine List.Nodup.append (nodup_componentOf hg n) (ih hnodup) fun m hm hlater => ?_
      obtain ⟨-, hm⟩ := (mem_componentOf hg).mp hm
      obtain ⟨-, k, hk, hlater⟩ := (mem_flatten_componentsOf hg ns).mp hlater
      obtain rfl | hconnected := (together_iff hg).mp (hm.trans hlater.symm)
      · exact hfirst hk
      · exact hlast (List.any_eq_true.mpr ⟨k, hk, hconnected⟩)

/-- Every node is in one component. -/
theorem flatten_components_perm (hg : g.Closed) : g.components.flatten.Perm g.nodes := by
  have horder := leavingOrder_perm hg
  have hnodup := nodup_flatten_componentsOf hg g.leavingOrder (horder.nodup_iff.mpr hg.nodup)
  refine (List.perm_ext_iff_of_nodup hnodup hg.nodup).mpr fun n => ?_
  rw [mem_flatten_componentsOf hg]
  exact ⟨And.left, fun hn => ⟨hn, n, horder.symm.subset hn, .refl, .refl⟩⟩

theorem exists_of_mem_componentsOf {component : List Nat} (ns : List Nat) (h : component ∈ g.componentsOf ns) :
    ∃ n, component = g.componentOf n := by
  induction ns with
  | nil => cases h
  | cons n ns ih =>
    rw [componentsOf_cons] at h
    split at h
    · exact ih h
    · exact (List.mem_cons.mp h).elim (fun heq => ⟨n, heq⟩) ih

/--
The lists are the strongly connected components of the graph, in any order: every node is in one of them, once, and
together with the nodes that belong together with it.
-/
structure IsComponents (g : Graph) (components : List (List Nat)) : Prop where
  perm : components.flatten.Perm g.nodes
  mem_iff : ∀ {component}, component ∈ components → ∀ {n}, n ∈ component →
    ∀ {m}, m ∈ component ↔ m ∈ g.nodes ∧ g.Together n m

/-- The components that are computed are the strongly connected ones. -/
theorem isComponents_components (hg : g.Closed) : g.IsComponents g.components where
  perm := flatten_components_perm hg
  mem_iff := by
    intro component hcomponent n hn m
    obtain ⟨k, rfl⟩ := exists_of_mem_componentsOf _ hcomponent
    obtain ⟨-, hn⟩ := (mem_componentOf hg).mp hn
    rw [mem_componentOf hg]
    exact and_congr_right fun _ => ⟨fun hm => hn.symm.trans hm, fun hm => hn.trans hm⟩

namespace IsComponents

variable {components : List (List Nat)} {component : List Nat}

theorem exists_component (h : g.IsComponents components) (hn : n ∈ g.nodes) :
    ∃ component ∈ components, n ∈ component :=
  List.mem_flatten.mp (h.perm.symm.subset hn)

theorem nodup (h : g.IsComponents components) (hg : g.Closed) : components.flatten.Nodup :=
  h.perm.nodup_iff.mpr hg.nodup

end IsComponents

end StructuredText.Graph
