-- SUMMARY: What an arena holds of a body: nodes at rest, and nodes around the part that is in progress.
import Mathlib.Data.List.Nodup
import StructuredText.Machine.Step
import StructuredText.Proofs.Computation

/-!
# Arenas

The nodes of a body rest if they are in their start states. What evaluations have left in them, results and places, does
not matter: it is written before it is read. While a part of a node is in progress, the rest of the node is at rest, and
the node itself is in the state in which it waits for that part.
-/

namespace StructuredText

-- ---------------------------------------------------------------------------
-- Nodes
-- ---------------------------------------------------------------------------

namespace Node

namespace Kind

/-- The place that an evaluation has left in a reference is dropped. -/
def forget : Kind → Kind
  | .reference n => .reference { n with place? := none }
  | k => k

def isLiteral : Kind → Bool
  | .literal _ => true
  | _ => false

/-- Evaluations leave nothing in the kind, and the result is not a constant. -/
def isPlain : Kind → Bool
  | .literal _ | .reference _ => false
  | _ => true

/-- The place where a reference was found. -/
def place? : Kind → Option Place
  | .reference n => n.place?
  | _ => none

@[simp] theorem forget_forget (k : Kind) : k.forget.forget = k.forget := by cases k <;> rfl

@[simp] theorem isLiteral_forget (k : Kind) : k.forget.isLiteral = k.isLiteral := by cases k <;> rfl

theorem isLiteral_of_isPlain {k : Kind} (h : k.isPlain = true) : k.isLiteral = false := by
  cases k <;> first | rfl | cases h

theorem forget_of_isPlain {k : Kind} (h : k.isPlain = true) : k.forget = k := by
  cases k <;> first | rfl | cases h

theorem eq_of_forget_reference {k : Kind} {n : Variable} (h : k.forget = .reference n) :
    k = .reference { n with place? := k.place? } := by
  cases k with
  | reference m =>
    obtain rfl := Kind.reference.inj h
    rfl
  | _ => cases h

theorem eq_of_forget {k k' : Kind} (h : k.forget = k') (hk : k'.isPlain = true) : k = k' := by
  subst h
  cases k <;> first | rfl | cases hk

end Kind

/-- What evaluations have left in the node is dropped. The result of a constant is its value. -/
def forget (n : Node) : Node where
  kind := n.kind.forget
  span := n.span
  type? := n.type?
  storage := n.storage
  result := if n.kind.isLiteral then n.result else .void

end Node

open Node (Kind)

namespace Arena

variable {b b' b'' : Arena} {id i : NodeId} {k k' : Kind} {v : Value}

-- ---------------------------------------------------------------------------
-- Changing nodes
-- ---------------------------------------------------------------------------

theorem getElem?_setKind (b : Arena) (id i : NodeId) (k : Kind) :
    (b.setKind id k).nodes[i]? = if id = i then (b.nodes[i]?).map ({ · with kind := k }) else b.nodes[i]? := by
  simp only [setKind, Array.getElem?_modify]

theorem getElem?_setResult (b : Arena) (id i : NodeId) (v : Value) :
    (b.setResult id v).nodes[i]? = if id = i then (b.nodes[i]?).map ({ · with result := v }) else b.nodes[i]? := by
  simp only [setResult, Array.getElem?_modify]

@[simp] theorem setKind_setKind (b : Arena) (id : NodeId) (k k' : Kind) :
    (b.setKind id k).setKind id k' = b.setKind id k' := by
  simp only [setKind, mk.injEq, and_true]
  ext i h <;> simp [Array.getElem_modify]
  split <;> rfl

theorem setResult_setKind (b : Arena) (id : NodeId) (k : Kind) (v : Value) :
    (b.setKind id k).setResult id v = (b.setResult id v).setKind id k := by
  simp only [setKind, setResult, mk.injEq, and_true]
  ext i h <;> simp [Array.getElem_modify]
  split <;> rfl

@[simp] theorem span_setKind (b : Arena) (id i : NodeId) (k : Kind) : (b.setKind id k).span i = b.span i := by
  rw [span, getElem?_setKind, span]
  split
  · cases b.nodes[i]? <;> rfl
  · rfl

@[simp] theorem result_setKind (b : Arena) (id i : NodeId) (k : Kind) : (b.setKind id k).result i = b.result i := by
  rw [result, node, getElem?_setKind, result, node]
  by_cases h : id = i
  · rw [if_pos h]
    cases b.nodes[i]? <;> rfl
  · rw [if_neg h]

-- ---------------------------------------------------------------------------
-- Nodes apart from some
-- ---------------------------------------------------------------------------

/-- The arenas have the same nodes, except for some. -/
def SameBut (ids : List NodeId) (b b' : Arena) : Prop := ∀ i ∉ ids, b'.nodes[i]? = b.nodes[i]?

variable {ids ids' : List NodeId}

theorem SameBut.refl (ids : List NodeId) (b : Arena) : SameBut ids b b := fun _ _ => rfl

theorem SameBut.trans (h : SameBut ids b b') (h' : SameBut ids b' b'') : SameBut ids b b'' :=
  fun i hi => (h' i hi).trans (h i hi)

theorem SameBut.mono (hsub : ids ⊆ ids') (h : SameBut ids b b') : SameBut ids' b b' :=
  fun i hi => h i fun hmem => hi (hsub hmem)

theorem sameBut_setKind (hid : id ∈ ids) : SameBut ids b (b.setKind id k) := by
  intro i hi
  rw [getElem?_setKind, if_neg (by rintro rfl; exact hi hid)]

theorem sameBut_setResult (hid : id ∈ ids) : SameBut ids b (b.setResult id v) := by
  intro i hi
  rw [getElem?_setResult, if_neg (by rintro rfl; exact hi hid)]

-- ---------------------------------------------------------------------------
-- Cells
-- ---------------------------------------------------------------------------

/-- The arena has a node of which the cell tells all but what evaluations have left in it. -/
def Has (b : Arena) (cell : NodeId × Node) : Prop := ∃ n, b.nodes[cell.1]? = some n ∧ n.forget = cell.2

theorem Has.same {cell : NodeId × Node} (h : b.Has cell) (hsame : SameBut ids b b') (hid : cell.1 ∉ ids) :
    b'.Has cell := by
  obtain ⟨n, hn, hforget⟩ := h
  exact ⟨n, (hsame _ hid).trans hn, hforget⟩

/-- The node of an expression or a statement has the kind. -/
structure Owns (b : Arena) (info : NodeInfo) (k : Kind) : Prop where
  node : ∃ result, b.nodes[info.id]? = some ⟨k, info.span, info.type?, info.storage, result⟩

variable {info : NodeInfo}

theorem Owns.same (h : b.Owns info k) (hsame : SameBut ids b b') (hid : info.id ∉ ids) : b'.Owns info k := by
  obtain ⟨result, hn⟩ := h
  exact ⟨result, (hsame _ hid).trans hn⟩

theorem Owns.setKind (h : b.Owns info k) (k' : Kind) : (b.setKind info.id k').Owns info k' := by
  obtain ⟨result, hn⟩ := h
  exact ⟨result, by rw [getElem?_setKind, if_pos rfl, hn]; rfl⟩

theorem Owns.setResult (h : b.Owns info k) (v : Value) : (b.setResult info.id v).Owns info k := by
  obtain ⟨result, hn⟩ := h
  exact ⟨v, by rw [getElem?_setResult, if_pos rfl, hn]; rfl⟩

theorem Owns.has (h : b.Owns info k) (hk : k.isLiteral = false) : b.Has (info.cell k.forget) := by
  obtain ⟨result, hn⟩ := h
  refine ⟨_, hn, ?_⟩
  cases k <;> first | rfl | cases hk

theorem Has.owns (h : b.Has (info.cell k)) (hk : k.isLiteral = false) : ∃ k', k'.forget = k ∧ b.Owns info k' := by
  obtain ⟨⟨k', span, type?, storage, result⟩, hn, hforget⟩ := h
  obtain ⟨rfl, rfl, rfl, rfl, -⟩ := Node.mk.inj hforget
  exact ⟨k', rfl, result, hn⟩

/-- Putting back the kind of a node that has been moved out changes nothing. -/
theorem Owns.setKind_self (h : b.Owns info k) : b.setKind info.id k = b := by
  obtain ⟨result, hn⟩ := h
  have hnodes : b.nodes.modify info.id ({ · with kind := k }) = b.nodes := by
    ext i hi hi' : 1
    · simp
    · rw [Array.getElem_modify]
      split
      · next h =>
        subst h
        have := (Array.getElem?_eq_some_iff.mp hn).2
        rw [this]
      · rfl
  rw [Arena.setKind, hnodes]

theorem Owns.span (h : b.Owns info k) : b.span info.id = info.span := by
  obtain ⟨result, hn⟩ := h
  rw [Arena.span, hn]
  rfl

end Arena

-- ---------------------------------------------------------------------------
-- The nodes of a statement
-- ---------------------------------------------------------------------------

/-- The nodes below that of the expression. -/
def Expr.innerCells : Expr → List (NodeId × Node)
  | .literal .. => []
  | .var _ _ indexes => cellsOfAll indexes
  | .unary _ _ e => e.cells
  | .binary _ _ l r => l.cells ++ r.cells
  | .call _ _ _ args _ _ => cellsOfAll args

theorem Expr.cells_eq (e : Expr) : e.cells = e.innerCells ++ [e.info.cell e.nodeKind] := by
  cases e <;> rw [cells] <;> rfl

/-- Nodes with identifiers of their own, which a step can all have on its way down. -/
structure Fits (depth : Nat) (cells : List (NodeId × Node)) : Prop where
  depth : cells.length ≤ depth
  distinct : (cells.map (·.1)).Nodup

theorem Fits.mono {depth : Nat} {cells cells' : List (NodeId × Node)} (h : Fits depth cells)
    (hsub : cells'.Sublist cells) : Fits depth cells' :=
  ⟨Nat.le_trans hsub.length_le h.depth, (hsub.map _).nodup h.distinct⟩

namespace Stmt

/-- The nodes below that of the statement. -/
def innerCells : Stmt → List (NodeId × Node)
  | .eval e => e.innerCells
  | .assign _ target value => target.cells ++ value.cells
  | .block _ statements => cellsOfAll statements
  | .ifThen _ branches otherwise => cellsOfBranches branches ++ cellsOfOption otherwise
  | .case _ selector arms otherwise => selector.cells ++ cellsOfArms arms ++ cellsOfOption otherwise
  | .forLoop _ control start stop step body => Expr.cellsOfAll ([control, start, stop] ++ step.toList) ++ body.cells
  | .whileLoop _ condition body => condition.cells ++ body.cells
  | .repeatLoop _ body condition => body.cells ++ condition.cells
  | .exit _ | .ret _ => []

theorem cells_eq (s : Stmt) : s.cells = s.innerCells ++ [s.info.cell s.nodeKind] := by
  cases s with
  | eval e =>
    rw [cells]
    exact e.cells_eq
  | _ => rw [cells]; rfl

/-- The identifiers of the nodes of the statement. -/
def ids (s : Stmt) : List NodeId := s.cells.map (·.1)

theorem nodeId_mem_ids (s : Stmt) : s.nodeId ∈ s.ids := by
  rw [ids, cells_eq, List.map_append]
  exact List.mem_append_right _ (List.mem_singleton_self _)

theorem id_mem_ids {s : Stmt} {cell : NodeId × Node} (h : cell ∈ s.innerCells) : cell.1 ∈ s.ids := by
  rw [ids, cells_eq, List.map_append]
  exact List.mem_append_left _ (List.mem_map_of_mem h)

/-- A step of the node leaves what the nodes below it need. -/
theorem exists_fits {s : Stmt} {depth : Nat} (h : Fits depth s.cells) :
    ∃ left, depth = left + 1 ∧ Fits left s.innerCells := by
  have hdepth := h.depth
  rw [cells_eq, List.length_append, List.length_singleton] at hdepth
  have hdistinct := h.distinct
  rw [cells_eq, List.map_append] at hdistinct
  exact ⟨depth - 1, by omega, by omega, hdistinct.of_append_left⟩

/-- The statement is directly part of another one, and shares no node with what is left of it. -/
structure Part (c s : Stmt) : Prop where
  inner : c.cells ⊆ s.innerCells
  distinct : s.ids.Nodup

namespace Part

variable {c s : Stmt}

theorem cells_subset (h : Part c s) : c.cells ⊆ s.cells := by
  rw [s.cells_eq]
  exact fun cell hcell => List.mem_append_left _ (h.inner hcell)

theorem ids_subset (h : Part c s) : c.ids ⊆ s.ids := List.map_subset _ h.cells_subset

theorem not_mem (h : Part c s) : s.nodeId ∉ c.ids := by
  intro hmem
  obtain ⟨cell, hcell, hid⟩ := List.mem_map.mp hmem
  have hdistinct := h.distinct
  rw [ids, cells_eq, List.map_append] at hdistinct
  exact (List.nodup_append.mp hdistinct).2.2 _ (List.mem_map_of_mem (h.inner hcell)) s.nodeId
    (List.mem_singleton_self _) hid

theorem nodeId_ne (h : Part c s) : c.nodeId ≠ s.nodeId := fun heq => h.not_mem (heq ▸ c.nodeId_mem_ids)

/-- A node of the whole with the identifier of one of the part is that node. -/
theorem mem_of_id (h : Part c s) {cell : NodeId × Node} (hcell : cell ∈ s.innerCells) (hid : cell.1 ∈ c.ids) :
    cell ∈ c.cells := by
  obtain ⟨other, hother, heq⟩ := List.mem_map.mp hid
  have hmem : cell ∈ s.cells := by
    rw [s.cells_eq]
    exact List.mem_append_left _ hcell
  obtain rfl := List.inj_on_of_nodup_map h.distinct (h.cells_subset hother) hmem heq
  exact hother

end Part

end Stmt

-- ---------------------------------------------------------------------------
-- Nodes at rest
-- ---------------------------------------------------------------------------

namespace Arena

variable {b b' : Arena} {s c : Stmt} {k k' : Kind} {ids : List NodeId}

/-- The nodes of the statement are in their start states. -/
def Holds (b : Arena) (s : Stmt) : Prop := ∀ cell ∈ s.cells, b.Has cell

/-- The nodes below that of the statement are in their start states, and its node has the kind. -/
structure Rests (b : Arena) (s : Stmt) (k : Kind) : Prop where
  inner : ∀ cell ∈ s.innerCells, b.Has cell
  owns : b.Owns s.info k

/-- The nodes around a part of the statement are in their start states, and the node of the statement has the kind. -/
structure Around (b : Arena) (s : Stmt) (k : Kind) (c : Stmt) : Prop where
  part : c.Part s
  inner : ∀ cell ∈ s.innerCells, cell.1 ∉ c.ids → b.Has cell
  owns : b.Owns s.info k

theorem Holds.same (h : b.Holds s) (hsame : SameBut ids b b') (hids : ∀ i ∈ s.ids, i ∉ ids) : b'.Holds s :=
  fun cell hcell => (h cell hcell).same hsame (hids _ (List.mem_map_of_mem hcell))

theorem Holds.rests (h : b.Holds s) (hs : s.nodeKind.isLiteral = false) : ∃ k, k.forget = s.nodeKind ∧ b.Rests s k := by
  rw [Holds, Stmt.cells_eq] at h
  obtain ⟨hinner, hown⟩ := List.forall_mem_append.mp h
  obtain ⟨k, hk, howns⟩ := (hown _ (List.mem_singleton_self _)).owns hs
  exact ⟨k, hk, hinner, howns⟩

theorem Holds.rests_plain (h : b.Holds s) (hs : s.nodeKind.isPlain = true) : b.Rests s s.nodeKind := by
  obtain ⟨k, hk, hrests⟩ := h.rests (Kind.isLiteral_of_isPlain hs)
  rwa [Kind.eq_of_forget hk hs] at hrests

theorem Rests.holds (h : b.Rests s k) (hk : k.forget = s.nodeKind) (hs : s.nodeKind.isLiteral = false) : b.Holds s := by
  rw [Holds, Stmt.cells_eq]
  refine List.forall_mem_append.mpr ⟨h.inner, List.forall_mem_singleton.mpr ?_⟩
  rw [← hk]
  exact h.owns.has (by rw [← Kind.isLiteral_forget, hk]; exact hs)

theorem Rests.part (h : b.Rests s k) (hc : c.Part s) : b.Holds c := fun cell hcell => h.inner cell (hc.inner hcell)

theorem Rests.around (h : b.Rests s k) (hc : c.Part s) : b.Around s k c :=
  ⟨hc, fun cell hcell _ => h.inner cell hcell, h.owns⟩

theorem Rests.span (h : b.Rests s k) : b.span s.nodeId = s.info.span := h.owns.span

theorem Rests.same (h : b.Rests s k) (hsame : SameBut ids b b') (hids : ∀ i ∈ s.ids, i ∉ ids) : b'.Rests s k :=
  ⟨fun _ hcell => (h.inner _ hcell).same hsame (hids _ (Stmt.id_mem_ids hcell)),
    h.owns.same hsame (hids _ s.nodeId_mem_ids)⟩

theorem Around.same (h : b.Around s k c) (hsame : SameBut ids b b') (hids : ∀ i ∈ s.ids, i ∉ ids) : b'.Around s k c :=
  ⟨h.part, fun _ hcell hid => (h.inner _ hcell hid).same hsame (hids _ (Stmt.id_mem_ids hcell)),
    h.owns.same hsame (hids _ s.nodeId_mem_ids)⟩

/-- What is done to the part does not concern what is around it. -/
theorem Around.apart (h : b.Around s k c) (hsame : SameBut c.ids b b') : b'.Around s k c :=
  ⟨h.part, fun cell hcell hid => (h.inner cell hcell hid).same hsame hid, h.owns.same hsame h.part.not_mem⟩

/-- When the part has come to rest, so has the statement around it. -/
theorem Around.rests (h : b.Around s k c) (hsame : SameBut c.ids b b') (hholds : b'.Holds c) : b'.Rests s k := by
  refine ⟨fun cell hcell => ?_, h.owns.same hsame h.part.not_mem⟩
  by_cases hid : cell.1 ∈ c.ids
  · exact hholds cell (h.part.mem_of_id hcell hid)
  · exact (h.inner cell hcell hid).same hsame hid

/-- The nodes below that of a statement have other identifiers. -/
theorem inner_ne (hs : s.ids.Nodup) {cell : NodeId × Node} (hcell : cell ∈ s.innerCells) : cell.1 ≠ s.nodeId := by
  rw [Stmt.ids, Stmt.cells_eq, List.map_append] at hs
  exact (List.nodup_append.mp hs).2.2 _ (List.mem_map_of_mem hcell) _ (List.mem_singleton_self _)

theorem Rests.setKind (h : b.Rests s k) (hs : s.ids.Nodup) (k' : Kind) : (b.setKind s.nodeId k').Rests s k' := by
  refine ⟨fun cell hcell => (h.inner cell hcell).same (sameBut_setKind (List.mem_singleton_self _)) ?_, h.owns.setKind k'⟩
  exact fun hmem => inner_ne hs hcell (List.mem_singleton.mp hmem)

theorem Rests.setResult (h : b.Rests s k) (hs : s.ids.Nodup) (v : Value) : (b.setResult s.nodeId v).Rests s k := by
  refine ⟨fun cell hcell => ?_, h.owns.setResult v⟩
  refine (h.inner cell hcell).same (sameBut_setResult (List.mem_singleton_self _)) ?_
  exact fun hmem => inner_ne hs hcell (List.mem_singleton.mp hmem)

end Arena

end StructuredText
