-- SUMMARY: The bodies of linked units and of queries have nodes of their own, so arenas hold them.
import StructuredText.Machine.Controller
import StructuredText.Proofs.CompleteBodies
import StructuredText.Proofs.Identifiers
import StructuredText.Proofs.Parsed
import StructuredText.Proofs.Rewound

/-!
# Distinct nodes

A body is built with a new identifier for each of its nodes. Linking and preparing it gives no identifier to a second
node, so that an arena can hold the nodes of the body, each one at its identifier.
-/

namespace StructuredText

-- ---------------------------------------------------------------------------
-- Bodies that are built
-- ---------------------------------------------------------------------------

namespace Expr

mutual

/-- The tree of the nodes has the nodes of the arena, in the same order. -/
theorem map_entries : (e : Expr) → e.nodeTree.entries.map (·.id) = e.cells.map (·.1)
  | .literal .. => by rw [nodeTree, NodeTree.entries, cells]; rfl
  | .var info path indexes => by
    rw [nodeTree, NodeTree.entries, cells, List.map_append, List.map_append, map_entriesOfAll]
    rfl
  | .unary info op e => by
    rw [nodeTree, NodeTree.entries, NodeTree.entriesOfAll_singleton, cells, List.map_append, List.map_append, map_entries]
    rfl
  | .binary info op l r => by
    rw [nodeTree, NodeTree.entries, NodeTree.entriesOfAll, NodeTree.entriesOfAll_singleton, cells]
    simp only [List.map_append, map_entries]
    rfl
  | .call info name labels args callee bindings => by
    rw [nodeTree, NodeTree.entries, cells, List.map_append, List.map_append, map_entriesOfAll]
    rfl

theorem map_entriesOfAll : (es : List Expr) →
    (NodeTree.entriesOfAll (nodeTrees es)).map (·.id) = (cellsOfAll es).map (·.1)
  | [] => by rw [nodeTrees, NodeTree.entriesOfAll, cellsOfAll]; rfl
  | e :: es => by
    rw [nodeTrees, NodeTree.entriesOfAll, cellsOfAll, List.map_append, List.map_append, map_entries, map_entriesOfAll]

end

end Expr

namespace Stmt

open NodeTree (entriesOfAll)

mutual

theorem map_entries : (s : Stmt) → s.nodeTree.entries.map (·.id) = s.ids
  | .eval e => by rw [nodeTree, e.map_entries, ids, cells]
  | .assign info target value => by
    rw [nodeTree, NodeTree.entries, NodeTree.entriesOfAll, NodeTree.entriesOfAll_singleton, ids, cells]
    simp only [List.map_append, Expr.map_entries]
    rfl
  | .block info statements => by
    rw [nodeTree, NodeTree.entries, ids, cells]
    simp only [List.map_append, map_entriesOfAll]
    rfl
  | .ifThen info branches none => by
    rw [nodeTree, NodeTree.entries, ids, cells, cellsOfOption]
    simp only [List.append_nil, List.map_append, map_entriesOfBranches]
    rfl
  | .ifThen info branches (some s) => by
    rw [nodeTree, NodeTree.entries, ids, cells, cellsOfOption]
    simp only [List.map_append, NodeTree.entriesOfAll_append, NodeTree.entriesOfAll_singleton, map_entriesOfBranches,
      map_entries]
    rfl
  | .case info selector arms none => by
    rw [nodeTree, NodeTree.entries, ids, cells, cellsOfOption]
    simp only [List.append_nil, List.map_append, entriesOfAll, Expr.map_entries, map_entriesOfArms]
    rfl
  | .case info selector arms (some s) => by
    rw [nodeTree, NodeTree.entries, ids, cells, cellsOfOption]
    simp only [List.cons_append, List.map_append, entriesOfAll, NodeTree.entriesOfAll_append, Expr.map_entries,
      map_entriesOfArms, map_entries, List.append_assoc]
    rfl
  | .forLoop info control start stop step body => by
    rw [nodeTree, NodeTree.entries, ids, cells]
    simp only [List.map_append, NodeTree.entriesOfAll_append, NodeTree.entriesOfAll_singleton, Expr.map_entriesOfAll,
      map_entries]
    rfl
  | .whileLoop info condition body => by
    rw [nodeTree, NodeTree.entries, NodeTree.entriesOfAll, NodeTree.entriesOfAll_singleton, ids, cells]
    simp only [List.map_append, Expr.map_entries, map_entries]
    rfl
  | .repeatLoop info body condition => by
    rw [nodeTree, NodeTree.entries, NodeTree.entriesOfAll, NodeTree.entriesOfAll_singleton, ids, cells]
    simp only [List.map_append, Expr.map_entries, map_entries]
    rfl
  | .exit info => by rw [nodeTree, NodeTree.entries, ids, cells]; rfl
  | .ret info => by rw [nodeTree, NodeTree.entries, ids, cells]; rfl

theorem map_entriesOfAll : (ss : List Stmt) → (entriesOfAll (nodeTrees ss)).map (·.id) = (cellsOfAll ss).map (·.1)
  | [] => by rw [nodeTrees, entriesOfAll, cellsOfAll]; rfl
  | s :: ss => by
    rw [nodeTrees, entriesOfAll, cellsOfAll, List.map_append, List.map_append, map_entries, map_entriesOfAll, ids]

theorem map_entriesOfBranches : (branches : List (Expr × Stmt)) →
    (entriesOfAll (treesOfBranches branches)).map (·.id) = (cellsOfBranches branches).map (·.1)
  | [] => by rw [treesOfBranches, entriesOfAll, cellsOfBranches]; rfl
  | (condition, s) :: rest => by
    rw [treesOfBranches, entriesOfAll, entriesOfAll, cellsOfBranches]
    simp only [List.map_append, Expr.map_entries, map_entries, map_entriesOfBranches, ids, List.append_assoc]

theorem map_entriesOfArms : (arms : List (List CaseLabel × Stmt)) →
    (entriesOfAll (treesOfArms arms)).map (·.id) = (cellsOfArms arms).map (·.1)
  | [] => by rw [treesOfArms, entriesOfAll, cellsOfArms]; rfl
  | (labels, s) :: rest => by
    rw [treesOfArms, NodeTree.entriesOfAll_append, entriesOfAll, cellsOfArms]
    simp only [List.map_append, Expr.map_entriesOfAll, map_entries, map_entriesOfArms, ids, List.append_assoc]

end

end Stmt

/-- A body that is built by itself has nodes of its own. -/
theorem Body.Grows.distinct {m : Drafting Stmt} (h : Grows [] m fun s => [s.nodeTree]) : (m {}).1.ids.Nodup := by
  rw [← Stmt.map_entries, h.isTree.2.numbered]
  exact List.nodup_range

-- ---------------------------------------------------------------------------
-- Units that are built
-- ---------------------------------------------------------------------------

/-- A unit as it is built: nothing in it is linked, and the nodes of each body have identifiers of their own. -/
structure CompilationUnit.Built (u : CompilationUnit) : Prop extends u.Fresh where
  distinct : ∀ p ∈ u.pous, p.body.ids.Nodup

theorem distinct_of_parseUnit {source : String} {file : FileId} {u : CompilationUnit} (h : parseUnit source file = .ok u) :
    ∀ p ∈ u.pous, p.body.ids.Nodup := by
  obtain ⟨elements, problems, -, rfl⟩ := elements_of_parseUnit h
  intro p hp
  have hbuilt := List.mem_map_of_mem (f := fun p => (p.body, p.pools)) hp
  rw [CompilationUnit.bodies_ofElements] at hbuilt
  obtain ⟨t, -, hbuilt⟩ := List.mem_map.mp hbuilt
  have hbody : (Body.ofStatements t.body t.name.span).1 = p.body := congrArg Prod.fst hbuilt
  rw [← hbody]
  exact (Body.statementsBody_grows t.body t.name.span).distinct

/-- What is parsed is built. -/
theorem built_of_parseUnit {source : String} {file : FileId} {u : CompilationUnit} (h : parseUnit source file = .ok u) :
    u.Built := ⟨fresh_of_parseUnit h, distinct_of_parseUnit h⟩

theorem distinct_of_parseQuery {text : String} {q : Query} (h : parseQuery text = .ok q) : q.body.ids.Nodup := by
  obtain ⟨tree, -, rfl⟩ := tree_of_parseQuery h
  exact (Body.queryBody_grows tree).distinct

-- ---------------------------------------------------------------------------
-- Linked bodies
-- ---------------------------------------------------------------------------

theorem Link.NamesLinked.trims {body body' : Stmt} (h : Link.NamesLinked body body') (hbody : body.ids.Nodup) :
    body.Trims body' := by
  obtain ⟨l, pou, pool, l', pou', pool', rfl⟩ := h
  have hvariables := Link.trims_linkVariables l pou pool hbody
  exact hvariables.trans (Link.trims_linkCalls l' pou' pool' (hvariables.nodup hbody))

/-- In a library that is linked from units as they are built, the nodes of each body have identifiers of their own. -/
theorem distinct_of_link {units : List CompilationUnit} {options : Options} {l : Library}
    (hunits : ∀ u ∈ units, u.Built) (h : link units options = .ok l) : ∀ p ∈ l.pous, p.body.ids.Nodup := by
  obtain ⟨l₀, -, -, hlinked, hprepare⟩ := Link.unprepared_of_stages (fun u hu => (hunits u hu).toFresh) (stages_of_link h)
  obtain ⟨pous, rfl, hprepared⟩ := Link.forall₂_of_prepareBodies hprepare
  intro p' hp'
  obtain ⟨p, hp, body, hbody, rfl⟩ := TypeTable.exists_of_mem_right hprepared hp'
  obtain ⟨u, hu, p₀, hp₀, hnames⟩ := hlinked p hp
  have hdistinct := (hunits u hu).distinct p₀ hp₀
  exact ((hnames.trims hdistinct).trans (Body.trims_of_prepare hbody)).nodup hdistinct

/-- A query that has been prepared has nodes of its own, too. -/
theorem distinct_of_prepareQuery {l : Library} {epsilon : Float} {q : Query} {prepared : Stmt} (hq : q.body.ids.Nodup)
    (h : Interpreter.prepareQuery l epsilon q = .ok prepared) : prepared.ids.Nodup := by
  unfold Interpreter.prepareQuery at h
  have htrims₁ := Link.trims_linkVariables l none q.pools.vars hq
  generalize Link.linkVariables l none q.pools.vars q.body = linked₁ at htrims₁ h
  obtain ⟨q₁, hvariables, h⟩ := Except.bind_eq_ok.mp h
  obtain ⟨-, rfl⟩ := Link.finish_eq_ok.mp hvariables
  have htrims₂ := Link.trims_linkCalls l none q.pools.calls (htrims₁.nodup hq)
  generalize Link.linkCalls l none q.pools.calls linked₁.2 = linked₂ at htrims₂ h
  obtain ⟨q₂, hcalls, h⟩ := Except.bind_eq_ok.mp h
  obtain ⟨-, rfl⟩ := Link.finish_eq_ok.mp hcalls
  split at h
  · cases h
  · exact ((htrims₁.trans htrims₂).trans (Body.trims_of_prepare h)).nodup hq

-- ---------------------------------------------------------------------------
-- Bodies in arenas
-- ---------------------------------------------------------------------------

/-- The nodes of the arena are those of the body, wherever its execution has come to. -/
structure Arena.Fills (b : Arena) (s : Stmt) : Prop where
  root : b.root = some s.nodeId
  size : s.cells.length ≤ b.nodes.size
  rewinds : b.reset.Holds s

theorem lookup_of_mem {cells : List (NodeId × Node)} (hdistinct : (cells.map (·.1)).Nodup) {cell : NodeId × Node}
    (hcell : cell ∈ cells) : cells.lookup cell.1 = some cell.2 := by
  induction cells with
  | nil => cases hcell
  | cons first rest ih =>
    rw [List.map_cons, List.nodup_cons] at hdistinct
    rcases List.mem_cons.mp hcell with rfl | hrest
    · exact List.lookup_cons_self
    · have hne : cell.1 ≠ first.1 := fun heq => hdistinct.1 (heq ▸ List.mem_map_of_mem hrest)
      rw [List.lookup_cons, beq_false_of_ne hne]
      exact ih hdistinct.2 hrest

theorem le_foldr_max {is : List Nat} {i : Nat} (hi : i ∈ is) : i ≤ is.foldr max 0 := by
  induction is with
  | nil => cases hi
  | cons first rest ih =>
    rw [List.foldr_cons]
    rcases List.mem_cons.mp hi with rfl | hrest
    · exact Nat.le_max_left _ _
    · exact Nat.le_trans (ih hrest) (Nat.le_max_right _ _)

namespace Arena

variable {b b' : Arena} {s : Stmt}

/-- Every identifier of the body is one of the arena. -/
theorem lt_size_ofStmt {i : NodeId} (hi : i ∈ s.ids) : i < (ofStmt s).nodes.size := by
  rw [ofStmt, Array.size_ofFn]
  exact Nat.lt_succ_of_le (le_foldr_max hi)

/-- A new arena is at the start of the body. -/
theorem holds_ofStmt (hs : s.ids.Nodup) : (ofStmt s).Holds s := by
  intro cell hcell
  have hlt := lt_size_ofStmt (List.mem_map_of_mem (f := Prod.fst) hcell)
  refine ⟨cell.2, ?_, ?_⟩
  · rw [Array.getElem?_eq_getElem hlt]
    simp only [ofStmt, Array.getElem_ofFn, lookup_of_mem hs hcell, Option.getD_some]
  · rw [← s.shape_of_mem_cells cell hcell, Node.forget_shape]

theorem fills_ofStmt (hs : s.ids.Nodup) : (ofStmt s).Fills s := by
  refine ⟨rfl, ?_, (holds_ofStmt hs).reset⟩
  have hsub : s.ids ⊆ List.range (ofStmt s).nodes.size := fun i hi => List.mem_range.mpr (lt_size_ofStmt hi)
  have hle := (List.subperm_of_subset hs hsub).length_le
  rwa [List.length_range, Stmt.ids, List.length_map] at hle

/-- Steps leave the nodes of a body those of the body. -/
theorem Fills.of_shape (h : b.Fills s) (hshape : b'.shape = b.shape) : b'.Fills s :=
  ⟨(root_of_shape hshape).trans h.root, size_of_shape hshape ▸ h.size, reset_holds hshape h.rewinds⟩

theorem Fills.reset (h : b.Fills s) : b.reset.Fills s := h.of_shape b.shape_reset

/-- A step can go down to any node of the body. -/
theorem Fills.fits (h : b.Fills s) (hs : s.ids.Nodup) : Fits (b.nodes.size + 1) s.cells :=
  ⟨Nat.le_succ_of_le h.size, hs⟩

end Arena

end StructuredText
