-- SUMMARY: The nodes of a body as a tree, numbered without a gap in the order in which they are completed.
import Mathlib.Data.List.Nodup
import Mathlib.Data.List.Pairwise
import Mathlib.Logic.ExistsUnique
import Mathlib.Logic.Relation
import StructuredText.Proofs.Numbered

/-!
# Trees of nodes

A body is built node by node, and what is built so far is a forest whose nodes have the identifiers from zero on, in the
order in which they were completed. A node takes the last trees of the forest as its parts. So the body is a tree: a
part has a smaller identifier than the node that it is part of, each node but the root is part of one node, and no
identifier is handed out to a node that is not in the tree.
-/

namespace StructuredText

/-- The nodes of a body as a tree. The node of a statement has no expression. -/
inductive NodeTree where
  | node (id : NodeId) (expr? : Option Expr) (parts : List NodeTree)

namespace NodeTree

def id : NodeTree → NodeId
  | .node id _ _ => id

/-- A node with the identifiers of the nodes that are directly part of it. -/
structure Entry where
  id : NodeId
  expr? : Option Expr
  children : List NodeId

mutual

/-- The nodes of the tree, each one after the nodes that are part of it. -/
def entries : NodeTree → List Entry
  | .node id expr? parts => entriesOfAll parts ++ [⟨id, expr?, parts.map NodeTree.id⟩]

def entriesOfAll : List NodeTree → List Entry
  | [] => []
  | t :: ts => t.entries ++ entriesOfAll ts

end

@[simp] theorem entriesOfAll_append (ts ts' : List NodeTree) :
    entriesOfAll (ts ++ ts') = entriesOfAll ts ++ entriesOfAll ts' := by
  induction ts with
  | nil => simp [entriesOfAll]
  | cons t ts ih => simp [entriesOfAll, ih]

@[simp] theorem entriesOfAll_singleton (t : NodeTree) : entriesOfAll [t] = t.entries := by simp [entriesOfAll]

/-- A node of which another one is directly part. -/
def Parent (entries : List Entry) (parent child : NodeId) : Prop :=
  ∃ e ∈ entries, e.id = parent ∧ child ∈ e.children

theorem Parent.mono {entries entries' : List Entry} (hsub : entries ⊆ entries') {parent child : NodeId}
    (h : Parent entries parent child) : Parent entries' parent child := by
  obtain ⟨e, he, h⟩ := h
  exact ⟨e, hsub he, h⟩

theorem reached_mono {entries entries' : List Entry} (hsub : entries ⊆ entries') {root id : NodeId}
    (h : Relation.ReflTransGen (Parent entries) root id) : Relation.ReflTransGen (Parent entries') root id :=
  Relation.ReflTransGen.mono (fun _ _ => Parent.mono hsub) _ _ h

/-- The nodes with the identifiers up to that of the root form a tree below the root. -/
structure IsTree (root : NodeId) (entries : List Entry) : Prop where
  numbered : entries.map (·.id) = List.range (root + 1)
  smaller : ∀ e ∈ entries, ∀ child ∈ e.children, child < e.id
  parent : ∀ id < root, ∃! parent, Parent entries parent id
  once : ∀ e ∈ entries, e.children.Nodup
  reached : ∀ id ≤ root, Relation.ReflTransGen (Parent entries) root id

-- ---------------------------------------------------------------------------
-- Forests
-- ---------------------------------------------------------------------------

theorem id_mem_entries (t : NodeTree) : t.id ∈ t.entries.map (·.id) := by
  cases t
  simp [entries, id]

theorem ids_subset (ts : List NodeTree) : ts.map id ⊆ (entriesOfAll ts).map (·.id) := by
  induction ts with
  | nil => simp
  | cons t ts ih =>
    rw [List.map_cons, entriesOfAll, List.map_append]
    exact List.cons_subset.mpr ⟨List.mem_append_left _ t.id_mem_entries, fun _ h => List.mem_append_right _ (ih h)⟩

mutual

/-- Each node of a tree is its root or part of one node, as often as the identifier is used. -/
theorem children_perm : (t : NodeTree) → (t.entries.flatMap (·.children) ++ [t.id]).Perm (t.entries.map (·.id))
  | .node id expr? parts => by
    simpa [entries, NodeTree.id] using (childrenOfAll_perm parts).append_right [id]

theorem childrenOfAll_perm : (ts : List NodeTree) →
    ((entriesOfAll ts).flatMap (·.children) ++ ts.map id).Perm ((entriesOfAll ts).map (·.id))
  | [] => by simp [entriesOfAll]
  | t :: ts => by
    have hfirst := children_perm t
    have hrest := childrenOfAll_perm ts
    simp only [entriesOfAll, List.flatMap_append, List.map_append, List.map_cons]
    refine List.Perm.trans ?_ (hfirst.append hrest)
    rw [List.append_assoc, List.append_assoc]
    refine List.Perm.append_left _ ?_
    exact List.perm_middle

end

mutual

/-- If the identifiers increase in the order of completion, a part has a smaller one than the node it is part of. -/
theorem smaller_of_increasing : (t : NodeTree) → (t.entries.map (·.id)).Pairwise (· < ·) →
    ∀ e ∈ t.entries, ∀ child ∈ e.children, child < e.id
  | .node id expr? parts, h => by
    rw [entries, List.map_append, List.map_singleton, List.pairwise_append] at h
    intro e he child hchild
    rw [entries, List.mem_append, List.mem_singleton] at he
    obtain he | rfl := he
    · exact smallerOfAll_of_increasing parts h.1 e he child hchild
    · exact h.2.2 child (ids_subset parts hchild) id (List.mem_singleton_self id)

theorem smallerOfAll_of_increasing : (ts : List NodeTree) → ((entriesOfAll ts).map (·.id)).Pairwise (· < ·) →
    ∀ e ∈ entriesOfAll ts, ∀ child ∈ e.children, child < e.id
  | [], _ => by simp [entriesOfAll]
  | t :: ts, h => by
    rw [entriesOfAll, List.map_append, List.pairwise_append] at h
    intro e he
    rw [entriesOfAll, List.mem_append] at he
    obtain he | he := he
    · exact smaller_of_increasing t h.1 e he
    · exact smallerOfAll_of_increasing ts h.2.1 e he

end

mutual

/-- Every node of a tree is reached from its root. -/
theorem reached_of_mem : (t : NodeTree) → ∀ e ∈ t.entries, Relation.ReflTransGen (Parent t.entries) t.id e.id
  | .node id expr? parts => by
    intro e he
    rw [entries, List.mem_append, List.mem_singleton] at he
    obtain he | rfl := he
    · obtain ⟨part, hpart, hreached⟩ := reached_of_mem_all parts e he
      have hparent : Parent (NodeTree.node id expr? parts).entries id part.id :=
        ⟨⟨id, expr?, parts.map NodeTree.id⟩, by simp [entries], rfl, List.mem_map_of_mem hpart⟩
      refine .head hparent (reached_mono ?_ hreached)
      rw [entries]
      exact List.subset_append_left _ _
    · exact .refl

theorem reached_of_mem_all : (ts : List NodeTree) → ∀ e ∈ entriesOfAll ts,
    ∃ t ∈ ts, Relation.ReflTransGen (Parent (entriesOfAll ts)) t.id e.id
  | [] => by simp [entriesOfAll]
  | t :: ts => by
    intro e he
    rw [entriesOfAll, List.mem_append] at he
    obtain he | he := he
    · exact ⟨t, List.mem_cons_self, reached_mono (List.subset_append_left _ _) (reached_of_mem t e he)⟩
    · obtain ⟨t', ht', hreached⟩ := reached_of_mem_all ts e he
      exact ⟨t', List.mem_cons_of_mem t ht', reached_mono (List.subset_append_right _ _) hreached⟩

end

/-- A node is part of one node at most if no identifier is a child twice. -/
theorem Parent.unique {entries : List Entry} (h : (entries.flatMap (·.children)).Nodup) {parent parent' child : NodeId}
    (hparent : Parent entries parent child) (hparent' : Parent entries parent' child) : parent = parent' := by
  obtain ⟨e, he, rfl, hchild⟩ := hparent
  obtain ⟨e', he', rfl, hchild'⟩ := hparent'
  by_contra hne
  have hsymm : Std.Symm (Function.onFun List.Disjoint Entry.children) := ⟨fun _ _ h _ ha ha' => h ha' ha⟩
  have hdisjoint := (List.nodup_flatMap.mp h).2.forall he he' fun heq => hne (congrArg Entry.id heq)
  exact hdisjoint hchild hchild'

/-- The root is completed last. -/
theorem count_of_range {t : NodeTree} {count : Nat} (h : t.entries.map (·.id) = List.range count) :
    count = t.id + 1 := by
  cases t with
  | node id expr? parts =>
    rw [entries, List.map_append, List.map_singleton] at h
    cases count with
    | zero => simp at h
    | succ n =>
      rw [List.range_succ] at h
      obtain ⟨-, hlast⟩ := List.append_inj' h rfl
      exact congrArg (· + 1) (List.singleton_inj.mp hlast).symm

/-- A tree whose identifiers count its nodes in the order of completion. -/
theorem isTree_of_range {t : NodeTree} {count : Nat} (h : t.entries.map (·.id) = List.range count) :
    IsTree t.id t.entries := by
  obtain rfl := count_of_range h
  have hperm : (t.entries.flatMap (·.children) ++ [t.id]).Perm (List.range (t.id + 1)) := h ▸ t.children_perm
  obtain ⟨hchildren, -, -⟩ := List.nodup_append'.mp (hperm.nodup_iff.mpr List.nodup_range)
  refine ⟨h, smaller_of_increasing t (h ▸ List.pairwise_lt_range), fun id hid => ?_,
    fun e he => (List.nodup_flatMap.mp hchildren).1 e he, fun id hid => ?_⟩
  · have hmem : id ∈ t.entries.flatMap (·.children) ++ [t.id] :=
      hperm.symm.subset (List.mem_range.mpr (Nat.lt_succ_of_lt hid))
    have hchild : id ∈ t.entries.flatMap (·.children) :=
      (List.mem_append.mp hmem).resolve_right fun hroot => Nat.ne_of_lt hid (List.mem_singleton.mp hroot)
    obtain ⟨e, he, hchild⟩ := List.mem_flatMap.mp hchild
    exact ⟨e.id, ⟨e, he, rfl, hchild⟩, fun parent hparent => hparent.unique hchildren ⟨e, he, rfl, hchild⟩⟩
  · obtain ⟨e, he, rfl⟩ := List.mem_map.mp (h ▸ List.mem_range.mpr (Nat.lt_succ_of_le hid))
    exact reached_of_mem t e he

end NodeTree

-- ---------------------------------------------------------------------------
-- Nodes of expressions and statements
-- ---------------------------------------------------------------------------

namespace Expr

mutual

def nodeTree : Expr → NodeTree
  | .literal info v type => .node info.id (some (.literal info v type)) []
  | .var info path indexes => .node info.id (some (.var info path indexes)) (nodeTrees indexes)
  | .unary info op e => .node info.id (some (.unary info op e)) [e.nodeTree]
  | .binary info op left right => .node info.id (some (.binary info op left right)) [left.nodeTree, right.nodeTree]
  | .call info name labels args callee bindings =>
    .node info.id (some (.call info name labels args callee bindings)) (nodeTrees args)

def nodeTrees : List Expr → List NodeTree
  | [] => []
  | e :: es => e.nodeTree :: nodeTrees es

end

@[simp] theorem nodeTrees_append (es es' : List Expr) : nodeTrees (es ++ es') = nodeTrees es ++ nodeTrees es' := by
  induction es with
  | nil => rfl
  | cons e es ih => simp [nodeTrees, ih]

end Expr

namespace Stmt

mutual

/-- The node of a call is that of its expression. -/
def nodeTree : Stmt → NodeTree
  | .eval e => e.nodeTree
  | .assign info target value => .node info.id none [target.nodeTree, value.nodeTree]
  | .block info statements => .node info.id none (nodeTrees statements)
  | .ifThen info branches otherwise =>
    .node info.id none (treesOfBranches branches ++
      match otherwise with
      | some s => [s.nodeTree]
      | none => [])
  | .case info selector arms otherwise =>
    .node info.id none (selector.nodeTree :: treesOfArms arms ++
      match otherwise with
      | some s => [s.nodeTree]
      | none => [])
  | .forLoop info control start stop step body =>
    .node info.id none (Expr.nodeTrees ([control, start, stop] ++ step.toList) ++ [body.nodeTree])
  | .whileLoop info condition body => .node info.id none [condition.nodeTree, body.nodeTree]
  | .repeatLoop info body condition => .node info.id none [body.nodeTree, condition.nodeTree]
  | .exit info => .node info.id none []
  | .ret info => .node info.id none []

def nodeTrees : List Stmt → List NodeTree
  | [] => []
  | s :: ss => s.nodeTree :: nodeTrees ss

def treesOfBranches : List (Expr × Stmt) → List NodeTree
  | [] => []
  | (condition, s) :: rest => condition.nodeTree :: s.nodeTree :: treesOfBranches rest

def treesOfArms : List (List CaseLabel × Stmt) → List NodeTree
  | [] => []
  | (labels, s) :: rest => Expr.nodeTrees (labels.flatMap CaseLabel.exprs) ++ s.nodeTree :: treesOfArms rest

end

end Stmt

-- ---------------------------------------------------------------------------
-- Building trees
-- ---------------------------------------------------------------------------

namespace Body

open NodeTree (entriesOfAll)
open StructuredText.Expr (nodeTrees)

/-- The identifiers of the trees count their nodes in the order of completion. -/
def Counted (count : Nat) (trees : List NodeTree) : Prop := (entriesOfAll trees).map (·.id) = List.range count

/-- A node takes the last trees as its parts. -/
theorem Counted.node {next : NodeId} {kept taken : List NodeTree} (expr? : Option Expr)
    (h : Counted next (kept ++ taken)) : Counted (next + 1) (kept ++ [.node next expr? taken]) := by
  rw [Counted, NodeTree.entriesOfAll_append, List.map_append] at h
  simp only [Counted, NodeTree.entriesOfAll_append, NodeTree.entriesOfAll_singleton, NodeTree.entries, List.map_append]
  rw [← List.append_assoc, h, List.range_succ]
  rfl

/-- What is built after the trees, together with them, has those trees, and counts on. -/
def Grows {α : Type} (before : List NodeTree) (m : Drafting α) (after : α → List NodeTree) : Prop :=
  ∀ d : Draft, Counted d.next before → Counted (m d).2.next (after (m d).1)

namespace Grows

variable {α β : Type} {before : List NodeTree} {m : Drafting α} {after : α → List NodeTree}

theorem pure {a : α} (h : after a = before) : Grows before (Pure.pure a : Drafting α) after := by
  intro d hcount
  rw [← h] at hcount
  exact hcount

theorem bind {k : α → Drafting β} {after' : β → List NodeTree} (hm : Grows before m after)
    (hk : ∀ a, Grows (after a) (k a) after') : Grows before (m >>= k) after' := fun d hcount =>
  hk (m d).1 (m d).2 (hm d hcount)

theorem pure_bind {a : α} {k : α → Drafting β} {after : β → List NodeTree} (h : Grows before (k a) after) :
    Grows before (Pure.pure a >>= k) after := h

/-- The node of an expression. -/
theorem expr_node {m : Drafting Expr} {span : Span} {f : NodeInfo → Expr} {after : Expr → List NodeTree}
    (hm : Adds m span f) (kept taken : List NodeTree) (hbefore : before = kept ++ taken)
    (hafter : ∀ info, after (f info) = kept ++ [.node info.id (some (f info)) taken]) : Grows before m after := by
  intro d hcount
  rw [hm d, hafter]
  exact (hbefore ▸ hcount : Counted d.next (kept ++ taken)).node _

/-- The node of a statement. -/
theorem stmt_node {span : Span} {k : NodeInfo → Drafting α} (kept taken : List NodeTree)
    (hbefore : before = kept ++ taken)
    (h : ∀ info, Grows (kept ++ [.node info.id none taken]) (k info) after) :
    Grows before (node span >>= k) after := fun d hcount =>
  h ⟨d.next, span, none, .result⟩ { d with next := d.next + 1 }
    ((hbefore ▸ hcount : Counted d.next (kept ++ taken)).node none)

theorem mapM {f : α → Drafting β} {added : β → List NodeTree} {as : List α}
    (h : ∀ a ∈ as, ∀ before, Grows before (f a) fun b => before ++ added b) (before : List NodeTree) :
    Grows before (as.mapM f) fun bs => before ++ bs.flatMap added := by
  induction as generalizing before with
  | nil => exact .pure (by simp)
  | cons a as ih =>
    rw [List.mapM_cons]
    refine .bind (h a List.mem_cons_self before) fun b => ?_
    refine .bind (ih (fun a' ha => h a' (List.mem_cons_of_mem a ha)) _) fun bs => .pure ?_
    simp

end Grows

mutual

theorem expr_grows (before : List NodeTree) : (t : Tree.Expr) →
    Grows before (expr t) fun e => before ++ [e.nodeTree]
  | .constant v span => by
    rw [expr]
    exact .expr_node (adds_node fun _ _ => rfl) before [] (by simp) fun info => by rw [Expr.nodeTree]
  | .typed type v span => by
    rw [expr]
    exact .expr_node (adds_node fun _ _ => rfl) before [] (by simp) fun info => by rw [Expr.nodeTree]
  | .var p => by
    rw [expr]
    exact path_grows before p
  | .unary op t span => by
    rw [expr]
    refine .bind (expr_grows before t) fun e => ?_
    exact .expr_node (adds_node fun _ _ => rfl) before [e.nodeTree] rfl fun info => by rw [Expr.nodeTree]
  | .binary op left right span => by
    rw [expr]
    refine .bind (expr_grows before left) fun l => .bind (expr_grows _ right) fun r => ?_
    exact .expr_node (adds_node fun _ _ => rfl) before [l.nodeTree, r.nodeTree] (by simp) fun info => by rw [Expr.nodeTree]
  | .call name args span => by
    rw [expr]
    refine .bind (arguments_grows before args) fun es => ?_
    exact .expr_node (adds_addCall _ _ _ _) before (nodeTrees es) rfl fun info => by rw [Expr.nodeTree]

theorem path_grows (before : List NodeTree) : (p : Tree.Path) → Grows before (path p) fun e => before ++ [e.nodeTree]
  | .mk segments span => by
    rw [path]
    refine .bind (segmentIndexes_grows before segments) fun es => ?_
    exact .expr_node (adds_addReference _ _ _) before (nodeTrees es) rfl fun info => by rw [Expr.nodeTree]

theorem segmentIndexes_grows (before : List NodeTree) : (segments : List Tree.Segment) →
    Grows before (segmentIndexes segments) fun es => before ++ nodeTrees es
  | [] => by
    rw [segmentIndexes]
    exact .pure (by simp [nodeTrees])
  | .mk name indexes span :: rest => by
    rw [segmentIndexes]
    refine .bind (exprs_grows before indexes) fun first => .bind (segmentIndexes_grows _ rest) fun es => ?_
    exact .pure (by simp)

theorem exprs_grows (before : List NodeTree) : (ts : List Tree.Expr) →
    Grows before (exprs ts) fun es => before ++ nodeTrees es
  | [] => by
    rw [exprs]
    exact .pure (by simp [nodeTrees])
  | t :: ts => by
    rw [exprs]
    refine .bind (expr_grows before t) fun e => .bind (exprs_grows _ ts) fun es => ?_
    exact .pure (by simp [nodeTrees])

theorem arguments_grows (before : List NodeTree) : (args : List Tree.Arg) →
    Grows before (arguments args) fun es => before ++ nodeTrees es
  | [] => by
    rw [arguments]
    exact .pure (by simp [nodeTrees])
  | .mk name t output :: rest => by
    rw [arguments]
    refine .bind (expr_grows before t) fun e => .bind (arguments_grows _ rest) fun es => ?_
    exact .pure (by simp [nodeTrees])

end

theorem caseLabel_grows (before : List NodeTree) (label : Tree.CaseLabel) :
    Grows before (caseLabel label) fun l => before ++ nodeTrees l.exprs := by
  cases label with
  | value e => exact .bind (expr_grows before e) fun e => .pure (by simp [CaseLabel.exprs, nodeTrees])
  | range low high =>
    refine .bind (expr_grows before low) fun l => .bind (expr_grows _ high) fun r => ?_
    exact .pure (by simp [CaseLabel.exprs, nodeTrees])

theorem nodeTrees_flatMap {α : Type} (f : α → List Expr) (as : List α) :
    nodeTrees (as.flatMap f) = as.flatMap fun a => nodeTrees (f a) := by
  induction as with
  | nil => rfl
  | cons a as ih => simp [ih]

theorem caseLabels_grows (before : List NodeTree) (labels : List Tree.CaseLabel) :
    Grows before (labels.mapM caseLabel) fun ls => before ++ nodeTrees (ls.flatMap CaseLabel.exprs) := by
  simp only [nodeTrees_flatMap]
  exact .mapM (fun label _ before => caseLabel_grows before label) before

theorem step_grows (before : List NodeTree) (step : Option Tree.Expr) :
    Grows before (step.mapM expr) fun e => before ++ nodeTrees e.toList := by
  cases step with
  | none => exact .pure (by simp [nodeTrees])
  | some t => exact .bind (expr_grows before t) fun e => .pure (by simp [nodeTrees])

mutual

/-- A statement is one tree more. -/
theorem stmt_grows (before : List NodeTree) : (t : Tree.Stmt) →
    Grows before (stmt t) fun s => before ++ [s.nodeTree]
  | .assign target value span => by
    rw [stmt]
    refine .bind (path_grows before target) fun t => .bind (expr_grows _ value) fun v => ?_
    exact .stmt_node before [t.nodeTree, v.nodeTree] (by simp) fun info => .pure (by rw [Stmt.nodeTree])
  | .call name args span => by
    rw [stmt]
    exact .bind (expr_grows before (.call name args span)) fun e => .pure (by rw [Stmt.nodeTree])
  | .ifThen bs none span => by
    rw [stmt]
    refine .bind (branches_grows before span bs) fun bs' => .pure_bind ?_
    refine .stmt_node before (Stmt.treesOfBranches bs') rfl fun info => .pure ?_
    simp [Stmt.nodeTree.eq_def (.ifThen ..)]
  | .ifThen bs (some ss) span => by
    rw [stmt]
    refine .bind (branches_grows before span bs) fun bs' => .bind (stmts_grows _ ss) fun inner => ?_
    refine .stmt_node _ (Stmt.nodeTrees inner) rfl fun blockInfo => .pure_bind ?_
    refine .stmt_node before (Stmt.treesOfBranches bs' ++ [(Stmt.block blockInfo inner).nodeTree])
      (by simp [Stmt.nodeTree]) fun info => .pure ?_
    simp [Stmt.nodeTree]
  | .case selector as none span => by
    rw [stmt]
    refine .bind (expr_grows before selector) fun e => .bind (arms_grows _ span as) fun as' => .pure_bind ?_
    refine .stmt_node before (e.nodeTree :: Stmt.treesOfArms as') (by simp) fun info => .pure ?_
    simp [Stmt.nodeTree.eq_def (.case ..)]
  | .case selector as (some ss) span => by
    rw [stmt]
    refine .bind (expr_grows before selector) fun e => .bind (arms_grows _ span as) fun as' => ?_
    refine .bind (stmts_grows _ ss) fun inner => .stmt_node _ (Stmt.nodeTrees inner) rfl fun blockInfo => .pure_bind ?_
    refine .stmt_node before (e.nodeTree :: Stmt.treesOfArms as' ++ [(Stmt.block blockInfo inner).nodeTree])
      (by simp [Stmt.nodeTree]) fun info => .pure ?_
    simp [Stmt.nodeTree]
  | .forLoop control start stop step ss span => by
    rw [stmt]
    refine .bind (path_grows before control) fun c => .bind (expr_grows _ start) fun e => ?_
    refine .bind (expr_grows _ stop) fun e' => .bind (step_grows _ step) fun o => ?_
    refine .bind (stmts_grows _ ss) fun inner => .stmt_node _ (Stmt.nodeTrees inner) rfl fun blockInfo => ?_
    refine .stmt_node before (nodeTrees ([c, e, e'] ++ o.toList) ++ [(Stmt.block blockInfo inner).nodeTree])
      (by simp [nodeTrees, Stmt.nodeTree]) fun info => .pure ?_
    simp [Stmt.nodeTree]
  | .whileLoop condition ss span => by
    rw [stmt]
    refine .bind (expr_grows before condition) fun c => .bind (stmts_grows _ ss) fun inner => ?_
    refine .stmt_node _ (Stmt.nodeTrees inner) rfl fun blockInfo => ?_
    refine .stmt_node before [c.nodeTree, (Stmt.block blockInfo inner).nodeTree] (by simp [Stmt.nodeTree])
      fun info => .pure ?_
    simp [Stmt.nodeTree]
  | .repeatLoop ss condition span => by
    rw [stmt]
    refine .bind (stmts_grows before ss) fun inner => .stmt_node _ (Stmt.nodeTrees inner) rfl fun blockInfo => ?_
    refine .bind (expr_grows _ condition) fun c => ?_
    refine .stmt_node before [(Stmt.block blockInfo inner).nodeTree, c.nodeTree] (by simp [Stmt.nodeTree])
      fun info => .pure ?_
    simp [Stmt.nodeTree]
  | .exit span => by
    rw [stmt]
    exact .stmt_node before [] (by simp) fun info => .pure (by rw [Stmt.nodeTree])
  | .ret span => by
    rw [stmt]
    exact .stmt_node before [] (by simp) fun info => .pure (by rw [Stmt.nodeTree])

theorem stmts_grows (before : List NodeTree) : (ts : List Tree.Stmt) →
    Grows before (stmts ts) fun ss => before ++ Stmt.nodeTrees ss
  | [] => by
    rw [stmts]
    exact .pure (by simp [Stmt.nodeTrees])
  | t :: ts => by
    rw [stmts]
    refine .bind (stmt_grows before t) fun s => .bind (stmts_grows _ ts) fun ss => ?_
    exact .pure (by simp [Stmt.nodeTrees])

theorem branches_grows (before : List NodeTree) (whole : Span) : (bs : List (Tree.Expr × List Tree.Stmt)) →
    Grows before (branches whole bs) fun bs => before ++ Stmt.treesOfBranches bs
  | [] => by
    rw [branches]
    exact .pure (by simp [Stmt.treesOfBranches])
  | (condition, ss) :: rest => by
    rw [branches]
    refine .bind (expr_grows before condition) fun c => .bind (stmts_grows _ ss) fun inner => ?_
    refine .stmt_node _ (Stmt.nodeTrees inner) rfl fun info => .bind (branches_grows _ whole rest) fun bs => ?_
    exact .pure (by simp [Stmt.treesOfBranches, Stmt.nodeTree])

theorem arms_grows (before : List NodeTree) (whole : Span) : (as : List (List Tree.CaseLabel × List Tree.Stmt)) →
    Grows before (arms whole as) fun as => before ++ Stmt.treesOfArms as
  | [] => by
    rw [arms]
    exact .pure (by simp [Stmt.treesOfArms])
  | (labels, ss) :: rest => by
    rw [arms]
    refine .bind (caseLabels_grows before labels) fun ls => .bind (stmts_grows _ ss) fun inner => ?_
    refine .stmt_node _ (Stmt.nodeTrees inner) rfl fun info => .bind (arms_grows _ whole rest) fun as => ?_
    exact .pure (by simp [Stmt.treesOfArms, Stmt.nodeTree])

end

-- ---------------------------------------------------------------------------
-- Bodies
-- ---------------------------------------------------------------------------

theorem statementsBody_grows (statements : List Tree.Stmt) (whole : Span) :
    Grows [] (statementsBody statements whole) fun s => [s.nodeTree] := by
  refine .bind (stmts_grows [] statements) fun inner => ?_
  exact .stmt_node [] (Stmt.nodeTrees inner) rfl fun info => .pure (by rw [Stmt.nodeTree]; rfl)

theorem queryBody_grows (q : Tree.Query) : Grows [] (queryBody q) fun s => [s.nodeTree] := by
  cases q with
  | read e => exact .bind (expr_grows [] e) fun e => .pure (by rw [Stmt.nodeTree]; rfl)
  | assign target value span => exact stmt_grows [] (.assign target value span)

theorem id_nodeTree (s : Stmt) : s.nodeTree.id = s.info.id := by
  cases s with
  | eval e => cases e <;> rw [Stmt.nodeTree, Expr.nodeTree] <;> rfl
  | _ => rw [Stmt.nodeTree.eq_def]; rfl

/-- A body that is built by itself is a tree of all nodes that were added. -/
theorem Grows.isTree {m : Drafting Stmt} (h : Grows [] m fun s => [s.nodeTree]) :
    (m {}).2.next = (m {}).1.info.id + 1 ∧ NodeTree.IsTree (m {}).1.info.id (m {}).1.nodeTree.entries := by
  have hcounted := h {} rfl
  rw [Counted, NodeTree.entriesOfAll_singleton] at hcounted
  rw [← id_nodeTree]
  exact ⟨NodeTree.count_of_range hcounted, NodeTree.isTree_of_range hcounted⟩

end Body

end StructuredText
