-- SUMMARY: What the nodes of a body say of themselves, and replacing one of them by its identifier.
import Mathlib.Data.List.Nodup
import Mathlib.Data.Option.Basic
import StructuredText.Proofs.Nodes

/-!
# Heads of nodes

The head of a node is the node without the nodes that are part of it. The heads of a body are what linking looks at
and changes: if the identifiers of the nodes differ, replacing the node with an identifier by one with the same parts
replaces its head and leaves all other ones as they are.
-/

namespace StructuredText

/-- A node without the nodes that are part of it. -/
inductive Head where
  | literal (info : NodeInfo) (v : Value)
  /-- A reference with a number of indexes. -/
  | var (info : NodeInfo) (path : VarPath) (indexes : Nat)
  | operator (info : NodeInfo)
  | call (info : NodeInfo) (callee : Option Callee) (bindings : List ArgBinding)

namespace Head

def info : Head → NodeInfo
  | .literal i _ | .var i _ _ | .operator i | .call i _ _ => i

def id (h : Head) : NodeId := h.info.id

/-- The identifiers of the heads differ. -/
def Distinct (heads : List Head) : Prop := (heads.map id).Nodup

/-- Replaces the head with the identifier. -/
def replace (id : NodeId) (new : Head) (heads : List Head) : List Head :=
  heads.map fun h => if h.id = id then new else h

/-- The specification of the nodes holds of the head, whatever the arguments of a call are. -/
def Fulfils (spec : NodeSpec) : Head → Prop
  | .literal info v => spec.literal info v
  | .var info path indexes => spec.var info path indexes
  | .operator info => spec.operator info
  | .call info callee bindings => ∀ args, spec.call info callee args bindings

variable {heads heads' : List Head} {h h' : Head} {id : NodeId}

theorem Distinct.eq_of_id (hd : Distinct heads) (hh : h ∈ heads) (hh' : h' ∈ heads) (hid : h.id = h'.id) :
    h = h' := List.inj_on_of_nodup_map hd hh hh' hid

theorem Distinct.left (hd : Distinct (heads ++ heads')) : Distinct heads := by
  rw [Distinct, List.map_append] at hd
  exact List.Nodup.of_append_left hd

theorem Distinct.right (hd : Distinct (heads ++ heads')) : Distinct heads' := by
  rw [Distinct, List.map_append] at hd
  exact List.Nodup.of_append_right hd

theorem Distinct.ne (hd : Distinct (heads ++ heads')) (hh : h ∈ heads) (hh' : h' ∈ heads') : h.id ≠ h'.id := by
  rw [Distinct, List.map_append] at hd
  exact fun heq => List.disjoint_of_nodup_append hd (List.mem_map_of_mem hh) (heq ▸ List.mem_map_of_mem hh')

theorem Distinct.replaced {new : Head} (hd : Distinct heads) (hnew : new.id = id) :
    Distinct (replace id new heads) := by
  have hsame : (replace id new heads).map Head.id = heads.map Head.id := by
    rw [replace, List.map_map]
    refine List.map_congr_left fun head _ => ?_
    by_cases hid : head.id = id <;> simp [hid, hnew]
  rw [Distinct, hsame]
  exact hd

end Head

namespace Expr

def head : Expr → Head
  | .literal info v _ => .literal info v
  | .var info path indexes => .var info path indexes.length
  | .unary info _ _ | .binary info _ _ _ => .operator info
  | .call info _ _ _ callee bindings => .call info callee bindings

/-- The nodes that are directly part of a node. -/
def parts : Expr → List Expr
  | .literal .. => []
  | .var _ _ indexes => indexes
  | .unary _ _ e => [e]
  | .binary _ _ left right => [left, right]
  | .call _ _ _ args _ _ => args

def heads (e : Expr) : List Head := e.nodes.map head

def headsOfAll (es : List Expr) : List Head := (nodesOfAll es).map head

@[simp] theorem headsOfAll_nil : headsOfAll [] = [] := by simp [headsOfAll, nodesOfAll]

@[simp] theorem headsOfAll_cons (e : Expr) (es : List Expr) : headsOfAll (e :: es) = e.heads ++ headsOfAll es := by
  simp [headsOfAll, nodesOfAll, heads]

@[simp] theorem headsOfAll_append (es es' : List Expr) : headsOfAll (es ++ es') = headsOfAll es ++ headsOfAll es' := by
  induction es with
  | nil => simp
  | cons e es ih => simp [ih]

theorem heads_eq (e : Expr) : e.heads = headsOfAll e.parts ++ [e.head] := by
  cases e <;> simp [heads, headsOfAll, nodes, parts, nodesOfAll]

theorem nodes_eq (e : Expr) : e.nodes = nodesOfAll e.parts ++ [e] := by
  cases e <;> simp [nodes, parts, nodesOfAll]

@[simp] theorem nodesOfAll_append (es es' : List Expr) : nodesOfAll (es ++ es') = nodesOfAll es ++ nodesOfAll es' := by
  induction es with
  | nil => rfl
  | cons e es ih => simp [nodesOfAll, ih]

theorem nodesOfAll_flatMap {α : Type} (f : α → List Expr) (as : List α) :
    nodesOfAll (as.flatMap f) = as.flatMap fun a => nodesOfAll (f a) := by
  induction as with
  | nil => rfl
  | cons a as ih => simp [ih]

theorem mem_nodesOfAll {node : Expr} {es : List Expr} : node ∈ nodesOfAll es ↔ ∃ e ∈ es, node ∈ e.nodes := by
  induction es with
  | nil => simp [nodesOfAll]
  | cons e es ih => simp [nodesOfAll, ih]

@[simp] theorem id_head (e : Expr) : e.head.id = e.info.id := by cases e <;> rfl

-- ---------------------------------------------------------------------------
-- Parts
-- ---------------------------------------------------------------------------

section

variable {P : Expr → Prop} (h : ∀ e, (∀ part ∈ e.parts, P part) → P e)

set_option linter.unusedSectionVars false

include h

mutual

/-- What holds of every expression whose parts it holds of holds of all expressions. -/
theorem forall_of_parts : (e : Expr) → P e
  | .literal .. => h _ (by simp [parts])
  | .var _ _ indexes => h _ (forall_mem_of_parts indexes)
  | .unary _ _ e => h _ (by simpa [parts] using forall_of_parts e)
  | .binary _ _ left right => h _ (by simpa [parts] using ⟨forall_of_parts left, forall_of_parts right⟩)
  | .call _ _ _ args _ _ => h _ (forall_mem_of_parts args)

theorem forall_mem_of_parts : (es : List Expr) → ∀ e ∈ es, P e
  | [] => by simp
  | e :: es => List.forall_mem_cons.mpr ⟨forall_of_parts e, forall_mem_of_parts es⟩

end

end

theorem mem_headsOfAll {h : Head} {es : List Expr} : h ∈ headsOfAll es ↔ ∃ e ∈ es, h ∈ e.heads := by
  induction es with
  | nil => simp
  | cons e es ih => simp [ih]

theorem satisfies_of_parts {spec : NodeSpec} {e : Expr} (h : e.head.Fulfils spec)
    (hparts : ∀ part ∈ e.parts, part.Satisfies spec) : e.Satisfies spec := by
  cases e with
  | literal info v t => exact h
  | var info path indexes => exact ⟨h, allSatisfy_iff.mpr hparts⟩
  | unary info op e => exact ⟨h, by simpa [parts] using hparts⟩
  | binary info op left right => exact ⟨h, by simpa [parts] using hparts⟩
  | call info name labels args callee bindings => exact ⟨h args, allSatisfy_iff.mpr hparts⟩

/-- A specification that holds of all heads of an expression holds of its nodes. -/
theorem satisfies_of_heads {spec : NodeSpec} (e : Expr) : (∀ h ∈ e.heads, h.Fulfils spec) → e.Satisfies spec := by
  refine forall_of_parts (P := fun e => (∀ h ∈ e.heads, h.Fulfils spec) → e.Satisfies spec) (fun e ih he => ?_) e
  rw [heads_eq] at he
  refine satisfies_of_parts (he e.head (by simp)) fun part hpart => ih part hpart fun h hh => he h ?_
  exact List.mem_append_left _ (mem_headsOfAll.mpr ⟨part, hpart, hh⟩)

-- ---------------------------------------------------------------------------
-- Finding a node
-- ---------------------------------------------------------------------------

variable {id : NodeId} {e node root : Expr} {es roots : List Expr}

theorem node?_eq (root : Expr) :
    root.node? id = if root.info.id = id then some root else nodeOfAll? id root.parts := by
  cases root with
  | literal => rw [node?]; rfl
  | var => rw [node?]; rfl
  | call => rw [node?]; rfl
  | unary | binary => simp [node?, parts, nodeOfAll?, info]

theorem nodeOfAll?_eq_some : nodeOfAll? id (e :: es) = some node ↔
    e.node? id = some node ∨ e.node? id = none ∧ nodeOfAll? id es = some node := by
  rw [nodeOfAll?]
  exact Option.orElse_eq_some _ _ _

theorem exists_of_nodeOfAll? (h : nodeOfAll? id es = some node) : ∃ e ∈ es, e.node? id = some node := by
  induction es with
  | nil => simp [nodeOfAll?] at h
  | cons e es ih =>
    obtain h | ⟨-, h⟩ := nodeOfAll?_eq_some.mp h
    · exact ⟨e, List.mem_cons_self, h⟩
    · obtain ⟨e', he', h⟩ := ih h
      exact ⟨e', List.mem_cons_of_mem _ he', h⟩

/-- A node that is found has the identifier. -/
theorem head_of_node? (root : Expr) : root.node? id = some node → node.head ∈ root.heads ∧ node.info.id = id := by
  refine forall_of_parts (P := fun root => root.node? id = some node → node.head ∈ root.heads ∧ node.info.id = id)
    (fun root ih h => ?_) root
  rw [node?_eq] at h
  rw [heads_eq]
  split at h
  · next hid =>
    cases h
    exact ⟨by simp, hid⟩
  · obtain ⟨part, hpart, h⟩ := exists_of_nodeOfAll? h
    obtain ⟨hhead, hid⟩ := ih part hpart h
    exact ⟨List.mem_append_left _ (mem_headsOfAll.mpr ⟨part, hpart, hhead⟩), hid⟩

theorem isSome_nodeOfAll? (hes : ∃ e ∈ es, (e.node? id).isSome) : (nodeOfAll? id es).isSome := by
  induction es with
  | nil => simp at hes
  | cons e es ih =>
    rw [nodeOfAll?]
    cases hfirst : e.node? id with
    | some node => rfl
    | none =>
      obtain ⟨e', he', h⟩ := hes
      obtain rfl | he' := List.mem_cons.mp he'
      · simp [hfirst] at h
      · exact ih ⟨e', he', h⟩

/-- An identifier of one of the heads is found. -/
theorem isSome_node? (root : Expr) : (∃ h ∈ root.heads, h.id = id) → (root.node? id).isSome := by
  refine forall_of_parts (P := fun root => (∃ h ∈ root.heads, h.id = id) → (root.node? id).isSome)
    (fun root ih h => ?_) root
  rw [node?_eq]
  split
  · rfl
  · next hid =>
    obtain ⟨h, hh, rfl⟩ := h
    rw [heads_eq, List.mem_append, List.mem_singleton] at hh
    obtain hh | rfl := hh
    · obtain ⟨part, hpart, hh⟩ := mem_headsOfAll.mp hh
      exact isSome_nodeOfAll? ⟨part, hpart, ih part hpart ⟨h, hh, rfl⟩⟩
    · exact absurd (id_head root) (Ne.symm hid)

-- ---------------------------------------------------------------------------
-- Replacing a node
-- ---------------------------------------------------------------------------

/-- Replaces the node with the identifier. -/
def setNode (id : NodeId) (e root : Expr) : Expr :=
  Id.run (root.mapNodesM fun node => if node.info.id = id then pure e else pure node)

/-- The node with other parts. -/
def withParts (f : Expr → Expr) : Expr → Expr
  | .literal info v t => .literal info v t
  | .var info path indexes => .var info path (indexes.map f)
  | .unary info op operand => .unary info op (f operand)
  | .binary info op left right => .binary info op (f left) (f right)
  | .call info name labels args callee bindings => .call info name labels (args.map f) callee bindings

theorem mapAllM_setNode (id : NodeId) (e : Expr) (roots : List Expr) :
    mapAllM (m := Id) (fun node => if node.info.id = id then pure e else pure node) roots =
      pure (roots.map (setNode id e)) := by
  induction roots with
  | nil => rw [mapAllM, List.map_nil]
  | cons root roots ih =>
    rw [mapAllM, ih]
    rfl

theorem setNode_eq (root : Expr) :
    setNode id e root = if root.info.id = id then e else root.withParts (setNode id e) := by
  rw [setNode]
  by_cases hid : root.info.id = id
  · rw [if_pos hid]
    cases root <;> rw [mapNodesM] <;> exact if_pos hid
  · rw [if_neg hid]
    cases root with
    | literal | unary | binary => rw [mapNodesM]; exact if_neg hid
    | var | call => rw [mapNodesM, mapAllM_setNode]; exact if_neg hid

@[simp] theorem parts_withParts (f : Expr → Expr) (root : Expr) : (root.withParts f).parts = root.parts.map f := by
  cases root <;> rfl

@[simp] theorem head_withParts (f : Expr → Expr) (root : Expr) : (root.withParts f).head = root.head := by
  cases root <;> simp [withParts, head]

theorem withParts_eq_self {f : Expr → Expr} (h : ∀ part ∈ root.parts, f part = part) : root.withParts f = root := by
  cases root with
  | literal => rfl
  | unary | binary => simp_all [withParts, parts]
  | var info path indexes =>
    have hsame : indexes.map f = indexes := (List.map_congr_left h).trans (List.map_id _)
    rw [withParts, hsame]
  | call info name labels args callee bindings =>
    have hsame : args.map f = args := (List.map_congr_left h).trans (List.map_id _)
    rw [withParts, hsame]

/-- An expression without the identifier stays as it is. -/
theorem setNode_of_absent (root : Expr) : (∀ h ∈ root.heads, h.id ≠ id) → setNode id e root = root := by
  refine forall_of_parts (P := fun root => (∀ h ∈ root.heads, h.id ≠ id) → setNode id e root = root)
    (fun root ih h => ?_) root
  rw [heads_eq] at h
  have hroot : root.info.id ≠ id := fun hid => h root.head (by simp) ((id_head root).trans hid)
  rw [setNode_eq, if_neg hroot]
  refine withParts_eq_self fun part hpart => ih part hpart fun head hhead => h head ?_
  exact List.mem_append_left _ (mem_headsOfAll.mpr ⟨part, hpart, hhead⟩)

theorem map_setNode_of_absent (h : ∀ h ∈ headsOfAll roots, h.id ≠ id) : roots.map (setNode id e) = roots := by
  refine (List.map_congr_left fun root hroot => ?_).trans (List.map_id roots)
  exact setNode_of_absent root fun head hhead => h head (mem_headsOfAll.mpr ⟨root, hroot, hhead⟩)

section

variable {β : Type} {f : Expr → β}

theorem map_nodesOfAll_of_absent {b : β} (h : ∀ h ∈ headsOfAll roots, h.id ≠ id) :
    (nodesOfAll roots).map (fun e => if e.info.id = id then b else f e) = (nodesOfAll roots).map f := by
  refine List.map_congr_left fun e he => if_neg fun hid => ?_
  exact h e.head (List.mem_map_of_mem he) ((id_head e).trans hid)

/-- Only the node is replaced, if that holds of each of the expressions. -/
theorem nodesOfAll_map_setNode (hd : Head.Distinct (headsOfAll roots)) (hnode : nodeOfAll? id roots = some node)
    (h : ∀ root ∈ roots, Head.Distinct root.heads → root.node? id = some node →
      (setNode id e root).nodes.map f = root.nodes.map fun e' => if e'.info.id = id then f e else f e') :
    (nodesOfAll (roots.map (setNode id e))).map f =
      (nodesOfAll roots).map fun e' => if e'.info.id = id then f e else f e' := by
  induction roots with
  | nil => simp [nodeOfAll?] at hnode
  | cons root roots ih =>
    rw [headsOfAll_cons] at hd
    simp only [List.map_cons, nodesOfAll, List.map_append]
    obtain hnode | ⟨-, hnode⟩ := nodeOfAll?_eq_some.mp hnode
    · obtain ⟨hhead, rfl⟩ := head_of_node? root hnode
      have habsent : ∀ h ∈ headsOfAll roots, h.id ≠ node.info.id := fun h hh heq =>
        hd.ne hhead hh ((id_head node).trans heq.symm)
      rw [h root List.mem_cons_self hd.left hnode, map_setNode_of_absent habsent, map_nodesOfAll_of_absent habsent]
    · have hrest := ih hd.right hnode fun root hroot => h root (List.mem_cons_of_mem _ hroot)
      obtain ⟨root', hroot', hfound⟩ := exists_of_nodeOfAll? hnode
      obtain ⟨hhead, rfl⟩ := head_of_node? root' hfound
      have habsent : ∀ h ∈ headsOfAll [root], h.id ≠ node.info.id := fun h hh heq =>
        hd.ne (by simpa using hh) (mem_headsOfAll.mpr ⟨root', hroot', hhead⟩) (heq.trans (id_head node).symm)
      have hfirst := map_nodesOfAll_of_absent (f := f) (b := f e) habsent
      simp only [nodesOfAll, List.append_nil] at hfirst
      rw [hrest, hfirst, setNode_of_absent root (by simpa using habsent)]

/-- A node is replaced by one with the same parts, as far as something is concerned that does not go by the parts. -/
theorem nodes_setNode (hf : ∀ g e, f (withParts g e) = f e) (hparts : e.parts = node.parts) (root : Expr) :
    Head.Distinct root.heads → root.node? id = some node →
      (setNode id e root).nodes.map f = root.nodes.map fun e' => if e'.info.id = id then f e else f e' := by
  refine forall_of_parts (P := fun root => Head.Distinct root.heads → root.node? id = some node →
    (setNode id e root).nodes.map f = root.nodes.map fun e' => if e'.info.id = id then f e else f e')
    (fun root ih hd hnode => ?_) root
  rw [heads_eq] at hd
  rw [node?_eq] at hnode
  rw [setNode_eq, nodes_eq root, List.map_append]
  split at hnode
  · next hid =>
    cases hnode
    have habsent : ∀ h ∈ headsOfAll node.parts, h.id ≠ id := fun h hh heq =>
      hd.ne hh (List.mem_singleton_self _) ((heq.trans hid.symm).trans (id_head node).symm)
    rw [if_pos hid, nodes_eq e, hparts, map_nodesOfAll_of_absent habsent]
    simp [hid]
  · next hid =>
    rw [if_neg hid, nodes_eq, parts_withParts, List.map_append, nodesOfAll_map_setNode hd.left hnode ih]
    simp [hid, hf]

end

end Expr

-- ---------------------------------------------------------------------------
-- Statements
-- ---------------------------------------------------------------------------

namespace Stmt

def heads (s : Stmt) : List Head := Expr.headsOfAll s.exprs

theorem satisfies_of_heads {spec : NodeSpec} {s : Stmt} (h : ∀ h ∈ s.heads, h.Fulfils spec) : s.Satisfies spec :=
  Expr.allSatisfy_iff.mpr fun e he => Expr.satisfies_of_heads e fun head hhead =>
    h head (Expr.mem_headsOfAll.mpr ⟨e, he, hhead⟩)

variable {s : Stmt} {id : NodeId}

theorem head_of_exprNode? {node : Expr} (h : s.exprNode? id = some node) :
    node.head ∈ s.heads ∧ node.info.id = id := by
  obtain ⟨e, he, hfound⟩ := Expr.exists_of_nodeOfAll? h
  obtain ⟨hmem, hid⟩ := Expr.head_of_node? e hfound
  exact ⟨Expr.mem_headsOfAll.mpr ⟨e, he, hmem⟩, hid⟩

/-- The node of a head is found by its identifier. -/
theorem exists_exprNode? (hd : Head.Distinct s.heads) {h : Head} (hh : h ∈ s.heads) :
    ∃ node, s.exprNode? h.id = some node ∧ node.head = h := by
  obtain ⟨e, he, hhead⟩ := Expr.mem_headsOfAll.mp hh
  have hsome : (s.exprNode? h.id).isSome :=
    Expr.isSome_nodeOfAll? ⟨e, he, Expr.isSome_node? e ⟨h, hhead, rfl⟩⟩
  obtain ⟨node, hnode⟩ := Option.isSome_iff_exists.mp hsome
  obtain ⟨hmem, hid⟩ := head_of_exprNode? hnode
  exact ⟨node, hnode, hd.eq_of_id hmem hh ((Expr.id_head node).trans hid)⟩

theorem mem_of_exprNode? {node : Expr} (h : s.exprNode? id = some node) : node ∈ s.exprNodes ∧ node.info.id = id := by
  obtain ⟨e, he, hfound⟩ := Expr.exists_of_nodeOfAll? h
  have hnode : node ∈ e.nodes ∧ node.info.id = id := by
    revert hfound
    refine Expr.forall_of_parts (P := fun e => e.node? id = some node → node ∈ e.nodes ∧ node.info.id = id)
      (fun e ih hfound => ?_) e
    rw [Expr.node?_eq] at hfound
    rw [Expr.nodes_eq]
    split at hfound
    · next hid =>
      cases hfound
      exact ⟨List.mem_append_right _ (List.mem_singleton_self _), hid⟩
    · obtain ⟨part, hpart, hfound⟩ := Expr.exists_of_nodeOfAll? hfound
      obtain ⟨hnode, hid⟩ := ih part hpart hfound
      exact ⟨List.mem_append_left _ (Expr.mem_nodesOfAll.mpr ⟨part, hpart, hnode⟩), hid⟩
  exact ⟨Expr.mem_nodesOfAll.mpr ⟨e, he, hnode.1⟩, hnode.2⟩

/-- An identifier is that of one node at most. -/
theorem eq_of_info_id (hd : Head.Distinct s.heads) {e e' : Expr} (he : e ∈ s.exprNodes) (he' : e' ∈ s.exprNodes)
    (hid : e'.info.id = e.info.id) : e' = e := by
  have hnodes : (s.exprNodes.map (·.info.id)).Nodup := by
    have hheads : s.heads.map Head.id = s.exprNodes.map (·.info.id) := by
      rw [heads, Expr.headsOfAll, List.map_map]
      exact List.map_congr_left fun e _ => Expr.id_head e
    exact hheads ▸ hd
  exact List.inj_on_of_nodup_map hnodes he' he hid

/-- A node is replaced by one with the same parts, as far as something is concerned that does not go by the parts. -/
theorem exprNodes_setExprNode {β : Type} {f : Expr → β} (hf : ∀ g e, f (Expr.withParts g e) = f e) {node e : Expr}
    (hd : Head.Distinct s.heads) (hnode : s.exprNode? id = some node) (hparts : e.parts = node.parts) :
    (s.setExprNode id e).exprNodes.map f = s.exprNodes.map fun e' => if e'.info.id = id then f e else f e' := by
  have hreplaced : s.Replaced _ (s.setExprNode id e) := replaced_of_mapExprsM (m := Id) s rfl
  have hexprs : s.exprs.map (Expr.setNode id e) = (s.setExprNode id e).exprs := by
    rw [← List.forall₂_eq_eq_eq, List.forall₂_map_left_iff]
    exact hreplaced.exprs
  rw [exprNodes, ← hexprs]
  exact Expr.nodesOfAll_map_setNode hd hnode fun root _ => Expr.nodes_setNode hf hparts root

/-- A node that is replaced by one with the same parts leaves its head to it. -/
theorem heads_setExprNode {node e : Expr} (hd : Head.Distinct s.heads) (hnode : s.exprNode? id = some node)
    (hparts : e.parts = node.parts) : (s.setExprNode id e).heads = Head.replace id e.head s.heads := by
  have hheads := exprNodes_setExprNode (f := Expr.head) Expr.head_withParts hd hnode hparts
  refine hheads.trans ?_
  rw [heads, Expr.headsOfAll, Head.replace, List.map_map]
  exact List.map_congr_left fun e' _ => by simp

end Stmt

end StructuredText
