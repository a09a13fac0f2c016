-- SUMMARY: Linking and preparing a body give no identifier to a second node.
import Mathlib.Data.List.Flatten
import StructuredText.Proofs.Arenas
import StructuredText.Proofs.Named
import StructuredText.Proofs.Unfolded

/-!
# Identifiers

The names in a body are linked, and the body is prepared, by replacing its nodes one by one. A node keeps its identifier.
At most nodes are left out: those of an expression that is a constant, and of a name that stands for a value. So the nodes
of a prepared body have identifiers of their own if those of the body that was parsed have.
-/

namespace StructuredText

open Returning

-- ---------------------------------------------------------------------------
-- Expressions
-- ---------------------------------------------------------------------------

namespace Expr

/-- The identifiers of the nodes of the expression. -/
def ids (e : Expr) : List NodeId := e.nodes.map (·.info.id)

def idsOfAll (es : List Expr) : List NodeId := es.flatMap ids

variable {e e' : Expr} {es es' : List Expr} {id : NodeId}

theorem map_nodesOfAll (es : List Expr) : (nodesOfAll es).map (·.info.id) = idsOfAll es := by
  induction es with
  | nil => rfl
  | cons e es ih =>
    rw [nodesOfAll, List.map_append, ih]
    rfl

theorem ids_eq (e : Expr) : e.ids = idsOfAll e.parts ++ [e.info.id] := by
  rw [ids, nodes_eq, List.map_append, map_nodesOfAll]
  rfl

mutual

theorem map_cells : (e : Expr) → e.cells.map (·.1) = e.ids
  | .literal .. => by rw [cells, ids_eq]; rfl
  | .var info path indexes => by
    rw [cells, List.map_append, map_cellsOfAll, ids_eq]
    rfl
  | .unary info op e => by
    rw [cells, List.map_append, map_cells, ids_eq (unary info op e), parts.eq_def, idsOfAll, List.flatMap_singleton]
    rfl
  | .binary info op l r => by
    rw [cells, List.map_append, List.map_append, map_cells, map_cells, ids_eq (binary info op l r), parts.eq_def, idsOfAll]
    simp [NodeInfo.cell, Expr.info]
  | .call info name labels args callee bindings => by
    rw [cells, List.map_append, map_cellsOfAll, ids_eq]
    rfl

theorem map_cellsOfAll : (es : List Expr) → (cellsOfAll es).map (·.1) = idsOfAll es
  | [] => by rw [cellsOfAll]; rfl
  | e :: es => by
    rw [cellsOfAll, List.map_append, map_cells, map_cellsOfAll]
    rfl

end

/-- The nodes of the second expression are some of those of the first one. -/
def Trims (e e' : Expr) : Prop := e'.ids.Sublist e.ids

theorem Trims.refl (e : Expr) : e.Trims e := List.Sublist.refl _

theorem idsOfAll_sublist (h : List.Forall₂ Trims es es') : (idsOfAll es').Sublist (idsOfAll es) := by
  induction h with
  | nil => exact List.Sublist.slnil
  | cons hfirst _ ih => exact hfirst.append ih

/-- A node that keeps its identifier and has some of the parts that are left of the parts of another one. -/
theorem trims_of_parts (hid : e'.info.id = e.info.id) (h : List.Forall₂ Trims e.parts es)
    (hparts : e'.parts.Sublist es) : e.Trims e' := by
  rw [Trims, ids_eq, ids_eq, hid]
  exact ((hparts.flatMap ids).trans (idsOfAll_sublist h)).append (List.Sublist.refl _)

-- ---------------------------------------------------------------------------
-- Replacing nodes
-- ---------------------------------------------------------------------------

/-- Replacing all nodes leaves out some of them if replacing one of them does. -/
theorem trims_of_mapNodesM {f : Expr → Except Diagnostic Expr}
    (hf : ∀ e e', f e = .ok e' → e'.info.id = e.info.id ∧ e'.parts.Sublist e.parts) (e : Expr) :
    ∀ e', e.mapNodesM f = .ok e' → e.Trims e' := by
  refine forall_of_parts (P := fun e => ∀ e', e.mapNodesM f = .ok e' → e.Trims e') (fun e ih e' h => ?_) e
  have all {es es' : List Expr} (hes : ∀ part ∈ es, ∀ e', part.mapNodesM f = .ok e' → part.Trims e')
      (h : mapAllM f es = .ok es') : List.Forall₂ Trims es es' := by
    have hmapped := Body.forall₂_of_mapAllM h
    clear h
    induction hmapped with
    | nil => exact .nil
    | cons hfirst _ ih =>
      obtain ⟨hpart, hrest⟩ := List.forall_mem_cons.mp hes
      exact .cons (hpart _ hfirst) (ih hrest)
  cases e with
  | literal info v t =>
    rw [mapNodesM] at h
    obtain ⟨hid, hparts⟩ := hf _ _ h
    exact trims_of_parts hid .nil hparts
  | var info path indexes =>
    rw [mapNodesM] at h
    obtain ⟨indexes', hindexes, h⟩ := Except.bind_eq_ok.mp h
    obtain ⟨hid, hparts⟩ := hf _ _ h
    exact trims_of_parts hid (all ih hindexes) hparts
  | unary info op operand =>
    rw [mapNodesM] at h
    obtain ⟨operand', hoperand, h⟩ := Except.bind_eq_ok.mp h
    obtain ⟨hid, hparts⟩ := hf _ _ h
    exact trims_of_parts hid (.cons (ih _ (by simp [parts]) _ hoperand) .nil) hparts
  | binary info op left right =>
    rw [mapNodesM] at h
    obtain ⟨left', hleft, h⟩ := Except.bind_eq_ok.mp h
    obtain ⟨right', hright, h⟩ := Except.bind_eq_ok.mp h
    obtain ⟨hid, hparts⟩ := hf _ _ h
    exact trims_of_parts hid
      (.cons (ih _ (by simp [parts]) _ hleft) (.cons (ih _ (by simp [parts]) _ hright) .nil)) hparts
  | call info name labels args callee bindings =>
    rw [mapNodesM] at h
    obtain ⟨args', hargs, h⟩ := Except.bind_eq_ok.mp h
    obtain ⟨hid, hparts⟩ := hf _ _ h
    exact trims_of_parts hid (all ih hargs) hparts

/-- Replacing the nodes with an identifier leaves out some nodes if the new node has some of those of each of them. -/
theorem trims_setNode (root : Expr) :
    (∀ node ∈ root.nodes, node.info.id = id → node.Trims e) → root.Trims (setNode id e root) := by
  refine forall_of_parts (P := fun root => (∀ node ∈ root.nodes, node.info.id = id → node.Trims e) →
    root.Trims (setNode id e root)) (fun root ih h => ?_) root
  rw [nodes_eq, List.forall_mem_append, List.forall_mem_singleton] at h
  rw [setNode_eq]
  split
  · next hid => exact h.2 hid
  · have hparts : List.Forall₂ Trims root.parts (root.parts.map (setNode id e)) :=
      List.forall₂_map_right_iff.mpr (List.forall₂_same.mpr fun part hpart => ih part hpart fun node hnode =>
        h.1 node (mem_nodesOfAll.mpr ⟨part, hpart, hnode⟩))
    exact trims_of_parts (by cases root <;> rfl) hparts (by rw [parts_withParts])

end Expr

-- ---------------------------------------------------------------------------
-- Statements
-- ---------------------------------------------------------------------------

namespace Stmt

/-- The nodes of the second statement are some of those of the first one. -/
def Trims (s s' : Stmt) : Prop := s'.ids.Sublist s.ids

theorem Trims.trans {s s' s'' : Stmt} (h : s.Trims s') (h' : s'.Trims s'') : s.Trims s'' := List.Sublist.trans h' h

theorem ids_eq (s : Stmt) : s.ids = s.innerCells.map (·.1) ++ [s.info.id] := by
  rw [ids, cells_eq, List.map_append]
  rfl

theorem trims_of_inner {s s' : Stmt} (hid : s'.info.id = s.info.id)
    (h : (s'.innerCells.map (·.1)).Sublist (s.innerCells.map (·.1))) : s.Trims s' := by
  rw [Trims, ids_eq, ids_eq, hid]
  exact h.append (List.Sublist.refl _)

theorem trims_eval {e e' : Expr} (h : e.Trims e') : (Stmt.eval e).Trims (.eval e') := by
  rw [Trims, ids, ids, cells, cells, Expr.map_cells, Expr.map_cells]
  exact h

section

variable {R : Expr → Expr → Prop}

theorem sublist_cells {e e' : Expr} (hR : ∀ e', R e e' → e.Trims e') (h : R e e') :
    (e'.cells.map (·.1)).Sublist (e.cells.map (·.1)) := by
  rw [Expr.map_cells, Expr.map_cells]
  exact hR _ h

theorem sublist_cellsOfAll {es es' : List Expr} (hR : ∀ e ∈ es, ∀ e', R e e' → e.Trims e') (h : List.Forall₂ R es es') :
    ((Expr.cellsOfAll es').map (·.1)).Sublist ((Expr.cellsOfAll es).map (·.1)) := by
  induction h with
  | nil => exact List.Sublist.refl _
  | cons hfirst _ ih =>
    obtain ⟨hR, hrest⟩ := List.forall_mem_cons.mp hR
    simp only [Expr.cellsOfAll, List.map_append]
    exact (sublist_cells hR hfirst).append (ih hrest)

mutual

/-- A statement of the same shape has some of the nodes if its expressions do. -/
theorem Replaced.trims {s s' : Stmt} : s.Replaced R s' → (∀ e ∈ s.exprs, ∀ e', R e e' → e.Trims e') → s.Trims s'
  | .eval h, hR => trims_eval (hR _ (by simp [exprs]) _ h)
  | .assign htarget hvalue, hR => trims_of_inner rfl <| by
    simp only [innerCells, List.map_append]
    exact (sublist_cells (hR _ (by simp [exprs])) htarget).append (sublist_cells (hR _ (by simp [exprs])) hvalue)
  | .block h, hR => trims_of_inner rfl (h.trims fun e he => hR e (by rw [exprs]; exact he))
  | .ifThen hbranches hotherwise, hR => trims_of_inner rfl <| by
    simp only [innerCells, List.map_append]
    exact (hbranches.trims fun e he => hR e (by rw [exprs.eq_def]; exact List.mem_append_left _ he)).append
      (hotherwise.trims fun e he => hR e (by rw [exprs.eq_def]; exact List.mem_append_right _ he))
  | .case hselector harms hotherwise, hR => trims_of_inner rfl <| by
    simp only [innerCells, List.map_append]
    exact ((sublist_cells (hR _ (by rw [exprs.eq_def]; simp)) hselector).append
      (harms.trims fun e he => hR e (by rw [exprs.eq_def]; simp [he]))).append
        (hotherwise.trims fun e he => hR e (by rw [exprs.eq_def]; exact List.mem_append_right _ he))
  | .forLoop hcontrol hstart hstop hstep hbody, hR => trims_of_inner rfl <| by
    simp only [innerCells, List.map_append]
    rw [exprs, List.forall_mem_append] at hR
    refine List.Sublist.append (sublist_cellsOfAll hR.1 (List.rel_append ?_ (toList_exprs hstep))) (hbody.trims hR.2)
    exact .cons hcontrol (.cons hstart (.cons hstop .nil))
  | .whileLoop hcondition hbody, hR => trims_of_inner rfl <| by
    simp only [innerCells, List.map_append]
    rw [exprs, List.forall_mem_cons] at hR
    exact (sublist_cells hR.1 hcondition).append (hbody.trims hR.2)
  | .repeatLoop hbody hcondition, hR => trims_of_inner rfl <| by
    simp only [innerCells, List.map_append]
    rw [exprs, List.forall_mem_append, List.forall_mem_singleton] at hR
    exact List.Sublist.append (hbody.trims hR.1) (sublist_cells hR.2 hcondition)
  | .exit, _ => List.Sublist.refl _
  | .ret, _ => List.Sublist.refl _

theorem AllReplaced.trims {ss ss' : List Stmt} : AllReplaced R ss ss' →
    (∀ e ∈ exprsOfAll ss, ∀ e', R e e' → e.Trims e') →
      ((cellsOfAll ss').map (·.1)).Sublist ((cellsOfAll ss).map (·.1))
  | .nil, _ => List.Sublist.refl _
  | .cons hfirst hrest, hR => by
    simp only [cellsOfAll, List.map_append]
    rw [exprsOfAll, List.forall_mem_append] at hR
    exact List.Sublist.append (hfirst.trims hR.1) (hrest.trims hR.2)

theorem OptionReplaced.trims {o o' : Option Stmt} : OptionReplaced R o o' →
    (∀ e ∈ (match o with | some s => s.exprs | none => []), ∀ e', R e e' → e.Trims e') →
      ((cellsOfOption o').map (·.1)).Sublist ((cellsOfOption o).map (·.1))
  | .none, _ => List.Sublist.refl _
  | .some h, hR => by
    simp only [cellsOfOption]
    exact Replaced.trims h hR

theorem BranchesReplaced.trims {bs bs' : List (Expr × Stmt)} : BranchesReplaced R bs bs' →
    (∀ e ∈ exprsOfBranches bs, ∀ e', R e e' → e.Trims e') →
      ((cellsOfBranches bs').map (·.1)).Sublist ((cellsOfBranches bs).map (·.1))
  | .nil, _ => List.Sublist.refl _
  | .cons hcondition hbody hrest, hR => by
    simp only [cellsOfBranches, List.map_append]
    rw [exprsOfBranches, List.forall_mem_append, List.forall_mem_cons] at hR
    exact ((sublist_cells hR.1.1 hcondition).append (hbody.trims hR.1.2)).append (hrest.trims hR.2)

theorem ArmsReplaced.trims {arms arms' : List (List CaseLabel × Stmt)} : ArmsReplaced R arms arms' →
    (∀ e ∈ exprsOfArms arms, ∀ e', R e e' → e.Trims e') →
      ((cellsOfArms arms').map (·.1)).Sublist ((cellsOfArms arms).map (·.1))
  | .nil, _ => List.Sublist.refl _
  | .cons hlabels hbody hrest, hR => by
    simp only [cellsOfArms, List.map_append]
    rw [exprsOfArms, List.forall_mem_append, List.forall_mem_append] at hR
    exact ((sublist_cellsOfAll hR.1.1 (labels_exprs hlabels)).append (hbody.trims hR.1.2)).append (hrest.trims hR.2)

end

end

mutual

/-- The nodes of the expressions are nodes of the statement. -/
theorem exprIds_sublist : (s : Stmt) → (Expr.idsOfAll s.exprs).Sublist s.ids
  | .eval e => by
    rw [exprs, ids, cells, Expr.map_cells, Expr.idsOfAll, List.flatMap_singleton]
  | .assign info target value => by
    rw [exprs, ids_eq, ← Expr.map_cellsOfAll]
    simp [innerCells, Expr.cellsOfAll]
  | .block info statements => by
    rw [exprs, ids_eq]
    exact (exprIdsOfAll_sublist statements).trans (List.sublist_append_left _ _)
  | .ifThen info branches otherwise => by
    rw [exprs.eq_def, ids_eq, innerCells, List.map_append, Expr.idsOfAll, List.flatMap_append]
    refine List.Sublist.trans ?_ (List.sublist_append_left _ _)
    exact (exprIdsOfBranches_sublist branches).append (exprIdsOfOption_sublist otherwise)
  | .case info selector arms otherwise => by
    rw [exprs.eq_def, ids_eq, innerCells, List.map_append, List.map_append, Expr.idsOfAll, List.flatMap_append,
      List.flatMap_cons, Expr.map_cells]
    refine List.Sublist.trans ?_ (List.sublist_append_left _ _)
    exact ((List.Sublist.refl _).append (exprIdsOfArms_sublist arms)).append (exprIdsOfOption_sublist otherwise)
  | .forLoop info control start stop step body => by
    rw [exprs, ids_eq, innerCells, List.map_append, Expr.map_cellsOfAll, Expr.idsOfAll, List.flatMap_append]
    refine List.Sublist.trans ?_ (List.sublist_append_left _ _)
    exact (List.Sublist.refl _).append (exprIds_sublist body)
  | .whileLoop info condition body => by
    rw [exprs, ids_eq, innerCells, List.map_append, Expr.map_cells, Expr.idsOfAll, List.flatMap_cons]
    refine List.Sublist.trans ?_ (List.sublist_append_left _ _)
    exact (List.Sublist.refl _).append (exprIds_sublist body)
  | .repeatLoop info body condition => by
    rw [exprs, ids_eq, innerCells, List.map_append, Expr.map_cells, Expr.idsOfAll, List.flatMap_append,
      List.flatMap_singleton]
    refine List.Sublist.trans ?_ (List.sublist_append_left _ _)
    exact (exprIds_sublist body).append (List.Sublist.refl _)
  | .exit info => by
    rw [exprs]
    exact List.nil_sublist _
  | .ret info => by
    rw [exprs]
    exact List.nil_sublist _

theorem exprIdsOfAll_sublist : (ss : List Stmt) →
    (Expr.idsOfAll (exprsOfAll ss)).Sublist ((cellsOfAll ss).map (·.1))
  | [] => List.nil_sublist _
  | s :: ss => by
    rw [exprsOfAll, cellsOfAll, List.map_append, Expr.idsOfAll, List.flatMap_append]
    exact (exprIds_sublist s).append (exprIdsOfAll_sublist ss)

theorem exprIdsOfOption_sublist : (o : Option Stmt) →
    (Expr.idsOfAll (match o with | some s => s.exprs | none => [])).Sublist ((cellsOfOption o).map (·.1))
  | none => List.nil_sublist _
  | some s => by
    rw [cellsOfOption]
    exact exprIds_sublist s

theorem exprIdsOfBranches_sublist : (bs : List (Expr × Stmt)) →
    (Expr.idsOfAll (exprsOfBranches bs)).Sublist ((cellsOfBranches bs).map (·.1))
  | [] => List.nil_sublist _
  | (condition, s) :: rest => by
    rw [exprsOfBranches, cellsOfBranches, List.map_append, List.map_append, Expr.map_cells, Expr.idsOfAll,
      List.flatMap_append, List.flatMap_cons]
    exact ((List.Sublist.refl _).append (exprIds_sublist s)).append (exprIdsOfBranches_sublist rest)

theorem exprIdsOfArms_sublist : (arms : List (List CaseLabel × Stmt)) →
    (Expr.idsOfAll (exprsOfArms arms)).Sublist ((cellsOfArms arms).map (·.1))
  | [] => List.nil_sublist _
  | (labels, s) :: rest => by
    rw [exprsOfArms, cellsOfArms, List.map_append, List.map_append, Expr.map_cellsOfAll, Expr.idsOfAll,
      List.flatMap_append, List.flatMap_append]
    exact ((List.Sublist.refl _).append (exprIds_sublist s)).append (exprIdsOfArms_sublist rest)

end

variable {s : Stmt} {id : NodeId}

/-- An identifier is that of one expression at most. -/
theorem eq_of_id (hs : s.ids.Nodup) {e e' : Expr} (he : e ∈ s.exprNodes) (he' : e' ∈ s.exprNodes)
    (hid : e'.info.id = e.info.id) : e' = e := by
  have hnodes : (s.exprNodes.map (·.info.id)).Nodup := by
    rw [exprNodes, Expr.map_nodesOfAll]
    exact (exprIds_sublist s).nodup hs
  exact List.inj_on_of_nodup_map hnodes he' he hid

/-- Replacing the node of an expression leaves out some nodes if the new node has some of its nodes. -/
theorem trims_setExprNode (hs : s.ids.Nodup) {node e : Expr} (hnode : s.exprNode? id = some node) (h : node.Trims e) :
    s.Trims (s.setExprNode id e) := by
  obtain ⟨hmem, rfl⟩ := mem_of_exprNode? hnode
  have hreplaced : s.Replaced _ (s.setExprNode node.info.id e) := replaced_of_mapExprsM (m := Id) s rfl
  refine hreplaced.trims fun root hroot root' heq => ?_
  obtain rfl : Expr.setNode node.info.id e root = root' := heq
  refine Expr.trims_setNode root fun node' hnode' hid => ?_
  obtain rfl := eq_of_id hs hmem (Expr.mem_nodesOfAll.mpr ⟨root, hroot, hnode'⟩) hid
  exact h

end Stmt

-- ---------------------------------------------------------------------------
-- Linking names
-- ---------------------------------------------------------------------------

namespace Link

variable {σ : Type} {body : Stmt}

/-- Whatever a reference stands for, linking it leaves out at most some nodes. -/
def Trimming (bind : Reference NodeId → Option σ → Stmt → Option Diagnostic × Stmt) : Prop :=
  ∀ r found (body : Stmt), body.ids.Nodup → body.Trims (bind r found body).2

theorem trims_visit {bind : Reference NodeId → Option σ → Stmt → Option Diagnostic × Stmt} (h : Trimming bind)
    (tasks : List (Reference NodeId × Option σ)) (hbody : body.ids.Nodup) :
    body.Trims (RefPool.visit (fun task => bind task.1 task.2) tasks body).2 := by
  induction tasks generalizing body with
  | nil => exact List.Sublist.refl _
  | cons task rest ih =>
    have hfirst := h task.1 task.2 body hbody
    exact hfirst.trans (ih (hfirst.nodup hbody))

theorem trims_trigger {bind : Reference NodeId → Option σ → Stmt → Option Diagnostic × Stmt} (h : Trimming bind)
    (pool : RefPool NodeId σ) (lookup : Ident → Option σ) (hbody : body.ids.Nodup) :
    body.Trims ((pool.resolve lookup).trigger { resolved := bind } body).2 := by
  rw [RefPool.trigger_unchecked]
  exact trims_visit h _ hbody

/-- A reference keeps its indexes, or becomes a value that has none. -/
theorem trims_of_bindNode {r : Reference NodeId} {symbol : Symbol} {node e : Expr}
    (h : bindNode r symbol (some node) = .ok e) : node.Trims e := by
  cases node with
  | var info path indexes =>
    cases symbol with
    | root root =>
      cases h
      exact Expr.trims_of_parts rfl (List.forall₂_same.mpr fun e _ => .refl e) (List.Sublist.refl _)
    | enumerated type =>
      simp only [bindNode] at h
      split at h
      · cases h
        exact Expr.trims_of_parts rfl (List.forall₂_same.mpr fun e _ => .refl e) (List.nil_sublist _)
      · cases h
  | literal | unary | binary | call => cases h

theorem trimming_bindVariable : Trimming bindVariable := by
  intro r found body hbody
  cases found with
  | none => exact List.Sublist.refl _
  | some symbol =>
    rw [bindVariable]
    cases hnode : body.exprNode? r.referrer with
    | none => exact List.Sublist.refl _
    | some node =>
      cases hbind : bindNode r symbol (some node) with
      | error d => exact List.Sublist.refl _
      | ok e => exact Stmt.trims_setExprNode hbody hnode (trims_of_bindNode hbind)

theorem trimming_bindCall : Trimming bindCall := by
  intro r found body hbody
  cases found with
  | none => exact List.Sublist.refl _
  | some callee =>
    rw [bindCall]
    split
    · next hnode =>
      exact Stmt.trims_setExprNode hbody hnode
        (Expr.trims_of_parts rfl (List.forall₂_same.mpr fun e _ => .refl e) (List.Sublist.refl _))
    · exact List.Sublist.refl _

/-- Linking the names in a body leaves out at most some nodes. -/
theorem trims_linkVariables (l : Library) (pou : Option Pou) (pool : RefPool NodeId Symbol) (hbody : body.ids.Nodup) :
    body.Trims (linkVariables l pou pool body).2 := trims_trigger trimming_bindVariable pool.reset _ hbody

theorem trims_linkCalls (l : Library) (pou : Option Pou) (pool : RefPool NodeId Callee) (hbody : body.ids.Nodup) :
    body.Trims (linkCalls l pou pool body).2 := trims_trigger trimming_bindCall pool.reset _ hbody

end Link

-- ---------------------------------------------------------------------------
-- Checking and preparing
-- ---------------------------------------------------------------------------

namespace Body

variable {s : Scope} {info : NodeInfo} {c : Checked}

/-- A checked node has the identifier of the node and some of the checked parts. -/
structure Checked.IsNode (c : Checked) (info : NodeInfo) (parts : List Expr) : Prop where
  id : c.expr.info.id = info.id
  parts : c.expr.parts.Sublist parts

theorem Checked.IsNode.trims {e : Expr} {parts : List Expr} (h : c.IsNode e.info parts)
    (hparts : List.Forall₂ Expr.Trims e.parts parts) : e.Trims c.expr := Expr.trims_of_parts h.id hparts h.parts

theorem checkLiteral_isNode {v : Value} {type : Option Ident} (h : checkLiteral s info v type = .ok c) :
    c.IsNode info [] := by
  unfold checkLiteral at h
  split at h
  · split at h
    · cases h
    · obtain ⟨v, -, h⟩ := Except.bind_eq_ok.mp h
      cases h
      exact ⟨rfl, List.Sublist.refl _⟩
  · cases h
    exact ⟨rfl, List.Sublist.refl _⟩

theorem checkUnary_isNode {op : UnaryOp} {operand : Checked} (h : checkUnary info op operand = .ok c) :
    c.IsNode info [operand.expr] := by
  obtain ⟨_, -, h⟩ := Except.bind_eq_ok.mp h
  split at h
  · obtain ⟨v, -, h⟩ := Except.bind_eq_ok.mp h
    cases h
    exact ⟨rfl, List.nil_sublist _⟩
  · cases h
    exact ⟨rfl, List.Sublist.refl _⟩

theorem checkBinary_isNode {op : BinaryOp} {left right : Checked} (h : checkBinary s info op left right = .ok c) :
    c.IsNode info [left.expr, right.expr] := by
  obtain ⟨_, -, h⟩ := Except.bind_eq_ok.mp h
  split at h
  · obtain ⟨v, -, h⟩ := Except.bind_eq_ok.mp h
    cases h
    exact ⟨rfl, List.nil_sublist _⟩
  · cases h
    exact ⟨rfl, List.Sublist.refl _⟩

theorem checkVar_isNode {path : VarPath} {root : Root} {indexes : List Expr}
    (h : checkVar s info path root indexes = .ok c) : c.IsNode info indexes := by
  obtain ⟨info', selectors, hvar, hid⟩ := checkVar_eq_ok h
  exact ⟨by rw [hvar]; exact hid, by rw [hvar]; exact List.Sublist.refl _⟩

theorem checkStandard_isNode {name : Ident} {f : StandardFunction} {args : List (ArgLabel × Checked)}
    (h : checkStandard s info name f args = .ok c) : c.IsNode info (args.map (·.2.expr)) := by
  unfold checkStandard at h
  generalize args.find? _ = found at h
  rcases found with _ | ⟨label, arg⟩
  · cases haccepts : f.accepts args.length with
    | false =>
      rw [haccepts] at h
      cases h
    | true =>
      simp only [haccepts, Bool.not_true, Bool.false_eq_true, if_false] at h
      split at h
      · obtain ⟨v, -, h⟩ := Except.bind_eq_ok.mp h
        cases h
        exact ⟨rfl, List.nil_sublist _⟩
      · split at h <;> obtain ⟨probe, -, h⟩ := Except.bind_eq_ok.mp h <;> cases h <;> exact ⟨rfl, List.Sublist.refl _⟩
  · cases h

theorem checkCall_isNode {name : Ident} {callee : Callee} {args : List (ArgLabel × Checked)}
    (h : checkCall s info name callee args = .ok c) : c.IsNode info (args.map (·.2.expr)) := by
  unfold checkCall at h
  cases callee with
  | standard f => exact checkStandard_isNode h
  | function pou =>
    dsimp only at h
    split at h
    · cases h
    · obtain ⟨bindings, -, h⟩ := Except.bind_eq_ok.mp h
      split at h <;> cases h <;> exact ⟨rfl, List.Sublist.refl _⟩
  | «instance» root =>
    obtain ⟨block?, -, h⟩ := Except.bind_eq_ok.mp h
    split at h
    · cases h
    · obtain ⟨bindings, -, h⟩ := Except.bind_eq_ok.mp h
      cases h
      exact ⟨rfl, List.Sublist.refl _⟩

theorem exprs_zip_sublist (labels : List ArgLabel) (cs : List Checked) :
    ((labels.zip cs).map (·.2.expr)).Sublist (cs.map (·.expr)) := by
  induction cs generalizing labels with
  | nil => simp
  | cons c cs ih =>
    cases labels with
    | nil => exact List.nil_sublist _
    | cons label labels => exact (ih labels).cons_cons _

mutual

/-- Checking an expression leaves out the nodes of what is constant, and gives the others no new identifier. -/
theorem trims_of_checkExpr : (e : Expr) → {c : Checked} → checkExpr s e = .ok c → e.Trims c.expr
  | .literal .., c, h => by
    rw [checkExpr] at h
    exact (checkLiteral_isNode h).trims .nil
  | .var info path indexes, c, h => by
    rw [checkExpr] at h
    split at h
    · cases h
    · obtain ⟨indexes', hindexes, h⟩ := Except.bind_eq_ok.mp h
      exact (checkVar_isNode h).trims (trims_of_checkIndexes indexes hindexes)
  | .unary info op operand, c, h => by
    rw [checkExpr] at h
    obtain ⟨operand', hoperand, h⟩ := Except.bind_eq_ok.mp h
    exact (checkUnary_isNode h).trims (.cons (trims_of_checkExpr operand hoperand) .nil)
  | .binary info op left right, c, h => by
    rw [checkExpr] at h
    obtain ⟨left', hleft, h⟩ := Except.bind_eq_ok.mp h
    obtain ⟨right', hright, h⟩ := Except.bind_eq_ok.mp h
    have hparts : List.Forall₂ Expr.Trims [left, right] [left'.expr, right'.expr] :=
      .cons (trims_of_checkExpr left hleft) (.cons (trims_of_checkExpr right hright) .nil)
    exact (checkBinary_isNode h).trims hparts
  | .call info name labels args callee bindings, c, h => by
    rw [checkExpr] at h
    obtain ⟨args', hargs, h⟩ := Except.bind_eq_ok.mp h
    split at h
    · cases h
    · obtain ⟨hid, hparts⟩ := checkCall_isNode h
      exact Checked.IsNode.trims ⟨hid, hparts.trans (exprs_zip_sublist labels args')⟩ (trims_of_checkArgs args hargs)

theorem trims_of_checkIndexes : (es : List Expr) → {es' : List Expr} → checkIndexes s es = .ok es' →
    List.Forall₂ Expr.Trims es es'
  | [], _, h => by
    rw [checkIndexes] at h
    cases h
    exact .nil
  | e :: es, _, h => by
    rw [checkIndexes] at h
    obtain ⟨c, hc, h⟩ := Except.bind_eq_ok.mp h
    obtain ⟨_, -, h⟩ := Except.bind_eq_ok.mp h
    obtain ⟨es', hes, h⟩ := Except.bind_eq_ok.mp h
    cases h
    exact .cons (trims_of_checkExpr e hc) (trims_of_checkIndexes es hes)

theorem trims_of_checkArgs : (es : List Expr) → {cs : List Checked} → checkArgs s es = .ok cs →
    List.Forall₂ Expr.Trims es (cs.map (·.expr))
  | [], _, h => by
    rw [checkArgs] at h
    cases h
    exact .nil
  | e :: es, _, h => by
    rw [checkArgs] at h
    obtain ⟨c, hc, h⟩ := Except.bind_eq_ok.mp h
    obtain ⟨cs, hcs, h⟩ := Except.bind_eq_ok.mp h
    cases h
    exact .cons (trims_of_checkExpr e hc) (trims_of_checkArgs es hcs)

end

/-- What the check of an expression leads to. -/
def ChecksTo (s : Scope) (e e' : Expr) : Prop := ∃ c, checkExpr s e = .ok c ∧ c.expr = e'

theorem labels_replaced {selector : Checked} {labels labels' : List CaseLabel}
    (h : List.Forall₂ (LabelVerified s selector) labels labels') :
    List.Forall₂ (CaseLabel.Replaced (ChecksTo s)) labels labels' := by
  have checks {e e' : Expr} (h : checkLabel s selector e = .ok e') : ChecksTo s e e' := by
    obtain ⟨⟨c, hc, rfl⟩, -⟩ := checkLabel_eq_ok h
    exact ⟨c, hc, rfl⟩
  refine h.imp fun label label' h => ?_
  cases h with
  | value h => exact .value (checks h)
  | range hlow hhigh => exact .range (checks hlow) (checks hhigh)

mutual

/-- A statement that passes the checks has the same shape, and what its expressions are checked to. -/
theorem Verified.replaced {inLoop : Bool} {stmt checked : Stmt} :
    Verified s inLoop stmt checked → stmt.Replaced (ChecksTo s) checked
  | .eval h => .eval ⟨_, h, rfl⟩
  | .assign h => by
    obtain ⟨t, v, path, ht, -, hv, -, -, -, rfl⟩ := checkAssign_ok h
    exact .assign ⟨t, ht, rfl⟩ ⟨v, hv, rfl⟩
  | .block h => .block h.replaced
  | .ifThen hbranches hotherwise => .ifThen hbranches.replaced hotherwise.replaced
  | .case hselector harms hotherwise =>
    .case ⟨_, checkSelector_eq_ok hselector, rfl⟩ harms.replaced hotherwise.replaced
  | .forLoop hcontrol hstart hstop hstep hbody => by
    refine .forLoop ⟨_, (checkControl_eq_ok hcontrol).1, rfl⟩ (checkBound_eq_ok hstart) (checkBound_eq_ok hstop) ?_
      hbody.replaced
    cases hstep with
    | none => exact .none
    | some hstep => exact .some (checkBound_eq_ok hstep)
  | .whileLoop hcondition hbody => .whileLoop (checkCondition_eq_ok hcondition) hbody.replaced
  | .repeatLoop hbody hcondition => .repeatLoop hbody.replaced (checkCondition_eq_ok hcondition)
  | .exit => .exit
  | .ret => .ret

theorem VerifiedAll.replaced {inLoop : Bool} {ss checked : List Stmt} :
    VerifiedAll s inLoop ss checked → Stmt.AllReplaced (ChecksTo s) ss checked
  | .nil => .nil
  | .cons hfirst hrest => .cons hfirst.replaced hrest.replaced

theorem VerifiedOption.replaced {inLoop : Bool} {o checked : Option Stmt} :
    VerifiedOption s inLoop o checked → Stmt.OptionReplaced (ChecksTo s) o checked
  | .none => .none
  | .some h => .some (Verified.replaced h)

theorem VerifiedBranches.replaced {inLoop : Bool} {bs checked : List (Expr × Stmt)} :
    VerifiedBranches s inLoop bs checked → Stmt.BranchesReplaced (ChecksTo s) bs checked
  | .nil => .nil
  | .cons hcondition hbody hrest => .cons (checkCondition_eq_ok hcondition) hbody.replaced hrest.replaced

theorem VerifiedArms.replaced {selector : Checked} {inLoop : Bool} {arms checked : List (List CaseLabel × Stmt)} :
    VerifiedArms s selector inLoop arms checked → Stmt.ArmsReplaced (ChecksTo s) arms checked
  | .nil => .nil
  | .cons hlabels hbody hrest => .cons (labels_replaced hlabels) hbody.replaced hrest.replaced

end

theorem fixNode_isNode {e e' : Expr} (h : fixNode e = .ok e') :
    e'.info.id = e.info.id ∧ e'.parts.Sublist e.parts := by
  cases e with
  | var info path indexes => obtain rfl | ⟨fixed, -, rfl⟩ := fixNode_var h <;> exact ⟨rfl, List.Sublist.refl _⟩
  | literal | unary | binary | call =>
    cases h
    exact ⟨rfl, List.Sublist.refl _⟩

/-- Preparing a body leaves out the nodes of what is constant, and gives the others no new identifier. -/
theorem trims_of_prepare {body prepared : Stmt} (h : prepare s body = .ok prepared) : body.Trims prepared := by
  obtain ⟨checked, hchecked, h⟩ := Except.bind_eq_ok.mp h
  have hfirst : body.Trims checked := (verified_of_verify hchecked).replaced.trims fun e _ e' ⟨c, hc, heq⟩ =>
    heq ▸ trims_of_checkExpr e hc
  have hreplaced := Stmt.replaced_of_mapExprsM checked (returns_of_eq_ok (Except.mapError_eq_ok.mp h))
  exact hfirst.trans (hreplaced.trims fun e _ e' he => Expr.trims_of_mapNodesM (fun _ _ => fixNode_isNode) e e' he)

end Body

end StructuredText
