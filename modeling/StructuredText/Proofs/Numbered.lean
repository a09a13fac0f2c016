-- SUMMARY: Bodies of trees: their nodes have identifiers of their own, and no name in them is linked.
import StructuredText.Body.OfTree
import StructuredText.Proofs.Named
import StructuredText.Proofs.Trees

/-!
# Numbered bodies

A body is built from a tree node by node. Every node is given the next identifier, and the name in it is added to a pool.
So the identifiers of its nodes differ, and no name is missing in the pools. The constants in the tree are plain and its
references have names, which the grammar sees to.
-/

namespace StructuredText

namespace Body

-- ---------------------------------------------------------------------------
-- Drafts
-- ---------------------------------------------------------------------------

/-- The nodes are fresh and have identifiers of their own, and their names are in the pools of the draft. -/
structure Numbered (d : Draft) (nodes : List Expr) : Prop where
  distinct : Head.Distinct (nodes.map Expr.head)
  below : ∀ e ∈ nodes, e.info.id < d.next
  fresh : ∀ e ∈ nodes, e.head.Fresh
  pools : d.pools = nodes.foldl BodyPools.register {}

/-- What is built after the nodes, together with them, has those nodes. -/
def Builds {α : Type} (nodes : List Expr) (m : Drafting α) (post : α → List Expr) : Prop :=
  ∀ d, Numbered d nodes → Numbered (m d).2 (post (m d).1)

/-- The node of an expression is added, and the name in it to the pools. -/
def Adds (m : Drafting Expr) (span : Span) (e : NodeInfo → Expr) : Prop :=
  ∀ d, m d = (e { id := d.next, span }, ⟨d.next + 1, d.pools.register (e { id := d.next, span })⟩)

theorem adds_node {span : Span} {e : NodeInfo → Expr} (h : ∀ info pools, BodyPools.register pools (e info) = pools) :
    Adds (node span >>= fun info => pure (e info)) span e := by
  intro d
  rw [h]
  rfl

theorem adds_addReference (segments : List Segment) (indexes : List Expr) (span : Span) :
    Adds (addReference segments indexes span) span fun info => .var info { segments } indexes := by
  intro d
  cases hfirst : segments.head? <;> simp only [addReference, hfirst] <;>
    simp only [BodyPools.register, BodyPools.registerReference, hfirst] <;> rfl

theorem adds_addCall (name : Ident) (labels : List ArgLabel) (args : List Expr) (span : Span) :
    Adds (addCall name labels args span) span fun info => .call info name labels args none [] := fun _ => rfl

open Returning

namespace Builds

variable {α β : Type} {nodes : List Expr} {m : Drafting α} {post : α → List Expr}

theorem pure {a : α} (h : post a = nodes) : Builds nodes (Pure.pure a : Drafting α) post := fun d hd => by
  rw [← h] at hd
  exact hd

/-- That the first part returns the value may be used for what follows. -/
theorem bind {k : α → Drafting β} {post' : β → List Expr} (hm : Builds nodes m post)
    (hk : ∀ a, Returns m a → Builds (post a) (k a) post') : Builds nodes (m >>= k) post' := fun d hd =>
  hk (m d).1 ⟨d, rfl⟩ (m d).2 (hm d hd)

theorem pure_bind {a : α} {k : α → Drafting β} {post : β → List Expr} (h : Builds nodes (k a) post) :
    Builds nodes (Pure.pure a >>= k) post := h

/-- A node whose identifier is used for no expression. -/
theorem node_bind {span : Span} {k : NodeInfo → Drafting α} (h : ∀ info, Builds nodes (k info) post) :
    Builds nodes (node span >>= k) post := fun d hd =>
  h ⟨d.next, span, none, .result⟩ { d with next := d.next + 1 }
    ⟨hd.distinct, fun e he => Nat.lt_succ_of_lt (hd.below e he), hd.fresh, hd.pools⟩

/-- A node of an expression. -/
theorem expr {m : Drafting Expr} {span : Span} {e : NodeInfo → Expr} {post : Expr → List Expr} (hm : Adds m span e)
    (hfresh : ∀ info, info.type? = none → (e info).info = info ∧ (e info).head.Fresh)
    (hpost : ∀ info, post (e info) = nodes ++ [e info]) : Builds nodes m post := by
  intro d hd
  obtain ⟨hinfo, hfresh⟩ := hfresh { id := d.next, span } rfl
  rw [hm d, hpost]
  generalize e { id := d.next, span } = e at hinfo hfresh ⊢
  have hid : e.info.id = d.next := by rw [hinfo]
  refine ⟨?_, ?_, List.forall_mem_append.mpr ⟨hd.fresh, List.forall_mem_singleton.mpr hfresh⟩, ?_⟩
  · rw [Head.Distinct, List.map_append, List.map_append, List.map_singleton, List.map_singleton, Expr.id_head, hid]
    refine List.Nodup.append hd.distinct (List.nodup_singleton _) ?_
    rw [List.disjoint_singleton, List.map_map]
    intro hmem
    obtain ⟨e', he', heq⟩ := List.mem_map.mp hmem
    have hlt := hd.below e' he'
    rw [← heq, Function.comp_apply, Expr.id_head] at hlt
    exact Nat.lt_irrefl _ hlt
  · refine List.forall_mem_append.mpr ⟨fun e' he' => Nat.lt_succ_of_lt (hd.below e' he'), ?_⟩
    exact List.forall_mem_singleton.mpr (hid ▸ Nat.lt_succ_self _)
  · rw [List.foldl_append, ← hd.pools]
    rfl

theorem mapM {f : α → Drafting β} {added : β → List Expr} {as : List α}
    (h : ∀ a ∈ as, ∀ nodes, Builds nodes (f a) fun b => nodes ++ added b) (nodes : List Expr) :
    Builds nodes (as.mapM f) fun bs => nodes ++ bs.flatMap added := by
  induction as generalizing nodes with
  | nil => exact .pure (by simp)
  | cons a as ih =>
    rw [List.mapM_cons]
    refine .bind (h a List.mem_cons_self nodes) fun b _ => ?_
    refine .bind (ih (fun a' ha => h a' (List.mem_cons_of_mem a ha)) _) fun bs _ => .pure ?_
    simp

end Builds

-- ---------------------------------------------------------------------------
-- Expressions
-- ---------------------------------------------------------------------------

open StructuredText.Expr (nodesOfAll nodesOfAll_flatMap)

theorem length_exprs : (ts : List Tree.Expr) → {es : List Expr} → Returns (exprs ts) es → es.length = ts.length
  | [], _, h => by
    rw [exprs] at h
    obtain rfl := of_pure h
    rfl
  | _ :: ts, _, h => by
    rw [exprs] at h
    obtain ⟨e, -, h⟩ := of_bind h
    obtain ⟨es, hes, h⟩ := of_bind h
    obtain rfl := of_pure h
    exact congrArg (· + 1) (length_exprs ts hes)

theorem length_segmentIndexes : (segments : List Tree.Segment) → {es : List Expr} →
    Returns (segmentIndexes segments) es → es.length = ((segments.map segment).map (·.indexes)).sum
  | [], _, h => by
    rw [segmentIndexes] at h
    obtain rfl := of_pure h
    rfl
  | .mk name indexes span :: rest, _, h => by
    rw [segmentIndexes] at h
    obtain ⟨first, hfirst, h⟩ := of_bind h
    obtain ⟨es, hes, h⟩ := of_bind h
    obtain rfl := of_pure h
    simp [length_exprs indexes hfirst, length_segmentIndexes rest hes, segment]

mutual

theorem expr_builds (nodes : List Expr) : (t : Tree.Expr) → t.Proper →
    Builds nodes (expr t) fun e => nodes ++ e.nodes
  | .constant v span, h => by
    rw [expr]
    exact .expr (adds_node fun _ _ => rfl) (fun info hinfo => ⟨rfl, h, hinfo⟩) fun _ => by simp [Expr.nodes]
  | .typed type v span, h => by
    rw [expr]
    exact .expr (adds_node fun _ _ => rfl) (fun info hinfo => ⟨rfl, h, hinfo⟩) fun _ => by simp [Expr.nodes]
  | .var p, h => by
    rw [expr]
    exact path_builds nodes p h
  | .unary op t span, h => by
    rw [expr]
    refine .bind (expr_builds nodes t h) fun e _ => ?_
    exact .expr (adds_node fun _ _ => rfl) (fun info hinfo => ⟨rfl, hinfo⟩) fun _ => by simp [Expr.nodes]
  | .binary op left right span, h => by
    rw [expr]
    refine .bind (expr_builds nodes left h.1) fun l _ => ?_
    refine .bind (expr_builds _ right h.2) fun r _ => ?_
    exact .expr (adds_node fun _ _ => rfl) (fun info hinfo => ⟨rfl, hinfo⟩) fun _ => by simp [Expr.nodes]
  | .call name args span, h => by
    rw [expr]
    refine .bind (arguments_builds nodes args h) fun es _ => ?_
    exact .expr (adds_addCall _ _ _ _) (fun info hinfo => ⟨rfl, hinfo, rfl⟩) fun _ => by simp [Expr.nodes]

theorem path_builds (nodes : List Expr) : (p : Tree.Path) → p.Proper →
    Builds nodes (path p) fun e => nodes ++ e.nodes
  | .mk segments span, h => by
    rw [path]
    refine .bind (segmentIndexes_builds nodes segments h.2) fun es hes => ?_
    refine .expr (adds_addReference _ _ _) (fun info hinfo => ⟨rfl, hinfo, rfl, rfl, ?_, fun hsimple => ?_⟩) fun _ => ?_
    · simpa using h.1
    · simp only [VarPath.isSimple, Bool.and_eq_true, List.all_eq_true, decide_eq_true_eq] at hsimple
      obtain ⟨s, hs⟩ := List.length_eq_one_iff.mp hsimple.1
      rw [length_segmentIndexes segments hes, hs, List.map_singleton, List.sum_singleton]
      exact hsimple.2 s (by simp [hs])
    · simp [Expr.nodes]

theorem segmentIndexes_builds (nodes : List Expr) : (segments : List Tree.Segment) →
    Tree.Segment.AllProper segments → Builds nodes (segmentIndexes segments) fun es => nodes ++ nodesOfAll es
  | [], _ => by
    rw [segmentIndexes]
    exact .pure (by simp [nodesOfAll])
  | .mk name indexes span :: rest, h => by
    rw [segmentIndexes]
    refine .bind (exprs_builds nodes indexes h.1) fun first _ => ?_
    exact .bind (segmentIndexes_builds _ rest h.2) fun es _ => .pure (by simp)

theorem exprs_builds (nodes : List Expr) : (ts : List Tree.Expr) → Tree.Expr.AllProper ts →
    Builds nodes (exprs ts) fun es => nodes ++ nodesOfAll es
  | [], _ => by
    rw [exprs]
    exact .pure (by simp [nodesOfAll])
  | t :: ts, h => by
    rw [exprs]
    exact .bind (expr_builds nodes t h.1) fun e _ => .bind (exprs_builds _ ts h.2) fun es _ => .pure (by simp [nodesOfAll])

theorem arguments_builds (nodes : List Expr) : (args : List Tree.Arg) → Tree.Arg.AllProper args →
    Builds nodes (arguments args) fun es => nodes ++ nodesOfAll es
  | [], _ => by
    rw [arguments]
    exact .pure (by simp [nodesOfAll])
  | .mk name t output :: rest, h => by
    rw [arguments]
    exact .bind (expr_builds nodes t h.1) fun e _ =>
      .bind (arguments_builds _ rest h.2) fun es _ => .pure (by simp [nodesOfAll])

end

-- ---------------------------------------------------------------------------
-- Statements
-- ---------------------------------------------------------------------------

theorem call_builds (nodes : List Expr) (name : Ident) (span : Span) {args : List Tree.Arg}
    (h : Tree.Arg.AllProper args) : Builds nodes (call name args span) fun e => nodes ++ e.nodes :=
  expr_builds nodes (.call name args span) h

theorem caseLabel_builds (nodes : List Expr) {label : Tree.CaseLabel} (h : label.Proper) :
    Builds nodes (caseLabel label) fun l => nodes ++ nodesOfAll l.exprs := by
  cases label with
  | value e => exact .bind (expr_builds nodes e h) fun e _ => .pure (by simp [CaseLabel.exprs, nodesOfAll])
  | range low high =>
    refine .bind (expr_builds nodes low h.1) fun l _ => .bind (expr_builds _ high h.2) fun r _ => .pure ?_
    simp [CaseLabel.exprs, nodesOfAll]

theorem caseLabels_builds (nodes : List Expr) {labels : List Tree.CaseLabel} (h : ∀ label ∈ labels, label.Proper) :
    Builds nodes (labels.mapM caseLabel) fun ls => nodes ++ nodesOfAll (ls.flatMap CaseLabel.exprs) := by
  simp only [nodesOfAll_flatMap]
  exact .mapM (fun label hlabel nodes => caseLabel_builds nodes (h label hlabel)) nodes

theorem step_builds (nodes : List Expr) (step : Option Tree.Expr) (h : ∀ e ∈ step, e.Proper) :
    Builds nodes (step.mapM expr) fun e => nodes ++ nodesOfAll e.toList := by
  cases step with
  | none => exact .pure (by simp [nodesOfAll])
  | some t => exact .bind (expr_builds nodes t (h t rfl)) fun e _ => .pure (by simp [nodesOfAll])

mutual

/-- A statement is built with the nodes of its expressions. -/
theorem stmt_builds (nodes : List Expr) : (t : Tree.Stmt) → t.Proper →
    Builds nodes (stmt t) fun s => nodes ++ s.exprNodes
  | .assign target value span, h => by
    rw [stmt]
    refine .bind (path_builds nodes target h.1) fun t _ => .bind (expr_builds _ value h.2) fun v _ => ?_
    exact .node_bind fun info => .pure (by simp [Stmt.exprNodes, nodesOfAll, Stmt.exprs])
  | .call name args span, h => by
    rw [stmt]
    exact .bind (call_builds nodes name span h) fun e _ => .pure (by simp [Stmt.exprNodes, nodesOfAll, Stmt.exprs])
  | .ifThen bs none span, h => by
    rw [stmt]
    refine .bind (branches_builds nodes span bs h.1) fun bs' _ => .pure_bind (.node_bind fun _ => .pure ?_)
    simp [Stmt.exprNodes, Stmt.exprs.eq_def (.ifThen ..)]
  | .ifThen bs (some ss) span, h => by
    rw [stmt]
    refine .bind (branches_builds nodes span bs h.1) fun bs' _ => .bind (stmts_builds _ ss h.2) fun inner _ => ?_
    refine .node_bind fun _ => .pure_bind (.node_bind fun _ => .pure ?_)
    simp [Stmt.exprNodes, Stmt.exprs]
  | .case selector as none span, h => by
    rw [stmt]
    refine .bind (expr_builds nodes selector h.1) fun e _ => .bind (arms_builds _ span as h.2.1) fun as' _ => ?_
    refine .pure_bind (.node_bind fun _ => .pure ?_)
    simp [Stmt.exprNodes, nodesOfAll, Stmt.exprs.eq_def (.case ..)]
  | .case selector as (some ss) span, h => by
    rw [stmt]
    refine .bind (expr_builds nodes selector h.1) fun e _ => .bind (arms_builds _ span as h.2.1) fun as' _ => ?_
    refine .bind (stmts_builds _ ss h.2.2) fun inner _ => .node_bind fun _ => ?_
    refine .pure_bind (.node_bind fun _ => .pure ?_)
    simp [Stmt.exprNodes, nodesOfAll, Stmt.exprs]
  | .forLoop control start stop step ss span, h => by
    rw [stmt]
    refine .bind (path_builds nodes control h.1) fun c _ => .bind (expr_builds _ start h.2.1) fun e _ => ?_
    refine .bind (expr_builds _ stop h.2.2.1) fun e' _ => .bind (step_builds _ step h.2.2.2.1) fun o _ => ?_
    refine .bind (stmts_builds _ ss h.2.2.2.2) fun inner _ => .node_bind fun _ => .node_bind fun _ => .pure ?_
    simp [Stmt.exprNodes, nodesOfAll, Stmt.exprs]
  | .whileLoop condition ss span, h => by
    rw [stmt]
    refine .bind (expr_builds nodes condition h.1) fun c _ => .bind (stmts_builds _ ss h.2) fun inner _ => ?_
    exact .node_bind fun _ => .node_bind fun _ => .pure (by simp [Stmt.exprNodes, nodesOfAll, Stmt.exprs])
  | .repeatLoop ss condition span, h => by
    rw [stmt]
    refine .bind (stmts_builds nodes ss h.1) fun inner _ => .node_bind fun _ => ?_
    refine .bind (expr_builds _ condition h.2) fun c _ => .node_bind fun _ => .pure ?_
    simp [Stmt.exprNodes, nodesOfAll, Stmt.exprs]
  | .exit span, h => by
    rw [stmt]
    exact .node_bind fun _ => .pure (by simp [Stmt.exprNodes, nodesOfAll, Stmt.exprs])
  | .ret span, h => by
    rw [stmt]
    exact .node_bind fun _ => .pure (by simp [Stmt.exprNodes, nodesOfAll, Stmt.exprs])

theorem stmts_builds (nodes : List Expr) : (ts : List Tree.Stmt) → Tree.Stmt.AllProper ts →
    Builds nodes (stmts ts) fun ss => nodes ++ nodesOfAll (Stmt.exprsOfAll ss)
  | [], _ => by
    rw [stmts]
    exact .pure (by simp [Stmt.exprsOfAll, nodesOfAll])
  | t :: ts, h => by
    rw [stmts]
    refine .bind (stmt_builds nodes t h.1) fun s _ => .bind (stmts_builds _ ts h.2) fun ss _ => .pure ?_
    simp [Stmt.exprNodes, Stmt.exprsOfAll]

theorem branches_builds (nodes : List Expr) (whole : Span) : (bs : List (Tree.Expr × List Tree.Stmt)) →
    Tree.Stmt.BranchesProper bs → Builds nodes (branches whole bs) fun bs => nodes ++ nodesOfAll (Stmt.exprsOfBranches bs)
  | [], _ => by
    rw [branches]
    exact .pure (by simp [Stmt.exprsOfBranches, nodesOfAll])
  | (condition, ss) :: rest, h => by
    rw [branches]
    refine .bind (expr_builds nodes condition h.1) fun c _ => .bind (stmts_builds _ ss h.2.1) fun inner _ => ?_
    refine .node_bind fun _ => .bind (branches_builds _ whole rest h.2.2) fun bs _ => .pure ?_
    simp [Stmt.exprs, Stmt.exprsOfBranches, nodesOfAll]

theorem arms_builds (nodes : List Expr) (whole : Span) : (as : List (List Tree.CaseLabel × List Tree.Stmt)) →
    Tree.Stmt.ArmsProper as → Builds nodes (arms whole as) fun as => nodes ++ nodesOfAll (Stmt.exprsOfArms as)
  | [], _ => by
    rw [arms]
    exact .pure (by simp [Stmt.exprsOfArms, nodesOfAll])
  | (labels, ss) :: rest, h => by
    rw [arms]
    refine .bind (caseLabels_builds nodes h.1) fun ls _ => .bind (stmts_builds _ ss h.2.1) fun inner _ => ?_
    refine .node_bind fun _ => .bind (arms_builds _ whole rest h.2.2) fun as _ => .pure ?_
    simp [Stmt.exprs, Stmt.exprsOfArms]

end

-- ---------------------------------------------------------------------------
-- Bodies
-- ---------------------------------------------------------------------------

/-- No name in the body is linked, and its nodes have identifiers of their own. -/
def IsFresh (body : Stmt) : Prop := Head.Distinct body.heads ∧ ∀ h ∈ body.heads, h.Fresh

/-- The body is fresh, and the names in it are in the pools. -/
structure Unlinked (body : Stmt) (pools : BodyPools) : Prop where
  fresh : IsFresh body
  pools : pools = body.pools

/-- A body that is built by itself is not linked. -/
theorem Builds.unlinked {m : Drafting Stmt} (h : Builds [] m Stmt.exprNodes) : Unlinked (m {}).1 (m {}).2.pools := by
  have hnumbered := h {} ⟨List.nodup_nil, by simp, by simp, rfl⟩
  exact ⟨⟨hnumbered.distinct, List.forall_mem_map.mpr hnumbered.fresh⟩, hnumbered.pools⟩

theorem statementsBody_builds {ts : List Tree.Stmt} (h : Tree.Stmt.AllProper ts) (whole : Span) :
    Builds [] (statementsBody ts whole) Stmt.exprNodes :=
  .bind (stmts_builds [] ts h) fun inner _ => .node_bind fun _ => .pure (by simp [Stmt.exprNodes, Stmt.exprs])

theorem queryBody_builds {q : Tree.Query} (h : q.Proper) : Builds [] (queryBody q) Stmt.exprNodes := by
  cases q with
  | read e => exact .bind (expr_builds [] e h) fun e _ => .pure (by simp [Stmt.exprNodes, Stmt.exprs, nodesOfAll])
  | assign target value span =>
    refine .bind (path_builds [] target h.1) fun t _ => .bind (expr_builds _ value h.2) fun v _ => ?_
    exact .node_bind fun _ => .pure (by simp [Stmt.exprNodes, Stmt.exprs, nodesOfAll])

/-- The body of a unit is not linked. -/
theorem unlinked_ofStatements {ts : List Tree.Stmt} (h : Tree.Stmt.AllProper ts) (whole : Span) :
    Unlinked (ofStatements ts whole).1 (ofStatements ts whole).2 :=
  (statementsBody_builds h whole).unlinked

/-- The body of a query is not linked. -/
theorem unlinked_ofQuery {q : Tree.Query} (h : q.Proper) : Unlinked (ofQuery q).body (ofQuery q).pools :=
  (queryBody_builds h).unlinked

end Body

end StructuredText
