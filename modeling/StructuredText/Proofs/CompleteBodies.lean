-- SUMMARY: Bodies of parsed sources and queries: trees without gaps, with a reference for each name in them.
import Mathlib.Data.List.Forall2
import StructuredText.Proofs.NodeTrees
import StructuredText.Proofs.Relinked

/-!
# Complete bodies

Whatever runs, checks or links a body relies on what it is built like: its nodes form a tree, and the pools that are
filled while it is built have one reference for each variable and each call in it. So when no reference is refused, no
name in the body is left without what it stands for.
-/

namespace StructuredText

-- ---------------------------------------------------------------------------
-- Expressions in trees
-- ---------------------------------------------------------------------------

namespace NodeTree

/-- The expression of a node with the identifier of the node. -/
def Entry.expression? (entry : Entry) : Option (NodeId × Expr) := entry.expr?.map (entry.id, ·)

/-- The nodes of expressions. -/
def expressions (entries : List Entry) : List (NodeId × Expr) := entries.filterMap Entry.expression?

@[simp] theorem expressions_append (entries entries' : List Entry) :
    expressions (entries ++ entries') = expressions entries ++ expressions entries' := List.filterMap_append

@[simp] theorem expressions_expr (id : NodeId) (e : Expr) (children : List NodeId) :
    expressions [⟨id, some e, children⟩] = [(id, e)] := rfl

@[simp] theorem expressions_stmt (id : NodeId) (children : List NodeId) :
    expressions [⟨id, none, children⟩] = [] := rfl

end NodeTree

open NodeTree (entriesOfAll expressions)

namespace Expr

/-- A node with its identifier. -/
def identified (e : Expr) : NodeId × Expr := (e.info.id, e)

theorem nodeTree_eq (e : Expr) : e.nodeTree = .node e.info.id (some e) (nodeTrees e.parts) := by
  cases e <;> rw [nodeTree] <;> rfl

/-- The tree of an expression has the nodes of the expression. -/
theorem expressions_nodeTree (e : Expr) : expressions e.nodeTree.entries = e.nodes.map identified := by
  refine forall_of_parts (P := fun e => expressions e.nodeTree.entries = e.nodes.map identified) (fun e ih => ?_) e
  have hparts : expressions (entriesOfAll (nodeTrees e.parts)) = (nodesOfAll e.parts).map identified := by
    generalize e.parts = parts at ih
    induction parts with
    | nil => rfl
    | cons part parts ihs =>
      obtain ⟨hpart, hparts⟩ := List.forall_mem_cons.mp ih
      simp [nodeTrees, entriesOfAll, nodesOfAll, hpart, ihs hparts]
  rw [nodeTree_eq, NodeTree.entries, NodeTree.expressions_append, hparts, nodes_eq, List.map_append]
  rfl

@[simp] theorem expressions_nodeTrees (es : List Expr) :
    expressions (entriesOfAll (nodeTrees es)) = (nodesOfAll es).map identified := by
  induction es with
  | nil => rfl
  | cons e es ih => simp [nodeTrees, entriesOfAll, nodesOfAll, expressions_nodeTree, ih]

end Expr

namespace Stmt

open Expr (nodesOfAll)

mutual

/-- The tree of a statement has the nodes of its expressions, in the same order. -/
theorem expressions_nodeTree : (s : Stmt) → expressions s.nodeTree.entries = (nodesOfAll s.exprs).map Expr.identified
  | .eval e => by simp [nodeTree, exprs, nodesOfAll, Expr.expressions_nodeTree]
  | .assign info target value => by
    simp [nodeTree, exprs, nodesOfAll, NodeTree.entries, entriesOfAll, Expr.expressions_nodeTree]
  | .block info statements => by simp [nodeTree, exprs, NodeTree.entries, expressions_nodeTrees statements]
  | .ifThen info branches none => by
    simp [nodeTree.eq_def (.ifThen ..), exprs.eq_def (.ifThen ..), NodeTree.entries, expressions_branches branches]
  | .ifThen info branches (some s) => by
    simp [nodeTree, exprs, NodeTree.entries, expressions_branches branches, expressions_nodeTree s]
  | .case info selector arms none => by
    simp [nodeTree.eq_def (.case ..), exprs.eq_def (.case ..), NodeTree.entries, entriesOfAll, nodesOfAll,
      Expr.expressions_nodeTree, expressions_arms arms]
  | .case info selector arms (some s) => by
    simp [nodeTree, exprs, NodeTree.entries, entriesOfAll, nodesOfAll, Expr.expressions_nodeTree,
      expressions_arms arms, expressions_nodeTree s]
  | .forLoop info control start stop step body => by
    simp [nodeTree, exprs, NodeTree.entries, nodesOfAll, expressions_nodeTree body]
  | .whileLoop info condition body => by
    simp [nodeTree, exprs, NodeTree.entries, entriesOfAll, nodesOfAll, Expr.expressions_nodeTree,
      expressions_nodeTree body]
  | .repeatLoop info body condition => by
    simp [nodeTree, exprs, NodeTree.entries, entriesOfAll, nodesOfAll, Expr.expressions_nodeTree,
      expressions_nodeTree body]
  | .exit info => rfl
  | .ret info => rfl

theorem expressions_nodeTrees : (ss : List Stmt) →
    expressions (entriesOfAll (nodeTrees ss)) = (nodesOfAll (exprsOfAll ss)).map Expr.identified
  | [] => rfl
  | s :: ss => by simp [nodeTrees, exprsOfAll, entriesOfAll, expressions_nodeTree s, expressions_nodeTrees ss]

theorem expressions_branches : (bs : List (Expr × Stmt)) →
    expressions (entriesOfAll (treesOfBranches bs)) = (nodesOfAll (exprsOfBranches bs)).map Expr.identified
  | [] => rfl
  | (condition, s) :: bs => by
    simp [treesOfBranches, exprsOfBranches, entriesOfAll, nodesOfAll, Expr.expressions_nodeTree,
      expressions_nodeTree s, expressions_branches bs]

theorem expressions_arms : (as : List (List CaseLabel × Stmt)) →
    expressions (entriesOfAll (treesOfArms as)) = (nodesOfAll (exprsOfArms as)).map Expr.identified
  | [] => rfl
  | (labels, s) :: as => by
    simp [treesOfArms, exprsOfArms, entriesOfAll, expressions_nodeTree s, expressions_arms as]

end

/-- The variables in the tree of a body. -/
def varNodes (s : Stmt) : List (NodeId × VarPath) :=
  (expressions s.nodeTree.entries).filterMap fun (id, e) => e.path?.map (id, ·)

/-- The calls in the tree of a body. -/
def callNodes (s : Stmt) : List (NodeId × Ident) :=
  (expressions s.nodeTree.entries).filterMap fun (id, e) =>
    match e with
    | .call _ name _ _ _ _ => some (id, name)
    | _ => none

end Stmt

-- ---------------------------------------------------------------------------
-- Pools
-- ---------------------------------------------------------------------------

namespace RefPool

/-- The node that refers to a name, and the name. -/
def named {σ : Type} (pool : RefPool NodeId σ) : List (NodeId × Option Ident) :=
  pool.entries.map fun entry => (entry.reference.referrer, entry.reference.name)

theorem checks_foldl {ρ σ α : Type} (step : RefPool ρ σ → α → RefPool ρ σ) (h : ∀ p a, (step p a).checks = p.checks)
    (items : List α) (p : RefPool ρ σ) : (items.foldl step p).checks = p.checks := by
  induction items generalizing p with
  | nil => rfl
  | cons a items ih => exact (ih (step p a)).trans (h p a)

/-- The references of a pool to which some of the nodes of a body add one. -/
theorem named_foldl {σ : Type} {step : RefPool NodeId σ → Expr → RefPool NodeId σ}
    (added : Expr → Option (RefEntry NodeId)) (h : ∀ p e, (step p e).entries.Perm (p.entries ++ (added e).toList))
    (nodes : List Expr) : (nodes.foldl step {}).named.Perm
      (nodes.filterMap fun e => (added e).map fun entry => (entry.reference.referrer, entry.reference.name)) := by
  have hentries := entries_foldl step (fun e => (added e).toList) h nodes {}
  rw [← List.filterMap_eq_flatMap_toList] at hentries
  rw [← List.map_filterMap]
  exact hentries.map _

end RefPool

namespace Link

variable {body : Stmt}

/-- The reference of a node to a variable. -/
def variableEntry (e : Expr) : Option (RefEntry NodeId) :=
  e.path?.bind fun path => path.segments.head?.map fun first => ⟨⟨some first.name, e.info.id, first.span⟩, false⟩

/-- The reference of a node to what it calls. -/
def callEntry (e : Expr) : Option (RefEntry NodeId) :=
  e.called?.map fun (name, info) => ⟨⟨some name, info.id, info.span⟩, false⟩

theorem entries_registerReference (pool : RefPool NodeId Symbol) (e : Expr) :
    (BodyPools.registerReference pool e).entries.Perm (pool.entries ++ (variableEntry e).toList) := by
  cases e with
  | var info path indexes =>
    dsimp only [BodyPools.registerReference, variableEntry, Expr.path?, Option.bind_some]
    cases path.segments.head? with
    | none => simp
    | some first => exact RefPool.entries_add pool _ _ _ _
  | literal | unary | binary | call => simp [BodyPools.registerReference, variableEntry, Expr.path?]

theorem entries_registerCall (pool : RefPool NodeId Callee) (e : Expr) :
    (BodyPools.registerCall pool e).entries.Perm (pool.entries ++ (callEntry e).toList) := by
  unfold BodyPools.registerCall callEntry
  cases e.called? with
  | none => simp
  | some note => exact RefPool.entries_add pool _ _ _ _

/-- The pool of references has one reference for each variable, by its first name. -/
theorem named_variables (h : ∀ v ∈ body.varNodes, v.2.segments ≠ []) :
    body.pools.vars.named.Perm
      (body.varNodes.map fun (id, path) => (id, path.segments.head?.map (·.name))) := by
  rw [Stmt.pools_vars]
  refine (RefPool.named_foldl variableEntry entries_registerReference body.exprNodes).trans (.of_eq ?_)
  rw [Stmt.varNodes, Stmt.expressions_nodeTree] at h ⊢
  rw [List.filterMap_map, List.map_filterMap]
  refine List.filterMap_congr fun e he => ?_
  cases e with
  | var info path indexes =>
    have hsegments : path.segments ≠ [] := h (info.id, path) (List.mem_filterMap.mpr
      ⟨_, List.mem_map_of_mem he, rfl⟩)
    obtain ⟨first, rest, hfirst⟩ := List.exists_cons_of_ne_nil hsegments
    simp [variableEntry, Expr.path?, Expr.identified, hfirst, Expr.info]
  | literal | unary | binary | call => rfl

/-- The pool of calls has one reference for each call, by its name. -/
theorem named_calls (body : Stmt) :
    body.pools.calls.named.Perm (body.callNodes.map fun (id, name) => (id, some name)) := by
  rw [Stmt.pools_calls]
  refine (RefPool.named_foldl callEntry entries_registerCall body.exprNodes).trans (.of_eq ?_)
  rw [Stmt.callNodes, Stmt.expressions_nodeTree, List.filterMap_map, List.map_filterMap]
  refine List.filterMap_congr fun e he => ?_
  cases e <;> rfl

theorem checks_variables (body : Stmt) : body.pools.vars.checks = [] := by
  rw [Stmt.pools_vars]
  refine RefPool.checks_foldl _ (fun p e => ?_) body.exprNodes {}
  unfold BodyPools.registerReference
  split
  · split <;> rfl
  · rfl

theorem checks_calls (body : Stmt) : body.pools.calls.checks = [] := by
  rw [Stmt.pools_calls]
  refine RefPool.checks_foldl _ (fun p e => ?_) body.exprNodes {}
  unfold BodyPools.registerCall
  split <;> rfl

end Link

-- ---------------------------------------------------------------------------
-- Resolution
-- ---------------------------------------------------------------------------

/-- What resolving the names of a body makes of the head of a node. -/
inductive Head.ResolvesTo : Head → Head → Prop
  | rooted (info : NodeInfo) (path : VarPath) (indexes : Nat) (root : Root) :
    ResolvesTo (.var info path indexes) (.var info { path with root := some root } indexes)
  | literal (info : NodeInfo) (path : VarPath) (indexes : Nat) (type? : Option TypeId) (storage : StorageClass)
    (v : Value) : ResolvesTo (.var info path indexes) (.literal { info with type?, storage } v)
  | called (info : NodeInfo) (callee? : Option Callee) (bindings : List ArgBinding) (callee : Callee) :
    ResolvesTo (.call info callee? bindings) (.call info (some callee) bindings)
  | constant (info : NodeInfo) (v : Value) : ResolvesTo (.literal info v) (.literal info v)
  | operator (info : NodeInfo) : ResolvesTo (.operator info) (.operator info)

namespace Link

section

variable {σ : Type} {target : Head → Prop} {bind : Reference NodeId → Option σ → Stmt → Option Diagnostic × Stmt}
  {act : Reference NodeId → Option σ → Head → Option Diagnostic × Head}
  {tasks : List (Reference NodeId × Option σ)} {body body' : Stmt}

/-- The head is bound by one of the references, or is none that they are to. -/
def BoundBy (target : Head → Prop) (act : Reference NodeId → Option σ → Head → Option Diagnostic × Head)
    (tasks : List (Reference NodeId × Option σ)) (h h' : Head) : Prop :=
  (h.id ∉ tasks.map (·.1.referrer) ∧ h' = h) ∨
    ∃ task ∈ tasks, h.id = task.1.referrer ∧ target h ∧ act task.1 task.2 h = (none, h')

/-- References that are all bound take the heads of their nodes one by one. -/
theorem ActsOn.bound (hacts : ActsOn target bind act) (haims : Aimed target tasks body)
    (hvisit : RefPool.visit (fun task => bind task.1 task.2) tasks body = ([], body')) :
    List.Forall₂ (BoundBy target act tasks) body.heads body'.heads := by
  induction tasks generalizing body with
  | nil =>
    cases hvisit
    exact List.forall₂_same.mpr fun h _ => .inl ⟨List.not_mem_nil, rfl⟩
  | cons task tasks ih =>
    obtain ⟨haimed, head, hhead, hid, htarget, hheads⟩ := hacts.step haims
    have hdiagnostic := hacts.diagnostic task haims.distinct hhead hid htarget
    obtain ⟨hnew, -⟩ := List.nodup_cons.mp haims.referrers
    rw [RefPool.visit] at hvisit
    rcases hbind : bind task.1 task.2 body with ⟨_ | d, body₁⟩ <;> rw [hbind] at hvisit hdiagnostic hheads haimed
    · rcases hrest : RefPool.visit (fun task => bind task.1 task.2) tasks body₁ with ⟨ds, body₂⟩
      simp only [hrest] at hvisit
      cases hvisit
      have hbound := ih haimed hrest
      rw [hheads, Head.replace, List.forall₂_map_left_iff] at hbound
      refine ((List.forall₂_and_left _ _).mpr ⟨fun h hh => hh, hbound⟩).imp fun h h' hboth => ?_
      obtain ⟨hh, hbound⟩ := hboth
      by_cases hfirst : h.id = task.1.referrer
      · obtain rfl := haims.distinct.eq_of_id hh hhead (hfirst.trans hid.symm)
        rw [if_pos hfirst] at hbound
        obtain ⟨-, rfl⟩ | ⟨other, hother, hsame, -⟩ := hbound
        · exact .inr ⟨task, List.mem_cons_self, hfirst, htarget, Prod.ext hdiagnostic.symm rfl⟩
        · rw [hacts.id, hid] at hsame
          exact absurd (List.mem_map.mpr ⟨other, hother, hsame.symm⟩) hnew
      · rw [if_neg hfirst] at hbound
        obtain ⟨hother, rfl⟩ | ⟨other, hother, hbound⟩ := hbound
        · exact .inl ⟨by simpa only [List.map_cons, List.mem_cons, not_or] using ⟨hfirst, hother⟩, rfl⟩
        · exact .inr ⟨other, List.mem_cons_of_mem task hother, hbound⟩
    · cases congrArg Prod.fst hvisit

end

variable {l l' : Library} {pou pou' : Option Pou} {body linked resolved : Stmt}

/-- A reference of a fresh body is bound by what its first name stands for. -/
theorem resolvesTo_of_references {h h' : Head} (hbody : Body.IsFresh body) (hh : h ∈ body.heads) (hvar : h.IsVar)
    (hbound : BoundBy Head.IsReference bindHead (references l pou body) h h') :
    h.ResolvesTo h' ∧ ¬ h'.IsCall := by
  have hfresh := hbody.2 h hh
  cases h with
  | literal | operator | call => cases hvar
  | var info path indexes =>
    obtain ⟨hmissing, -⟩ | ⟨⟨r, found⟩, -, -, -, hact⟩ := hbound
    · have htasks := collected_tasks (@collects_variables default []) (l.symbol? pou) hbody.1
      rw [← Stmt.pools_vars] at htasks
      have hrooted : (Head.var info path indexes).Rooted := (htasks.2.2 _ hh).resolve_right hmissing hfresh.opened
      rw [Head.Rooted, hfresh.2.2.1] at hrooted
      cases hrooted
    · cases found with
      | none => cases hact
      | some symbol =>
        cases symbol with
        | root root =>
          cases hact
          exact ⟨.rooted .., id⟩
        | enumerated type =>
          simp only [bindHead] at hact
          split at hact
          · cases hact
            exact ⟨.literal .., id⟩
          · cases hact

/-- A call of a fresh body is bound to its callee. -/
theorem resolvesTo_of_callees {h h' : Head} (hbody : Body.IsFresh body) (hh : h ∈ body.heads) (hcall : h.IsCall)
    (hbound : BoundBy Head.IsCall bindCallHead (callees l pou body) h h') : h.ResolvesTo h' := by
  have hfresh := hbody.2 h hh
  cases h with
  | literal | operator | var => cases hcall
  | call info callee? bindings =>
    obtain ⟨hmissing, -⟩ | ⟨⟨r, found⟩, -, -, -, hact⟩ := hbound
    · have htasks := collected_tasks (@collects_calls default []) (l.callee? pou) hbody.1
      rw [← Stmt.pools_calls] at htasks
      have hcalled : (Head.call info callee? bindings).Called :=
        (htasks.2.2 _ hh).resolve_right hmissing ⟨hfresh.opened, trivial⟩
      rw [Head.Called, hfresh.2] at hcalled
      cases hcalled
    · cases found with
      | none => cases hact
      | some callee =>
        cases hact
        exact .called ..

/--
When no name of a fresh body is refused, every reference has the variable that it starts with or has become a literal,
and every call has its callee. All else is as it was.
-/
theorem resolvesTo_of_linked (hbody : Body.IsFresh body)
    (hvariables : linkVariables l pou body.pools.vars body = ([], linked))
    (hcalls : linkCalls l' pou' body.pools.calls linked = ([], resolved)) :
    List.Forall₂ Head.ResolvesTo body.heads resolved.heads := by
  rw [linkVariables_eq_visit] at hvariables
  rw [linkCalls_eq_visit] at hcalls
  have hnames : Aimed Head.IsReference (references l pou body) body := aimed_references hbody
  have hdone := (acts_bindVariable.visit hnames).2
  rw [hvariables] at hdone
  have hfirst := acts_bindVariable.bound hnames hvariables
  have haimed : Aimed Head.IsCall (callees l' pou' body) linked := hdone.aimed_callees hbody
  have hsecond := acts_bindCall.bound haimed hcalls
  refine forall₂_trans (fun h h₁ h₂ ⟨hh, hfirst⟩ hsecond => ?_)
    ((List.forall₂_and_left _ _).mpr ⟨fun h hh => hh, hfirst⟩) hsecond
  -- No head is bound twice: a reference is no call, and becomes none.
  cases h with
  | var info path indexes =>
    obtain ⟨hresolves, hcall⟩ := resolvesTo_of_references hbody hh trivial hfirst
    obtain ⟨-, rfl⟩ | ⟨task, -, -, htarget, -⟩ := hsecond
    · exact hresolves
    · exact absurd htarget hcall
  | call info callee? bindings =>
    obtain ⟨-, rfl⟩ | ⟨task, -, -, htarget, -⟩ := hfirst
    · exact resolvesTo_of_callees hbody hh trivial hsecond
    · cases htarget
  | literal info v =>
    obtain ⟨-, rfl⟩ | ⟨task, -, -, htarget, -⟩ := hfirst
    · obtain ⟨-, rfl⟩ | ⟨task, -, -, htarget, -⟩ := hsecond
      · exact .constant info v
      · cases htarget
    · cases htarget
  | operator info =>
    obtain ⟨-, rfl⟩ | ⟨task, -, -, htarget, -⟩ := hfirst
    · obtain ⟨-, rfl⟩ | ⟨task, -, -, htarget, -⟩ := hsecond
      · exact .operator info
      · cases htarget
    · cases htarget

end Link

-- ---------------------------------------------------------------------------
-- Parsed bodies
-- ---------------------------------------------------------------------------

namespace Body

/--
The body is a tree of all nodes that were added for it, the pools that were filled meanwhile have one reference for each
variable and one for each call, and when none of these references is refused, each variable and each call is resolved.
-/
structure Complete (body : Stmt) (pools : BodyPools) (added : Nat) : Prop where
  added : added = body.info.id + 1
  tree : NodeTree.IsTree body.info.id body.nodeTree.entries
  named : ∀ v ∈ body.varNodes, v.2.segments ≠ []
  variableReferences : pools.vars.named.Perm (body.varNodes.map fun (id, path) => (id, path.segments.head?.map (·.name)))
  callReferences : pools.calls.named.Perm (body.callNodes.map fun (id, name) => (id, some name))
  checks : pools.vars.checks = [] ∧ pools.calls.checks = []
  resolved : ∀ l l' pou pou' linked resolved, Link.linkVariables l pou pools.vars body = ([], linked) →
    Link.linkCalls l' pou' pools.calls linked = ([], resolved) → List.Forall₂ Head.ResolvesTo body.heads resolved.heads

theorem segments_of_isFresh {body : Stmt} (hbody : IsFresh body) : ∀ v ∈ body.varNodes, v.2.segments ≠ [] := by
  intro v hv
  rw [Stmt.varNodes, Stmt.expressions_nodeTree, List.filterMap_map] at hv
  obtain ⟨e, he, hpath⟩ := List.mem_filterMap.mp hv
  have hfresh := hbody.2 e.head (List.mem_map_of_mem he)
  cases e with
  | var info path indexes =>
    cases hpath
    exact hfresh.2.2.2.1
  | literal | unary | binary | call => cases hpath

/-- A body that is built by itself, of fresh nodes, is complete. -/
theorem Builds.complete {m : Drafting Stmt} (hbuilds : Builds [] m Stmt.exprNodes)
    (hgrows : Grows [] m fun s => [s.nodeTree]) : Complete (m {}).1 (m {}).2.pools (m {}).2.next := by
  obtain ⟨hfresh, hpools⟩ := hbuilds.unlinked
  rw [hpools]
  exact {
    added := hgrows.isTree.1
    tree := hgrows.isTree.2
    named := segments_of_isFresh hfresh
    variableReferences := Link.named_variables (segments_of_isFresh hfresh)
    callReferences := Link.named_calls _
    checks := ⟨Link.checks_variables _, Link.checks_calls _⟩
    resolved := fun _ _ _ _ _ _ => Link.resolvesTo_of_linked hfresh }

end Body

-- ---------------------------------------------------------------------------
-- Bodies of units
-- ---------------------------------------------------------------------------

namespace CompilationUnit

/-- The file and the program organization units stay as they are. -/
def LeavesPous {α : Type} (m : Building α) : Prop :=
  ∀ u : CompilationUnit, ((m u).2.file, (m u).2.pous) = (u.file, u.pous)

namespace LeavesPous

variable {α β : Type} {m : Building α}

theorem pure (a : α) : LeavesPous (Pure.pure a) := fun _ => rfl

theorem bind {k : α → Building β} (hm : LeavesPous m) (hk : ∀ a, LeavesPous (k a)) : LeavesPous (m >>= k) :=
  fun u => (hk (m u).1 (m u).2).trans (hm u)

theorem mapM {f : α → Building β} (h : ∀ a, LeavesPous (f a)) (as : List α) : LeavesPous (as.mapM f) := by
  induction as with
  | nil => exact .pure []
  | cons a as ih =>
    rw [List.mapM_cons]
    exact .bind (h a) fun b => .bind ih fun bs => .pure (b :: bs)

theorem forM {f : α → Building Unit} (h : ∀ a, LeavesPous (f a)) (as : List α) : LeavesPous (as.forM f) := by
  induction as with
  | nil => exact .pure PUnit.unit
  | cons a as ih => exact .bind (h a) fun _ => ih

theorem forIn {f : α → PUnit → Building (ForInStep PUnit)} (h : ∀ a b, LeavesPous (f a b)) (as : List α) (b : PUnit) :
    LeavesPous (ForIn.forIn as b f) := by
  induction as generalizing b with
  | nil => exact .pure b
  | cons a as ih =>
    rw [List.forIn_cons]
    refine .bind (h a b) fun step => ?_
    cases step with
    | done b => exact .pure b
    | yield b => exact ih b

end LeavesPous

theorem leavesPous_typeName (name : Ident) (t : Tree.TypeExpr) : LeavesPous (typeName name t) := by
  induction t generalizing name with
  | named type => exact .pure type
  | subrange base min max => exact fun _ => rfl
  | array element dimensions ih =>
    exact .bind (ih _) fun element => .bind (fun _ => rfl) fun _ => .pure name

theorem leavesPous_addMembers (type : Ident) (ms : List (Tree.Member × Nat)) : LeavesPous (addMembers type ms) := by
  induction ms with
  | nil => exact .pure []
  | cons entry ms ih =>
    refine .bind (leavesPous_typeName _ entry.1.type) fun target => ?_
    exact .bind (fun _ => rfl) fun _ => .bind ih fun members => .pure _

theorem leavesPous_addTypeDecl (d : Tree.TypeDecl) : LeavesPous (addTypeDecl d) := by
  obtain ⟨name, body⟩ := d
  cases body with
  | «alias» | enumeration | subrange => exact fun _ => rfl
  | array element dimensions initial => exact .bind (leavesPous_typeName _ element) fun _ _ => rfl
  | struct members => exact .bind (leavesPous_addMembers name _) fun members _ => rfl

theorem leavesPous_address (location : Option (String × Span)) : LeavesPous (address location) := by
  unfold address
  split
  · exact .pure none
  · split
    · exact .pure _
    · exact fun _ => rfl

theorem leavesPous_blockVars (b : Tree.VarBlock) : LeavesPous (blockVars b) :=
  .bind (.mapM (fun line => .bind (leavesPous_address line.address) fun _ => .pure _) b.lines) fun _ => .pure _

theorem leavesPous_declare (scope : String) (v : PendingVar) : LeavesPous (declare scope v) := by
  refine .bind (leavesPous_typeName _ v.type) fun type => ?_
  split
  · exact .pure _
  · split <;> exact .pure _

theorem leavesPous_addGlobals (b : Tree.VarBlock) : LeavesPous (addGlobals b) := by
  refine .bind (leavesPous_blockVars b) fun vs => .bind (.forIn (fun v _ => ?_) vs _) fun _ => .pure _
  exact .bind (leavesPous_declare globalScope v) fun decl _ => rfl

/-- The program organization units by their names and their bodies, with the names in these. -/
def namedBodies (u : CompilationUnit) : List (Ident × Stmt × BodyPools) :=
  u.pous.map fun pou => (pou.name, pou.body, pou.pools)

theorem LeavesPous.namedBodies_eq {α : Type} {m : Building α} (h : LeavesPous m) (u : CompilationUnit) :
    (m u).2.file = u.file ∧ (m u).2.namedBodies = u.namedBodies := by
  obtain ⟨hfile, hpous⟩ := Prod.mk.inj (h u)
  exact ⟨hfile, congrArg (List.map _) hpous⟩

/-- A unit is added with its name and the body of its statements. -/
theorem namedBodies_addPou (t : Tree.Pou) (u : CompilationUnit) : (addPou t u).2.file = u.file ∧
    (addPou t u).2.namedBodies = u.namedBodies ++ [(t.name, Body.ofStatements t.body t.name.span)] := by
  have hleaves (result : List PendingVar) : LeavesPous (do
      let blocks ← t.blocks.mapM blockVars
      (blocks.flatten ++ result).mapM (declare t.name.text)) :=
    .bind (.mapM leavesPous_blockVars t.blocks) fun blocks => .mapM (leavesPous_declare t.name.text) _
  obtain ⟨hfile, hbodies⟩ := (hleaves _).namedBodies_eq u
  exact ⟨hfile, List.map_append.trans (congrArg (· ++ [_]) hbodies)⟩

/-- The unit that is declared at the top level of a source. -/
def pou? : Tree.Element → Option Tree.Pou
  | .pou p => some p
  | _ => none

/-- The bodies of a unit are those of the statements of its program organization units. -/
theorem namedBodies_ofElements (file : FileId) (diagnostics : List Diagnostic) (elements : List Tree.Element) :
    (ofElements file diagnostics elements).file = file ∧ (ofElements file diagnostics elements).namedBodies =
      (elements.filterMap pou?).map fun t => (t.name, Body.ofStatements t.body t.name.span) := by
  have hbodies (elements : List Tree.Element) (u : CompilationUnit) :
      ((elements.forM addElement) u).2.file = u.file ∧ ((elements.forM addElement) u).2.namedBodies =
        u.namedBodies ++ (elements.filterMap pou?).map fun t => (t.name, Body.ofStatements t.body t.name.span) := by
    induction elements generalizing u with
    | nil => exact ⟨rfl, (List.append_nil _).symm⟩
    | cons element elements ih =>
      obtain ⟨hfile, hrest⟩ := ih (addElement element u).2
      cases element with
      | types declarations =>
        have hleaves : LeavesPous (addElement (.types declarations)) := .forM leavesPous_addTypeDecl declarations
        obtain ⟨hfirst, hnone⟩ := hleaves.namedBodies_eq u
        exact ⟨hfile.trans hfirst, hrest.trans (by rw [hnone]; rfl)⟩
      | globals block =>
        have hleaves : LeavesPous (addElement (.globals block)) := leavesPous_addGlobals block
        obtain ⟨hfirst, hnone⟩ := hleaves.namedBodies_eq u
        exact ⟨hfile.trans hfirst, hrest.trans (by rw [hnone]; rfl)⟩
      | pou p =>
        obtain ⟨hfirst, hone⟩ := namedBodies_addPou p u
        refine ⟨hfile.trans hfirst, hrest.trans ?_⟩
        rw [addElement, hone, List.append_assoc]
        rfl
  exact hbodies elements { file, diagnostics }

theorem bodies_ofElements (file : FileId) (diagnostics : List Diagnostic) (elements : List Tree.Element) :
    (ofElements file diagnostics elements).pous.map (fun p => (p.body, p.pools)) =
      (elements.filterMap pou?).map fun t => Body.ofStatements t.body t.name.span := by
  have hbodies := congrArg (List.map Prod.snd) (namedBodies_ofElements file diagnostics elements).2
  rw [namedBodies, List.map_map, List.map_map] at hbodies
  exact hbodies

end CompilationUnit

-- ---------------------------------------------------------------------------
-- Sources and queries
-- ---------------------------------------------------------------------------

open CompilationUnit (ofElements pou?)
open Body (statementsBody queryBody)

/--
Whatever tree the grammar yields, the bodies that are built from it are complete: those of the units of a source, and
that of a query. The units and the query keep the pools that were filled while their bodies were built.
-/
theorem parsed_bodies_complete (tokens : List Token) :
    (∀ elements, parseTokens Grammar.source tokens = .ok elements →
      (∀ file problems, (ofElements file problems elements).pous.map (fun p => (p.body, p.pools)) =
        (elements.filterMap pou?).map fun t => Body.ofStatements t.body t.name.span) ∧
      ∀ t ∈ elements.filterMap pou?, Body.Complete (Body.ofStatements t.body t.name.span).1
        (Body.ofStatements t.body t.name.span).2 (statementsBody t.body t.name.span {}).2.next) ∧
    ∀ q, parseTokens Grammar.query tokens = .ok q →
      Body.Complete (Body.ofQuery q).body (Body.ofQuery q).pools (queryBody q {}).2.next := by
  refine ⟨fun elements hparse => ⟨fun file problems => ?_, fun t ht => ?_⟩, fun q hparse => ?_⟩
  · exact CompilationUnit.bodies_ofElements file problems elements
  · obtain ⟨element, helement, hpou⟩ := List.mem_filterMap.mp ht
    have hproper := proper_of_parseTokens Grammar.source_yields hparse element helement
    cases element with
    | types | globals => cases hpou
    | pou p =>
      cases hpou
      exact (Body.statementsBody_builds hproper.body _).complete (Body.statementsBody_grows t.body t.name.span)
  · have hproper := proper_of_parseTokens Grammar.query_yields hparse
    exact (Body.queryBody_builds hproper).complete (Body.queryBody_grows q)

/-- A program with a loop in which a function is called. -/
def callingSource : String :=
  "PROGRAM P VAR a : ARRAY[1..3] OF INT; i : INT; END_VAR
     FOR i := 1 TO 3 DO a[i] := MAX(a[i], i * 2); END_FOR;
   END_PROGRAM"

/-- The body of a program, with its six references and its call, and that of an assignment. -/
theorem parsed_bodies_complete_calling : ∃ elements q t,
    parseTokens Grammar.source (tokenize callingSource .anonymous).1 = .ok elements ∧ t ∈ elements.filterMap pou? ∧
    Body.Complete (Body.ofStatements t.body t.name.span).1 (Body.ofStatements t.body t.name.span).2
      (statementsBody t.body t.name.span {}).2.next ∧
    (statementsBody t.body t.name.span {}).2.next = 15 ∧
    (Body.ofStatements t.body t.name.span).2.vars.size = 6 ∧
    (Body.ofStatements t.body t.name.span).2.calls.size = 1 ∧
    parseTokens Grammar.query (tokenize "P.a[P.i] := 1" .anonymous).1 = .ok q ∧
    Body.Complete (Body.ofQuery q).body (Body.ofQuery q).pools (queryBody q {}).2.next := by
  have hsource : (parseTokens Grammar.source (tokenize callingSource .anonymous).1).toOption.any (fun elements =>
      (elements.filterMap pou?).any fun t => (statementsBody t.body t.name.span {}).2.next == 15 &&
        ((Body.ofStatements t.body t.name.span).2.vars.size == 6 &&
          (Body.ofStatements t.body t.name.span).2.calls.size == 1)) = true := by
    decide +kernel
  have hquery : (parseTokens Grammar.query (tokenize "P.a[P.i] := 1" .anonymous).1).toOption.any (fun _ => true) =
      true := by
    decide +kernel
  obtain ⟨elements, hparse, hpous⟩ := exists_of_any hsource
  obtain ⟨q, hparse', -⟩ := exists_of_any hquery
  obtain ⟨t, hmem, hfacts⟩ := List.any_eq_true.mp hpous
  simp only [Bool.and_eq_true, beq_iff_eq] at hfacts
  obtain ⟨hnodes, hvariables, hcalls⟩ := hfacts
  exact ⟨elements, q, t, hparse, hmem, ((parsed_bodies_complete _).1 elements hparse).2 t hmem, hnodes, hvariables,
    hcalls, hparse', (parsed_bodies_complete _).2 q hparse'⟩

/-- The nodes of an assignment, each with the nodes that are directly part of it. -/
example : (parseQuery "x := x + 1").toOption.map (fun q => q.body.nodeTree.entries.map fun e => (e.id, e.children)) =
    some [(0, []), (1, []), (2, []), (3, [1, 2]), (4, [0, 3])] := by
  decide +kernel

end StructuredText
