-- SUMMARY: The spans of the nodes of a body as a tree, which the source tree of the body tells.
import StructuredText.Proofs.Numbered

/-!
# Outlines

What the nodes of a body say of their places in a source is a tree of spans. Building a body numbers its nodes but
leaves their places as they are, so the outline of a body is known from the tree that it is built from.
-/

namespace StructuredText

/-- The places of nodes as a tree. The node of a list of statements is marked as one. -/
inductive Outline where
  | node (span : Span) (isList : Bool) (parts : List Outline)

namespace Outline

def span : Outline → Span
  | .node span _ _ => span

def isList : Outline → Bool
  | .node _ isList _ => isList

def parts : Outline → List Outline
  | .node _ _ parts => parts

mutual

/-- The nodes of the outline, each one after the nodes that are part of it. -/
def nodes : Outline → List Outline
  | .node span isList parts => nodesOfAll parts ++ [.node span isList parts]

def nodesOfAll : List Outline → List Outline
  | [] => []
  | o :: os => o.nodes ++ nodesOfAll os

end

theorem nodesOfAll_append (os os' : List Outline) : nodesOfAll (os ++ os') = nodesOfAll os ++ nodesOfAll os' := by
  induction os with
  | nil => rfl
  | cons o os ih => simp [nodesOfAll, ih]

end Outline

-- ---------------------------------------------------------------------------
-- Bodies
-- ---------------------------------------------------------------------------

namespace Expr

mutual

def outline : Expr → Outline
  | .literal info _ _ => .node info.span false []
  | .var info _ indexes => .node info.span false (outlines indexes)
  | .unary info _ e => .node info.span false [e.outline]
  | .binary info _ left right => .node info.span false [left.outline, right.outline]
  | .call info _ _ args _ _ => .node info.span false (outlines args)

def outlines : List Expr → List Outline
  | [] => []
  | e :: es => e.outline :: outlines es

end

theorem outlines_append (es es' : List Expr) : outlines (es ++ es') = outlines es ++ outlines es' := by
  induction es with
  | nil => rfl
  | cons e es ih => rw [List.cons_append, outlines, outlines, ih, List.cons_append]

theorem span_outline (e : Expr) : e.outline.span = e.span := by
  cases e <;> rw [outline] <;> rfl

mutual

/-- The nodes of the outline are the outlines of the nodes. -/
theorem nodes_outline : (e : Expr) → e.outline.nodes = e.nodes.map outline
  | .literal .. => by simp [outline, nodes, Outline.nodes, Outline.nodesOfAll]
  | .var _ _ indexes => by simp [outline, nodes, Outline.nodes, nodesOfAll_outlines indexes]
  | .unary _ _ e => by simp [outline, nodes, Outline.nodes, Outline.nodesOfAll, nodes_outline e]
  | .binary _ _ left right => by
    simp [outline, nodes, Outline.nodes, Outline.nodesOfAll, nodes_outline left, nodes_outline right]
  | .call _ _ _ args _ _ => by simp [outline, nodes, Outline.nodes, nodesOfAll_outlines args]

theorem nodesOfAll_outlines : (es : List Expr) → Outline.nodesOfAll (outlines es) = (nodesOfAll es).map outline
  | [] => rfl
  | e :: es => by simp [outlines, nodesOfAll, Outline.nodesOfAll, nodes_outline e, nodesOfAll_outlines es]

end

end Expr

namespace Stmt

mutual

/-- The node of a call is that of its expression. -/
def outline : Stmt → Outline
  | .eval e => e.outline
  | .assign info target value => .node info.span false [target.outline, value.outline]
  | .block info statements => .node info.span true (outlines statements)
  | .ifThen info branches otherwise =>
    .node info.span false (outlinesOfBranches branches ++ outlinesOfOption otherwise)
  | .case info selector arms otherwise =>
    .node info.span false (selector.outline :: outlinesOfArms arms ++ outlinesOfOption otherwise)
  | .forLoop info control start stop step body =>
    .node info.span false
      (control.outline :: start.outline :: stop.outline :: Expr.outlines step.toList ++ [body.outline])
  | .whileLoop info condition body => .node info.span false [condition.outline, body.outline]
  | .repeatLoop info body condition => .node info.span false [body.outline, condition.outline]
  | .exit info | .ret info => .node info.span false []

def outlines : List Stmt → List Outline
  | [] => []
  | s :: ss => s.outline :: outlines ss

def outlinesOfOption : Option Stmt → List Outline
  | none => []
  | some s => [s.outline]

def outlinesOfBranches : List (Expr × Stmt) → List Outline
  | [] => []
  | (condition, s) :: rest => condition.outline :: s.outline :: outlinesOfBranches rest

def outlinesOfArms : List (List CaseLabel × Stmt) → List Outline
  | [] => []
  | (labels, s) :: rest =>
    Expr.outlines (labels.flatMap CaseLabel.exprs) ++ s.outline :: outlinesOfArms rest

end

theorem span_outline (s : Stmt) : s.outline.span = s.span := by
  cases s <;> rw [outline]
  case eval e => exact e.span_outline
  all_goals rfl

/-- The nodes of the expressions are among those of the outlines. -/
def Outlined (es : List Expr) (os : List Outline) : Prop :=
  (Outline.nodesOfAll (Expr.outlines es)).Sublist (Outline.nodesOfAll os)

namespace Outlined

variable {es es' : List Expr} {os os' : List Outline}

theorem nil : Outlined [] os := by simp [Outlined, Expr.outlines, Outline.nodesOfAll]

theorem refl (es : List Expr) : Outlined es (Expr.outlines es) := List.Sublist.refl _

theorem append (h : Outlined es os) (h' : Outlined es' os') : Outlined (es ++ es') (os ++ os') := by
  rw [Outlined, Expr.outlines_append, Outline.nodesOfAll_append, Outline.nodesOfAll_append]
  exact List.Sublist.append h h'

theorem cons (e : Expr) (h : Outlined es os) : Outlined (e :: es) (e.outline :: os) := (refl [e]).append h

theorem node {span : Span} {isList : Bool} (h : Outlined es os) : Outlined es [.node span isList os] := by
  rw [Outlined, Outline.nodesOfAll, Outline.nodes, Outline.nodesOfAll, List.append_nil]
  exact h.trans (List.sublist_append_left _ _)

end Outlined

mutual

theorem exprs_outlined : (s : Stmt) → Outlined s.exprs [s.outline]
  | .eval e => by
    rw [exprs, outline]
    exact .refl [e]
  | .assign _ target value => by
    rw [exprs, outline]
    exact .node (.refl [target, value])
  | .block _ statements => by
    rw [exprs, outline]
    exact .node (exprsOfAll_outlined statements)
  | .ifThen _ branches none => by
    rw [exprs, outline]
    exact .node ((exprsOfBranches_outlined branches).append .nil)
  | .ifThen _ branches (some s) => by
    rw [exprs, outline]
    exact .node ((exprsOfBranches_outlined branches).append (exprs_outlined s))
  | .case _ selector arms none => by
    rw [exprs, outline]
    exact .node (.cons selector ((exprsOfArms_outlined arms).append .nil))
  | .case _ selector arms (some s) => by
    rw [exprs, outline]
    exact .node (.cons selector ((exprsOfArms_outlined arms).append (exprs_outlined s)))
  | .forLoop _ control start stop step body => by
    rw [exprs, outline]
    exact .node (.append (.refl ([control, start, stop] ++ step.toList)) (exprs_outlined body))
  | .whileLoop _ condition body => by
    rw [exprs, outline]
    exact .node (.cons condition (exprs_outlined body))
  | .repeatLoop _ body condition => by
    rw [exprs, outline]
    exact .node ((exprs_outlined body).append (.refl [condition]))
  | .exit _ | .ret _ => by
    rw [exprs]
    exact .nil

theorem exprsOfAll_outlined : (ss : List Stmt) → Outlined (exprsOfAll ss) (outlines ss)
  | [] => .nil
  | s :: ss => by
    rw [exprsOfAll, outlines]
    exact (exprs_outlined s).append (exprsOfAll_outlined ss)

theorem exprsOfBranches_outlined : (bs : List (Expr × Stmt)) → Outlined (exprsOfBranches bs) (outlinesOfBranches bs)
  | [] => .nil
  | (condition, s) :: rest => by
    rw [exprsOfBranches, outlinesOfBranches]
    exact .cons condition ((exprs_outlined s).append (exprsOfBranches_outlined rest))

theorem exprsOfArms_outlined : (as : List (List CaseLabel × Stmt)) → Outlined (exprsOfArms as) (outlinesOfArms as)
  | [] => .nil
  | (labels, s) :: rest => by
    rw [exprsOfArms, outlinesOfArms, List.append_assoc]
    exact (Outlined.refl _).append ((exprs_outlined s).append (exprsOfArms_outlined rest))

end

/-- The outline of a statement has all nodes of its expressions, in the order of their identifiers. -/
theorem exprNodes_sublist (s : Stmt) : (s.exprNodes.map Expr.outline).Sublist s.outline.nodes := by
  have h := s.exprs_outlined
  rwa [Outlined, Expr.nodesOfAll_outlines, Outline.nodesOfAll, Outline.nodesOfAll, List.append_nil] at h

end Stmt

-- ---------------------------------------------------------------------------
-- Trees
-- ---------------------------------------------------------------------------

namespace Tree

mutual

def Expr.outline : Expr → Outline
  | .constant _ span | .typed _ _ span => .node span false []
  | .var path => path.outline
  | .unary _ operand span => .node span false [operand.outline]
  | .binary _ left right span => .node span false [left.outline, right.outline]
  | .call _ args span => .node span false (Arg.outlines args)

def Path.outline : Path → Outline
  | .mk segments span => .node span false (Segment.outlines segments)

/-- The outlines of the indexes of all segments. -/
def Segment.outlines : List Segment → List Outline
  | [] => []
  | .mk _ indexes _ :: rest => Expr.outlines indexes ++ Segment.outlines rest

def Expr.outlines : List Expr → List Outline
  | [] => []
  | e :: es => e.outline :: Expr.outlines es

def Arg.outlines : List Arg → List Outline
  | [] => []
  | .mk _ value _ :: rest => value.outline :: Arg.outlines rest

end

def CaseLabel.outlines : CaseLabel → List Outline
  | .value e => [e.outline]
  | .range low high => [low.outline, high.outline]

mutual

def Stmt.outline : Stmt → Outline
  | .assign target value span => .node span false [target.outline, value.outline]
  | .call _ args span => .node span false (Arg.outlines args)
  | .ifThen branches otherwise span =>
    .node span false (Stmt.outlinesOfBranches span branches ++ Stmt.outlinesOfOption span otherwise)
  | .case selector arms otherwise span =>
    .node span false (selector.outline :: Stmt.outlinesOfArms span arms ++ Stmt.outlinesOfOption span otherwise)
  | .forLoop control start stop step body span =>
    .node span false (control.outline :: start.outline :: stop.outline :: Expr.outlines step.toList ++
      [.node (Body.blockSpan span body) true (Stmt.outlines body)])
  | .whileLoop condition body span =>
    .node span false [condition.outline, .node (Body.blockSpan span body) true (Stmt.outlines body)]
  | .repeatLoop body condition span =>
    .node span false [.node (Body.blockSpan span body) true (Stmt.outlines body), condition.outline]
  | .exit span | .ret span => .node span false []

def Stmt.outlines : List Stmt → List Outline
  | [] => []
  | s :: ss => s.outline :: Stmt.outlines ss

def Stmt.outlinesOfOption (whole : Span) : Option (List Stmt) → List Outline
  | none => []
  | some ss => [.node (Body.blockSpan whole ss) true (Stmt.outlines ss)]

def Stmt.outlinesOfBranches (whole : Span) : List (Expr × List Stmt) → List Outline
  | [] => []
  | (condition, ss) :: rest =>
    condition.outline :: .node (Body.blockSpan whole ss) true (Stmt.outlines ss) :: Stmt.outlinesOfBranches whole rest

def Stmt.outlinesOfArms (whole : Span) : List (List CaseLabel × List Stmt) → List Outline
  | [] => []
  | (labels, ss) :: rest =>
    labels.flatMap CaseLabel.outlines ++
      .node (Body.blockSpan whole ss) true (Stmt.outlines ss) :: Stmt.outlinesOfArms whole rest

end

/-- The outline of a list of statements, which stands in place of the whole if there is no statement. -/
def blockOutline (whole : Span) (ss : List Stmt) : Outline := .node (Body.blockSpan whole ss) true (Stmt.outlines ss)

def Query.outline : Query → Outline
  | .read e => e.outline
  | .assign target value span => .node span false [target.outline, value.outline]

end Tree

-- ---------------------------------------------------------------------------
-- Building bodies
-- ---------------------------------------------------------------------------

namespace Body

section

variable {α β : Type}

theorem fst_pure (a : α) (d : Draft) : ((pure a : Drafting α) d).1 = a := rfl

theorem fst_bind (m : Drafting α) (k : α → Drafting β) (d : Draft) :
    ((m >>= k) d).1 = (k (m d).1 (m d).2).1 := rfl

theorem span_node (span : Span) (d : Draft) : (node span d).1.span = span := rfl

theorem outline_addReference (segments : List Segment) (indexes : List Expr) (span : Span) (d : Draft) :
    (addReference segments indexes span d).1.outline = .node span false (Expr.outlines indexes) := by
  rw [adds_addReference, Expr.outline]

theorem outline_addCall (name : Ident) (labels : List ArgLabel) (args : List Expr) (span : Span) (d : Draft) :
    (addCall name labels args span d).1.outline = .node span false (Expr.outlines args) := by
  rw [adds_addCall, Expr.outline]

end

mutual

theorem outline_expr : (t : Tree.Expr) → (d : Draft) → (expr t d).1.outline = t.outline
  | .constant v span, d | .typed type v span, d => by
    rw [expr, Tree.Expr.outline]
    rfl
  | .var p, d => by rw [expr, outline_path p, Tree.Expr.outline]
  | .unary op t span, d => by
    simp only [expr, fst_bind, fst_pure, Expr.outline, span_node, outline_expr t, Tree.Expr.outline]
  | .binary op left right span, d => by
    simp only [expr, fst_bind, fst_pure, Expr.outline, span_node, outline_expr left, outline_expr right,
      Tree.Expr.outline]
  | .call name args span, d => by
    simp only [expr, fst_bind, outline_addCall, outlines_arguments args, Tree.Expr.outline]

theorem outline_path : (p : Tree.Path) → (d : Draft) → (path p d).1.outline = p.outline
  | .mk segments span, d => by
    simp only [path, fst_bind, outline_addReference, outlines_segmentIndexes segments, Tree.Path.outline]

theorem outlines_segmentIndexes : (segments : List Tree.Segment) → (d : Draft) →
    Expr.outlines (segmentIndexes segments d).1 = Tree.Segment.outlines segments
  | [], d => by
    rw [segmentIndexes, Tree.Segment.outlines]
    rfl
  | .mk name indexes span :: rest, d => by
    simp only [segmentIndexes, fst_bind, fst_pure, Expr.outlines_append, outlines_exprs indexes,
      outlines_segmentIndexes rest, Tree.Segment.outlines]

theorem outlines_exprs : (ts : List Tree.Expr) → (d : Draft) → Expr.outlines (exprs ts d).1 = Tree.Expr.outlines ts
  | [], d => by
    rw [exprs, Tree.Expr.outlines]
    rfl
  | t :: ts, d => by
    simp only [exprs, fst_bind, fst_pure, Expr.outlines, outline_expr t, outlines_exprs ts, Tree.Expr.outlines]

theorem outlines_arguments : (args : List Tree.Arg) → (d : Draft) →
    Expr.outlines (arguments args d).1 = Tree.Arg.outlines args
  | [], d => by
    rw [arguments, Tree.Arg.outlines]
    rfl
  | .mk name t output :: rest, d => by
    simp only [arguments, fst_bind, fst_pure, Expr.outlines, outline_expr t, outlines_arguments rest,
      Tree.Arg.outlines]

end

theorem outlines_caseLabel (label : Tree.CaseLabel) (d : Draft) :
    Expr.outlines (caseLabel label d).1.exprs = label.outlines := by
  cases label <;>
    simp only [caseLabel, fst_bind, fst_pure, CaseLabel.exprs, Expr.outlines, outline_expr, Tree.CaseLabel.outlines]

theorem outlines_caseLabels (labels : List Tree.CaseLabel) (d : Draft) :
    Expr.outlines ((labels.mapM caseLabel d).1.flatMap CaseLabel.exprs) = labels.flatMap Tree.CaseLabel.outlines := by
  induction labels generalizing d with
  | nil => rfl
  | cons label labels ih =>
    simp only [List.mapM_cons, fst_bind, fst_pure, List.flatMap_cons, Expr.outlines_append, outlines_caseLabel, ih]

theorem outlines_step (step : Option Tree.Expr) (d : Draft) :
    Expr.outlines (step.mapM expr d).1.toList = Tree.Expr.outlines step.toList := by
  cases step with
  | none => rfl
  | some t =>
    change Expr.outlines [(expr t d).1] = Tree.Expr.outlines [t]
    simp only [Expr.outlines, outline_expr, Tree.Expr.outlines]

mutual

theorem outline_stmt : (t : Tree.Stmt) → (d : Draft) → (stmt t d).1.outline = t.outline
  | .assign target value span, d => by
    simp only [stmt, fst_bind, fst_pure, Stmt.outline, span_node, outline_path, outline_expr, Tree.Stmt.outline]
  | .call name args span, d => by
    simp only [stmt, call, fst_bind, fst_pure, Stmt.outline, outline_addCall, outlines_arguments, Tree.Stmt.outline]
  | .ifThen bs none span, d => by
    simp only [stmt, fst_bind, fst_pure, Stmt.outline, span_node, outlines_branches, Tree.Stmt.outline,
      Stmt.outlinesOfOption, Tree.Stmt.outlinesOfOption]
  | .ifThen bs (some ss) span, d => by
    simp only [stmt, fst_bind, fst_pure, Stmt.outline, span_node, outlines_branches, outlines_stmts, Tree.Stmt.outline,
      Stmt.outlinesOfOption, Tree.Stmt.outlinesOfOption]
  | .case selector as none span, d => by
    simp only [stmt, fst_bind, fst_pure, Stmt.outline, span_node, outline_expr, outlines_arms, Tree.Stmt.outline,
      Stmt.outlinesOfOption, Tree.Stmt.outlinesOfOption]
  | .case selector as (some ss) span, d => by
    simp only [stmt, fst_bind, fst_pure, Stmt.outline, span_node, outline_expr, outlines_arms, outlines_stmts,
      Tree.Stmt.outline, Stmt.outlinesOfOption, Tree.Stmt.outlinesOfOption]
  | .forLoop control start stop step ss span, d => by
    simp only [stmt, fst_bind, fst_pure, Stmt.outline, span_node, outline_path, outline_expr, outlines_step,
      outlines_stmts, Tree.Stmt.outline]
  | .whileLoop condition ss span, d => by
    simp only [stmt, fst_bind, fst_pure, Stmt.outline, span_node, outline_expr, outlines_stmts, Tree.Stmt.outline]
  | .repeatLoop ss condition span, d => by
    simp only [stmt, fst_bind, fst_pure, Stmt.outline, span_node, outline_expr, outlines_stmts, Tree.Stmt.outline]
  | .exit span, d | .ret span, d => by
    rw [stmt, Tree.Stmt.outline]
    rfl

theorem outlines_stmts : (ts : List Tree.Stmt) → (d : Draft) → Stmt.outlines (stmts ts d).1 = Tree.Stmt.outlines ts
  | [], d => by
    rw [stmts, Tree.Stmt.outlines]
    rfl
  | t :: ts, d => by
    simp only [stmts, fst_bind, fst_pure, Stmt.outlines, outline_stmt t, outlines_stmts ts, Tree.Stmt.outlines]

theorem outlines_branches (whole : Span) : (bs : List (Tree.Expr × List Tree.Stmt)) → (d : Draft) →
    Stmt.outlinesOfBranches (branches whole bs d).1 = Tree.Stmt.outlinesOfBranches whole bs
  | [], d => by
    rw [branches, Tree.Stmt.outlinesOfBranches]
    rfl
  | (condition, ss) :: rest, d => by
    simp only [branches, fst_bind, fst_pure, Stmt.outlinesOfBranches, Stmt.outline, span_node, outline_expr,
      outlines_stmts ss, outlines_branches whole rest, Tree.Stmt.outlinesOfBranches]

theorem outlines_arms (whole : Span) : (as : List (List Tree.CaseLabel × List Tree.Stmt)) → (d : Draft) →
    Stmt.outlinesOfArms (arms whole as d).1 = Tree.Stmt.outlinesOfArms whole as
  | [], d => by
    rw [arms, Tree.Stmt.outlinesOfArms]
    rfl
  | (labels, ss) :: rest, d => by
    simp only [arms, fst_bind, fst_pure, Stmt.outlinesOfArms, Stmt.outline, span_node, outlines_caseLabels,
      outlines_stmts ss, outlines_arms whole rest, Tree.Stmt.outlinesOfArms]

end

/-- The body of a unit has the outline of its statements, and takes the place of its unit if there is none. -/
theorem outline_ofStatements (statements : List Tree.Stmt) (whole : Span) :
    (ofStatements statements whole).1.outline = Tree.blockOutline whole statements := by
  change (statementsBody statements whole {}).1.outline = _
  simp only [statementsBody, fst_bind, fst_pure, Stmt.outline, span_node, outlines_stmts, Tree.blockOutline]

theorem outline_ofQuery (q : Tree.Query) : (ofQuery q).body.outline = q.outline := by
  change (queryBody q {}).1.outline = _
  cases q with
  | read e => simp only [queryBody, fst_bind, fst_pure, Stmt.outline, outline_expr, Tree.Query.outline]
  | assign target value span =>
    simp only [queryBody, fst_bind, fst_pure, Stmt.outline, span_node, outline_path, outline_expr, Tree.Query.outline]

end Body

end StructuredText
