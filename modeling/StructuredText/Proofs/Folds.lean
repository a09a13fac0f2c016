-- SUMMARY: Bodies in which constants are computed and references are followed beforehand, next to those bodies themselves.
import Mathlib.Data.List.Forall2
import StructuredText.Execution.Resume

/-!
# Folded bodies

A body is the folded form of another one if some of its literals stand for expressions that always result in their
value, and some of its references have their selectors evaluated beforehand. Folding reaches everything that executions
hold: statements, the frames that are left to do, and the bodies of a library.
-/

namespace StructuredText

/-- Items of related lists at the same position are related. -/
theorem rel_getElem?_of_forall₂ {α β : Type} {R : α → β → Prop} {as : List α} {bs : List β}
    (h : List.Forall₂ R as bs) (position : Nat) : Option.Rel R as[position]? bs[position]? := by
  induction h generalizing position with
  | nil => exact .none
  | cons hfirst _ ih =>
    cases position with
    | zero => exact .some hfirst
    | succ position => exact ih position

-- ---------------------------------------------------------------------------
-- Expressions
-- ---------------------------------------------------------------------------

namespace Expr

/-- Wherever the expression is evaluated, it results in the value at once and changes nothing. -/
def IsConstant (eps : Float) (e : Expr) (v : Value) : Prop :=
  ∀ (l : Library) (x : Execution), e.evaluate ⟨l, eps⟩ x = .ok (.done { value := v }) x

/-- Expressions that are constant, with their spans and their values. -/
abbrev AreConstant (eps : Float) (es : List Expr) (values : List (Span × Value)) : Prop :=
  List.Forall₂ (fun e p => e.span = p.1 ∧ e.IsConstant eps p.2) es values

mutual

/-- The first expression is a folded form of the second one. -/
inductive Folds (eps : Float) : Expr → Expr → Prop
  | constant {info v type e} (hspan : info.span = e.span) (hvar : e.path? = none) (hv : e.IsConstant eps v) :
    Folds eps (.literal info v type) e
  | fixed {info path indexes indexes' values hops} (hfixed : path.fixed = some hops)
    (hindexes : AreConstant eps indexes' values) (hhops : Body.hops info.span path.selectors values = .ok hops) :
    Folds eps (.var info path indexes) (.var info { path with fixed := none } indexes')
  | var {info path indexes indexes'} (h : AllFold eps indexes indexes') :
    Folds eps (.var info path indexes) (.var info path indexes')
  | unary {info op e e'} (h : Folds eps e e') : Folds eps (.unary info op e) (.unary info op e')
  | binary {info op left left' right right'} (hleft : Folds eps left left') (hright : Folds eps right right') :
    Folds eps (.binary info op left right) (.binary info op left' right')
  | call {info name labels labels' args args' callee bindings} (h : AllFold eps args args') :
    Folds eps (.call info name labels args callee bindings) (.call info name labels' args' callee bindings)

inductive AllFold (eps : Float) : List Expr → List Expr → Prop
  | nil : AllFold eps [] []
  | cons {e e' es es'} (hfirst : Folds eps e e') (hrest : AllFold eps es es') : AllFold eps (e :: es) (e' :: es')

end

variable {eps : Float} {e e' : Expr} {es es' : List Expr}

theorem allFold_iff : AllFold eps es es' ↔ List.Forall₂ (Folds eps) es es' := by
  constructor
  · intro h
    induction es generalizing es' with
    | nil =>
      cases h
      exact .nil
    | cons e es ih =>
      cases h with
      | cons hfirst hrest => exact .cons hfirst (ih hrest)
  · intro h
    induction h with
    | nil => exact .nil
    | cons hfirst _ ih => exact .cons hfirst ih

theorem Folds.span (h : e.Folds eps e') : e.span = e'.span := by
  cases h with
  | constant hspan => exact hspan
  | fixed | var | unary | binary | call => rfl

theorem AllFold.spans (h : AllFold eps es es') : es.map Expr.span = es'.map Expr.span := by
  have hspans := (allFold_iff.mp h).imp fun _ _ h => h.span
  rwa [← List.forall₂_eq_eq_eq, List.forall₂_map_left_iff, List.forall₂_map_right_iff]

theorem isConstant_literal (info : NodeInfo) (v : Value) (type : Option Ident) :
    (Expr.literal info v type).IsConstant eps v := by
  intro l x
  rw [evaluate]
  rfl

/-- What a literal is the folded form of is constant. -/
theorem Folds.isConstant {info : NodeInfo} {v : Value} {type : Option Ident}
    (h : (Expr.literal info v type).Folds eps e) : e.IsConstant eps v := by
  cases h with
  | constant _ _ hv => exact hv

mutual

theorem Folds.refl : (e : Expr) → e.Folds eps e
  | .literal info v type => .constant rfl rfl (isConstant_literal info v type)
  | .var _ _ indexes => .var (AllFold.refl indexes)
  | .unary _ _ e => .unary (Folds.refl e)
  | .binary _ _ left right => .binary (Folds.refl left) (Folds.refl right)
  | .call _ _ _ args _ _ => .call (AllFold.refl args)

theorem AllFold.refl : (es : List Expr) → AllFold eps es es
  | [] => .nil
  | e :: es => .cons (Folds.refl e) (AllFold.refl es)

end

end Expr

-- ---------------------------------------------------------------------------
-- Statements
-- ---------------------------------------------------------------------------

namespace Stmt

mutual

/-- The first statement is a folded form of the second one. The labels of a `CASE` are constants in any case. -/
inductive Folds (eps : Float) : Stmt → Stmt → Prop
  | eval {e e'} (h : e.Folds eps e') : Folds eps (.eval e) (.eval e')
  | assign {info target target' value value'} (htarget : target.Folds eps target') (hvalue : value.Folds eps value') :
    Folds eps (.assign info target value) (.assign info target' value')
  | block {info statements statements'} (h : AllFold eps statements statements') :
    Folds eps (.block info statements) (.block info statements')
  | ifThen {info branches branches' otherwise otherwise'} (hbranches : BranchesFold eps branches branches')
    (hotherwise : OptionFolds eps otherwise otherwise') :
    Folds eps (.ifThen info branches otherwise) (.ifThen info branches' otherwise')
  | case {info selector selector' arms arms' otherwise otherwise'} (hselector : selector.Folds eps selector')
    (harms : ArmsFold eps arms arms') (hotherwise : OptionFolds eps otherwise otherwise') :
    Folds eps (.case info selector arms otherwise) (.case info selector' arms' otherwise')
  | forLoop {info control control' start start' stop stop' step step' body body'}
    (hcontrol : control.Folds eps control') (hstart : start.Folds eps start') (hstop : stop.Folds eps stop')
    (hstep : Option.Rel (Expr.Folds eps) step step') (hbody : Folds eps body body') :
    Folds eps (.forLoop info control start stop step body) (.forLoop info control' start' stop' step' body')
  | whileLoop {info condition condition' body body'} (hcondition : condition.Folds eps condition')
    (hbody : Folds eps body body') :
    Folds eps (.whileLoop info condition body) (.whileLoop info condition' body')
  | repeatLoop {info condition condition' body body'} (hbody : Folds eps body body')
    (hcondition : condition.Folds eps condition') :
    Folds eps (.repeatLoop info body condition) (.repeatLoop info body' condition')
  | exit {info} : Folds eps (.exit info) (.exit info)
  | ret {info} : Folds eps (.ret info) (.ret info)

inductive AllFold (eps : Float) : List Stmt → List Stmt → Prop
  | nil : AllFold eps [] []
  | cons {s s' ss ss'} (hfirst : Folds eps s s') (hrest : AllFold eps ss ss') : AllFold eps (s :: ss) (s' :: ss')

inductive OptionFolds (eps : Float) : Option Stmt → Option Stmt → Prop
  | none : OptionFolds eps none none
  | some {s s'} (h : Folds eps s s') : OptionFolds eps (some s) (some s')

inductive BranchesFold (eps : Float) : List (Expr × Stmt) → List (Expr × Stmt) → Prop
  | nil : BranchesFold eps [] []
  | cons {condition condition' body body' rest rest'} (hcondition : condition.Folds eps condition')
    (hbody : Folds eps body body') (hrest : BranchesFold eps rest rest') :
    BranchesFold eps ((condition, body) :: rest) ((condition', body') :: rest')

inductive ArmsFold (eps : Float) : List (List CaseLabel × Stmt) → List (List CaseLabel × Stmt) → Prop
  | nil : ArmsFold eps [] []
  | cons {labels body body' rest rest'} (hbody : Folds eps body body') (hrest : ArmsFold eps rest rest') :
    ArmsFold eps ((labels, body) :: rest) ((labels, body') :: rest')

end

variable {eps : Float} {s s' : Stmt}

theorem Folds.span (h : s.Folds eps s') : s.span = s'.span := by
  cases h with
  | eval h => exact h.span
  | assign | block | ifThen | case | forLoop | whileLoop | repeatLoop | exit | ret => rfl

mutual

theorem Folds.refl : (s : Stmt) → s.Folds eps s
  | .eval e => .eval (.refl e)
  | .assign _ target value => .assign (.refl target) (.refl value)
  | .block _ statements => .block (AllFold.refl statements)
  | .ifThen _ branches otherwise => .ifThen (BranchesFold.refl branches) (OptionFolds.refl otherwise)
  | .case _ selector arms otherwise => .case (.refl selector) (ArmsFold.refl arms) (OptionFolds.refl otherwise)
  | .forLoop _ control start stop step body => by
    refine .forLoop (.refl control) (.refl start) (.refl stop) ?_ (Folds.refl body)
    cases step with
    | none => exact .none
    | some step => exact .some (.refl step)
  | .whileLoop _ condition body => .whileLoop (.refl condition) (Folds.refl body)
  | .repeatLoop _ body condition => .repeatLoop (Folds.refl body) (.refl condition)
  | .exit _ => .exit
  | .ret _ => .ret

theorem AllFold.refl : (ss : List Stmt) → AllFold eps ss ss
  | [] => .nil
  | s :: ss => .cons (Folds.refl s) (AllFold.refl ss)

theorem OptionFolds.refl : (o : Option Stmt) → OptionFolds eps o o
  | none => .none
  | some s => .some (Folds.refl s)

theorem BranchesFold.refl : (bs : List (Expr × Stmt)) → BranchesFold eps bs bs
  | [] => .nil
  | (condition, s) :: bs => .cons (.refl condition) (Folds.refl s) (BranchesFold.refl bs)

theorem ArmsFold.refl : (arms : List (List CaseLabel × Stmt)) → ArmsFold eps arms arms
  | [] => .nil
  | (_, s) :: arms => .cons (Folds.refl s) (ArmsFold.refl arms)

end

mutual

/-- The expressions of a folded statement are folded forms of those of the statement, one by one. -/
theorem Folds.exprs {s s' : Stmt} : s.Folds eps s' → List.Forall₂ (Expr.Folds eps) s.exprs s'.exprs
  | .eval h => .cons h .nil
  | .assign htarget hvalue => .cons htarget (.cons hvalue .nil)
  | .block h => by
    rw [Stmt.exprs, Stmt.exprs]
    exact h.exprs
  | .ifThen hbranches hotherwise => by
    rw [Stmt.exprs.eq_def, Stmt.exprs.eq_def (.ifThen ..)]
    exact List.rel_append hbranches.exprs hotherwise.exprs
  | .case hselector harms hotherwise => by
    rw [Stmt.exprs.eq_def, Stmt.exprs.eq_def (.case ..)]
    exact .cons hselector (List.rel_append harms.exprs hotherwise.exprs)
  | .forLoop hcontrol hstart hstop hstep hbody => by
    rw [Stmt.exprs, Stmt.exprs]
    refine List.rel_append (.cons hcontrol (.cons hstart (.cons hstop ?_))) hbody.exprs
    cases hstep with
    | none => exact .nil
    | some h => exact .cons h .nil
  | .whileLoop hcondition hbody => by
    rw [Stmt.exprs, Stmt.exprs]
    exact .cons hcondition hbody.exprs
  | .repeatLoop hbody hcondition => by
    rw [Stmt.exprs, Stmt.exprs]
    exact List.rel_append hbody.exprs (.cons hcondition .nil)
  | .exit | .ret => by
    rw [Stmt.exprs]
    exact .nil

theorem AllFold.exprs {ss ss' : List Stmt} :
    AllFold eps ss ss' → List.Forall₂ (Expr.Folds eps) (exprsOfAll ss) (exprsOfAll ss')
  | .nil => .nil
  | .cons hfirst hrest => List.rel_append hfirst.exprs hrest.exprs

theorem OptionFolds.exprs {o o' : Option Stmt} : OptionFolds eps o o' →
    List.Forall₂ (Expr.Folds eps) (match o with | some s => s.exprs | none => [])
      (match o' with | some s => s.exprs | none => [])
  | .none => .nil
  | .some h => h.exprs

theorem BranchesFold.exprs {bs bs' : List (Expr × Stmt)} :
    BranchesFold eps bs bs' → List.Forall₂ (Expr.Folds eps) (exprsOfBranches bs) (exprsOfBranches bs')
  | .nil => .nil
  | .cons hcondition hbody hrest => .cons hcondition (List.rel_append hbody.exprs hrest.exprs)

theorem ArmsFold.exprs {arms arms' : List (List CaseLabel × Stmt)} :
    ArmsFold eps arms arms' → List.Forall₂ (Expr.Folds eps) (exprsOfArms arms) (exprsOfArms arms')
  | .nil => .nil
  | .cons hbody hrest =>
    List.rel_append (List.rel_append (List.forall₂_same.mpr fun e _ => .refl e) hbody.exprs) hrest.exprs

end

end Stmt

-- ---------------------------------------------------------------------------
-- Frames
-- ---------------------------------------------------------------------------

structure CallSite.Folds (eps : Float) (site site' : CallSite) : Prop where
  info : site.info = site'.info
  name : site.name = site'.name
  args : Expr.AllFold eps site.args site'.args
  callee : site.callee = site'.callee
  bindings : site.bindings = site'.bindings

structure AssignTarget.Folds (eps : Float) (a a' : AssignTarget) : Prop where
  span : a.span = a'.span
  target : a.target.Folds eps a'.target
  place : a.place? = a'.place?

structure ForLoop.Folds (eps : Float) (loop loop' : ForLoop) : Prop where
  info : loop.info = loop'.info
  control : loop.control.Folds eps loop'.control
  start : loop.start.Folds eps loop'.start
  stop : loop.stop.Folds eps loop'.stop
  step : Option.Rel (Expr.Folds eps) loop.step loop'.step
  body : loop.body.Folds eps loop'.body

theorem CallSite.Folds.refl {eps : Float} (site : CallSite) : site.Folds eps site :=
  ⟨rfl, rfl, .refl _, rfl, rfl⟩

theorem AssignTarget.Folds.refl {eps : Float} (a : AssignTarget) : a.Folds eps a :=
  ⟨rfl, .refl _, rfl⟩

theorem ForLoop.Folds.refl {eps : Float} : (loop : ForLoop) → loop.Folds eps loop
  | ⟨_, _, _, _, none, _⟩ => ⟨rfl, .refl _, .refl _, .refl _, .none, .refl _⟩
  | ⟨_, _, _, _, some step, _⟩ => ⟨rfl, .refl _, .refl _, .refl _, .some (.refl step), .refl _⟩

/--
The first frame goes on with the folded form of what the second one goes on with. All results and places that they hold
are the same.
-/
inductive Frame.Folds (eps : Float) : Frame → Frame → Prop
  | index {info path before indexes indexes' rest rest'} (hindexes : Expr.AllFold eps indexes indexes')
    (hrest : Expr.AllFold eps rest rest') :
    Folds eps (.index info path before indexes rest) (.index info path before indexes' rest')
  | operand {info op} : Folds eps (.operand info op) (.operand info op)
  | left {op left left' right right'} (hleft : left.Folds eps left') (hright : right.Folds eps right') :
    Folds eps (.left op left right) (.left op left' right')
  | right {op left left' right right' value} (hleft : left.Folds eps left') (hright : right.Folds eps right') :
    Folds eps (.right op left right value) (.right op left' right' value)
  | arg {site site' before rest rest'} (hsite : site.Folds eps site') (hrest : Expr.AllFold eps rest rest') :
    Folds eps (.arg site before rest) (.arg site' before rest')
  | callee {site site' args i} (h : site.Folds eps site') : Folds eps (.callee site args i) (.callee site' args i)
  | results {site site' args i} (h : site.Folds eps site') : Folds eps (.results site args i) (.results site' args i)
  | start {s s'} (h : s.Folds eps s') : Folds eps (.start s) (.start s')
  | rest {statements statements'} (h : Stmt.AllFold eps statements statements') :
    Folds eps (.rest statements) (.rest statements')
  | target {info target target' value value'} (htarget : target.Folds eps target') (hvalue : value.Folds eps value') :
    Folds eps (.target info target value) (.target info target' value')
  | value {target target'} (h : target.Folds eps target') : Folds eps (.value target) (.value target')
  | condition {condition condition' body body' rest rest' otherwise otherwise'}
    (hcondition : condition.Folds eps condition') (hbody : body.Folds eps body')
    (hrest : Stmt.BranchesFold eps rest rest') (hotherwise : Stmt.OptionFolds eps otherwise otherwise') :
    Folds eps (.condition condition body rest otherwise) (.condition condition' body' rest' otherwise')
  | selector {selector selector' arms arms' otherwise otherwise'} (hselector : selector.Folds eps selector')
    (harms : Stmt.ArmsFold eps arms arms') (hotherwise : Stmt.OptionFolds eps otherwise otherwise') :
    Folds eps (.selector selector arms otherwise) (.selector selector' arms' otherwise')
  | bound {loop loop' before rest rest'} (hloop : loop.Folds eps loop') (hrest : Expr.AllFold eps rest rest') :
    Folds eps (.bound loop before rest) (.bound loop' before rest')
  | forBody {info remaining body body'} (h : body.Folds eps body') :
    Folds eps (.forBody info remaining body) (.forBody info remaining body')
  | whileTest {info condition condition' body body' entered} (hcondition : condition.Folds eps condition')
    (hbody : body.Folds eps body') :
    Folds eps (.whileTest info condition body entered) (.whileTest info condition' body' entered)
  | whileBody {info condition condition' body body'} (hcondition : condition.Folds eps condition')
    (hbody : body.Folds eps body') : Folds eps (.whileBody info condition body) (.whileBody info condition' body')
  | whileAgain {info condition condition' body body'} (hcondition : condition.Folds eps condition')
    (hbody : body.Folds eps body') : Folds eps (.whileAgain info condition body) (.whileAgain info condition' body')
  | repeatBody {info body body' condition condition'} (hbody : body.Folds eps body')
    (hcondition : condition.Folds eps condition') :
    Folds eps (.repeatBody info body condition) (.repeatBody info body' condition')
  | repeatTest {info body body' condition condition'} (hbody : body.Folds eps body')
    (hcondition : condition.Folds eps condition') :
    Folds eps (.repeatTest info body condition) (.repeatTest info body' condition')

theorem Frame.Folds.refl {eps : Float} (frame : Frame) : frame.Folds eps frame := by
  cases frame with
  | operand => exact .operand
  | index => exact .index (.refl _) (.refl _)
  | left => exact .left (.refl _) (.refl _)
  | right => exact .right (.refl _) (.refl _)
  | arg => exact .arg (.refl _) (.refl _)
  | callee => exact .callee (.refl _)
  | results => exact .results (.refl _)
  | start => exact .start (.refl _)
  | rest => exact .rest (.refl _)
  | target => exact .target (.refl _) (.refl _)
  | value => exact .value (.refl _)
  | condition => exact .condition (.refl _) (.refl _) (.refl _) (.refl _)
  | selector => exact .selector (.refl _) (.refl _) (.refl _)
  | bound => exact .bound (.refl _) (.refl _)
  | forBody => exact .forBody (.refl _)
  | whileTest => exact .whileTest (.refl _) (.refl _)
  | whileBody => exact .whileBody (.refl _) (.refl _)
  | whileAgain => exact .whileAgain (.refl _) (.refl _)
  | repeatBody => exact .repeatBody (.refl _) (.refl _)
  | repeatTest => exact .repeatTest (.refl _) (.refl _)

-- ---------------------------------------------------------------------------
-- Libraries
-- ---------------------------------------------------------------------------

/-- A unit with a folded body. -/
structure Pou.Folds (eps : Float) (p p' : Pou) : Prop where
  vars : p.vars = p'.vars
  body : p.body.Folds eps p'.body

/-- The units of the first library have the folded bodies. -/
structure Library.Folds (eps : Float) (l l' : Library) : Prop where
  types : l.types = l'.types
  globals : l.globals = l'.globals
  pous : List.Forall₂ (Pou.Folds eps) l.pous l'.pous

end StructuredText
