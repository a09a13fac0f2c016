-- SUMMARY: Trees whose constants are plain and whose references have names, as the grammar yields them.
import StructuredText.Proofs.Sound
import StructuredText.Tree

/-!
# Proper trees

A tree is more than the grammar yields: its constants could be function blocks or integers beyond all limits, and its
references could be without names. Proper trees have none of that.
-/

namespace StructuredText.Tree

-- ---------------------------------------------------------------------------
-- Expressions
-- ---------------------------------------------------------------------------

mutual

/-- The constants of the tree are plain, and its references have names. -/
def Expr.Proper : Expr → Prop
  | .constant v _ | .typed _ v _ => v.Plain
  | .var path => path.Proper
  | .unary _ e _ => e.Proper
  | .binary _ left right _ => left.Proper ∧ right.Proper
  | .call _ args _ => Arg.AllProper args

def Path.Proper : Path → Prop
  | .mk segments _ => segments ≠ [] ∧ Segment.AllProper segments

def Segment.AllProper : List Segment → Prop
  | [] => True
  | .mk _ indexes _ :: rest => Expr.AllProper indexes ∧ Segment.AllProper rest

def Expr.AllProper : List Expr → Prop
  | [] => True
  | e :: es => e.Proper ∧ Expr.AllProper es

def Arg.AllProper : List Arg → Prop
  | [] => True
  | .mk _ value _ :: rest => value.Proper ∧ Arg.AllProper rest

end

theorem Segment.allProper_iff {segments : List Segment} : Segment.AllProper segments ↔
    ∀ s ∈ segments, match s with | .mk _ indexes _ => Expr.AllProper indexes := by
  induction segments with
  | nil => simp [Segment.AllProper]
  | cons s segments ih =>
    obtain ⟨name, indexes, span⟩ := s
    simp [Segment.AllProper, ih]

theorem Expr.allProper_iff {es : List Expr} : Expr.AllProper es ↔ ∀ e ∈ es, e.Proper := by
  induction es with
  | nil => simp [Expr.AllProper]
  | cons e es ih => simp [Expr.AllProper, ih]

theorem Arg.allProper_iff {args : List Arg} : Arg.AllProper args ↔
    ∀ arg ∈ args, match arg with | .mk _ value _ => value.Proper := by
  induction args with
  | nil => simp [Arg.AllProper]
  | cons arg args ih =>
    obtain ⟨name, value, output⟩ := arg
    simp [Arg.AllProper, ih]

-- ---------------------------------------------------------------------------
-- Statements
-- ---------------------------------------------------------------------------

def CaseLabel.Proper : CaseLabel → Prop
  | .value e => e.Proper
  | .range low high => low.Proper ∧ high.Proper

mutual

def Stmt.Proper : Stmt → Prop
  | .assign target value _ => target.Proper ∧ value.Proper
  | .call _ args _ => Arg.AllProper args
  | .ifThen branches otherwise _ => Stmt.BranchesProper branches ∧ Stmt.OptionProper otherwise
  | .case selector arms otherwise _ => selector.Proper ∧ Stmt.ArmsProper arms ∧ Stmt.OptionProper otherwise
  | .forLoop control start stop step body _ =>
    control.Proper ∧ start.Proper ∧ stop.Proper ∧ (∀ e ∈ step, e.Proper) ∧ Stmt.AllProper body
  | .whileLoop condition body _ => condition.Proper ∧ Stmt.AllProper body
  | .repeatLoop body condition _ => Stmt.AllProper body ∧ condition.Proper
  | .exit _ | .ret _ => True

def Stmt.AllProper : List Stmt → Prop
  | [] => True
  | s :: ss => s.Proper ∧ Stmt.AllProper ss

def Stmt.OptionProper : Option (List Stmt) → Prop
  | none => True
  | some ss => Stmt.AllProper ss

def Stmt.BranchesProper : List (Expr × List Stmt) → Prop
  | [] => True
  | (condition, ss) :: rest => condition.Proper ∧ Stmt.AllProper ss ∧ Stmt.BranchesProper rest

def Stmt.ArmsProper : List (List CaseLabel × List Stmt) → Prop
  | [] => True
  | (labels, ss) :: rest => (∀ label ∈ labels, label.Proper) ∧ Stmt.AllProper ss ∧ Stmt.ArmsProper rest

end

def Query.Proper : Query → Prop
  | .read e => e.Proper
  | .assign target value _ => target.Proper ∧ value.Proper

theorem Stmt.allProper_iff {ss : List Stmt} : Stmt.AllProper ss ↔ ∀ s ∈ ss, s.Proper := by
  induction ss with
  | nil => simp [Stmt.AllProper]
  | cons s ss ih => simp [Stmt.AllProper, ih]

theorem Stmt.branchesProper_iff {bs : List (Expr × List Stmt)} : Stmt.BranchesProper bs ↔
    ∀ b ∈ bs, b.1.Proper ∧ Stmt.AllProper b.2 := by
  induction bs with
  | nil => simp [Stmt.BranchesProper]
  | cons b bs ih => simp [Stmt.BranchesProper, ih, and_assoc]

theorem Stmt.armsProper_iff {arms : List (List CaseLabel × List Stmt)} : Stmt.ArmsProper arms ↔
    ∀ arm ∈ arms, (∀ label ∈ arm.1, label.Proper) ∧ Stmt.AllProper arm.2 := by
  induction arms with
  | nil => simp [Stmt.ArmsProper]
  | cons arm arms ih => simp [Stmt.ArmsProper, ih, and_assoc]

theorem Stmt.optionProper_iff {o : Option (List Stmt)} : Stmt.OptionProper o ↔ ∀ ss ∈ o, Stmt.AllProper ss := by
  cases o <;> simp [Stmt.OptionProper]

-- ---------------------------------------------------------------------------
-- Declarations
-- ---------------------------------------------------------------------------

/-- An initial value is plain if there is one. -/
def InitialProper (initial : Option Value) : Prop := ∀ v ∈ initial, v.Plain

theorem InitialProper.mem_toList {initial : Option Value} (h : InitialProper initial) {v : Value}
    (hv : v ∈ initial.toList) : v.Plain := h v (Option.mem_toList.mp hv)

theorem initialProper_none : InitialProper none := by simp [InitialProper]

def TypeExpr.Proper : TypeExpr → Prop
  | .named _ => True
  | .subrange _ min _ => FitsInteger min
  | .array element _ => element.Proper

structure Member.Proper (m : Member) : Prop where
  type : m.type.Proper
  initial : InitialProper m.initial

def TypeBody.Proper : TypeBody → Prop
  | .alias _ initial => InitialProper initial
  | .enumeration .. => True
  | .subrange _ min _ initial => FitsInteger min ∧ InitialProper initial
  | .array element _ initial => element.Proper ∧ InitialProper initial
  | .struct members => ∀ m ∈ members, m.Proper

structure VarLine.Proper (line : VarLine) : Prop where
  type : line.type.Proper
  initial : InitialProper line.initial

def VarBlock.Proper (b : VarBlock) : Prop := ∀ line ∈ b.lines, line.Proper

structure Pou.Proper (p : Pou) : Prop where
  returns : ∀ t ∈ p.returns, t.Proper
  blocks : ∀ b ∈ p.blocks, b.Proper
  body : Stmt.AllProper p.body

/-- Global variables are in a section of their own. -/
def Element.Proper : Element → Prop
  | .types declarations => ∀ d ∈ declarations, d.body.Proper
  | .globals block => block.section = .global ∧ block.Proper
  | .pou p => p.Proper

end StructuredText.Tree
