-- SUMMARY: Properties that hold of every node of an expression, and what keeps them when nodes are replaced.
import StructuredText.Proofs.Replaced

/-!
# Properties of nodes

What linking promises of a body concerns its literals, references and calls one by one. A specification says
what has to hold of each of them; it is kept by whatever replaces the nodes of a body by nodes that satisfy it.
-/

namespace StructuredText

open Returning

/-- What has to hold of the nodes of an expression, one by one. -/
structure NodeSpec where
  literal : NodeInfo → Value → Prop
  /-- A reference with a number of indexes. -/
  var : NodeInfo → VarPath → (indexes : Nat) → Prop
  operator : NodeInfo → Prop
  call : NodeInfo → Option Callee → (args : List Expr) → List ArgBinding → Prop

/-- The other specification asks for no more. -/
structure NodeSpec.Implies (spec spec' : NodeSpec) : Prop where
  literal : ∀ {info v}, spec.literal info v → spec'.literal info v
  var : ∀ {info path indexes}, spec.var info path indexes → spec'.var info path indexes
  operator : ∀ {info}, spec.operator info → spec'.operator info
  call : ∀ {info callee args bindings}, spec.call info callee args bindings → spec'.call info callee args bindings

variable {spec spec' : NodeSpec}

namespace Expr

def IsVar (e : Expr) : Prop := ∃ info path indexes, e = .var info path indexes

theorem isVar_of_path? {e : Expr} {path : VarPath} (h : e.path? = some path) : e.IsVar := by
  cases e with
  | var info path indexes => exact ⟨info, path, indexes, rfl⟩
  | literal | unary | binary | call => cases h

mutual

/-- The nodes of the expression satisfy the specification. -/
def Satisfies (spec : NodeSpec) : Expr → Prop
  | .literal info v _ => spec.literal info v
  | .var info path indexes => spec.var info path indexes.length ∧ AllSatisfy spec indexes
  | .unary info _ e => spec.operator info ∧ e.Satisfies spec
  | .binary info _ left right => spec.operator info ∧ left.Satisfies spec ∧ right.Satisfies spec
  | .call info _ _ args callee bindings => spec.call info callee args bindings ∧ AllSatisfy spec args

def AllSatisfy (spec : NodeSpec) : List Expr → Prop
  | [] => True
  | e :: es => e.Satisfies spec ∧ AllSatisfy spec es

end

theorem allSatisfy_iff {es : List Expr} : AllSatisfy spec es ↔ ∀ e ∈ es, e.Satisfies spec := by
  induction es with
  | nil => simp [AllSatisfy]
  | cons e es ih => simp [AllSatisfy, ih]

mutual

theorem Satisfies.mono (hspec : spec.Implies spec') : {e : Expr} → e.Satisfies spec → e.Satisfies spec'
  | .literal .., h => hspec.literal h
  | .var .., h => ⟨hspec.var h.1, AllSatisfy.mono hspec h.2⟩
  | .unary .., h => ⟨hspec.operator h.1, Satisfies.mono hspec h.2⟩
  | .binary .., h => ⟨hspec.operator h.1, Satisfies.mono hspec h.2.1, Satisfies.mono hspec h.2.2⟩
  | .call .., h => ⟨hspec.call h.1, AllSatisfy.mono hspec h.2⟩

theorem AllSatisfy.mono (hspec : spec.Implies spec') : {es : List Expr} → AllSatisfy spec es → AllSatisfy spec' es
  | [], _ => trivial
  | _ :: _, h => ⟨Satisfies.mono hspec h.1, AllSatisfy.mono hspec h.2⟩

end

-- ---------------------------------------------------------------------------
-- Replacing nodes
-- ---------------------------------------------------------------------------

variable {m : Type → Type} [Monad m] [Returning m] {f : Expr → m Expr}

theorem length_of_mapAllM : {es es' : List Expr} → Returns (mapAllM f es) es' → es'.length = es.length
  | [], _, h => by
    rw [mapAllM] at h
    obtain rfl := of_pure h
    rfl
  | _ :: _, _, h => by
    rw [mapAllM] at h
    obtain ⟨_, -, h⟩ := of_bind h
    obtain ⟨_, hrest, h⟩ := of_bind h
    obtain rfl := of_pure h
    exact congrArg (· + 1) (length_of_mapAllM hrest)

/-- The arguments of a call may be replaced. -/
def Admits (spec : NodeSpec) (f : Expr → m Expr) : Prop :=
  ∀ info callee args args' bindings, spec.call info callee args bindings →
    Returns (mapAllM f args) args' → spec.call info callee args' bindings

mutual

/--
Replacing nodes keeps a specification if that which replaces a node satisfies it and arguments may be replaced.
-/
theorem satisfies_of_mapNodesM (hcall : Admits spec f)
    (hf : ∀ e e', e.Satisfies spec → Returns (f e) e' → e'.Satisfies spec) :
    (e : Expr) → {e' : Expr} → e.Satisfies spec → Returns (e.mapNodesM f) e' → e'.Satisfies spec
  | .literal info v t, e', he, h => by
    rw [mapNodesM] at h
    exact hf _ e' he h
  | .var info path indexes, e', he, h => by
    rw [mapNodesM] at h
    obtain ⟨indexes', hindexes, h⟩ := of_bind h
    have hall := allSatisfy_of_mapAllM hcall hf indexes he.2 hindexes
    have hvar : spec.var info path indexes'.length := by
      rw [length_of_mapAllM hindexes]
      exact he.1
    exact hf (.var info path indexes') e' ⟨hvar, hall⟩ h
  | .unary info op e, e', he, h => by
    rw [mapNodesM] at h
    obtain ⟨operand, hoperand, h⟩ := of_bind h
    have hfits : operand.Satisfies spec := satisfies_of_mapNodesM hcall hf e he.2 hoperand
    exact hf (.unary info op operand) e' ⟨he.1, hfits⟩ h
  | .binary info op l r, e', he, h => by
    rw [mapNodesM] at h
    obtain ⟨l', hl, h⟩ := of_bind h
    obtain ⟨r', hr, h⟩ := of_bind h
    exact hf (.binary info op l' r') e'
      ⟨he.1, satisfies_of_mapNodesM hcall hf l he.2.1 hl, satisfies_of_mapNodesM hcall hf r he.2.2 hr⟩ h
  | .call info name labels args callee bindings, e', he, h => by
    rw [mapNodesM] at h
    obtain ⟨args', hargs, h⟩ := of_bind h
    have hall := allSatisfy_of_mapAllM hcall hf args he.2 hargs
    have hfits := hcall info callee args args' bindings he.1 hargs
    exact hf (.call info name labels args' callee bindings) e' ⟨hfits, hall⟩ h

theorem allSatisfy_of_mapAllM (hcall : Admits spec f)
    (hf : ∀ e e', e.Satisfies spec → Returns (f e) e' → e'.Satisfies spec) :
    (es : List Expr) → {es' : List Expr} → AllSatisfy spec es → Returns (mapAllM f es) es' →
      AllSatisfy spec es'
  | [], _, _, h => by
    rw [mapAllM] at h
    obtain rfl := of_pure h
    trivial
  | e :: es, _, he, h => by
    rw [mapAllM] at h
    obtain ⟨e', hfirst, h⟩ := of_bind h
    obtain ⟨es', hrest, h⟩ := of_bind h
    obtain rfl := of_pure h
    exact ⟨satisfies_of_mapNodesM hcall hf e he.1 hfirst, allSatisfy_of_mapAllM hcall hf es he.2 hrest⟩

end

end Expr

-- ---------------------------------------------------------------------------
-- Statements
-- ---------------------------------------------------------------------------

namespace Stmt

/-- The nodes of all expressions of the statement satisfy the specification. -/
def Satisfies (spec : NodeSpec) (s : Stmt) : Prop := Expr.AllSatisfy spec s.exprs

end Stmt

end StructuredText
