-- SUMMARY: Computing constants and following references when a program is linked preserves what it does.
import StructuredText.Proofs.LinkedLibrary
import StructuredText.Proofs.Unfolded

/-!
# Folding

When a body is prepared, its constant expressions are computed and its references with constant indexes are followed
as far as they can be. This makes no difference to executions: a body that is prepared, in a library of such bodies, is
executed as the unfolded body is in the library of unfolded bodies.
-/

namespace StructuredText

open Run

/-- The units of a library whose bodies are prepared have the folded bodies. -/
theorem Library.folds_of_prepareBodies {eps : Float} {l₀ l : Library}
    (hunfixed : ∀ p ∈ l₀.pous, p.body.Satisfies Expr.unfixed) (h : Link.prepareBodies eps l₀ = .ok l) :
    l.Folds eps (l₀.unfolded eps) := by
  obtain ⟨pous, rfl, hprepared⟩ := Link.forall₂_of_prepareBodies h
  refine ⟨rfl, rfl, List.forall₂_map_right_iff.mpr ?_⟩
  refine List.forall₂_iff_get.mpr ⟨hprepared.length_eq.symm, fun i hi hi₀ => ?_⟩
  obtain ⟨body, hbody, hp⟩ := hprepared.get hi₀ hi
  rw [hp]
  exact ⟨rfl, Body.prepare_folds (hunfixed _ (List.get_mem _ _)) hbody⟩

/-- Two bodies, each in a library of its own, do the same on every state of the machine. -/
structure RunsAlongside (eps : Float) (l l' : Library) (body body' : Stmt) : Prop where
  /-- The expressions have the same results at the same places, or fail with the same errors. -/
  exprs : List.Forall₂ (fun e e' => Lockstep eps (e.evaluate ⟨l, eps⟩) (e'.evaluate ⟨l', eps⟩)) body.exprs body'.exprs
  /--
  After any number of micro-steps both have failed in the same way, or have ended with the same result, or wait with
  the same results for what is left to do, and the variables, the direct memory and the point of execution are the same.
  -/
  steps : ∀ count, Lockstep eps (microSteps ⟨l, eps⟩ count [.start body]) (microSteps ⟨l', eps⟩ count [.start body'])

theorem Library.Folds.runsAlongside {eps : Float} {l l' : Library} (hl : l.Folds eps l') {body body' : Stmt}
    (h : body.Folds eps body') : RunsAlongside eps l l' body body' :=
  ⟨h.exprs.imp fun _ _ he => he.lockstep hl, fun count => microSteps_lockstep hl count (.cons (.start h) .nil)⟩

/-- A body that is prepared, in a library of such bodies, does what the unfolded body does in the unfolded library. -/
theorem Body.prepared_runs_alongside_unfolded {s : Scope} {l₀ l : Library}
    (hunfixed : ∀ p ∈ l₀.pous, p.body.Satisfies Expr.unfixed) (hlibrary : Link.prepareBodies s.epsilon l₀ = .ok l)
    {body prepared : Stmt} (hbody : body.Satisfies Expr.unfixed) (hprepare : prepare s body = .ok prepared) :
    RunsAlongside s.epsilon l (l₀.unfolded s.epsilon) prepared (body.unfolded s) := by
  have hl := Library.folds_of_prepareBodies hunfixed hlibrary
  exact hl.runsAlongside (prepare_folds hbody hprepare)

-- ---------------------------------------------------------------------------
-- A program with constants
-- ---------------------------------------------------------------------------

namespace Scaling

def node : NodeInfo := { id := 0, span := .builtin }

def name (text : String) : Ident := ⟨text, .builtin⟩

def int : TypeRef := ⟨name "INT", some (TypeTable.elementaryId .int)⟩

def number (i : Int) : Expr := .literal node (.integer i) none

/-- A reference to a variable of the unit. -/
def reference (text : String) (position : Nat) (indexes : List Expr) : Expr :=
  .var node { segments := [⟨name text, indexes.length, .builtin⟩], root := some (.own position) } indexes

def declared (text : String) («section» : Section) (type : TypeRef) (default : Value) : VarDecl :=
  { name := name text, «section», type, default }

/-- `FUNCTION Scale : INT VAR_INPUT k : INT; END_VAR Scale := k * (2 + 3); END_FUNCTION`. -/
def scale : Pou where
  name := name "Scale"
  kind := .function
  vars := [declared "k" .input int (.integer 0), declared "Scale" .result int (.integer 0)]
  body := .block node [.assign node (reference "Scale" 1 [])
    (.binary node .mul (reference "k" 0 []) (.binary node .add (number 2) (number 3)))]

/--
`PROGRAM P VAR a : ARRAY[0..3] OF INT; x : INT; END_VAR
a[1 + 1] := Scale(MAX(2, 3) - 1); x := a[2] - a[x]; END_PROGRAM`.
-/
def program : Pou where
  name := name "P"
  kind := .program
  vars := [declared "a" .own ⟨name "P.a", some TypeTable.elementaryCount⟩ (.array (List.replicate 4 (.integer 0))),
    declared "x" .own int (.integer 0)]
  body := .block node
    [.assign node (reference "a" 0 [.binary node .add (number 1) (number 1)])
      (.call node (name "Scale") [⟨none, false⟩]
        [.binary node .sub (.call node (name "MAX") [⟨none, false⟩, ⟨none, false⟩] [number 2, number 3]
          (some (.standard .max)) []) (number 1)] (some (.function 0)) []),
    .assign node (reference "x" 1 [])
      (.binary node .sub (reference "a" 0 [number 2]) (reference "a" 0 [reference "x" 1 []]))]

/-- The library of the function and the program before their bodies are prepared. -/
def library : Library where
  types := ⟨TypeTable.initial.types.push ⟨name "P.a", .array int [⟨0, 3⟩] none, .builtin⟩⟩
  pous := [scale, program]

def scope : Body.Scope := ⟨library, some program, 0.0001⟩

end Scaling

theorem Body.prepared_runs_alongside_unfolded_scaling :
    ∃ l prepared, Link.prepareBodies Scaling.scope.epsilon Scaling.library = .ok l ∧
      prepare Scaling.scope Scaling.program.body = .ok prepared ∧
      prepared.exprNodes.length = 10 ∧ (Scaling.program.body.unfolded Scaling.scope).exprNodes.length = 16 ∧
      RunsAlongside Scaling.scope.epsilon l (Scaling.library.unfolded Scaling.scope.epsilon) prepared
        (Scaling.program.body.unfolded Scaling.scope) := by
  have hunfixed : ∀ p ∈ Scaling.library.pous, p.body.Satisfies Expr.unfixed := by
    simp [Scaling.library, Scaling.scale, Scaling.program, Scaling.reference, Scaling.number, Stmt.Satisfies, Stmt.exprs,
      Stmt.exprsOfAll, Expr.AllSatisfy, Expr.Satisfies, Expr.unfixed]
  have hlibrary : (Link.prepareBodies Scaling.scope.epsilon Scaling.library).isOk = true := by decide +kernel
  have hprepare : (prepare Scaling.scope Scaling.program.body).toOption.map (·.exprNodes.length) = some 10 := by
    decide +kernel
  have hunfolded : (Scaling.program.body.unfolded Scaling.scope).exprNodes.length = 16 := by decide +kernel
  cases hl : Link.prepareBodies Scaling.scope.epsilon Scaling.library with
  | error =>
    rw [hl] at hlibrary
    cases hlibrary
  | ok l =>
    cases hp : prepare Scaling.scope Scaling.program.body with
    | error =>
      rw [hp] at hprepare
      cases hprepare
    | ok prepared =>
      rw [hp] at hprepare
      refine ⟨l, prepared, rfl, rfl, Option.some.inj hprepare, hunfolded, ?_⟩
      exact prepared_runs_alongside_unfolded hunfixed hl (hunfixed Scaling.program (by simp [Scaling.library])) hp

-- ---------------------------------------------------------------------------
-- Linked programs
-- ---------------------------------------------------------------------------

/-- A reference of a resolved body is not followed yet. -/
theorem Expr.resolved_implies_unfixed (l : Library) (vars : List VarDecl) (inUnit : Prop) :
    (resolved l vars inUnit).Implies unfixed :=
  ⟨fun _ => trivial, fun h => h.1, fun _ => trivial, fun _ => trivial⟩

/-- The units of every linked program do what their unfolded bodies do. -/
theorem units_run_alongside_unfolded {units : List CompilationUnit} {options : Options} {l : Library}
    (hunits : ∀ u ∈ units, u.Fresh) (h : link units options = .ok l) :
    ∃ l₀, Link.prepareBodies options.realEpsilon l₀ = .ok l ∧
      List.Forall₂ (fun p p' => RunsAlongside options.realEpsilon l (l₀.unfolded options.realEpsilon) p.body p'.body)
        l.pous (l₀.unfolded options.realEpsilon).pous := by
  obtain ⟨l₀, -, hbodies, -, hprepare⟩ := Link.unprepared_of_stages hunits (stages_of_link h)
  have hunfixed (p : Pou) (hp : p ∈ l₀.pous) : p.body.Satisfies Expr.unfixed :=
    Expr.AllSatisfy.mono (Expr.resolved_implies_unfixed l₀ p.vars True) (hbodies p hp)
  have hl := Library.folds_of_prepareBodies hunfixed hprepare
  exact ⟨l₀, hprepare, hl.pous.imp fun _ _ hp => hl.runsAlongside hp.body⟩

end StructuredText
