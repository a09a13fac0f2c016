-- SUMMARY: Linking: from compilation units to a library that can be executed.
import StructuredText.Body.Verify
import StructuredText.Link.References
import StructuredText.Link.Variables

/-!
# Linking

Linking runs in stages, since each one relies on what the stages before it found. A stage reports all
problems that it finds; linking stops after the first stage that found one.
-/

namespace StructuredText

namespace Link

/-- The references of all bodies are linked once the global variables are. -/
def linkReferences (l : Library) : Except (List Diagnostic) Library :=
  let (errors, l) := (List.range l.pous.length).foldl (fun (errors, l) i =>
    let (ds, l) := linkExternals l i
    (errors ++ ds, l)) (([] : List Diagnostic), l)
  let (more, l) := linkAllVariables l
  finish (errors ++ more) l

/-- Checks the bodies of all units and prepares them for execution. -/
def prepareBodies (epsilon : Float) (l : Library) : Except (List Diagnostic) Library := do
  let pous ← collect (fun (p : Pou) => do
    pure { p with body := ← Body.prepare ⟨l, some p, epsilon⟩ p.body }) l.pous
  pure { l with pous }

/-- The stages of linking, for units without errors. -/
def stages (units : List CompilationUnit) (options : Options) :
    Except (List Diagnostic) Library := do
  let others (l : Library) : List Nat := l.pousOf (· ≠ .functionBlock)
  let l ← merge units options.memorySize
  let l ← linkTypes (units.flatMap (·.uses)) l
  let l ← linkHeaders (l.pousOf (· = .functionBlock)) l
  let l ← linkGlobals l
  let l ← linkReferences l
  let l ← linkBlocks l
  let l ← linkHeaders (others l) l
  let l ← createVars (· ≠ .functionBlock) l
  let (errors, l) := linkAllCalls l
  let l ← finish errors l
  prepareBodies options.realEpsilon l

end Link

/-- The units that were read with errors. -/
def faulty (units : List CompilationUnit) : List CompilationUnit :=
  units.filter (!·.diagnostics.isEmpty)

/--
The library of all units. Units with errors are not linked unless the options ask for it; the errors are
returned together with the problem that linking was left out.
-/
def link (units : List CompilationUnit) (options : Options) : Except (List Diagnostic) Library :=
  if units.isEmpty then .error [.of .noContent .builtin "Nothing to link"]
  else
    match faulty units, options.linkDespiteErrors with
    | first :: rest, false =>
      let skipped := Diagnostic.atFile .parseErrorsPresent first.file
        "Fix the syntax errors before linking"
      .error ((first :: rest).flatMap (·.diagnostics) ++ [skipped])
    | _, _ => Link.stages units options

end StructuredText
