-- SUMMARY: Links the names in bodies to variables, enumerated values and callees.
import StructuredText.Link.Merge

/-!
# Linking names in bodies

Every reference in a body is given the variable that its first name stands for, and every call its callee. A
single name of an enumerated value becomes a literal. A body is linked with the pools that were filled while
it was built. They are kept, and a body that is linked already can be linked again with them.
-/

namespace StructuredText.Link

-- ---------------------------------------------------------------------------
-- Variables
-- ---------------------------------------------------------------------------

def notDeclared (r : Reference NodeId) : Diagnostic :=
  .of .unresolvedVariable r.span s!"{r.text} is not declared"

/-- The node of a reference with what its first name stands for. -/
def bindNode (r : Reference NodeId) (symbol : Symbol) (node : Option Expr) :
    Except Diagnostic Expr :=
  match node, symbol with
  | some (.var info path indexes), .root root =>
    .ok (.var info { path with root := some root } indexes)
  | some (.var info path _), .enumerated type =>
    match path.isSimple, path.segments.head? with
    | true, some first =>
      let info := { info with type? := some type, storage := { constant := true } }
      .ok (.literal info (.enumeration first.name) none)
    | _, _ => .error (notDeclared r)
  | _, _ => .error (.internal r.span "Variable reference is not a variable node")

def bindVariable (r : Reference NodeId) (found : Option Symbol) (body : Stmt) :
    Option Diagnostic × Stmt :=
  match found with
  | none => (some (notDeclared r), body)
  | some symbol =>
    match bindNode r symbol (body.exprNode? r.referrer) with
    | .ok node => (none, body.setExprNode r.referrer node)
    | .error d => (some d, body)

/-- The references of a body of the unit, or of a query, with what is found for them now. -/
def lookUpVariables (l : Library) (pou : Option Pou) (pool : RefPool NodeId Symbol) :
    RefPool NodeId Symbol :=
  pool.reset.resolve (l.symbol? pou)

/-- Links the references of a body of the unit, or of a query. -/
def linkVariables (l : Library) (pou : Option Pou) (pool : RefPool NodeId Symbol) (body : Stmt) :
    List Diagnostic × Stmt :=
  (lookUpVariables l pou pool).trigger { resolved := bindVariable } body

-- ---------------------------------------------------------------------------
-- Calls
-- ---------------------------------------------------------------------------

def bindCall (r : Reference NodeId) (found : Option Callee) (body : Stmt) :
    Option Diagnostic × Stmt :=
  match found with
  | none =>
    (some (.of .unresolvedFunction r.span
      s!"{r.text} is not a function or function block instance"), body)
  | some callee =>
    match body.exprNode? r.referrer with
    | some (.call info name labels args _ bindings) =>
      (none, body.setExprNode r.referrer (.call info name labels args (some callee) bindings))
    | _ => (some (.internal r.span "Call reference is not a call node"), body)

/-- The calls of a body of the unit, or of a query, with what is found for them now. -/
def lookUpCalls (l : Library) (pou : Option Pou) (pool : RefPool NodeId Callee) : RefPool NodeId Callee :=
  pool.reset.resolve (l.callee? pou)

/-- Links the calls of a body of the unit, or of a query. -/
def linkCalls (l : Library) (pou : Option Pou) (pool : RefPool NodeId Callee) (body : Stmt) :
    List Diagnostic × Stmt :=
  (lookUpCalls l pou pool).trigger { resolved := bindCall } body

-- ---------------------------------------------------------------------------
-- All bodies
-- ---------------------------------------------------------------------------

/-- Applies a step to every unit. -/
def linkBodies (step : Pou → List Diagnostic × Pou) (l : Library) : List Diagnostic × Library :=
  let results := l.pous.map step
  (results.flatMap (·.1), { l with pous := results.map (·.2) })

/-- Links the references of all bodies. -/
def linkAllVariables (l : Library) : List Diagnostic × Library :=
  linkBodies (fun p =>
    let (ds, body) := linkVariables l (some p) p.pools.vars p.body
    (ds, { p with body, pools.vars := lookUpVariables l (some p) p.pools.vars })) l

/-- Links the calls of all bodies. -/
def linkAllCalls (l : Library) : List Diagnostic × Library :=
  linkBodies (fun p =>
    let (ds, body) := linkCalls l (some p) p.pools.calls p.body
    (ds, { p with body, pools.calls := lookUpCalls l (some p) p.pools.calls })) l

end StructuredText.Link
