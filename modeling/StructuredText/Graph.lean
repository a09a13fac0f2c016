-- SUMMARY: Directed graphs: reachability and strongly connected components.

/-!
# Graphs

The components of a graph are found by reachability: two nodes belong together when each one is reached from
the other. They are listed in the order in which a depth first search leaves them, so a component comes after
all other components that are reached from it.
-/

namespace StructuredText

/-- A graph with nodes in the order in which they were added, and the successors of each node. -/
structure Graph where
  nodes : List Nat
  next : Nat → List Nat

namespace Graph

/-- The graph of the edges that start at the nodes. Every end of an edge is a node. -/
def ofEdges (starts : List Nat) (next : Nat → List Nat) : Graph :=
  ⟨(starts.flatMap fun n => n :: next n).foldl
    (fun seen n => if seen.contains n then seen else seen ++ [n]) [], next⟩

-- ---------------------------------------------------------------------------
-- Reachability
-- ---------------------------------------------------------------------------

/-- Adds the successors of the nodes until there are no new ones, at most as often as the bound says. -/
def closure (g : Graph) : (bound : Nat) → List Nat → List Nat
  | 0, seen => seen
  | bound + 1, seen =>
    let new := (seen.flatMap g.next).filter (!seen.contains ·)
    if new.isEmpty then seen else g.closure bound (seen ++ new.eraseDups)

/-- The nodes that are reached from a node by at least one edge. -/
def reached (g : Graph) (n : Nat) : List Nat := g.closure g.nodes.length (g.next n)

/-- Each of the nodes is reached from the other one. -/
def connected (g : Graph) (a b : Nat) : Bool := (g.reached a).contains b && (g.reached b).contains a

-- ---------------------------------------------------------------------------
-- Components
-- ---------------------------------------------------------------------------

/-- Searches from a node, depth first. Collects the nodes that were seen and those that were left. -/
def visit (g : Graph) : (depth : Nat) → List Nat × List Nat → Nat → List Nat × List Nat
  | 0, state, _ => state
  | depth + 1, (seen, left), n =>
    if seen.contains n then (seen, left)
    else
      let (seen, left) := (g.next n).foldl (g.visit depth) (n :: seen, left)
      (seen, left ++ [n])

/-- The nodes in the order in which a depth first search leaves them. -/
def leavingOrder (g : Graph) : List Nat :=
  (g.nodes.foldl (g.visit (g.nodes.length + 1)) ([], [])).2

/-- The node with the nodes of its component, in increasing order. -/
def componentOf (g : Graph) (n : Nat) : List Nat :=
  (g.nodes.filter fun m => m = n || g.connected n m).mergeSort (· ≤ ·)

/-- The components of the nodes, each one at its last node. -/
def componentsOf (g : Graph) : List Nat → List (List Nat)
  | [] => []
  | n :: rest =>
    if rest.any (g.connected n ·) then g.componentsOf rest
    else g.componentOf n :: g.componentsOf rest

/-- The strongly connected components in the order in which a depth first search leaves them. -/
def components (g : Graph) : List (List Nat) := g.componentsOf g.leavingOrder

end Graph

end StructuredText
