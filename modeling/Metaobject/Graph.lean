/-!
# Walks over a graph

Depth-first walks along the edges of a graph whose nodes are numbers below a bound.
-/

namespace Metaobject.Graph

/-- Visit the nodes of a stack and what they lead to, each node once, a node before its successors.
The visited nodes are returned in the order of their visits; `steps` bounds the walk. -/
def visit (next : Nat → List Nat) : Nat → List Nat → List Nat → List Nat
  | 0, _, seen => seen
  | _, [], seen => seen
  | steps + 1, a :: stack, seen =>
    if a ∈ seen then visit next steps stack seen
    else visit next steps (next a ++ stack) (seen ++ [a])

def edgeCount (next : Nat → List Nat) (size : Nat) : Nat :=
  ((List.range size).flatMap next).length

/-- The nodes that can be reached from the given ones, these included. No walk takes more steps than
there are starting nodes and edges. -/
def preorder (next : Nat → List Nat) (size : Nat) (start : List Nat) : List Nat :=
  visit next (start.length + edgeCount next size) start []

end Metaobject.Graph
