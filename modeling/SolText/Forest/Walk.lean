import SolText.Forest.Basic

/-!
# Walking a tree

Every node reachable from a root, parents before their children and children in order.
-/

namespace SolText.Forest

/-- Visits the first of the pending nodes and puts its children in front of the others, as long as
there is fuel. -/
def visit (forest : Forest) : (fuel : Nat) → (pending : List Handle) → List Handle
  | fuel + 1, handle :: pending => handle :: visit forest fuel (forest.children handle ++ pending)
  | _, _ => []

/-- The nodes reachable from `root`. An unknown root is reached all the same. No node of a tree is
visited twice, so the size of the forest bounds the number of visits. -/
def walk (forest : Forest) (root : Handle) : List Handle := forest.visit (forest.size + 1) [root]

end SolText.Forest
