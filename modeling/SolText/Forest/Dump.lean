import SolText.Forest.Basic
import SolText.Node.Summary

/-!
# Dumps

A node and everything beneath it for a reader of diagnostics: one line a node, four spaces a level.
-/

namespace SolText.Forest

/-- The line of one node. -/
def dumpLine (forest : Forest) (depth : Nat) (handle : Handle) : String :=
  String.ofList (List.replicate (4 * depth) ' ') ++
    (match forest.node? handle with
    | some node =>
      node.kind.name ++ " " ++ handle.text ++
        (match node.summary with
        | some summary => " (" ++ summary ++ ")"
        | none => "")
    | none => "<unknown> " ++ handle.text) ++
    "\n"

/-- The lines of a node and of everything beneath it, down to `fuel` levels. -/
def dumpWithin (forest : Forest) : (fuel : Nat) → (depth : Nat) → (handle : Handle) → String
  | 0, _, _ => ""
  | fuel + 1, depth, handle =>
    forest.dumpLine depth handle ++
      String.join ((forest.children handle).map (dumpWithin forest fuel (depth + 1)))

/-- The lines of a node and of everything beneath it. A tree has no more levels than the forest has
nodes. -/
def dump (forest : Forest) (handle : Handle) : String := forest.dumpWithin (forest.size + 1) 0 handle

end SolText.Forest
