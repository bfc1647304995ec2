import SolText.Layout
import SolText.Table
import SolText.Yul.Error

/-!
# Writing Yul nodes

A rule writes the nodes of one tag, and leaves the nodes nested in them to the writer. Tags are
plain text, so that the table of rules is open to more of them.
-/

namespace SolText.Yul

/-- Writes a node whose first line stands at the given depth. -/
abbrev Render := Node → (depth : Nat) → Except Error String

/-- Writes the nodes of one tag, given what writes the nodes nested in them. -/
abbrev Rule := Layout → Render → Render

/-- The rules by their tags, and the layout that they follow. -/
structure Writer where
  rules : Table String Rule
  layout : Layout

/-- Writes each node and joins the texts. -/
def renderJoined (render : Render) (nodes : List Node) (depth : Nat) (separator : String) :
    Except Error String := do
  return separator.intercalate (← nodes.mapM (render · depth))

namespace Writer

/-- Writes a node that is nested at most `fuel` levels deep. -/
def renderWithin (writer : Writer) : (fuel : Nat) → Render
  | 0, node, _ => .error (.endless node.tag node.dump)
  | fuel + 1, node, depth =>
    match writer.rules.get? node.tag with
    | some rule => rule writer.layout (renderWithin writer fuel) node depth
    | none => .error (.noRule node.tag node.dump)

/-- Writes a node whose first line stands at the given depth. -/
def renderAtDepth (writer : Writer) (node : Node) (depth : Nat) : Except Error String :=
  writer.renderWithin node.height node depth

/-- Writes a node at the left margin. -/
def render (writer : Writer) (node : Node) : Except Error String := writer.renderAtDepth node 0

end Writer

end SolText.Yul
