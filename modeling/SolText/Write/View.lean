import SolText.Highlight.Style
import SolText.Write.Writer

/-!
# Views of written text

Other ways to look at how a node is written than its text alone.

* `Writer.describe`: the pieces with the descriptions of the nodes among them.
* `Writer.tagged`: the pieces of text in order, with their roles.
* `Writer.highlight`: the text in a style.
-/

namespace SolText

/-- A part of a description: a text, or a node with its own description. -/
inductive Segment where
  | text (content : String)
  | node (handle : Handle) (segments : List Segment)

namespace Segment

mutual
/-- The text that a segment describes. -/
def flat : Segment → String
  | .text content => content
  | .node _ segments => flatten segments

/-- The text that a description describes. -/
def flatten : List Segment → String
  | [] => ""
  | segment :: rest => flat segment ++ flatten rest
end

end Segment

namespace Writer

variable (writer : Writer) (forest : Forest)

/-- Describes a node in which others are nested at most `fuel` levels deep. -/
def describeWithin : (fuel : Nat) → Handle → Except WriteError (List Segment)
  | 0, handle => throw (.endless handle)
  | fuel + 1, handle => do
    let parts ← (← writer.pieces forest handle).mapM fun
      | .absent => return []
      | .text _ content => return [.text content]
      | .node child => return [.node child (← describeWithin fuel child)]
    return parts.flatten

/-- How a node is written: texts, and nodes with their own descriptions. -/
def describe (handle : Handle) : Except WriteError (List Segment) :=
  writer.describeWithin forest (fuel forest) handle

/-- The tagged text of a node in which others are nested at most `fuel` levels deep. -/
def taggedWithin : (fuel : Nat) → Handle → Except WriteError (List (Role × String))
  | 0, handle => throw (.endless handle)
  | fuel + 1, handle => do
    let parts ← (← writer.pieces forest handle).mapM fun
      | .absent => return []
      | .text role content => return [(role, content)]
      | .node child => taggedWithin fuel child
    return parts.flatten

/-- The pieces of text of which a node's text consists, with their roles. -/
def tagged (handle : Handle) : Except WriteError (List (Role × String)) :=
  writer.taggedWithin forest (fuel forest) handle

/-- The text of a node in a style. -/
def highlight (style : Style) (handle : Handle) : Except WriteError String := do
  return String.join ((← writer.tagged forest handle).map fun (role, text) => style role text)

end Writer

end SolText
