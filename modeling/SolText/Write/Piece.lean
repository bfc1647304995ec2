import SolText.Highlight.Role
import SolText.Options
import SolText.Table
import SolText.Write.Error
import SolText.Yul.Writer

/-!
# Pieces of written text

A rule says how a node is written: as pieces of text, and as other nodes in their places. Writing
those and keeping track of their ranges is left to the writer.
-/

namespace SolText

/-- A piece of a node's text. -/
inductive Piece where
  | text (role : Role) (content : String)
  /-- The text of another node. -/
  | node (handle : Handle)
  /-- Something optional that is left out. It has no text. -/
  | absent
  deriving DecidableEq, Repr

/-- What rules can ask for beside the forest. -/
structure Setting where
  options : Options
  yul : Yul.Writer

/-- Says how a node is written. -/
abbrev Rule := Setting → Forest → Handle → Except WriteError (List Piece)

/-- The rules by the kinds of nodes that they write. -/
abbrev Rules := Table Kind Rule

/-- The nodes among the pieces, in order. -/
def Piece.handles (pieces : List Piece) : List Handle :=
  pieces.filterMap fun
    | .node handle => some handle
    | .text _ _ | .absent => none

end SolText
