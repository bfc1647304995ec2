/-!
# Layout

The spacing of written code: what a level of indentation is, and what ends a line.
-/

namespace SolText

/-- One level of indentation. -/
inductive Indent where
  | spaces (width : UInt8)
  | tabs
  deriving DecidableEq, Repr

/-- Indentation and the end of a line. -/
structure Layout where
  indent : Indent := .spaces 4
  newline : String := "\n"
  deriving DecidableEq, Repr

/-- The blanks at the start of a line that is `depth` levels in. -/
def Layout.margin (layout : Layout) (depth : Nat) : String :=
  match layout.indent with
  | .spaces width => String.ofList (List.replicate (width.toNat * depth) ' ')
  | .tabs => String.ofList (List.replicate depth '\t')

end SolText
