/-!
# Roles of text

What a piece of written text is, for those who show different text differently.
-/

namespace SolText

/-- What a piece of text is. -/
inductive Role where
  | neutral
  | indent
  | newline
  | pragma
  | keyword
  | declaration
  | typeName
  | variableName
  | member
  | string
  | numeric
  | operator
  | punctuation
  | assembly
  deriving DecidableEq, Repr

end SolText
