import SolText.Highlight.Role

/-!
# Styles

A style shows text according to its role.

* `Style.plain`: the text alone.
* `Style.terminal`: coloured by terminal escape sequences.
-/

namespace SolText

/-- Shows a text of the given role. -/
abbrev Style := Role → String → String

/-- A colour, in its red, green and blue parts, and a weight. -/
structure Ink where
  red : Nat
  green : Nat
  blue : Nat
  bold : Bool := false
  deriving DecidableEq, Repr

/-- The ink of each role; blanks have none. -/
def Role.ink : Role → Option Ink
  | neutral | indent | newline => none
  | pragma => some { red := 0x75, green := 0x50, blue := 0x7b }
  | keyword => some { red := 0x75, green := 0x50, blue := 0x7b, bold := true }
  | declaration => some { red := 0x34, green := 0x65, blue := 0xa4, bold := true }
  | typeName => some { red := 0x8f, green := 0x59, blue := 0x02, bold := true }
  | variableName => some { red := 0x72, green := 0x9f, blue := 0xcf }
  | member => some { red := 0x60, green := 0x98, blue := 0x9a }
  | string => some { red := 0x4e, green := 0x9a, blue := 0x06, bold := true }
  | numeric => some { red := 0xad, green := 0x7f, blue := 0xa8, bold := true }
  | operator => some { red := 204, green := 0, blue := 0, bold := true }
  | punctuation => some { red := 153, green := 153, blue := 153, bold := true }
  | assembly => some { red := 0xc4, green := 0xa0, blue := 0x00 }

/-- A terminal escape sequence that changes how text is shown. -/
def escapeSequence (code : String) : String := "\x1b[" ++ code ++ "m"

/-- A text between the escape sequences of an ink. -/
def Ink.apply (ink : Ink) (text : String) : String :=
  let colour := "38;2;" ++ Nat.repr ink.red ++ ";" ++ Nat.repr ink.green ++ ";" ++
    Nat.repr ink.blue
  let coloured := escapeSequence colour ++ text ++ escapeSequence "39"
  if ink.bold then escapeSequence "1" ++ coloured ++ escapeSequence "0" else coloured

namespace Style

/-- The text alone. -/
def plain : Style := fun _ text => text

/-- The text in the ink of its role, for a terminal. -/
def terminal : Style := fun role text =>
  match role.ink with
  | some ink => ink.apply text
  | none => text

end Style

end SolText
