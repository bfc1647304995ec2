import SolText.Text.Numeral

/-!
# The inside of a string literal

A value between double quotes: quotes, backslashes and control characters are escaped, every other
character stands for itself.
-/

namespace SolText.Text

/-- The ASCII control characters: U+0000 to U+001F, and U+007F. -/
def isAsciiControl (c : Char) : Bool := c.toNat < 0x20 || c.toNat == 0x7f

/-- The control characters beyond ASCII: U+0080 to U+009F. -/
def isWideControl (c : Char) : Bool := 0x80 ≤ c.toNat && c.toNat ≤ 0x9f

/-- One character as it is spelled in a string literal. -/
def escapeChar (c : Char) : List Char :=
  if c = '"' then ['\\', '"']
  else if c = '\\' then ['\\', '\\']
  else if c = '\n' then ['\\', 'n']
  else if c = '\r' then ['\\', 'r']
  else if c = '\t' then ['\\', 't']
  else if isAsciiControl c then '\\' :: 'x' :: (hexadecimal 2 c.toNat).toList
  else if isWideControl c then '\\' :: 'u' :: (hexadecimal 4 c.toNat).toList
  else [c]

/-- The control characters. -/
def isControl (c : Char) : Bool := isAsciiControl c || isWideControl c

/-- The characters that cannot stand for themselves in a string literal. -/
def needsEscape (c : Char) : Bool := c = '"' || c = '\\' || isControl c

/-- A value with each of its characters spelled as in a string literal. -/
def spell (value : String) : String := String.ofList (value.toList.flatMap escapeChar)

/-- A value as it is spelled between the quotes of a string literal. One without characters that need
an escape is left as it is. -/
def escape (value : String) : String :=
  if value.toList.any needsEscape then spell value else value

end SolText.Text
