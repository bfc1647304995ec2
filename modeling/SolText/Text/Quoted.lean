import SolText.Text.Hidden
import SolText.Text.Numeral

/-!
# Quoted text in diagnostics

A text between double quotes in which every character can be told apart: the usual escapes, and
`\u` with the code point in braces for characters that are not shown as themselves.
-/

namespace SolText.Text

/-- One character of quoted text. -/
def quoteChar (c : Char) : String :=
  if c = '"' then "\\\""
  else if c = '\\' then "\\\\"
  else if c = '\n' then "\\n"
  else if c = '\r' then "\\r"
  else if c = '\t' then "\\t"
  else if c.toNat = 0 then "\\0"
  else if isHidden c then "\\u\x7b" ++ hexadecimal 1 c.toNat ++ "\x7d"
  else c.toString

/-- A text in double quotes. -/
def quote (text : String) : String :=
  "\"" ++ String.join (text.toList.map quoteChar) ++ "\""

/-- Several texts in double quotes, separated by commas, in square brackets. -/
def quoteList (texts : List String) : String :=
  "[" ++ ", ".intercalate (texts.map quote) ++ "]"

end SolText.Text
