import SolText.Json.Basic
import SolText.Number.Decimal
import SolText.Text.Numeral

/-!
# Writing JSON text

Members stand in their order.

* `compact`: no blanks at all.
* `pretty`: one item or member a line, two more spaces for every level.
-/

namespace SolText

namespace Json

/-- One character of a JSON string. -/
def escapeChar (c : Char) : String :=
  if c = '"' then "\\\""
  else if c = '\\' then "\\\\"
  else if c = '\x08' then "\\b"
  else if c = '\x0c' then "\\f"
  else if c = '\n' then "\\n"
  else if c = '\r' then "\\r"
  else if c = '\t' then "\\t"
  else if c.toNat < 0x20 then "\\u" ++ Text.hexadecimal 4 c.toNat
  else c.toString

/-- A text as a JSON string. -/
def quote (text : String) : String :=
  "\"" ++ String.join (text.toList.map escapeChar) ++ "\""

/-- A decimal as text: positional while the point lies between five places before the first digit
and sixteen behind it, with a signed exponent beyond. A whole number ends in `.0`. -/
def decimalText (decimal : Decimal) : String :=
  let digits := Nat.toDigits 10 decimal.digits
  let point : Int := digits.length + decimal.exponent
  String.ofList <|
    if 0 ≤ decimal.exponent ∧ point ≤ 16 then
      digits ++ List.replicate decimal.exponent.toNat '0' ++ ['.', '0']
    else if 0 < point ∧ point ≤ 16 then
      digits.take point.toNat ++ '.' :: digits.drop point.toNat
    else if -5 < point ∧ point ≤ 0 then
      '0' :: '.' :: List.replicate (-point).toNat '0' ++ digits
    else
      let fraction := digits.drop 1
      digits.take 1 ++ (if fraction.isEmpty then [] else '.' :: fraction) ++
        'e' :: (if 0 < point then ['+'] else []) ++ (Int.repr (point - 1)).toList

/-- A number as JSON text. -/
def numberText : Number → String
  | .whole value => Int.repr value
  | .floating negative magnitude => (if negative then "-" else "") ++ decimalText magnitude.shortest

mutual
/-- JSON text without blanks. -/
def compact : Json → String
  | .null => "null"
  | .bool true => "true"
  | .bool false => "false"
  | .num value => numberText value
  | .str value => quote value
  | .arr items => "[" ++ compactItems items ++ "]"
  | .obj members => "\x7b" ++ compactMembers members ++ "\x7d"

/-- The items of an array, separated by commas. -/
def compactItems : List Json → String
  | [] => ""
  | [item] => compact item
  | item :: rest => compact item ++ "," ++ compactItems rest

/-- The members of an object, separated by commas. -/
def compactMembers : Members → String
  | [] => ""
  | [(name, value)] => quote name ++ ":" ++ compact value
  | (name, value) :: rest => quote name ++ ":" ++ compact value ++ "," ++ compactMembers rest
end

/-- A new line at the given level. -/
def prettyBreak (level : Nat) : String := "\n" ++ String.ofList (List.replicate (2 * level) ' ')

mutual
/-- JSON text with a line for every item and member; the value starts at the given level. -/
def prettyAt (level : Nat) : Json → String
  | .arr [] => "[]"
  | .arr items => "[" ++ prettyItems (level + 1) items ++ prettyBreak level ++ "]"
  | .obj [] => "\x7b\x7d"
  | .obj members => "\x7b" ++ prettyMembers (level + 1) members ++ prettyBreak level ++ "\x7d"
  | .null => "null"
  | .bool true => "true"
  | .bool false => "false"
  | .num value => numberText value
  | .str value => quote value

/-- The items of an array, each on a line of its own. -/
def prettyItems (level : Nat) : List Json → String
  | [] => ""
  | [item] => prettyBreak level ++ prettyAt level item
  | item :: rest => prettyBreak level ++ prettyAt level item ++ "," ++ prettyItems level rest

/-- The members of an object, each on a line of its own. -/
def prettyMembers (level : Nat) : Members → String
  | [] => ""
  | [(name, value)] => prettyBreak level ++ quote name ++ ": " ++ prettyAt level value
  | (name, value) :: rest =>
    prettyBreak level ++ quote name ++ ": " ++ prettyAt level value ++ "," ++
      prettyMembers level rest
end

/-- JSON text with a line for every item and member. -/
def pretty (value : Json) : String := prettyAt 0 value

end Json

end SolText
