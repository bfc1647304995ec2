/-!
# Numerals

Reading decimal numerals with an upper bound, and writing hexadecimal ones with a least number of
digits.
-/

namespace SolText.Text

/-- The greatest value of a position, a length or an index: the largest 64-bit word. -/
def maxWord : Nat := 18446744073709551615

/-- The value of an ASCII digit. -/
def digitValue (c : Char) : Nat := c.toNat - '0'.toNat

/-- The value of a sequence of ASCII digits. -/
def decimalValue (digits : List Char) : Nat :=
  digits.foldl (fun value c => value * 10 + digitValue c) 0

/-- A non-empty sequence of ASCII digits, leading zeros allowed, of a value up to `maxWord`. -/
def readDigits (text : List Char) : Option Nat :=
  if !text.isEmpty && text.all Char.isDigit && decimalValue text ≤ maxWord then
    some (decimalValue text)
  else none

/-- Digits as `readDigits` takes them, after at most one plus sign. -/
def readWord : List Char → Option Nat
  | '+' :: digits => readDigits digits
  | digits => readDigits digits

/-- The lower-case hexadecimal digits of `n`, padded with zeros to at least `width`. -/
def hexadecimal (width n : Nat) : String :=
  let digits := Nat.toDigits 16 n
  String.ofList (List.replicate (width - digits.length) '0' ++ digits)

/-- The value of a hexadecimal digit in either case. -/
def hexDigitValue? (c : Char) : Option Nat :=
  let n := c.toNat
  if c.isDigit then some (digitValue c)
  else if 'a'.toNat ≤ n ∧ n ≤ 'f'.toNat then some (n - 'a'.toNat + 10)
  else if 'A'.toNat ≤ n ∧ n ≤ 'F'.toNat then some (n - 'A'.toNat + 10)
  else none

end SolText.Text
