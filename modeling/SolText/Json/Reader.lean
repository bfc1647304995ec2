import SolText.Json.Basic
import SolText.Text.Numeral

/-!
# Reading JSON text

The grammar is the strict one: no comments, no trailing commas, no bare names. A text is read whole:
only blanks may stand around the value. Arrays and objects may be nested `maxDepth` deep.

A value that nobody asks for is only *skimmed*: it has to follow the grammar, but it may be nested
as deep as it likes, escape half of a surrogate pair, and hold numbers of any size.

* `read`: the value that a text holds.
* `readMembersOf`: likewise, skimming over the members of the outermost object that are not wanted.
-/

namespace SolText.Json

open Text

/-- How many arrays and objects may be open at once. -/
def maxDepth : Nat := 127

/-- The blanks that may stand between the parts of a JSON text. -/
def isBlank (c : Char) : Bool := c == ' ' || c == '\t' || c == '\n' || c == '\r'

/-- The text after its leading blanks. -/
def skipBlanks (text : List Char) : List Char := text.dropWhile isBlank

/-! ### Strings -/

/-- The value of four hexadecimal digits. -/
def codeUnit? (a b c d : Char) : Option Nat := do
  return ((← hexDigitValue? a) * 16 + (← hexDigitValue? b)) * 256 +
    (← hexDigitValue? c) * 16 + (← hexDigitValue? d)

/-- The first half of a surrogate pair. -/
def isHighSurrogate (unit : Nat) : Bool := 0xd800 ≤ unit && unit < 0xdc00

/-- The second half of a surrogate pair. -/
def isLowSurrogate (unit : Nat) : Bool := 0xdc00 ≤ unit && unit < 0xe000

/-- The character that a backslash and `c` stand for. -/
def shortEscape? (c : Char) : Option Char :=
  match c with
  | '"' => some '"'
  | '\\' => some '\\'
  | '/' => some '/'
  | 'b' => some '\x08'
  | 'f' => some '\x0c'
  | 'n' => some '\n'
  | 'r' => some '\r'
  | 't' => some '\t'
  | _ => none

/-- The rest of a string after its opening quote, with the text behind the closing quote. What has
been read so far is in `done`, last character first. -/
def readString (skim : Bool) (done : List Char) : List Char → Option (String × List Char)
  | [] => none
  | '"' :: rest => some (String.ofList done.reverse, rest)
  | '\\' :: 'u' :: a :: b :: c :: d :: rest =>
    match codeUnit? a b c d with
    | none => none
    | some unit =>
      if skim then readString skim done rest
      else if isHighSurrogate unit then
        match rest with
        | '\\' :: 'u' :: a' :: b' :: c' :: d' :: rest' =>
          match codeUnit? a' b' c' d' with
          | none => none
          | some low =>
            if isLowSurrogate low then
              let c := Char.ofNat (0x10000 + (unit - 0xd800) * 0x400 + (low - 0xdc00))
              readString skim (c :: done) rest'
            else none
        | _ => none
      else if isLowSurrogate unit then none
      else readString skim (Char.ofNat unit :: done) rest
  | '\\' :: c :: rest =>
    match shortEscape? c with
    | none => none
    | some c => readString skim (c :: done) rest
  | c :: rest => if c.toNat < 0x20 || c = '\\' then none else readString skim (c :: done) rest

/-! ### Numbers -/

/-- The whole numbers that are kept as such: the signed and the unsigned 64-bit words. -/
def isWord (value : Int) : Bool := -9223372036854775808 ≤ value && value ≤ maxWord

/-- One or more digits, and the text behind them. -/
def takeDigits (text : List Char) : Option (List Char × List Char) :=
  let digits := text.takeWhile Char.isDigit
  if digits.isEmpty then none else some (digits, text.dropWhile Char.isDigit)

/-- The whole part of a number: no zero stands in front of another digit. -/
def takeWhole : List Char → Option (List Char × List Char)
  | '0' :: rest => some (['0'], rest)
  | text => takeDigits text

/-- The digits behind the point, none if there is no point. -/
def takeFraction : List Char → Option (Option (List Char) × List Char)
  | '.' :: rest => (takeDigits rest).map fun (digits, rest) => (some digits, rest)
  | text => some (none, text)

/-- The value of the exponent, none if there is no exponent. -/
def takeExponent : List Char → Option (Option Int × List Char)
  | c :: rest =>
    if c = 'e' || c = 'E' then
      match rest with
      | '-' :: rest =>
        (takeDigits rest).map fun (digits, rest) => (some (-(decimalValue digits : Int)), rest)
      | '+' :: rest =>
        (takeDigits rest).map fun (digits, rest) => (some (decimalValue digits : Int), rest)
      | rest =>
        (takeDigits rest).map fun (digits, rest) => (some (decimalValue digits : Int), rest)
    else some (none, c :: rest)
  | [] => some (none, [])

/-- The value of the digits that continue `value` without exceeding a word, and the digits from the
first one on that would exceed it. -/
def gather (value : Nat) : List Char → Nat × List Char
  | [] => (value, [])
  | c :: rest =>
    let next := value * 10 + digitValue c
    if next ≤ maxWord then gather next rest else (value, c :: rest)

/-- The floating magnitude with the given parts, if it is in range. Its digits count up to a word:
those of the whole part that do not fit only move the point, and those of the fraction are left
out. -/
def magnitudeOfParts? (whole fraction : List Char) (exponent : Int) : Option Binary := do
  let (value, uncounted) := gather 0 whole
  let (value, ignored) := gather value fraction
  let places : Int := (fraction.length : Int) - ignored.length
  (← Binary.ofRatio? value 1).scaledByTen? (exponent + uncounted.length - places)

/-- The number with the given parts. It is whole if it has neither point nor exponent and is a word;
minus zero floats. -/
def numberOfParts (negative : Bool) (whole : List Char) (fraction : Option (List Char))
    (exponent : Option Int) : Option Number :=
  let value : Int := if negative then -(decimalValue whole : Int) else decimalValue whole
  if fraction.isNone && exponent.isNone && isWord value && !(negative && value == 0) then
    some (.whole value)
  else
    (magnitudeOfParts? whole (fraction.getD []) (exponent.getD 0)).map (.floating negative)

/-- A number behind its sign. -/
def readUnsigned (skim negative : Bool) (text : List Char) : Option (Json × List Char) := do
  let (whole, text) ← takeWhole text
  let (fraction, text) ← takeFraction text
  let (exponent, text) ← takeExponent text
  if skim then return (.null, text)
  return (.num (← numberOfParts negative whole fraction exponent), text)

/-- A number. -/
def readNumber (skim : Bool) : List Char → Option (Json × List Char)
  | '-' :: text => readUnsigned skim true text
  | text => readUnsigned skim false text

/-! ### Values -/

/-- What stands for one of the three words of the grammar. -/
def readWordValue (text : List Char) : Option (Json × List Char) :=
  match text with
  | 'n' :: 'u' :: 'l' :: 'l' :: rest => some (.null, rest)
  | 't' :: 'r' :: 'u' :: 'e' :: rest => some (.bool true, rest)
  | 'f' :: 'a' :: 'l' :: 's' :: 'e' :: rest => some (.bool false, rest)
  | _ => none

mutual
/-- A value, with `depth` levels of nesting left. Only wanted members of the outermost object are
kept. Every step takes one unit of `fuel`. -/
def readValue (skim : Bool) (wanted : String → Bool) (depth : Nat) (fuel : Nat) (text : List Char) :
    Option (Json × List Char) :=
  match fuel with
  | 0 => none
  | fuel + 1 =>
    match skipBlanks text with
    | '[' :: rest =>
      match depth with
      | 0 => none
      | depth + 1 =>
        match skipBlanks rest with
        | ']' :: rest => some (.arr [], rest)
        | rest => readItems skim depth [] fuel rest
    | '\x7b' :: rest =>
      match depth with
      | 0 => none
      | depth + 1 =>
        match skipBlanks rest with
        | '\x7d' :: rest => some (.obj [], rest)
        | rest => readMembers skim wanted depth [] fuel rest
    | '"' :: rest => (readString skim [] rest).map fun (text, rest) => (.str text, rest)
    | c :: rest =>
      if c = '-' || c.isDigit then readNumber skim (c :: rest) else readWordValue (c :: rest)
    | [] => none

/-- The items of an array up to its closing bracket. -/
def readItems (skim : Bool) (depth : Nat) (done : List Json) (fuel : Nat) (text : List Char) :
    Option (Json × List Char) :=
  match fuel with
  | 0 => none
  | fuel + 1 =>
    match readValue skim (fun _ => true) depth fuel text with
    | none => none
    | some (item, rest) =>
      match skipBlanks rest with
      | ',' :: rest => readItems skim depth (item :: done) fuel rest
      | ']' :: rest => some (.arr (item :: done).reverse, rest)
      | _ => none

/-- The members of an object up to its closing brace. -/
def readMembers (skim : Bool) (wanted : String → Bool) (depth : Nat) (done : Members) (fuel : Nat)
    (text : List Char) : Option (Json × List Char) :=
  match fuel with
  | 0 => none
  | fuel + 1 =>
    match skipBlanks text with
    | '"' :: rest =>
      match readString skim [] rest with
      | none => none
      | some (name, rest) =>
        match skipBlanks rest with
        | ':' :: rest =>
          let keep := wanted name
          let levels := if keep then depth else rest.length
          match readValue (skim || !keep) (fun _ => true) levels fuel rest with
          | none => none
          | some (value, rest) =>
            let done := if keep then (name, value) :: done else done
            match skipBlanks rest with
            | ',' :: rest => readMembers skim wanted depth done fuel rest
            | '\x7d' :: rest => some (.obj done.reverse, rest)
            | _ => none
        | _ => none
    | _ => none
end

/-- The value that a text holds, in which only the wanted members of the outermost object are kept
and the others are skimmed. -/
def readMembersOf (wanted : String → Bool) (text : String) : Option Json :=
  let chars := text.toList
  match readValue false wanted maxDepth (2 * chars.length + 2) chars with
  | some (value, rest) => if (skipBlanks rest).isEmpty then some value else none
  | none => none

/-- The value that a text holds. -/
def read (text : String) : Option Json := readMembersOf (fun _ => true) text

end SolText.Json
