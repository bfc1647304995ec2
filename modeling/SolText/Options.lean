import SolText.Json.Decode
import SolText.Json.Reader
import SolText.Layout
import SolText.Version

/-!
# Options

The settings of a writer, and the JSON object that holds them in a configuration file. Every setting
may be left out of the file, and then has its default. No terminator and a terminator left out are
different things: the first is written `null`.
-/

namespace SolText

/-- The settings of a writer. -/
structure Options where
  layout : Layout := {}
  /-- The character that the range of a statement stops short of. -/
  terminator : Option Char := some ';'
  /-- The version of the compiler that has to accept what is written. -/
  target : Version := { major := 0, minor := 8, patch := 30 }
  deriving DecidableEq

namespace Options

open Json

/-- The settings of a writer that was told nothing. -/
def defaults : Options := {}

/-- The settings of a configuration file. -/
def fieldNames : List String := ["indent", "newline", "terminator", "target"]

/-- A number of spaces. -/
def decodeWidth (value : Json) : Except DecodeError UInt8 := do
  let width ← value.asNat
  if width < 256 then return UInt8.ofNat width else throw .invalidValue

/-- An indentation: `"tabs"`, or an object that holds a number of spaces. -/
def decodeIndent : Json → Except DecodeError Indent
  | .obj [("spaces", width)] => (decodeWidth width).map .spaces
  | .str "spaces" => .error .invalidType
  | value => value.asChoice [("tabs", .tabs)]

/-- A text of exactly one character. -/
def decodeChar (value : Json) : Except DecodeError Char := do
  match (← value.asString).toList with
  | [c] => return c
  | _ => throw .invalidValue

/-- A version in its text form. -/
def decodeVersion (value : Json) : Except DecodeError Version := do
  match Version.parse (← value.asString) with
  | some version => return version
  | none => throw .invalidVersion

/-- Options from the value of a configuration file. -/
def ofJson : Json → Except DecodeError Options
  | .obj members => do
    Members.unrepeated fieldNames members
    let indent ← Members.withDefault members "indent" defaults.layout.indent decodeIndent
    let newline ← Members.withDefault members "newline" defaults.layout.newline asString
    let terminator ← Members.withDefault members "terminator" defaults.terminator
      (asOption decodeChar)
    let target ← Members.withDefault members "target" defaults.target decodeVersion
    return ⟨⟨indent, newline⟩, terminator, target⟩
  | _ => .error .invalidType

/-- An indentation as a value. -/
def encodeIndent : Indent → Json
  | .spaces width => .obj [("spaces", ofNat width.toNat)]
  | .tabs => .str "tabs"

/-- Options as the value of a configuration file, with every setting. -/
def toJson (options : Options) : Json :=
  .obj [
    ("indent", encodeIndent options.layout.indent),
    ("newline", .str options.layout.newline),
    ("terminator", ofOption (fun c : Char => .str c.toString) options.terminator),
    ("target", .str options.target.text)]

/-- Options from the text of a configuration file. -/
def read (text : String) : Except DecodeError Options :=
  match Json.read text with
  | some value => ofJson value
  | none => .error .unreadable

end Options

end SolText
