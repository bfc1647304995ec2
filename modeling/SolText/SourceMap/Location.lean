import SolText.SourceMap.Range
import SolText.Text.Numeral
import SolText.Text.Quoted
import SolText.Text.Split

/-!
# Source locations

A range in the compiler's notation `start:length:source`, where the index of the source is `-1` when
there is none.
-/

namespace SolText

open Text

/-- A range in one of several sources. -/
structure Location where
  offset : Nat
  length : Nat
  source : Option Nat
  deriving DecidableEq, Repr

/-- The text of an invalid location. -/
structure LocationError where
  text : String
  deriving DecidableEq, Repr

/-- The wording of a complaint about a location. -/
def LocationError.message (error : LocationError) : String :=
  "Invalid source location " ++ quote error.text ++ ", expected start:length:sourceIndex"

namespace Location

/-- A location in the compiler's notation. -/
def text (location : Location) : String :=
  Nat.repr location.offset ++ ":" ++ Nat.repr location.length ++ ":" ++
    (match location.source with
    | some index => Nat.repr index
    | none => "-1")

/-- The index of a source, or `-1` for none. -/
def parseSource (part : List Char) : Option (Option Nat) :=
  if part = ['-', '1'] then some none else (readWord part).map some

/-- The location of the given notation, if it is one. -/
def parse? (text : List Char) : Option Location :=
  match splitAll ':' text with
  | [offset, length, source] => do
    return ⟨← readWord offset, ← readWord length, ← parseSource source⟩
  | _ => none

/-- The location of the given notation. -/
def parse (text : String) : Except LocationError Location :=
  match parse? text.toList with
  | some location => .ok location
  | none => .error ⟨text⟩

end Location

/-- A range in the source of the given index. -/
def Range.location (range : Range) (source : Option Nat) : Location :=
  ⟨range.offset, range.length, source⟩

end SolText
