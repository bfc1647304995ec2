import Std.Data.TreeMap
import SolText.Node.Basic

/-!
# Ranges

Where the text of a node lies in a longer text, in bytes.

* `coveredLength`: how many bytes of its text a node covers.
-/

namespace SolText

/-- A stretch of text, in bytes. -/
structure Range where
  offset : Nat
  length : Nat
  deriving DecidableEq, Repr

namespace Range

/-- The position behind a range. -/
def stop (range : Range) : Nat := range.offset + range.length

/-- Whether one range lies within another. -/
def contains (outer inner : Range) : Bool :=
  outer.offset ≤ inner.offset && inner.stop ≤ outer.stop

/-- Ranges are ordered by their offsets, then by their lengths. -/
def compare (a b : Range) : Ordering :=
  (Ord.compare a.offset b.offset).then (Ord.compare a.length b.length)

end Range

/-- The ranges of nodes. -/
abbrev RangeMap := Std.TreeMap Handle Range

/-- The texts of nodes, each written on its own. -/
abbrev FragmentMap := Std.TreeMap Handle String

/-- How many bytes of its text a node covers. A statement stops short of its terminator, if its text
ends with one. -/
def coveredLength (kind : Kind) (text : String) (terminator : Option Char) : Nat :=
  match terminator with
  | some c =>
    if kind.isStatement && text.toList.getLast? == some c then text.utf8ByteSize - c.utf8Size
    else text.utf8ByteSize
  | none => text.utf8ByteSize

end SolText
