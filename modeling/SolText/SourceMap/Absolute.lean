import SolText.SourceMap.Search
import SolText.Text.Numeral

/-!
# From relative to absolute ranges

While a tree is written, each node's range is known relative to the start of its parent. Adding up
the offsets on the way from the root gives its place in the whole text.

* `absoluteBy`: the ranges in the whole text, for any way to add two offsets.
* `absoluteInWords`: with sums of words, as they are computed.
* `absolute`: with exact sums. They are the same for a text whose length is a word.
-/

namespace SolText.SourceMap

/-- The sum of two words of 64 bits. A sum beyond the greatest word starts again from zero. -/
def addWords (first second : Nat) : Nat := (first + second) % (Text.maxWord + 1)

/-- One step on the way down: a range is placed by that of the parent. Nodes without a range are left
out, but a node with a range needs a parent with one. -/
def addUp (add : Nat → Nat → Nat) (forest : Forest) (root : Handle) (relative placed : RangeMap)
    (handle : Handle) : Except PlacementError RangeMap :=
  match relative[handle]? with
  | none => .ok placed
  | some range =>
    if handle = root then .ok (placed.insert handle range)
    else
      match forest.parent handle with
      | none => .error (.forest (.unknown handle))
      | some parent =>
        match placed[parent]? with
        | none => .error (.parentUnplaced handle parent (forest.dump handle))
        | some outer => .ok (placed.insert handle ⟨add outer.offset range.offset, range.length⟩)

/-- The ranges of the nodes under `root` relative to the start of the root, given each relative to
the start of the parent. -/
def absoluteBy (add : Nat → Nat → Nat) (forest : Forest) (root : Handle) (relative : RangeMap) :
    Except PlacementError RangeMap :=
  (forest.walk root).foldlM (addUp add forest root relative) ∅

/-- The ranges relative to the start of the root, with offsets held in words. -/
def absoluteInWords : Forest → Handle → RangeMap → Except PlacementError RangeMap :=
  absoluteBy addWords

/-- The ranges relative to the start of the root, with offsets of any size. -/
def absolute : Forest → Handle → RangeMap → Except PlacementError RangeMap := absoluteBy Nat.add

end SolText.SourceMap
