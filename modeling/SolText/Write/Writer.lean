import SolText.Forest.Walk
import SolText.SourceMap.Range
import SolText.Write.Rules
import SolText.Yul.Rules

/-!
# The writer

Writing a node means writing its pieces one after another, the nodes among them by their own rules.
On the way the writer records where each node lies in the text of the node around it.

* `Writer.write`: the text of a node; ranges are added to those recorded before.
* `Writer.render`: the text alone.
* `Writer.renderRecorded`: the text, and the ranges of all nodes if writing succeeds.
-/

namespace SolText

/-- Rules, and the setting in which they apply. -/
structure Writer extends Setting where
  rules : Rules

/-- A result of writing, beside the ranges recorded up to the end or the failure. -/
abbrev Recording := ExceptT WriteError (StateM RangeMap)

namespace Writer

/-- The writer with the rules of all kinds. -/
def standard (options : Options) : Writer where
  options := options
  yul := .standard options.layout
  rules := standardRules

variable (writer : Writer) (forest : Forest)

/-- The pieces of a node, by the rule of its kind. -/
def pieces (handle : Handle) : Except WriteError (List Piece) := do
  let kind ← ofForest (forest.kind handle)
  match writer.rules.get? kind with
  | some rule => rule writer.toSetting forest handle
  | none => throw (.noRule kind (forest.dump handle))

/-- The length of the range of a node with the given text. -/
def coverOf (handle : Handle) (text : String) : Except WriteError Nat := do
  return coveredLength (← ofForest (forest.kind handle)) text writer.options.terminator

/-- Writes pieces behind the text `done`. A node that has a range keeps it. -/
def writePieces (write : Handle → Recording String) (done : String) :
    List Piece → Recording String
  | [] => return done
  | .absent :: rest => writePieces write done rest
  | .text _ content :: rest => writePieces write (done ++ content) rest
  | .node handle :: rest => do
    let text ← write handle
    let length ← writer.coverOf forest handle text
    modify (·.insertIfNew handle ⟨done.utf8ByteSize, length⟩)
    writePieces write (done ++ text) rest

/-- Writes a node in which others are nested at most `fuel` levels deep. -/
def writeWithin : (fuel : Nat) → Handle → Recording String
  | 0, handle => throw (.endless handle)
  | fuel + 1, handle => do
    writePieces writer forest (writeWithin fuel) "" (← writer.pieces forest handle)

/-- Writing that goes deeper than there are nodes has come back to a node inside itself. -/
def fuel : Nat := forest.size + 1

/-- Writes a node. Every node inside it is recorded with its range in the text around it. -/
def write (handle : Handle) : Recording String := writer.writeWithin forest (fuel forest) handle

/-- Writes pieces one after another. -/
def writeAll (pieces : List Piece) : Recording String :=
  writer.writePieces forest (writer.write forest) "" pieces

/-- The text of a node. -/
def render (handle : Handle) : Except WriteError String := ((writer.write forest handle).run ∅).1

/-- The text of a node, and the ranges of the nodes in it: each relative to the text around it, and
the node itself at the start. They take the place of ranges recorded before; if writing fails,
nothing is recorded. -/
def renderRecorded (handle : Handle) (ranges : RangeMap) : Except WriteError String × RangeMap :=
  match (writer.write forest handle).run ∅ with
  | (.error error, _) => (.error error, ranges)
  | (.ok text, recorded) =>
    match writer.coverOf forest handle text with
    | .error error => (.error error, ranges)
    | .ok length => (.ok text, ranges.insertMany (recorded.insert handle ⟨0, length⟩))

/-- The texts of all nodes under `root`, each written on its own. -/
def fragments (root : Handle) : Except WriteError FragmentMap :=
  (forest.walk root).foldlM
    (fun fragments handle => do return fragments.insert handle (← writer.render forest handle)) ∅

end Writer

end SolText
