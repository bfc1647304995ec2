import SolText.Forest.Dump
import SolText.Forest.Walk
import SolText.SourceMap.Range
import SolText.Text.Bytes

/-!
# Finding ranges in texts

Where every node lies, recovered from nothing but the text of each node. A node is found by searching
for its text in that of its parent. A parent can hold the same text more than once, as `x + x` does,
so the search resumes where the previous sibling ended.

* `locate`: the range of one node, once its parent and its previous sibling have theirs.
* `reconstruct`: the ranges of a whole tree, parents first and siblings in order.
-/

namespace SolText

/-- Why a node has no range. -/
inductive PlacementError where
  /-- The parent has no range yet. -/
  | parentUnplaced (node parent : Handle) (dump : String)
  /-- The previous sibling has no range yet. -/
  | siblingUnplaced (node sibling : Handle) (dump : String)
  /-- The parent's text does not hold the node's text from the given position on. -/
  | notFound (node parent : Handle) (offset : Nat) (dump : String)
  | forest (error : ForestError)
  deriving DecidableEq, Repr

/-- The wording of a complaint about a range. -/
def PlacementError.message : PlacementError → String
  | parentUnplaced node parent dump =>
    "Missing precomputed coordinates for the parent " ++ parent.text ++ " of node " ++ node.text ++
      ":\n" ++ dump
  | siblingUnplaced node sibling dump =>
    "Missing precomputed coordinates for the sibling " ++ sibling.text ++ " of node " ++
      node.text ++ ":\n" ++ dump
  | notFound node parent offset dump =>
    "Fragment of node " ++ node.text ++ " does not occur in its parent " ++ parent.text ++
      " after offset " ++ Nat.repr offset ++ ":\n" ++ dump
  | forest error => error.message

/-- The text of a node. Nodes that write nothing need no entry. -/
def FragmentMap.text (fragments : FragmentMap) (handle : Handle) : String :=
  (fragments[handle]?).getD ""

namespace SourceMap

/-- The length of a node's range, by its text. -/
def lengthOf (terminator : Option Char) (forest : Forest) (fragments : FragmentMap)
    (handle : Handle) : Except PlacementError Nat :=
  match forest.kind handle with
  | .ok kind => .ok (coveredLength kind (fragments.text handle) terminator)
  | .error error => .error (.forest error)

/-- Where in its parent's text the search for a node starts: behind the previous sibling, or at the
start of a parent that begins at `start`. -/
def anchor (forest : Forest) (computed : RangeMap) (handle parent : Handle) (start : Nat) :
    Except PlacementError Nat :=
  match forest.previousSibling handle with
  | none => .ok 0
  | some sibling =>
    match computed[sibling]? with
    | none => .error (.siblingUnplaced handle sibling (forest.dump handle))
    | some previous =>
      if start ≤ previous.stop then .ok (previous.stop - start)
      else .error (.notFound handle parent previous.stop (forest.dump handle))

/-- The range of a node, given those of its parent and its previous sibling. A node without a parent
lies at the start of the text. -/
def locate (terminator : Option Char) (forest : Forest) (fragments : FragmentMap)
    (computed : RangeMap) (handle : Handle) : Except PlacementError Range := do
  let length ← lengthOf terminator forest fragments handle
  match forest.parent handle with
  | none => return ⟨0, length⟩
  | some parent =>
    match computed[parent]? with
    | none => throw (.parentUnplaced handle parent (forest.dump handle))
    | some outer =>
      let offset ← anchor forest computed handle parent outer.offset
      match Text.firstOccurrenceFrom offset (fragments.text handle) (fragments.text parent) with
      | some index => return ⟨outer.offset + offset + index, length⟩
      | none => throw (.notFound handle parent offset (forest.dump handle))

/-- The range of a node of the tree under `root`, in which the root itself begins at zero. -/
def place (terminator : Option Char) (forest : Forest) (root : Handle) (fragments : FragmentMap)
    (computed : RangeMap) (handle : Handle) : Except PlacementError Range :=
  if handle = root then (lengthOf terminator forest fragments handle).map (⟨0, ·⟩)
  else locate terminator forest fragments computed handle

/-- The range of every node under `root`, relative to the start of the root's text. -/
def reconstruct (terminator : Option Char) (forest : Forest) (root : Handle)
    (fragments : FragmentMap) : Except PlacementError RangeMap :=
  (forest.walk root).foldlM
    (fun computed handle => do
      return computed.insert handle (← place terminator forest root fragments computed handle))
    ∅

end SourceMap

end SolText
