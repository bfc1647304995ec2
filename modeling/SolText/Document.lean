import SolText.Forest.Walk
import SolText.Node.Json

/-!
# Documents

A document is a forest and the node to start writing from. Its file lists the nodes, children before
their parents, and may name the root; otherwise the root is the one node without a parent.

* `Listing`: what a file holds.
* `Document.ofListing`: the document that a listing describes.
-/

namespace SolText

open Json

/-- Nodes that refer to each other by their places in the list, and maybe the place of the root. -/
structure Listing where
  nodes : List Node
  root : Option Handle := none

/-- A forest and the node to start writing from. -/
structure Document where
  forest : Forest
  root : Handle

/-- Why a document could not be made. -/
inductive DocumentError where
  | malformed (error : DecodeError)
  | inconsistent (error : ForestError)
  | invalidRoot (error : ForestError)
  /-- There is not exactly one node without a parent. -/
  | ambiguousRoot (count : Nat)

namespace DocumentError

/-- The heading of a problem with a document. -/
def problem : DocumentError → String
  | malformed _ => "Malformed tree"
  | inconsistent _ => "Inconsistent tree"
  | invalidRoot _ => "Invalid root"
  | ambiguousRoot _ => "Ambiguous root"

/-- What exactly is wrong. -/
def details : DocumentError → String
  | malformed error => error.message
  | inconsistent error | invalidRoot error => error.message
  | ambiguousRoot count => "found " ++ Nat.repr count ++ " parentless nodes"

/-- The wording of a problem with a document. -/
def message (error : DocumentError) : String := error.problem ++ ": " ++ error.details

end DocumentError

namespace Listing

/-- The members of a listing. -/
def fieldNames : List String := ["nodes", "root"]

/-- The listing that an object, or an array of its two members, stands for. -/
def ofJson : Json → Except DecodeError Listing
  | .obj members => do
    Members.unrepeated fieldNames members
    let nodes ← Members.required members "nodes" (asList Node.ofJson)
    let root ← Members.optional members "root" asNat
    return ⟨nodes, root⟩
  | .arr [nodes, root] => do return ⟨← asList Node.ofJson nodes, ← asOption asNat root⟩
  | .arr (_ :: _ :: _ :: _) => .error .surplusItems
  | .arr _ => .error .invalidLength
  | _ => .error .invalidType

/-- The listing that a text stands for. Members that a listing does not have are skimmed. -/
def read (text : String) : Except DecodeError Listing :=
  match Json.readMembersOf fieldNames.contains text with
  | some value => ofJson value
  | none => .error .unreadable

end Listing

namespace Document

/-- The root of a forest: the named node, which has to be known, or else the one node without a
parent. -/
def chooseRoot (forest : Forest) : Option Handle → Except DocumentError Handle
  | some root =>
    match forest.node root with
    | .ok _ => .ok root
    | .error error => .error (.invalidRoot error)
  | none =>
    match forest.roots with
    | [root] => .ok root
    | roots => .error (.ambiguousRoot roots.length)

/-- The document that a listing describes. -/
def ofListing (listing : Listing) : Except DocumentError Document :=
  match Forest.ofNodes listing.nodes with
  | .ok forest => do return ⟨forest, ← chooseRoot forest listing.root⟩
  | .error error => .error (.inconsistent error)

/-- The document that a text describes. -/
def read (text : String) : Except DocumentError Document :=
  match Listing.read text with
  | .ok listing => ofListing listing
  | .error error => .error (.malformed error)

end Document

end SolText
