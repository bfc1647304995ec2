import SolText.Json.Decode
import SolText.Json.Printer

/-!
# Yul nodes

A node of the assembly dialect is a tag and named attributes. The attributes are plain JSON values,
nested nodes included, and are kept in canonical form: in increasing order of their names, each
name once.

* `Yul.Node.ofJson` and `Yul.Node.toJson`: a node as an object whose `nodeType` is the tag.
* `Yul.Node.set`: an attribute added or replaced.
-/

namespace SolText.Yul

open Json

/-- Named JSON values in canonical form. -/
structure Attributes where
  members : Members := []
  canonical : isCanonical (.obj members) := by decide

namespace Attributes

/-- The attributes that remain of arbitrary members when of equal names the last counts. -/
def ofMembers (members : Members) : Attributes where
  members := canonicalMembers members
  canonical := isCanonical_canonical (.obj members)

/-- The value of an attribute. -/
def get? (attributes : Attributes) (name : String) : Option Json := attributes.members.lookup name

/-- The attributes with one of them added or replaced. -/
def set (attributes : Attributes) (name : String) (value : Json) : Attributes where
  members := setMember name (Json.canonical value) attributes.members
  canonical := by
    have h := attributes.canonical
    simp only [isCanonical, Bool.and_eq_true, decide_eq_true_eq] at h ⊢
    exact ⟨increasing_setMember h.1, haveCanonical_setMember (isCanonical_canonical value) h.2⟩

end Attributes

/-- A node of the assembly dialect. -/
structure Node where
  tag : String
  attributes : Attributes := {}

namespace Node

/-- The name under which an object holds the tag. -/
def tagField : String := "nodeType"

/-- The node that an object stands for. -/
def ofJson : Json → Except DecodeError Node
  | .obj members => do
    Members.unrepeated [tagField] members
    let tag ← Members.required members tagField asString
    return ⟨tag, .ofMembers (members.filter (·.1 != tagField))⟩
  | _ => .error .invalidType

/-- The tag and the attributes of a node as an object. -/
def toJson (node : Node) : Json := .obj ((tagField, .str node.tag) :: node.attributes.members)

/-- The node with an attribute added or replaced. The attribute `nodeType` is not the tag. -/
def set (node : Node) (name : String) (value : Json) : Node :=
  { node with attributes := node.attributes.set name value }

/-- The node as it is shown in diagnostics. -/
def dump (node : Node) : String := node.toJson.pretty

/-- How many levels of arrays and objects a node has. -/
def height (node : Node) : Nat := node.toJson.height

end Node

end SolText.Yul
