import SolText.Text.Quoted
import SolText.Yul.Node

/-!
# Problems with Yul nodes
-/

namespace SolText.Yul

/-- Why a Yul node could not be written. -/
inductive Error where
  /-- There is no rule for the tag. -/
  | noRule (tag dump : String)
  /-- An attribute is missing or of the wrong type. -/
  | badAttribute (tag field dump : String)
  /-- A rule writes a node by way of nodes that are not nested in it. -/
  | endless (tag dump : String)
  deriving DecidableEq, Repr

/-- The wording of a problem with a Yul node. -/
def Error.message : Error → String
  | noRule tag dump => "Unable to find writer for " ++ tag ++ " node:\n" ++ dump
  | badAttribute tag field dump =>
    tag ++ " node lacks a usable " ++ Text.quote field ++ " attribute:\n" ++ dump
  | endless tag dump => "Writing a " ++ tag ++ " node never ends:\n" ++ dump

namespace Node

/-- The complaint about an attribute of a node. -/
def badAttribute (node : Node) (field : String) : Error := .badAttribute node.tag field node.dump

/-- The value of an attribute, unless it is missing or null. -/
def value? (node : Node) (field : String) : Option Json :=
  match node.attributes.get? field with
  | some .null => none
  | value => value

/-- Whether an attribute is there and not null. -/
def has (node : Node) (field : String) : Bool := (node.value? field).isSome

/-- An attribute that has to be a string. -/
def text (node : Node) (field : String) : Except Error String :=
  match node.attributes.get? field with
  | some (.str text) => .ok text
  | _ => .error (node.badAttribute field)

/-- An attribute that may hold a node. -/
def child? (node : Node) (field : String) : Except Error (Option Node) :=
  match node.value? field with
  | none => .ok none
  | some value =>
    match ofJson value with
    | .ok child => .ok (some child)
    | .error _ => .error (node.badAttribute field)

/-- An attribute that has to hold a node. -/
def child (node : Node) (field : String) : Except Error Node := do
  match ← node.child? field with
  | some child => return child
  | none => throw (node.badAttribute field)

/-- An attribute that holds a list of nodes; a missing list is empty. -/
def children (node : Node) (field : String) : Except Error (List Node) :=
  match node.value? field with
  | none => .ok []
  | some value =>
    match value.asList ofJson with
    | .ok children => .ok children
    | .error _ => .error (node.badAttribute field)

end Node

end SolText.Yul
