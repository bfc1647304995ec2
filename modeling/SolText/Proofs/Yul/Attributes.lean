import SolText.Proofs.Json.Canonical
import SolText.Proofs.Yul.Parallel

/-!
# What the rules read

A rule reads some of the attributes of its node and leaves the others alone. Which ones it reads depends
on the tag, and for a literal on its kind. The nodes in them have fewer levels than the node around them.

* `Yul.Shape`: what an attribute is to hold, and `Yul.Shape.fits`: whether a value is of that kind.
* `Yul.Node.reads`: the attributes that the rule of a node reads.
* `Yul.Node.provides`: whether a node has what an attribute is to hold.
* `Yul.Node.nested`: the nodes in the attributes that are read.
* `Yul.Node.height_lt_of_mem_nodesAt`: **a nested node has fewer levels.**
-/

namespace SolText

namespace Json

/-- Whether a value is an object with a tag. -/
def isNode : Json → Bool
  | .obj members =>
    match members.lookup Yul.Node.tagField with
    | some (.str _) => true
    | _ => false
  | _ => false

end Json

namespace Yul

open Json

/-! ### Attributes -/

/-- What an attribute is to hold. -/
inductive Shape where
  | text
  | node
  | nodes
  /-- A node, or the text `default`. -/
  | nodeOrDefault
  deriving DecidableEq, Repr

/-- Whether a value is what an attribute is to hold. -/
def Shape.fits : Shape → Json → Bool
  | .text, .str _ => true
  | .node, value => value.isNode
  | .nodes, .arr items => items.all isNode
  | .nodeOrDefault, .str name => name = "default"
  | .nodeOrDefault, value => value.isNode
  | _, _ => false

/-- The nodes in the value of an attribute. A list that holds anything else has none. -/
def Shape.nodesIn : Shape → Json → List Node
  | .text, _ => []
  | .node, value | .nodeOrDefault, value => (Node.ofJson value).toOption.toList
  | .nodes, value => (value.asList Node.ofJson).toOption.getD []

/-- An attribute that a rule reads. Unless it is required it may be missing or null. -/
structure Slot where
  name : String
  shape : Shape
  required : Bool
  deriving DecidableEq, Repr

namespace Node

/-- Whether a literal says that it is a string. -/
def saysString (node : Node) : Bool :=
  match node.value? "kind" with
  | some (.str kind) => kind = "string"
  | _ => false

/-- The attributes that the rule of literals reads. Its hexadecimal form stands in for the value of a
string. -/
def literalSlots (node : Node) : List Slot :=
  ⟨"kind", .text, false⟩ :: if node.saysString && !node.has "value" then
    [⟨"value", .text, false⟩, ⟨"hexValue", .text, true⟩]
  else [⟨"value", .text, true⟩]

/-- The attributes that the rule of a tag reads. -/
def readsAs (tag : String) (node : Node) : List Slot :=
  match tag with
  | "YulBlock" => [⟨"statements", .nodes, false⟩]
  | "YulLiteral" => node.literalSlots
  | "YulIdentifier" => [⟨"name", .text, true⟩]
  | "YulTypedName" => [⟨"name", .text, true⟩, ⟨"type", .text, false⟩]
  | "YulFunctionCall" => [⟨"functionName", .node, true⟩, ⟨"arguments", .nodes, false⟩]
  | "YulVariableDeclaration" => [⟨"variables", .nodes, false⟩, ⟨"value", .node, false⟩]
  | "YulAssignment" => [⟨"variableNames", .nodes, false⟩, ⟨"value", .node, true⟩]
  | "YulExpressionStatement" => [⟨"expression", .node, true⟩]
  | "YulIf" => [⟨"condition", .node, true⟩, ⟨"body", .node, true⟩]
  | "YulSwitch" => [⟨"expression", .node, true⟩, ⟨"cases", .nodes, false⟩]
  | "YulCase" => [⟨"body", .node, true⟩, ⟨"value", .nodeOrDefault, true⟩]
  | "YulForLoop" =>
    [⟨"pre", .node, true⟩, ⟨"condition", .node, true⟩, ⟨"post", .node, true⟩, ⟨"body", .node, true⟩]
  | "YulFunctionDefinition" =>
    [⟨"name", .text, true⟩, ⟨"parameters", .nodes, false⟩, ⟨"returnVariables", .nodes, false⟩,
      ⟨"body", .node, true⟩]
  | _ => []

/-- The attributes that the rule of a node reads. -/
def reads (node : Node) : List Slot := node.readsAs node.tag

/-- Whether a node has what an attribute is to hold. -/
def provides (node : Node) (slot : Slot) : Bool :=
  match node.value? slot.name with
  | some value => slot.shape.fits value
  | none => !slot.required

/-- The nodes in an attribute. -/
def nodesAt (node : Node) (slot : Slot) : List Node :=
  match node.value? slot.name with
  | some value => slot.shape.nodesIn value
  | none => []

/-- The nodes in the attributes that the rule of a node reads. -/
def nested (node : Node) : List Node := node.reads.flatMap node.nodesAt

end Node

/-! ### Levels -/

end Yul

namespace Json

theorem height_le_heightItems {item : Json} {items : List Json} (h : item ∈ items) :
    height item ≤ heightItems items := by
  induction items with
  | nil => exact absurd h List.not_mem_nil
  | cons first rest ih =>
    rw [heightItems]
    rcases List.mem_cons.1 h with rfl | h
    · exact Nat.le_max_left _ _
    · exact Nat.le_trans (ih h) (Nat.le_max_right _ _)

theorem heightMembers_le_iff {members : Members} {bound : Nat} :
    heightMembers members ≤ bound ↔ ∀ member ∈ members, height member.2 ≤ bound := by
  induction members with
  | nil => simp [heightMembers]
  | cons member rest ih =>
    rw [heightMembers, Nat.max_le, ih, List.forall_mem_cons]

mutual
/-- The canonical form has no more levels than the value. -/
theorem height_canonical_le : ∀ value : Json, height (canonical value) ≤ height value
  | .null | .bool _ | .num _ | .str _ => Nat.le_refl _
  | .arr items => Nat.succ_le_succ (heightItems_canonicalItems_le items)
  | .obj members => Nat.succ_le_succ (heightMembers_canonicalMembers_le members)

theorem heightItems_canonicalItems_le : ∀ items : List Json,
    heightItems (canonicalItems items) ≤ heightItems items
  | [] => Nat.le_refl _
  | item :: rest => by
    have hitem := height_canonical_le item
    have hrest := heightItems_canonicalItems_le rest
    rw [canonicalItems, heightItems, heightItems]
    omega

theorem heightMembers_canonicalMembers_le : ∀ members : Members,
    heightMembers (canonicalMembers members) ≤ heightMembers members
  | [] => Nat.le_refl _
  | (name, value) :: rest => by
    have hvalue := height_canonical_le value
    have hrest := heightMembers_le_iff.1 (heightMembers_canonicalMembers_le rest)
    rw [canonicalMembers, heightMembers_le_iff, heightMembers]
    intro member hmember
    rcases mem_setMissing hmember with rfl | hmember
    · exact Nat.le_trans hvalue (Nat.le_max_left _ _)
    · exact Nat.le_trans (hrest member hmember) (Nat.le_max_right _ _)
end

end Json

namespace Yul.Node

open Json

variable {node child : Node} {value : Json} {field : String} {slot : Slot}

theorem mem_members_of_value? (h : node.value? field = some value) :
    (field, value) ∈ node.attributes.members := by
  obtain ⟨before, after, hmembers, -⟩ := List.lookup_eq_some_iff.1 (get?_of_value? h)
  exact hmembers ▸ List.mem_append_right _ List.mem_cons_self

theorem height_lt_of_value? (h : node.value? field = some value) : value.height < node.height := by
  have hle := heightMembers_le_iff.1 (Nat.le_refl (heightMembers node.attributes.members)) _
    (mem_members_of_value? h)
  have hnode : heightMembers node.attributes.members < node.height := by
    show _ < max 0 (heightMembers node.attributes.members) + 1
    omega
  exact Nat.lt_of_le_of_lt hle hnode

theorem height_le_of_ofJson (h : ofJson value = .ok child) : child.height ≤ value.height := by
  cases value with
  | obj members =>
    unfold ofJson at h
    obtain ⟨-, -, h⟩ := bind_eq_ok_iff.1 h
    obtain ⟨tag, -, h⟩ := bind_eq_ok_iff.1 h
    cases h
    show max 0 (heightMembers (canonicalMembers (members.filter _))) + 1 ≤ heightMembers members + 1
    have hkept : heightMembers (members.filter (·.1 != tagField)) ≤ heightMembers members := by
      rw [heightMembers_le_iff]
      intro member hmember
      exact heightMembers_le_iff.1 (Nat.le_refl _) member (List.mem_filter.1 hmember).1
    have hcanonical := heightMembers_canonicalMembers_le (members.filter (·.1 != tagField))
    omega
  | _ => cases h

theorem height_le_of_mem_nodesIn {shape : Shape} (h : child ∈ shape.nodesIn value) :
    child.height ≤ value.height := by
  have hone : child ∈ (ofJson value).toOption.toList → child.height ≤ value.height := by
    intro h
    cases hread : ofJson value with
    | error e =>
      rw [hread] at h
      exact absurd h List.not_mem_nil
    | ok found =>
      rw [hread] at h
      rw [List.mem_singleton.1 h]
      exact height_le_of_ofJson hread
  cases shape with
  | text => exact absurd h List.not_mem_nil
  | node => exact hone h
  | nodeOrDefault => exact hone h
  | nodes =>
    cases value with
    | arr items =>
      change child ∈ (items.mapM ofJson).toOption.getD [] at h
      cases hread : items.mapM ofJson with
      | error e =>
        rw [hread] at h
        exact absurd h List.not_mem_nil
      | ok found =>
        rw [hread] at h
        obtain ⟨item, hitem, hchild⟩ := exists_of_mem_mapM hread h
        have hle := Nat.le_trans (height_le_of_ofJson hchild) (height_le_heightItems hitem)
        exact Nat.le_succ_of_le hle
    | _ => exact absurd h List.not_mem_nil

/-- **A nested node has fewer levels** than the node around it. -/
theorem height_lt_of_mem_nodesAt (h : child ∈ node.nodesAt slot) : child.height < node.height := by
  unfold nodesAt at h
  split at h
  · rename_i value hvalue
    exact Nat.lt_of_le_of_lt (height_le_of_mem_nodesIn h) (height_lt_of_value? hvalue)
  · exact absurd h List.not_mem_nil

/-! ### Reading -/

theorem nodesAt_of_child? {required : Bool} {found : Option Node} (h : node.child? field = .ok found) :
    node.nodesAt ⟨field, .node, required⟩ = found.toList := by
  unfold child? at h
  unfold nodesAt
  split at h
  · rename_i hnone
    cases h
    rw [hnone]
    rfl
  · rename_i value hvalue
    rw [hvalue]
    show (ofJson value).toOption.toList = _
    split at h
    · rename_i child hchild
      cases h
      rw [hchild]
      rfl
    · cases h

theorem child_eq_ok_iff : node.child field = .ok child ↔ node.child? field = .ok (some child) := by
  unfold Node.child
  rw [bind_eq_ok_iff]
  constructor
  · rintro ⟨found, hfound, h⟩
    cases found with
    | none => cases h
    | some found =>
      cases h
      exact hfound
  · intro h
    exact ⟨some child, h, rfl⟩

theorem nodesAt_of_child {required : Bool} (h : node.child field = .ok child) :
    node.nodesAt ⟨field, .node, required⟩ = [child] :=
  nodesAt_of_child? (child_eq_ok_iff.1 h)

theorem nodesAt_of_children {required : Bool} {children : List Node}
    (h : node.children field = .ok children) :
    node.nodesAt ⟨field, .nodes, required⟩ = children := by
  unfold Node.children at h
  unfold nodesAt
  split at h
  · rename_i hnone
    cases h
    rw [hnone]
  · rename_i value hvalue
    rw [hvalue]
    show (value.asList ofJson).toOption.getD [] = _
    split at h
    · rename_i found hfound
      cases h
      rw [hfound]
      rfl
    · cases h

@[simp] theorem nodesAt_text {required : Bool} : node.nodesAt ⟨field, .text, required⟩ = [] := by
  unfold nodesAt
  split
  · rfl
  · rfl

theorem height_lt_of_child (h : node.child field = .ok child) : child.height < node.height := by
  have hmem : child ∈ node.nodesAt ⟨field, .node, true⟩ := by
    rw [nodesAt_of_child h]
    exact List.mem_singleton_self child
  exact height_lt_of_mem_nodesAt hmem

theorem height_lt_of_children {children : List Node} (h : node.children field = .ok children)
    (hchild : child ∈ children) : child.height < node.height := by
  have hmem : child ∈ node.nodesAt ⟨field, .nodes, true⟩ := by
    rwa [nodesAt_of_children h]
  exact height_lt_of_mem_nodesAt hmem

/-! ### Literals -/

/-- The kind of a literal. -/
def kind (node : Node) : Except Error String :=
  if node.has "kind" then node.text "kind" else pure "number"

theorem saysString_of_kind {kind : String} (h : node.kind = .ok kind) :
    node.saysString = decide (kind = "string") := by
  unfold Node.kind has Node.text value? at h
  unfold saysString value?
  cases hvalue : node.attributes.get? "kind" with
  | none =>
    rw [hvalue] at h
    cases h
    rfl
  | some value =>
    rw [hvalue] at h
    cases value with
    | null | str found =>
      cases h
      rfl
    | _ => cases h

theorem literal_eq (node : Node) :
    Rule.literal node = node.kind >>= fun kind =>
      if (decide (kind = "string") && !node.has "value") = true then do
        return "hex\"" ++ (← node.text "hexValue") ++ "\""
      else do
        let value ← node.text "value"
        return if kind = "string" then "\"" ++ Text.escape value ++ "\"" else value := by
  unfold Rule.literal kind
  split
  · rfl
  · rfl

end Yul.Node

end SolText
