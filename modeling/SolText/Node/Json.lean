import SolText.Json.Reader
import SolText.Node.Basic

/-!
# The JSON form of nodes

A node is an object whose `nodeType` names its kind, with a member for every field. The order of the
members is free and members of other names are ignored. Fields that hold an optional child may be
missing or null, and four fields have defaults.

A node may also be an array: the name of its kind, then the fields in their order. Nothing is left
out then, but for a default at the end.

* `Node.toJson`: the object form, with every field.
* `Node.toJsonArray`: the array form.
* `Node.ofJson`: the node that either form stands for.
-/

namespace SolText

open Json

namespace Node

/-- The name of the member that names the kind. -/
def kindField : String := "nodeType"

/-- The fields of a kind, in their order. -/
def fieldNames : Kind → List String
  | .sourceUnit => ["nodes"]
  | .pragmaDirective => ["literals"]
  | .contractDefinition => ["name", "contractKind", "nodes"]
  | .functionDefinition =>
    ["name", "visibility", "stateMutability", "parameters", "returnParameters", "body"]
  | .parameterList => ["parameters"]
  | .variableDeclaration => ["name", "typeName", "storageLocation", "value"]
  | .elementaryTypeName => ["name"]
  | .block => ["statements"]
  | .uncheckedBlock => ["statements"]
  | .variableDeclarationStatement => ["declarations", "initialValue"]
  | .expressionStatement => ["expression"]
  | .returnStatement => ["expression"]
  | .ifStatement => ["condition", "trueBody", "falseBody"]
  | .whileStatement => ["condition", "body"]
  | .forStatement => ["initializationExpression", "condition", "loopExpression", "body"]
  | .breakStatement => []
  | .continueStatement => []
  | .emitStatement => ["eventCall"]
  | .inlineAssembly => ["ast"]
  | .identifier => ["name"]
  | .literal => ["kind", "value"]
  | .unaryOperation => ["operator", "prefix", "subExpression"]
  | .binaryOperation => ["operator", "leftExpression", "rightExpression"]
  | .assignment => ["operator", "leftHandSide", "rightHandSide"]
  | .functionCall => ["expression", "arguments"]
  | .memberAccess => ["expression", "memberName"]
  | .indexAccess => ["baseExpression", "indexExpression"]
  | .tupleExpression => ["components", "isInlineArray"]

/-- How many fields with defaults stand at the end of a kind's fields. -/
def trailingDefaults : Kind → Nat
  | .tupleExpression => 1
  | _ => 0

/-! ### Enumerations -/

/-- The names of the kinds of contracts. -/
def contractKinds : List (String × ContractKind) :=
  [("contract", .contract), ("interface", .interface), ("library", .library)]

/-- The names of the visibilities. -/
def visibilities : List (String × Visibility) :=
  [("default", .unspecified), ("external", .externally), ("public", .publicly),
    ("internal", .internally), ("private", .privately)]

/-- The names of the mutabilities. -/
def mutabilities : List (String × Mutability) :=
  [("nonpayable", .nonpayable), ("payable", .payable), ("view", .view), ("pure", .pure)]

/-- The names of the storage locations. -/
def storageLocations : List (String × StorageLocation) :=
  [("default", .unspecified), ("memory", .memory), ("storage", .storage),
    ("calldata", .calldata)]

/-- The names of the kinds of literals. -/
def literalKinds : List (String × LiteralKind) :=
  [("number", .number), ("bool", .bool), ("string", .string), ("hexString", .hexString)]

/-- A choice as its name. -/
def encodeChoice {α : Type} [BEq α] (choices : List (String × α)) (choice : α) : Json :=
  match choices.find? (·.2 == choice) with
  | some (name, _) => .str name
  | none => .null

/-! ### Encoding -/

/-- A list of handles as a value. -/
def encodeHandles (handles : List Handle) : Json := .arr (handles.map ofNat)

/-- A handle that may be absent as a value. -/
def encodeHandle? (handle : Option Handle) : Json := ofOption ofNat handle

/-- The values of a node's fields, in their order. -/
def fieldValues : Node → List Json
  | sourceUnit nodes => [encodeHandles nodes]
  | pragmaDirective literals => [.arr (literals.map .str)]
  | contractDefinition name contractKind nodes =>
    [.str name, encodeChoice contractKinds contractKind, encodeHandles nodes]
  | functionDefinition name visibility mutability parameters returnParameters body =>
    [.str name, encodeChoice visibilities visibility, encodeChoice mutabilities mutability,
      ofNat parameters, ofNat returnParameters, encodeHandle? body]
  | parameterList parameters => [encodeHandles parameters]
  | variableDeclaration name typeName storageLocation value =>
    [.str name, ofNat typeName, encodeChoice storageLocations storageLocation, encodeHandle? value]
  | elementaryTypeName name => [.str name]
  | block statements => [encodeHandles statements]
  | uncheckedBlock statements => [encodeHandles statements]
  | variableDeclarationStatement declarations initialValue =>
    [encodeHandles declarations, encodeHandle? initialValue]
  | expressionStatement expression => [ofNat expression]
  | returnStatement expression => [encodeHandle? expression]
  | ifStatement condition trueBody falseBody =>
    [ofNat condition, ofNat trueBody, encodeHandle? falseBody]
  | whileStatement condition body => [ofNat condition, ofNat body]
  | forStatement initialization condition loop body =>
    [encodeHandle? initialization, encodeHandle? condition, encodeHandle? loop, ofNat body]
  | breakStatement => []
  | continueStatement => []
  | emitStatement eventCall => [ofNat eventCall]
  | inlineAssembly ast => [ast.toJson]
  | identifier name => [.str name]
  | literal kind value => [encodeChoice literalKinds kind, .str value]
  | unaryOperation operator leading operand => [.str operator, .bool leading, ofNat operand]
  | binaryOperation operator left right => [.str operator, ofNat left, ofNat right]
  | assignment operator left right => [.str operator, ofNat left, ofNat right]
  | functionCall callee arguments => [ofNat callee, encodeHandles arguments]
  | memberAccess base member => [ofNat base, .str member]
  | indexAccess base index => [ofNat base, encodeHandle? index]
  | tupleExpression components isInlineArray =>
    [.arr (components.map encodeHandle?), .bool isInlineArray]

/-- The object form of a node. -/
def toJson (node : Node) : Json :=
  .obj ((kindField, .str node.kind.name) :: (fieldNames node.kind).zip node.fieldValues)

/-- The array form of a node. -/
def toJsonArray (node : Node) : Json := .arr (.str node.kind.name :: node.fieldValues)

/-! ### Decoding -/

/-- The kind that a value names. -/
def decodeKind (value : Json) : Except DecodeError Kind := do
  let name ← value.asString
  match Kind.ofName? name with
  | some kind => return kind
  | none => throw (.unknownVariant name)

/-- The node of the given kind with the given fields. -/
def ofFields (fields : Members) : Kind → Except DecodeError Node
  | .sourceUnit => return .sourceUnit (← fields.required "nodes" (asList asNat))
  | .pragmaDirective => return .pragmaDirective (← fields.required "literals" (asList asString))
  | .contractDefinition =>
    return .contractDefinition (← fields.required "name" asString)
      (← fields.required "contractKind" (asChoice contractKinds))
      (← fields.required "nodes" (asList asNat))
  | .functionDefinition =>
    return .functionDefinition (← fields.required "name" asString)
      (← fields.withDefault "visibility" .unspecified (asChoice visibilities))
      (← fields.withDefault "stateMutability" .nonpayable (asChoice mutabilities))
      (← fields.required "parameters" asNat)
      (← fields.required "returnParameters" asNat)
      (← fields.optional "body" asNat)
  | .parameterList => return .parameterList (← fields.required "parameters" (asList asNat))
  | .variableDeclaration =>
    return .variableDeclaration (← fields.required "name" asString)
      (← fields.required "typeName" asNat)
      (← fields.withDefault "storageLocation" .unspecified (asChoice storageLocations))
      (← fields.optional "value" asNat)
  | .elementaryTypeName => return .elementaryTypeName (← fields.required "name" asString)
  | .block => return .block (← fields.required "statements" (asList asNat))
  | .uncheckedBlock => return .uncheckedBlock (← fields.required "statements" (asList asNat))
  | .variableDeclarationStatement =>
    return .variableDeclarationStatement (← fields.required "declarations" (asList asNat))
      (← fields.optional "initialValue" asNat)
  | .expressionStatement => return .expressionStatement (← fields.required "expression" asNat)
  | .returnStatement => return .returnStatement (← fields.optional "expression" asNat)
  | .ifStatement =>
    return .ifStatement (← fields.required "condition" asNat) (← fields.required "trueBody" asNat)
      (← fields.optional "falseBody" asNat)
  | .whileStatement =>
    return .whileStatement (← fields.required "condition" asNat) (← fields.required "body" asNat)
  | .forStatement =>
    return .forStatement (← fields.optional "initializationExpression" asNat)
      (← fields.optional "condition" asNat) (← fields.optional "loopExpression" asNat)
      (← fields.required "body" asNat)
  | .breakStatement => return .breakStatement
  | .continueStatement => return .continueStatement
  | .emitStatement => return .emitStatement (← fields.required "eventCall" asNat)
  | .inlineAssembly => return .inlineAssembly (← fields.required "ast" Yul.Node.ofJson)
  | .identifier => return .identifier (← fields.required "name" asString)
  | .literal =>
    return .literal (← fields.required "kind" (asChoice literalKinds))
      (← fields.required "value" asString)
  | .unaryOperation =>
    return .unaryOperation (← fields.required "operator" asString)
      (← fields.required "prefix" asBool) (← fields.required "subExpression" asNat)
  | .binaryOperation =>
    return .binaryOperation (← fields.required "operator" asString)
      (← fields.required "leftExpression" asNat) (← fields.required "rightExpression" asNat)
  | .assignment =>
    return .assignment (← fields.required "operator" asString)
      (← fields.required "leftHandSide" asNat) (← fields.required "rightHandSide" asNat)
  | .functionCall =>
    return .functionCall (← fields.required "expression" asNat)
      (← fields.required "arguments" (asList asNat))
  | .memberAccess =>
    return .memberAccess (← fields.required "expression" asNat)
      (← fields.required "memberName" asString)
  | .indexAccess =>
    return .indexAccess (← fields.required "baseExpression" asNat)
      (← fields.optional "indexExpression" asNat)
  | .tupleExpression =>
    return .tupleExpression (← fields.required "components" (asList (asOption asNat)))
      (← fields.withDefault "isInlineArray" false asBool)

/-- The values of an array form under the names of the fields. -/
def nameFields (kind : Kind) (values : List Json) : Except DecodeError Members :=
  let names := fieldNames kind
  if names.length ≤ values.length + trailingDefaults kind ∧ values.length ≤ names.length then
    .ok (names.zip values)
  else .error .invalidLength

/-- The node that an object or an array stands for. -/
def ofJson : Json → Except DecodeError Node
  | .obj members => do
    Members.unrepeated [kindField] members
    let kind ← Members.required members kindField decodeKind
    Members.unrepeated (fieldNames kind) members
    ofFields members kind
  | .arr (name :: values) => do
    let kind ← decodeKind name
    ofFields (← nameFields kind values) kind
  | .arr [] => .error (.missingField kindField)
  | _ => .error .invalidType

/-- The node that a text stands for. -/
def read (text : String) : Except DecodeError Node :=
  match Json.read text with
  | some value => ofJson value
  | none => .error .unreadable

end Node

/-- The Yul node that a text stands for. -/
def Yul.Node.read (text : String) : Except DecodeError Yul.Node :=
  match Json.read text with
  | some value => Yul.Node.ofJson value
  | none => .error .unreadable

end SolText
