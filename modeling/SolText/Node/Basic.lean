import SolText.Node.Kind
import SolText.Yul.Node

/-!
# Nodes of a syntax tree

A node holds its own text and refers to its children by handles. The handles in the order of the
fields are the node's children, and that is also the order in which they are written.
-/

namespace SolText

/-- The place of a node in its forest. -/
abbrev Handle := Nat

/-- A handle as it is shown in messages. -/
def Handle.text (handle : Handle) : String := "#" ++ Nat.repr handle

/-- What a contract is. -/
inductive ContractKind where
  | contract
  | interface
  | library
  deriving DecidableEq, Repr

/-- From where a function can be called. -/
inductive Visibility where
  | unspecified
  | externally
  | publicly
  | internally
  | privately
  deriving DecidableEq, Repr

/-- What a function does to the state. -/
inductive Mutability where
  | nonpayable
  | payable
  | view
  | pure
  deriving DecidableEq, Repr

/-- Where a variable lives. -/
inductive StorageLocation where
  | unspecified
  | memory
  | storage
  | calldata
  deriving DecidableEq, Repr

/-- What a literal stands for. -/
inductive LiteralKind where
  | number
  | bool
  | string
  | hexString
  deriving DecidableEq, Repr

/-- A node of a syntax tree. -/
inductive Node where
  | sourceUnit (nodes : List Handle)
  | pragmaDirective (literals : List String)
  | contractDefinition (name : String) (contractKind : ContractKind) (nodes : List Handle)
  | functionDefinition (name : String) (visibility : Visibility) (mutability : Mutability)
      (parameters returnParameters : Handle) (body : Option Handle)
  | parameterList (parameters : List Handle)
  | variableDeclaration (name : String) (typeName : Handle) (storageLocation : StorageLocation)
      (value : Option Handle)
  | elementaryTypeName (name : String)
  | block (statements : List Handle)
  | uncheckedBlock (statements : List Handle)
  | variableDeclarationStatement (declarations : List Handle) (initialValue : Option Handle)
  | expressionStatement (expression : Handle)
  | returnStatement (expression : Option Handle)
  | ifStatement (condition trueBody : Handle) (falseBody : Option Handle)
  | whileStatement (condition body : Handle)
  | forStatement (initialization condition loop : Option Handle) (body : Handle)
  | breakStatement
  | continueStatement
  | emitStatement (eventCall : Handle)
  | inlineAssembly (ast : Yul.Node)
  | identifier (name : String)
  | literal (kind : LiteralKind) (value : String)
  | unaryOperation (operator : String) (leading : Bool) (operand : Handle)
  | binaryOperation (operator : String) (left right : Handle)
  | assignment (operator : String) (left right : Handle)
  | functionCall (callee : Handle) (arguments : List Handle)
  | memberAccess (base : Handle) (member : String)
  | indexAccess (base : Handle) (index : Option Handle)
  | tupleExpression (components : List (Option Handle)) (isInlineArray : Bool)

namespace Node

/-- What a node is. -/
def kind : Node → Kind
  | sourceUnit .. => .sourceUnit
  | pragmaDirective .. => .pragmaDirective
  | contractDefinition .. => .contractDefinition
  | functionDefinition .. => .functionDefinition
  | parameterList .. => .parameterList
  | variableDeclaration .. => .variableDeclaration
  | elementaryTypeName .. => .elementaryTypeName
  | block .. => .block
  | uncheckedBlock .. => .uncheckedBlock
  | variableDeclarationStatement .. => .variableDeclarationStatement
  | expressionStatement .. => .expressionStatement
  | returnStatement .. => .returnStatement
  | ifStatement .. => .ifStatement
  | whileStatement .. => .whileStatement
  | forStatement .. => .forStatement
  | breakStatement => .breakStatement
  | continueStatement => .continueStatement
  | emitStatement .. => .emitStatement
  | inlineAssembly .. => .inlineAssembly
  | identifier .. => .identifier
  | literal .. => .literal
  | unaryOperation .. => .unaryOperation
  | binaryOperation .. => .binaryOperation
  | assignment .. => .assignment
  | functionCall .. => .functionCall
  | memberAccess .. => .memberAccess
  | indexAccess .. => .indexAccess
  | tupleExpression .. => .tupleExpression

/-- The handles of a node's children, in order. -/
def children : Node → List Handle
  | sourceUnit nodes | contractDefinition _ _ nodes => nodes
  | functionDefinition _ _ _ parameters returnParameters body =>
    [parameters, returnParameters] ++ body.toList
  | parameterList parameters => parameters
  | variableDeclaration _ typeName _ value => typeName :: value.toList
  | block statements | uncheckedBlock statements => statements
  | variableDeclarationStatement declarations initialValue => declarations ++ initialValue.toList
  | expressionStatement expression => [expression]
  | returnStatement expression => expression.toList
  | ifStatement condition trueBody falseBody => [condition, trueBody] ++ falseBody.toList
  | whileStatement condition body => [condition, body]
  | forStatement initialization condition loop body =>
    initialization.toList ++ condition.toList ++ loop.toList ++ [body]
  | emitStatement eventCall => [eventCall]
  | unaryOperation _ _ operand => [operand]
  | binaryOperation _ left right | assignment _ left right => [left, right]
  | functionCall callee arguments => callee :: arguments
  | memberAccess base _ => [base]
  | indexAccess base index => base :: index.toList
  | tupleExpression components _ => components.filterMap id
  | pragmaDirective _ | elementaryTypeName _ | breakStatement | continueStatement
  | inlineAssembly _ | identifier _ | literal _ _ => []

end Node

end SolText
