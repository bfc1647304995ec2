/-!
# Kinds of nodes

The twenty-eight kinds of nodes of a syntax tree, by their names in the compiler's output.

* `Kind.isStatement`: kinds whose range stops short of a closing terminator.
* `Kind.isScope`: kinds whose members are written one level further in.
-/

namespace SolText

/-- What a node is. -/
inductive Kind where
  | sourceUnit
  | pragmaDirective
  | contractDefinition
  | functionDefinition
  | parameterList
  | variableDeclaration
  | elementaryTypeName
  | block
  | uncheckedBlock
  | variableDeclarationStatement
  | expressionStatement
  | returnStatement
  | ifStatement
  | whileStatement
  | forStatement
  | breakStatement
  | continueStatement
  | emitStatement
  | inlineAssembly
  | identifier
  | literal
  | unaryOperation
  | binaryOperation
  | assignment
  | functionCall
  | memberAccess
  | indexAccess
  | tupleExpression
  deriving DecidableEq, Repr

namespace Kind

/-- All kinds, in the order of their declaration. -/
def all : List Kind := [
  sourceUnit, pragmaDirective, contractDefinition, functionDefinition, parameterList,
  variableDeclaration, elementaryTypeName, block, uncheckedBlock, variableDeclarationStatement,
  expressionStatement, returnStatement, ifStatement, whileStatement, forStatement, breakStatement,
  continueStatement, emitStatement, inlineAssembly, identifier, literal, unaryOperation,
  binaryOperation, assignment, functionCall, memberAccess, indexAccess, tupleExpression]

/-- The name of a kind. -/
def name : Kind → String
  | sourceUnit => "SourceUnit"
  | pragmaDirective => "PragmaDirective"
  | contractDefinition => "ContractDefinition"
  | functionDefinition => "FunctionDefinition"
  | parameterList => "ParameterList"
  | variableDeclaration => "VariableDeclaration"
  | elementaryTypeName => "ElementaryTypeName"
  | block => "Block"
  | uncheckedBlock => "UncheckedBlock"
  | variableDeclarationStatement => "VariableDeclarationStatement"
  | expressionStatement => "ExpressionStatement"
  | returnStatement => "Return"
  | ifStatement => "IfStatement"
  | whileStatement => "WhileStatement"
  | forStatement => "ForStatement"
  | breakStatement => "Break"
  | continueStatement => "Continue"
  | emitStatement => "EmitStatement"
  | inlineAssembly => "InlineAssembly"
  | identifier => "Identifier"
  | literal => "Literal"
  | unaryOperation => "UnaryOperation"
  | binaryOperation => "BinaryOperation"
  | assignment => "Assignment"
  | functionCall => "FunctionCall"
  | memberAccess => "MemberAccess"
  | indexAccess => "IndexAccess"
  | tupleExpression => "TupleExpression"

/-- The kind of the given name. -/
def ofName? (name : String) : Option Kind := all.find? (·.name == name)

/-- Whether nodes of this kind are statements. -/
def isStatement : Kind → Bool
  | block | uncheckedBlock | variableDeclarationStatement | expressionStatement | returnStatement
  | ifStatement | whileStatement | forStatement | breakStatement | continueStatement
  | emitStatement | inlineAssembly => true
  | _ => false

/-- Whether the members of nodes of this kind are written one level further in. -/
def isScope : Kind → Bool
  | contractDefinition | block | uncheckedBlock => true
  | _ => false

theorem mem_all (kind : Kind) : kind ∈ all := by cases kind <;> decide

/-- Every kind is found by its name. -/
theorem ofName?_name (kind : Kind) : ofName? kind.name = some kind := by cases kind <;> decide

end Kind

end SolText
