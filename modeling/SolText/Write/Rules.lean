import SolText.Forest.Dump
import SolText.Node.Keyword
import SolText.Text.Literal
import SolText.Write.Piece

/-!
# The rules of the language

How each of the twenty-eight kinds of nodes is written.

* `Node.pieces`: the pieces of a node, by its kind.
* `standardRules`: the rules of all kinds. The rule of one kind refuses the nodes of the others.
-/

namespace SolText

namespace Piece

/-- A word of the language. -/
def keyword (content : String) : Piece := .text .keyword content

/-- Brackets, commas and the like. -/
def punctuation (content : String) : Piece := .text .punctuation content

/-- A blank between words. -/
def space : Piece := .text .neutral " "

/-- An operator, with its blanks. -/
def operator (content : String) : Piece := .text .operator content

/-- The end of a line. -/
def newline (layout : Layout) : Piece := .text .newline layout.newline

/-- The start of a line that is `depth` levels in. -/
def margin (layout : Layout) (depth : Nat) : Piece := .text .indent (layout.margin depth)

/-- A keyword behind a blank, if there is one. -/
def spaced : Option String → List Piece
  | some word => [space, keyword word]
  | none => []

/-- A node, or what stands for it if there is none. -/
def maybeNode : Option Handle → List Piece
  | some handle => [.node handle]
  | none => [.absent]

/-- Nodes with commas between them. -/
def commaSeparated (handles : List Handle) : List Piece :=
  (handles.map Piece.node).intersperse (punctuation ", ")

/-- Statements one a line inside braces, each a level deeper than the closing brace. -/
def braced (layout : Layout) (depth : Nat) (statements : List Handle) : List Piece :=
  if statements.isEmpty then [punctuation "\x7b\x7d"]
  else
    [punctuation "\x7b", newline layout] ++
      statements.flatMap
        (fun statement => [margin layout (depth + 1), .node statement, newline layout]) ++
      [margin layout depth, punctuation "\x7d"]

end Piece

open Piece

/-- A literal as it is spelled. -/
def LiteralKind.piece (value : String) : LiteralKind → Piece
  | number => .text .numeric value
  | bool => .text .keyword value
  | string => .text .string ("\"" ++ Text.escape value ++ "\"")
  | hexString => .text .string ("hex\"" ++ value ++ "\"")

/-- Whether a node is the last part of the header of a `for` loop, where the closing bracket takes
the place of a terminator. -/
def Forest.endsLoopHeader (forest : Forest) (handle : Handle) : Bool :=
  match (forest.parent handle).bind forest.node? with
  | some (.forStatement _ _ (some loop) _) => loop == handle
  | _ => false

/-- Whether a list of returned values is written. An empty one is in the tree all the same. -/
def Forest.writesReturns (forest : Forest) (handle : Handle) : Except ForestError Bool := do
  match ← forest.node handle with
  | .parameterList [] => return false
  | _ => return true

/-- A result in a forest as a result of writing. -/
def ofForest {α : Type} (result : Except ForestError α) : Except WriteError α :=
  result.mapError .forest

/-- A member of a contract. Members stand one a line with a blank line between them, and a state
variable brings its terminator: the same node is also used for parameters. -/
def memberPieces (layout : Layout) (forest : Forest) (depth : Nat) (handle : Handle) :
    Except WriteError (List Piece) := do
  let kind ← ofForest (forest.kind handle)
  return [newline layout, margin layout (depth + 1), .node handle] ++
    (if kind = .variableDeclaration then [punctuation ";"] else [])

/-- The pieces of a node that has the given handle. -/
def Node.pieces (setting : Setting) (forest : Forest) (handle : Handle) :
    Node → Except WriteError (List Piece)
  | sourceUnit nodes =>
    let layout := setting.options.layout
    return [newline layout, newline layout].intercalate (nodes.map ([.node ·]))
  | pragmaDirective literals =>
    -- the first literal names the pragma, the others are joined to its value
    let words := match literals with
      | [] => []
      | [name] => [space, .text .pragma name]
      | name :: value => [space, .text .pragma name, space, .text .pragma (String.join value)]
    return keyword "pragma" :: words ++ [punctuation ";"]
  | contractDefinition name contractKind nodes => do
    let layout := setting.options.layout
    let depth := forest.nesting handle
    let head := [keyword contractKind.keyword, space, .text .declaration name, space]
    if nodes.isEmpty then return head ++ [punctuation "\x7b\x7d"]
    let members ← nodes.mapM (memberPieces layout forest depth)
    return head ++ [punctuation "\x7b"] ++ [newline layout].intercalate members ++
      [newline layout, margin layout depth, punctuation "\x7d"]
  | functionDefinition name visibility mutability parameters returnParameters body => do
    let returns ← ofForest (forest.writesReturns returnParameters)
    return [keyword "function", space, .text .declaration name, punctuation "(",
        .node parameters, punctuation ")"] ++
      spaced visibility.keyword? ++ spaced mutability.keyword? ++
      (if returns then
        [space, keyword "returns", space, punctuation "(", .node returnParameters, punctuation ")"]
      else [.absent]) ++
      (match body with
      | some body => [space, .node body]
      | none => [punctuation ";"])
  | parameterList parameters => return commaSeparated parameters
  | variableDeclaration name typeName storageLocation value =>
    return [.node typeName] ++ spaced storageLocation.keyword? ++
      (if name.isEmpty then [] else [space, .text .variableName name]) ++
      (match value with
      | some value => [operator " = ", .node value]
      | none => [])
  | elementaryTypeName name => return [.text .typeName name]
  | block statements =>
    return braced setting.options.layout (forest.nesting handle) statements
  | uncheckedBlock statements =>
    let target := setting.options.target
    if target.reaches 0 8 0 then
      return [keyword "unchecked", space] ++
        braced setting.options.layout (forest.nesting handle) statements
    else .error (.unavailable .uncheckedBlock target (forest.dump handle))
  | variableDeclarationStatement declarations initialValue =>
    return (match declarations with
      | [declaration] => [.node declaration]
      | declarations => [punctuation "("] ++ commaSeparated declarations ++ [punctuation ")"]) ++
      (match initialValue with
      | some value => [operator " = ", .node value]
      | none => []) ++
      [punctuation ";"]
  | expressionStatement expression =>
    return [.node expression] ++
      (if forest.endsLoopHeader handle then [] else [punctuation ";"])
  | returnStatement expression =>
    return [keyword "return"] ++
      (match expression with
      | some expression => [space, .node expression]
      | none => []) ++
      [punctuation ";"]
  | ifStatement condition trueBody falseBody =>
    return [keyword "if", space, punctuation "(", .node condition, punctuation ")", space,
        .node trueBody] ++
      (match falseBody with
      | some falseBody => [space, keyword "else", space, .node falseBody]
      | none => [])
  | whileStatement condition body =>
    return [keyword "while", space, punctuation "(", .node condition, punctuation ")", space,
      .node body]
  | forStatement initialization condition loop body =>
    -- the initialization is a statement and brings its own terminator
    return [keyword "for", space, punctuation "("] ++
      (match initialization with
      | some initialization => [.node initialization]
      | none => [punctuation ";"]) ++
      (match condition with
      | some condition => [space, .node condition]
      | none => []) ++
      [punctuation ";"] ++
      (match loop with
      | some loop => [space, .node loop]
      | none => []) ++
      [punctuation ")", space, .node body]
  | breakStatement => return [keyword "break", punctuation ";"]
  | continueStatement => return [keyword "continue", punctuation ";"]
  | emitStatement eventCall =>
    -- before 0.4.21 events were fired by calling them
    return (if setting.options.target.reaches 0 4 21 then [keyword "emit", space] else []) ++
      [.node eventCall, punctuation ";"]
  | inlineAssembly ast => do
    let code ← (setting.yul.renderAtDepth ast (forest.nesting handle)).mapError .yul
    return [keyword "assembly", space, .text .assembly code]
  | identifier name => return [.text .variableName name]
  | literal kind value => return [kind.piece value]
  | unaryOperation symbol leading operand =>
    if leading then
      -- words such as `delete` are kept apart from their operands
      return [operator symbol] ++ (if symbol.toList.all Char.isAlpha then [space] else []) ++
        [.node operand]
    else return [.node operand, operator symbol]
  | binaryOperation symbol left right | assignment symbol left right =>
    return [.node left, operator (" " ++ symbol ++ " "), .node right]
  | functionCall callee arguments =>
    return [.node callee, punctuation "("] ++ commaSeparated arguments ++ [punctuation ")"]
  | memberAccess base member => return [.node base, punctuation ".", .text .member member]
  | indexAccess base index =>
    return [.node base, punctuation "["] ++ maybeNode index ++ [punctuation "]"]
  | tupleExpression components isInlineArray =>
    let (opening, closing) := if isInlineArray then ("[", "]") else ("(", ")")
    return [punctuation opening] ++
      [punctuation ", "].intercalate (components.map maybeNode) ++ [punctuation closing]

/-- The rule of one kind. -/
def standardRule (kind : Kind) : Rule := fun setting forest handle => do
  let node ← ofForest (forest.node handle)
  if node.kind = kind then node.pieces setting forest handle
  else throw (.wrongKind kind node.kind (forest.dump handle))

/-- The rules of all kinds. -/
def standardRules : Rules := .ofList (Kind.all.map fun kind => (kind, standardRule kind))

end SolText
