import SolText.Text.Literal
import SolText.Yul.Writer

/-!
# The rules of the assembly dialect

One rule for each of the sixteen tags of the compiler's output.
-/

namespace SolText.Yul

namespace Rule

variable (layout : Layout) (render : Render) (node : Node) (depth : Nat)

/-- Statements one a line inside braces. -/
def block : Except Error String := do
  let statements ← node.children "statements"
  if statements.isEmpty then return "\x7b\x7d"
  let lines ← statements.mapM fun statement => do
    return layout.margin (depth + 1) ++ (← render statement (depth + 1)) ++ layout.newline
  return "\x7b" ++ layout.newline ++ String.join lines ++ layout.margin depth ++ "\x7d"

/-- A literal is a number unless it says otherwise. A string whose bytes are no text has only its
hexadecimal form. -/
def literal : Except Error String := do
  let kind ← if node.has "kind" then node.text "kind" else pure "number"
  if kind = "string" && !node.has "value" then
    return "hex\"" ++ (← node.text "hexValue") ++ "\""
  let value ← node.text "value"
  return if kind = "string" then "\"" ++ Text.escape value ++ "\"" else value

/-- A name. -/
def identifier : Except Error String := node.text "name"

/-- A name, with its type if it has one. -/
def typedName : Except Error String := do
  let name ← node.text "name"
  match node.text "type" with
  | .ok type => return if type.isEmpty then name else name ++ ":" ++ type
  | .error _ => return name

/-- A call. -/
def functionCall : Except Error String := do
  let function ← render (← node.child "functionName") depth
  let arguments ← renderJoined render (← node.children "arguments") depth ", "
  return function ++ "(" ++ arguments ++ ")"

/-- A declaration of variables, with their value if they have one. -/
def variableDeclaration : Except Error String := do
  let names ← renderJoined render (← node.children "variables") depth ", "
  match ← node.child? "value" with
  | some value => return "let " ++ names ++ " := " ++ (← render value depth)
  | none => return "let " ++ names

/-- An assignment to variables. -/
def assignment : Except Error String := do
  let names ← renderJoined render (← node.children "variableNames") depth ", "
  let value ← render (← node.child "value") depth
  return names ++ " := " ++ value

/-- An expression that stands alone. -/
def expressionStatement : Except Error String := do render (← node.child "expression") depth

/-- A conditional. -/
def ifStatement : Except Error String := do
  let condition ← render (← node.child "condition") depth
  let body ← render (← node.child "body") depth
  return "if " ++ condition ++ " " ++ body

/-- A switch: each case on a line of its own, level with the keyword. -/
def switch : Except Error String := do
  let expression ← render (← node.child "expression") depth
  let cases ← (← node.children "cases").mapM fun case => do
    return layout.newline ++ layout.margin depth ++ (← render case depth)
  return "switch " ++ expression ++ String.join cases

/-- A case of a switch; the value `default` stands for all others. -/
def switchCase : Except Error String := do
  let body ← render (← node.child "body") depth
  match node.attributes.get? "value" with
  | some (.str "default") => return "default " ++ body
  | _ => return "case " ++ (← render (← node.child "value") depth) ++ " " ++ body

/-- A loop. -/
def forLoop : Except Error String := do
  let pre ← render (← node.child "pre") depth
  let condition ← render (← node.child "condition") depth
  let post ← render (← node.child "post") depth
  let body ← render (← node.child "body") depth
  return "for " ++ pre ++ " " ++ condition ++ " " ++ post ++ " " ++ body

/-- A function, with the variables that it returns if there are any. -/
def functionDefinition : Except Error String := do
  let name ← node.text "name"
  let parameters ← renderJoined render (← node.children "parameters") depth ", "
  let returns ← node.children "returnVariables"
  let body ← render (← node.child "body") depth
  let head := "function " ++ name ++ "(" ++ parameters ++ ")"
  if returns.isEmpty then return head ++ " " ++ body
  return head ++ " -> " ++ (← renderJoined render returns depth ", ") ++ " " ++ body

end Rule

/-- The rules of all tags. -/
def standardRules : Table String Rule := .ofList [
  ("YulBlock", fun layout render node depth => Rule.block layout render node depth),
  ("YulLiteral", fun _ _ node _ => Rule.literal node),
  ("YulIdentifier", fun _ _ node _ => Rule.identifier node),
  ("YulTypedName", fun _ _ node _ => Rule.typedName node),
  ("YulFunctionCall", fun _ render node depth => Rule.functionCall render node depth),
  ("YulVariableDeclaration", fun _ render node depth => Rule.variableDeclaration render node depth),
  ("YulAssignment", fun _ render node depth => Rule.assignment render node depth),
  ("YulExpressionStatement", fun _ render node depth => Rule.expressionStatement render node depth),
  ("YulIf", fun _ render node depth => Rule.ifStatement render node depth),
  ("YulSwitch", fun layout render node depth => Rule.switch layout render node depth),
  ("YulCase", fun _ render node depth => Rule.switchCase render node depth),
  ("YulForLoop", fun _ render node depth => Rule.forLoop render node depth),
  ("YulFunctionDefinition", fun _ render node depth => Rule.functionDefinition render node depth),
  ("YulBreak", fun _ _ _ _ => .ok "break"),
  ("YulContinue", fun _ _ _ _ => .ok "continue"),
  ("YulLeave", fun _ _ _ _ => .ok "leave")]

/-- The writer with the rules of all tags. -/
def Writer.standard (layout : Layout) : Writer := ⟨standardRules, layout⟩

end SolText.Yul
