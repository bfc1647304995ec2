import SolText.Node.Keyword
import SolText.Text.Quoted

/-!
# Summaries of nodes

What diagnostics say of a node beside its kind: the attributes that tell it apart.
-/

namespace SolText

open Text

/-- The name of a kind of literal in summaries. -/
def LiteralKind.title : LiteralKind → String
  | number => "Number"
  | bool => "Bool"
  | string => "String"
  | hexString => "HexString"

/-- The attributes that tell a node apart, if it has any. -/
def Node.summary : Node → Option String
  | pragmaDirective literals => some ("literals: " ++ quoteList literals)
  | contractDefinition name contractKind _ =>
    some ("name: " ++ quote name ++ ", kind: " ++ contractKind.keyword)
  | functionDefinition name .. | variableDeclaration name .. | elementaryTypeName name
  | identifier name => some ("name: " ++ quote name)
  | literal kind value => some ("kind: " ++ kind.title ++ ", value: " ++ quote value)
  | unaryOperation operator .. | binaryOperation operator .. | assignment operator .. =>
    some ("operator: " ++ quote operator)
  | memberAccess _ member => some ("member: " ++ quote member)
  | inlineAssembly ast => some ("ast: " ++ ast.tag)
  | _ => none

end SolText
