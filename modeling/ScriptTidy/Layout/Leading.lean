/-
How the text of an expression begins. An expression that begins with one of a few characters would
be taken as the continuation of the line before it, if that line does not end in a semicolon; and a
sign before an expression that begins with the same sign would be read as one token.
-/
import ScriptTidy.Syntax.Node

namespace ScriptTidy

namespace Node

/-- The node is a name. -/
def isIdentifier (n : Node) : Bool :=
  match n.form with
  | .identifier _ => true
  | _ => false

/-- The parameters are a single name, which an arrow function writes without parentheses. -/
def isSingleName : List Node → Bool
  | [param] => param.isIdentifier
  | _ => false

/-- The character with which the text of an expression begins, if that is no word. -/
def leadingChar : Node → Option Char
  | .mk _ (.parenthesizedExpression _) => some '('
  | .mk _ (.arrayExpression _) => some '['
  | .mk _ (.arrayPattern _) => some '['
  | .mk _ (.objectExpression _) => some '{'
  | .mk _ (.objectPattern _) => some '{'
  | .mk _ (.templateLiteral _ _) => some '\x60'
  | .mk _ (.literal _ raw) => raw.toList.head?
  | .mk _ (.unaryExpression operator _) => operator.toList.head?
  | .mk _ (.updateExpression operator _ true) => operator.toList.head?
  | .mk _ (.arrowFunctionExpression params _ false) =>
    if isSingleName params then none else some '('
  | .mk _ (.binaryExpression _ left _) => left.leadingChar
  | .mk _ (.logicalExpression _ left _) => left.leadingChar
  | .mk _ (.assignmentExpression _ left _) => left.leadingChar
  | .mk _ (.callExpression callee _ _) => callee.leadingChar
  | .mk _ (.taggedTemplateExpression tag _) => tag.leadingChar
  | .mk _ (.memberExpression object _ _ _) => object.leadingChar
  | .mk _ (.conditionalExpression test _ _) => test.leadingChar
  | .mk _ (.updateExpression _ argument false) => argument.leadingChar
  | .mk _ (.sequenceExpression (first :: _)) => first.leadingChar
  | .mk _ _ => none

/-- A statement that begins with this character continues a line without a semicolon. -/
def continuesLine (c : Char) : Bool :=
  c == '(' || c == '[' || c == '\x60' || c == '+' || c == '-' || c == '/'

/-- The statement must be kept apart from the line before it. -/
def needsGuard (n : Node) : Bool :=
  match n.form with
  | .expressionStatement expression => expression.leadingChar.any continuesLine
  | _ => false

end Node

end ScriptTidy
