/-
Strict comparison. A loose comparison becomes a strict one unless an operand is the literal null: a
loose comparison with null matches undefined too, and is meant to.
-/
import ScriptTidy.Syntax.Node

namespace ScriptTidy

/-- The strict form of a loose comparison operator. -/
def strictOperator? (operator : String) : Option String :=
  if operator = "==" then some "==="
  else if operator = "!=" then some "!=="
  else none

namespace Node

/-- The literal null. -/
def isNull (n : Node) : Bool :=
  match n.form with
  | .literal _ raw => raw == "null"
  | _ => false

/-- Makes a single comparison strict. -/
def strictComparison (n : Node) : Node :=
  match n.form with
  | .binaryExpression operator left right =>
    match strictOperator? operator with
    | some strict =>
      if left.isNull || right.isNull then n else n.withForm (.binaryExpression strict left right)
    | none => n
  | _ => n

/-- Makes every comparison strict that is not with null. -/
def exactEquals (root : Node) : Node := root.everywhere strictComparison

end Node

end ScriptTidy
