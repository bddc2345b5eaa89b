/-
Chains of binary operations. Operands and operators are read as a flat list, which `Chain.tree`
turns into a tree by the precedence of the operators: from left to right, but powers from right to
left.
-/
import ScriptTidy.Grammar.Parsing

namespace ScriptTidy.Grammar

/-- The operators with two operands, those that bind more loosely first. -/
def operatorLevels : List (List String) :=
  [["??"], ["||"], ["&&"], ["|"], ["^"], ["&"], ["==", "!=", "===", "!=="],
    ["<", ">", "<=", ">=", "instanceof", "in"], ["<<", ">>", ">>>"], ["+", "-"], ["*", "/", "%"],
    ["**"]]

/-- How tightly an operator binds. -/
def precedence? (operator : String) : Option Nat :=
  operatorLevels.findIdx? (·.contains operator)

/-- The token is an operator with two operands. -/
def isBinaryOperator (allowIn : Bool) (t : Token) : Bool :=
  (t.kind == .mark || t.kind == .name) && (precedence? t.text).isSome && (allowIn || t.text != "in")

/-- The first operator is applied before the second, which stands to the right of it. -/
def bindsFirst (left right : Token) : Bool :=
  let p := (precedence? left.text).getD 0
  let q := (precedence? right.text).getD 0
  q < p || (p == q && left.text != "**")

/-- An operation with both operands. -/
def binaryNode (left : Cst) (operator : Token) (right : Cst) : Cst :=
  makeNode "binary_expression" left.mark.start right.mark.stop
    [playing "left" left, playing "operator" operator.toCst, playing "right" right]

/-- Left operands with their operators that wait for a right operand, the last one first. -/
abbrev Pending := List (Cst × Token)

namespace Chain

/-- Applies the pending operators that bind before the next one. -/
def apply (next : Token) : Cst → Pending → Cst × Pending
  | operand, [] => (operand, [])
  | operand, (left, operator) :: pending =>
    if bindsFirst operator next then apply next (binaryNode left operator operand) pending
    else (operand, (left, operator) :: pending)

/-- Applies all pending operators. -/
def close : Cst → Pending → Cst
  | operand, [] => operand
  | operand, (left, operator) :: pending => close (binaryNode left operator operand) pending

/-- The tree of an operand, pending operators, and further operators with operands. -/
def tree : Cst → Pending → List (Token × Cst) → Cst
  | operand, pending, [] => close operand pending
  | operand, pending, (operator, next) :: rest =>
    let (left, pending) := apply operator operand pending
    tree next ((left, operator) :: pending) rest

/-- The base of a power is not an operator with its operand. -/
def basesFit : Cst → List (Token × Cst) → Bool
  | _, [] => true
  | operand, (operator, next) :: rest =>
    !(operator.text == "**"
      && (operand.kind == "unary_expression" || operand.kind == "await_expression"))
      && basesFit next rest

/-- The operator that replaces null is not mixed with the other logical ones. -/
def mixFits (rest : List (Token × Cst)) : Bool :=
  !(rest.any (·.1.text == "??") && rest.any fun r => r.1.text == "||" || r.1.text == "&&")

end Chain

end ScriptTidy.Grammar
