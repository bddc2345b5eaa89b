/-
Giving every comment to one node. A node in an owning position may hold comments: the members of a
program, a block or a class body, the cases of a switch and their statements, the declaration in the
head of a loop, and the members of array and object literals. A container may also hold comments
before its closing bracket.

`associate` walks the tree with the pending comments in the order of their starts. A node takes
those that end before it starts; on the way out it takes those that start before it ends, a
container as trailing comments. `settle` then moves the comments of nodes that own none up to the
nearest owner. `attach` does both and checks that nothing is left astray.
-/
import ScriptTidy.Syntax.Walk

namespace ScriptTidy

/-! ## Owners and containers -/

namespace Form

variable {α : Type}

/-- The closing bracket of the node can have comments before it. -/
def isContainer : Form α → Bool
  | .program .. | .blockStatement .. | .classBody .. | .switchStatement .. | .objectExpression ..
  | .arrayExpression .. => true
  | _ => false

/-- The node declares variables. -/
def isVariableDeclaration : Form α → Bool
  | .variableDeclaration .. => true
  | _ => false

/-- Every child with whether it stands in an owning position. The head of a loop is one only for a
declaration. -/
def markOwned (declares : α → Bool) : Form α → Form (α × Bool)
  | .program body hashbang => .program (body.map (·, true)) hashbang
  | .blockStatement body => .blockStatement (body.map (·, true))
  | .classBody body => .classBody (body.map (·, true))
  | .switchStatement discriminant cases =>
    .switchStatement (discriminant, false) (cases.map (·, true))
  | .switchCase test consequent => .switchCase (test.map (·, false)) (consequent.map (·, true))
  | .forStatement init test update body =>
    .forStatement (init.map fun n => (n, declares n)) (test.map (·, false)) (update.map (·, false))
      (body, false)
  | .arrayExpression elements => .arrayExpression (elements.map (Option.map (·, true)))
  | .objectExpression properties => .objectExpression (properties.map (·, true))
  | form => form.map (·, false)

end Form

namespace Node

/-- Whether each node of a tree stands in an owning position, every node before its children. -/
def ownership : Node → Bool → List Bool :=
  para fun _ form owned =>
    owned :: (form.markOwned fun n => n.1.form.isVariableDeclaration).children.flatMap
      fun n => n.1.2 n.2

/-- Whether each node of a program stands in an owning position. -/
def owners (root : Node) : List Bool := root.ownership false

/-! ## Association -/

/-- Takes the leading comments that satisfy a condition off the pending ones. -/
def takePending (p : Comment → Bool) : StateM (List Comment) (List Comment) :=
  modifyGet fun pending => (pending.takeWhile p, pending.dropWhile p)

/-- Hands the pending comments to the nodes of a tree. -/
def associate : Node → StateM (List Comment) Node :=
  para fun info form => do
    let before ← takePending fun c => c.stop ≤ info.span.start
    let form' ← form.traverse (·.2)
    let inside ← takePending fun c => c.start < info.span.stop
    if form.isContainer then
      return .mk ⟨info.span, info.comments ++ before, info.trailing ++ inside⟩ form'
    else
      return .mk ⟨info.span, info.comments ++ before ++ inside, info.trailing⟩ form'

/-- Hands all comments to the nodes of a program. What is left over trails it. -/
def associateAll (root : Node) (comments : List Comment) : Node :=
  let (root, rest) := root.associate (Comment.sorted comments)
  .mk ⟨root.span, root.comments, root.trailing ++ rest⟩ root.form

/-! ## Settling -/

/-- Moves comments off nodes that do not own them. The result is the new node and the comments that
its parent has to take; an owner keeps its own, in the order of their starts. -/
def settle : Node → Bool → Node × List Comment :=
  para fun info form owned =>
    let settled := (form.markOwned fun n => n.1.form.isVariableDeclaration).map fun n => n.1.2 n.2
    let held := info.comments ++ settled.children.flatMap (·.2)
    let form' := settled.map (·.1)
    if owned then (.mk ⟨info.span, Comment.sorted held, info.trailing⟩ form', [])
    else (.mk ⟨info.span, [], info.trailing⟩ form', held)

/-- Moves every comment of a program to an owner. The program keeps what no owner could take. -/
def settleAll (root : Node) : Node :=
  let (root, rest) := root.settle false
  root.withComments rest

end Node

/-! ## Attachment -/

/-- A comment that ended up where none may be, or a wrong number of comments. -/
inductive AttachFault where
  | stray (count : Nat) (tag : String) (line : Nat)
  | strayTrailing (tag : String) (line : Nat)
  | wrongTotal (found expected : Nat)
deriving DecidableEq, Repr

/-- The words for a fault. -/
def AttachFault.message : AttachFault → String
  | stray count tag line =>
    toString count ++ " comment(s) left on non-owning " ++ tag ++ " at line " ++ toString line
  | strayTrailing tag line =>
    "trailing comment(s) on non-container " ++ tag ++ " at line " ++ toString line
  | wrongTotal found expected =>
    "attached " ++ toString found ++ " comment(s), expected " ++ toString expected

namespace Node

/-- What is wrong with the comments that a node itself holds. -/
def commentFault? (n : Node) (owned : Bool) : Option AttachFault :=
  if !n.comments.isEmpty && !owned then some (.stray n.comments.length n.tag n.span.line)
  else if !n.trailing.isEmpty && !n.form.isContainer then some (.strayTrailing n.tag n.span.line)
  else none

/-- The comments that a node itself holds. -/
def heldComments (n : Node) : List Comment := n.comments ++ n.trailing

/-- All comments of a tree, node by node. -/
def allComments (root : Node) : List Comment := root.preorder.flatMap heldComments

/-- What is wrong with the comments of a program that should hold a given number of them. -/
def attachFault? (root : Node) (expected : Nat) : Option AttachFault :=
  match (root.preorder.zip root.owners).findSome? fun n => n.1.commentFault? n.2 with
  | some fault => some fault
  | none =>
    let found := root.allComments.length
    if found = expected then none else some (.wrongTotal found expected)

/-- Gives every comment to one node of the program. -/
def attach (root : Node) (comments : List Comment) : Except AttachFault Node :=
  let root := (root.associateAll comments).settleAll
  match root.attachFault? comments.length with
  | some fault => .error fault
  | none => .ok root

end Node

end ScriptTidy
