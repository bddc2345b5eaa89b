/-
The shape of the trees that are read. Every part of a node stands in a role, which tells what can
stand there: statements only among statements and as bodies, cases only in a switch, a catch clause
only after the block it guards, and as the value of a method only a function without a name. The
parts of a few nodes belong together: a template has an expression between every two of its texts,
an export has a declaration or names, and a shorthand member of an object has a name for its key.
-/
import ScriptTidy.Layout.Leading
import ScriptTidy.Proofs.Comments.Housing

namespace ScriptTidy

/-- What can stand in the place of a part of a node. -/
inductive Role where
  /-- A statement, or a member of a class. -/
  | statement
  | case
  | handler
  /-- The function of a method or accessor. -/
  | method
  /-- What stands in the middle of a line: an expression, a pattern, a name, a declaration or a block. -/
  | inner
deriving DecidableEq, Repr

namespace Form

variable {α β : Type}

/-- A statement that stands nowhere but among statements or as a body, as blocks and declarations do not. -/
def isStatement : Form α → Bool
  | .emptyStatement | .debuggerStatement | .expressionStatement _ | .ifStatement .. | .whileStatement ..
  | .doWhileStatement .. | .forStatement .. | .forInStatement .. | .forOfStatement .. | .switchStatement ..
  | .tryStatement .. | .returnStatement _ | .throwStatement _ | .breakStatement _ | .continueStatement _
  | .labeledStatement .. => true
  | _ => false

/-- The node is a part of one other kind of node, or of none. -/
def isFragment : Form α → Bool
  | .program .. | .catchClause .. => true
  | _ => false

/-- The node can stand in the role. -/
def fits : Form α → Role → Bool
  | form, .statement => !form.isFragment
  | form, .inner => !form.isFragment && !form.isStatement
  | .switchCase .., .case => true
  | .catchClause .., .handler => true
  | .functionExpression none .., .method => true
  | _, _ => false

/-- The member of an object is written as a method. -/
def isMethodLike (kind : String) (isMethod isShorthand : Bool) : Bool := !isShorthand && (isMethod || kind != "init")

/-- Every part with its role. -/
def markRoles : Form α → Form (α × Role)
  | .program body hashbang => .program (body.map (·, .statement)) hashbang
  | .blockStatement body => .blockStatement (body.map (·, .statement))
  | .classBody body => .classBody (body.map (·, .statement))
  | .ifStatement test consequent alternate =>
    .ifStatement (test, .inner) (consequent, .statement) (alternate.map (·, .statement))
  | .whileStatement test body => .whileStatement (test, .inner) (body, .statement)
  | .doWhileStatement body test => .doWhileStatement (body, .statement) (test, .inner)
  | .forStatement init test update body =>
    .forStatement (init.map (·, .inner)) (test.map (·, .inner)) (update.map (·, .inner)) (body, .statement)
  | .forInStatement left right body => .forInStatement (left, .inner) (right, .inner) (body, .statement)
  | .forOfStatement left right body isAwait =>
    .forOfStatement (left, .inner) (right, .inner) (body, .statement) isAwait
  | .labeledStatement label body => .labeledStatement (label, .inner) (body, .statement)
  | .switchStatement discriminant cases => .switchStatement (discriminant, .inner) (cases.map (·, .case))
  | .switchCase test consequent => .switchCase (test.map (·, .inner)) (consequent.map (·, .statement))
  | .tryStatement block handler finalizer =>
    .tryStatement (block, .inner) (handler.map (·, .handler)) (finalizer.map (·, .inner))
  | .methodDefinition key value kind isStatic isComputed =>
    .methodDefinition (key, .inner) (value, .method) kind isStatic isComputed
  | .property key value kind isMethod isShorthand isComputed =>
    .property (key, .inner) (value, if isMethodLike kind isMethod isShorthand then .method else .inner) kind isMethod
      isShorthand isComputed
  | form => form.map (·, .inner)

/-- Telling the roles of the parts leaves the form as it is otherwise. -/
theorem map_fst_markRoles (form : Form α) : form.markRoles.map (·.1) = form := by
  cases form <;> simp [map, markRoles, Function.comp_def]

theorem children_markRoles (form : Form α) : form.markRoles.children.map (·.1) = form.children := by
  rw [← children_map, map_fst_markRoles]

/-- The parts of the node belong together. -/
def isCoherent : Form Node → Bool
  | .exportNamedDeclaration (some _) specifiers source => specifiers.isEmpty && source.isNone
  | .templateLiteral quasis expressions => quasis.length == expressions.length + 1
  | .property key value _ _ true _ =>
    key.isIdentifier && match value.form with
      | .identifier _ | .assignmentPattern .. => true
      | _ => false
  | _ => true

end Form

namespace Node

/-- A program of the shape that is read: every part of a node can stand where it stands, the parts of every node
belong together, and no line comment goes beyond its line. -/
structure Shaped (root : Node) : Prop where
  program : ∃ body hashbang, root.form = .program body hashbang
  roles : ∀ n ∈ root.preorder, ∀ m ∈ n.form.markRoles.children, m.1.form.fits m.2
  coherent : ∀ n ∈ root.preorder, n.form.isCoherent
  lines : ∀ c ∈ root.allComments, c.kind = .line → '\n' ∉ c.value.toList

end Node

end ScriptTidy
