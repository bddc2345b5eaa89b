/-
Nodes, and recursion over them. A node carries its span, the comments written before it and, for a
container, the comments before its closing bracket. `Node.para` is the fold on which the other
functions on trees rest: it hands a step function the children together with their results.
-/
import ScriptTidy.Syntax.Form

namespace ScriptTidy

/-- Where a node stands: byte offsets into the text, and the line of its start. -/
structure Span where
  start : Nat
  stop : Nat
  line : Nat
deriving DecidableEq, Repr, Inhabited

/-- What a node carries besides its form. -/
structure Info where
  span : Span
  comments : List Comment
  trailing : List Comment
deriving DecidableEq, Repr

/-- A node of the syntax tree. -/
inductive Node where
  | mk (info : Info) (form : Form Node)

namespace Node

variable {β : Type}

mutual

/-- The fold over a tree: the step function sees every child next to the result for it. -/
def para (step : Info → Form (Node × β) → β) : Node → β
  | .mk info form => step info (paraForm step form)

/-- The children of a form next to their results. -/
def paraForm (step : Info → Form (Node × β) → β) : Form Node → Form (Node × β)
  | .program body hashbang => .program (paraList step body) hashbang
  | .blockStatement body => .blockStatement (paraList step body)
  | .emptyStatement => .emptyStatement
  | .debuggerStatement => .debuggerStatement
  | .expressionStatement expression => .expressionStatement (expression, para step expression)
  | .ifStatement test consequent alternate =>
    .ifStatement (test, para step test) (consequent, para step consequent)
          (paraOption step alternate)
  | .whileStatement test body => .whileStatement (test, para step test) (body, para step body)
  | .doWhileStatement body test => .doWhileStatement (body, para step body) (test, para step test)
  | .forStatement init test update body =>
    .forStatement (paraOption step init) (paraOption step test) (paraOption step update)
          (body, para step body)
  | .forInStatement left right body =>
    .forInStatement (left, para step left) (right, para step right) (body, para step body)
  | .forOfStatement left right body isAwait =>
    .forOfStatement (left, para step left) (right, para step right) (body, para step body) isAwait
  | .switchCase test consequent => .switchCase (paraOption step test) (paraList step consequent)
  | .switchStatement discriminant cases =>
    .switchStatement (discriminant, para step discriminant) (paraList step cases)
  | .catchClause param body => .catchClause (paraOption step param) (body, para step body)
  | .tryStatement block handler finalizer =>
    .tryStatement (block, para step block) (paraOption step handler) (paraOption step finalizer)
  | .returnStatement argument => .returnStatement (paraOption step argument)
  | .throwStatement argument => .throwStatement (argument, para step argument)
  | .breakStatement label => .breakStatement (paraOption step label)
  | .continueStatement label => .continueStatement (paraOption step label)
  | .labeledStatement label body =>
    .labeledStatement (label, para step label) (body, para step body)
  | .variableDeclarator id init => .variableDeclarator (id, para step id) (paraOption step init)
  | .variableDeclaration kind declarations => .variableDeclaration kind (paraList step declarations)
  | .functionDeclaration id params body isAsync isGenerator =>
    .functionDeclaration (id, para step id) (paraList step params) (body, para step body) isAsync
          isGenerator
  | .classBody body => .classBody (paraList step body)
  | .classDeclaration id superclass body =>
    .classDeclaration (id, para step id) (paraOption step superclass) (body, para step body)
  | .methodDefinition key value kind isStatic isComputed =>
    .methodDefinition (key, para step key) (value, para step value) kind isStatic isComputed
  | .propertyDefinition key value isStatic isComputed =>
    .propertyDefinition (key, para step key) (paraOption step value) isStatic isComputed
  | .importSpecifier imported localName =>
    .importSpecifier (imported, para step imported) (paraOption step localName)
  | .importDefaultSpecifier localName => .importDefaultSpecifier (localName, para step localName)
  | .importNamespaceSpecifier localName =>
    .importNamespaceSpecifier (localName, para step localName)
  | .importDeclaration specifiers source =>
    .importDeclaration (paraList step specifiers) (source, para step source)
  | .exportSpecifier localName exported =>
    .exportSpecifier (localName, para step localName) (paraOption step exported)
  | .exportNamedDeclaration declaration specifiers source =>
    .exportNamedDeclaration (paraOption step declaration) (paraList step specifiers)
          (paraOption step source)
  | .exportDefaultDeclaration declaration =>
    .exportDefaultDeclaration (declaration, para step declaration)
  | .exportAllDeclaration exported source =>
    .exportAllDeclaration (paraOption step exported) (source, para step source)
  | .identifier name => .identifier name
  | .literal value raw => .literal value raw
  | .templateLiteral quasis expressions => .templateLiteral quasis (paraList step expressions)
  | .taggedTemplateExpression tag quasi =>
    .taggedTemplateExpression (tag, para step tag) (quasi, para step quasi)
  | .thisExpression => .thisExpression
  | .super => .super
  | .metaProperty head target => .metaProperty (head, para step head) (target, para step target)
  | .arrayExpression elements => .arrayExpression (paraSlots step elements)
  | .property key value kind isMethod isShorthand isComputed =>
    .property (key, para step key) (value, para step value) kind isMethod isShorthand isComputed
  | .objectExpression properties => .objectExpression (paraList step properties)
  | .functionExpression id params body isAsync isGenerator =>
    .functionExpression (paraOption step id) (paraList step params) (body, para step body) isAsync
          isGenerator
  | .arrowFunctionExpression params body isAsync =>
    .arrowFunctionExpression (paraList step params) (body, para step body) isAsync
  | .classExpression id superclass body =>
    .classExpression (paraOption step id) (paraOption step superclass) (body, para step body)
  | .unaryExpression operator argument => .unaryExpression operator (argument, para step argument)
  | .updateExpression operator argument isPrefix =>
    .updateExpression operator (argument, para step argument) isPrefix
  | .binaryExpression operator left right =>
    .binaryExpression operator (left, para step left) (right, para step right)
  | .logicalExpression operator left right =>
    .logicalExpression operator (left, para step left) (right, para step right)
  | .assignmentExpression operator left right =>
    .assignmentExpression operator (left, para step left) (right, para step right)
  | .conditionalExpression test consequent alternate =>
    .conditionalExpression (test, para step test) (consequent, para step consequent)
          (alternate, para step alternate)
  | .sequenceExpression expressions => .sequenceExpression (paraList step expressions)
  | .callExpression callee arguments isOptional =>
    .callExpression (callee, para step callee) (paraList step arguments) isOptional
  | .newExpression callee arguments =>
    .newExpression (callee, para step callee) (paraList step arguments)
  | .memberExpression object member isComputed isOptional =>
    .memberExpression (object, para step object) (member, para step member) isComputed isOptional
  | .parenthesizedExpression expression =>
    .parenthesizedExpression (expression, para step expression)
  | .spreadElement argument => .spreadElement (argument, para step argument)
  | .awaitExpression argument => .awaitExpression (argument, para step argument)
  | .yieldExpression argument isDelegate => .yieldExpression (paraOption step argument) isDelegate
  | .arrayPattern elements => .arrayPattern (paraSlots step elements)
  | .objectPattern properties => .objectPattern (paraList step properties)
  | .assignmentPattern left right =>
    .assignmentPattern (left, para step left) (right, para step right)
  | .restElement argument => .restElement (argument, para step argument)

/-- An optional child next to its result. -/
def paraOption (step : Info → Form (Node × β) → β) : Option Node → Option (Node × β)
  | none => none
  | some node => some (node, para step node)

/-- A list of children next to their results. -/
def paraList (step : Info → Form (Node × β) → β) : List Node → List (Node × β)
  | [] => []
  | node :: rest => (node, para step node) :: paraList step rest

/-- A list of children with holes, next to their results. -/
def paraSlots (step : Info → Form (Node × β) → β) :
    List (Option Node) → List (Option (Node × β))
  | [] => []
  | slot :: rest => paraOption step slot :: paraSlots step rest

end

/-- What a node carries besides its form. -/
def info : Node → Info
  | .mk info _ => info

/-- The kind of a node with its parts. -/
def form : Node → Form Node
  | .mk _ form => form

/-- Where a node stands. -/
def span (n : Node) : Span := n.info.span

/-- The comments written before a node. -/
def comments (n : Node) : List Comment := n.info.comments

/-- The comments before the closing bracket of a container. -/
def trailing (n : Node) : List Comment := n.info.trailing

/-- The children, in the order of their text. -/
def children (n : Node) : List Node := n.form.children

/-- The name of a node's kind. -/
def tag (n : Node) : String := n.form.tag

/-- A node without comments. -/
def plain (span : Span) (form : Form Node) : Node := .mk ⟨span, [], []⟩ form

/-- The node with other comments before it. -/
def withComments (n : Node) (comments : List Comment) : Node :=
  .mk { n.info with comments } n.form

/-- The node with other parts. -/
def withForm (n : Node) (form : Form Node) : Node := .mk n.info form

@[simp] theorem mk_info_form (n : Node) : Node.mk n.info n.form = n := by cases n; rfl

/-- Applies a change to every node, to the children before their parent. -/
def everywhere (f : Node → Node) : Node → Node :=
  para fun info form => f (.mk info (form.map (·.2)))

/-- How a node is named in an outline: an identifier by its name, a literal by its spelling, every
other node by its kind. -/
def label (n : Node) : String :=
  match n.form with
  | .identifier name => name
  | .literal _ raw => raw
  | form => form.tag

end Node

/-! ## The fold, one node at a time -/

namespace Node

variable {β : Type} (step : Info → Form (Node × β) → β)

theorem paraOption_eq (o : Option Node) :
    paraOption step o = o.map fun n => (n, para step n) := by
  cases o <;> rfl

theorem paraList_eq (ns : List Node) : paraList step ns = ns.map fun n => (n, para step n) := by
  induction ns with
  | nil => rfl
  | cons n ns ih => rw [paraList, ih]; rfl

theorem paraSlots_eq (ns : List (Option Node)) :
    paraSlots step ns = ns.map (Option.map fun n => (n, para step n)) := by
  induction ns with
  | nil => rfl
  | cons n ns ih => rw [paraSlots, ih, paraOption_eq]; rfl

theorem paraForm_eq (form : Form Node) :
    paraForm step form = form.map fun n => (n, para step n) := by
  cases form <;> simp only [paraForm, Form.map, paraOption_eq, paraList_eq, paraSlots_eq]

/-- The fold of a node, from the folds of its children. -/
theorem para_mk (info : Info) (form : Form Node) :
    para step (.mk info form) = step info (form.map fun n => (n, para step n)) := by
  rw [para, paraForm_eq]

end Node

end ScriptTidy
