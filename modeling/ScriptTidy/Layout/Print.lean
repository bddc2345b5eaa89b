/-
Printing a tree. Every kind of node has a layout made from the layouts of its children; where
statements, members and comments go on lines of their own depends on the tree alone, never on where
things stood in a source text.
-/
import ScriptTidy.Layout.Leading
import ScriptTidy.Layout.Piece
import ScriptTidy.Comments.Attach
import ScriptTidy.Settings.Options
import ScriptTidy.Text.Quoted

namespace ScriptTidy

open Layout

/-! ## Kinds of statement -/

namespace Node

/-- A declaration or expression of a function or class. -/
def isFunctionLike (n : Node) : Bool :=
  match n.form with
  | .classDeclaration .. | .classExpression .. | .functionDeclaration .. | .functionExpression .. =>
    true
  | _ => false

/-- The node is a function expression. -/
def isFunctionExpression (n : Node) : Bool :=
  match n.form with
  | .functionExpression .. => true
  | _ => false

/-- The node has blank lines around it: functions, classes and methods. -/
def isSpaced (n : Node) : Bool :=
  match n.form with
  | .functionDeclaration .. | .classDeclaration .. | .methodDefinition .. => true
  | .exportNamedDeclaration (some declaration) _ _ => declaration.isFunctionLike
  | .exportDefaultDeclaration declaration => declaration.isFunctionLike
  | _ => false

/-- The expression calls the function with the given name. -/
def callsNamed (name : String) (n : Node) : Bool :=
  match n.form with
  | .callExpression callee _ _ =>
    match callee.form with
    | .identifier called => called == name
    | _ => false
  | _ => false

/-- The statement brings in a module: an import, or a single binding to a required module. -/
def isModuleHeader (n : Node) : Bool :=
  match n.form with
  | .importDeclaration .. => true
  | .variableDeclaration _ [binding] =>
    match binding.form with
    | .variableDeclarator _ (some init) => init.callsNamed "require"
    | _ => false
  | _ => false

/-- A semicolon without comments. -/
def isStray (n : Node) : Bool :=
  match n.form with
  | .emptyStatement => n.comments.isEmpty
  | _ => false

/-- The statement can end in a semicolon. -/
def takesSemicolon (n : Node) : Bool :=
  match n.form with
  | .breakStatement .. | .continueStatement .. | .debuggerStatement | .doWhileStatement ..
  | .exportAllDeclaration .. | .expressionStatement .. | .importDeclaration .. | .returnStatement ..
  | .throwStatement .. | .variableDeclaration .. => true
  | .exportNamedDeclaration none _ _ => true
  | .exportNamedDeclaration (some declaration) _ _ => declaration.form.isVariableDeclaration
  | .exportDefaultDeclaration declaration => !declaration.isFunctionLike
  | _ => false

/-- The semicolon of a statement or class member. A class field always has one. -/
def terminator (semicolons : Bool) (n : Node) : Layout :=
  match n.form with
  | .propertyDefinition .. => ";"
  | _ => onlyIf (semicolons && n.takesSemicolon) ";"

/-- The comments of a declaration in the head of a loop, which are written above the loop. -/
def headerComments : Node → List Comment
  | .mk _ (.forStatement (some init) _ _ _) =>
    if init.form.isVariableDeclaration then init.comments else []
  | .mk _ (.labeledStatement _ body) => body.headerComments
  | .mk _ _ => []

/-- Digits and separators only, so that a point after it would be a decimal point. -/
def isWholeNumber (n : Node) : Bool :=
  match n.form with
  | .literal _ raw => !raw.isEmpty && raw.toList.all fun c => ('0' ≤ c && c ≤ '9') || c == '_'
  | _ => false

end Node

/-! ## Children -/

/-- What a node is printed as. The core of a function is what follows its name, and that of a catch
clause what follows its keyword; a method and a try statement are printed with these. -/
structure Printed where
  whole : Layout
  core : Layout

/-- A child next to what it is printed as. -/
abbrev Child := Node × Printed

instance : Coe Child Layout := ⟨fun child => child.2.whole⟩

namespace Child

/-- The layout of a child. -/
def layout (child : Child) : Layout := child

/-- The layout of a child that may be missing. -/
def optional (child : Option Child) : Layout := child.elim nothing layout

/-- The layouts of children with commas between them. -/
def list (children : List Child) : Layout := commas (children.map layout)

/-- The layouts of children and holes with commas between them. -/
def slots (children : List (Option Child)) : Layout := commas (children.map optional)

/-- Parameters or arguments. -/
def parenthesized (children : List Child) : Layout := seq ["(", list children, ")"]

/-! ## Statements -/

/-- A statement with its terminator. -/
def statement (semicolons : Bool) (child : Child) : Layout :=
  seq [child, child.1.terminator semicolons]

/-- The members of a list, one after another. A semicolon standing alone leaves its comments only.
The last member before the list is known to tell where the module headers end. -/
def members (semicolons : Bool) : Option Node → List Child → Layout
  | _, [] => nothing
  | before, child :: rest =>
    match child.1.form with
    | .emptyStatement =>
      seq [commentLines child.1.comments, members semicolons before rest]
    | _ =>
      seq [
        onlyIf (before.any Node.isModuleHeader && !child.1.isModuleHeader) newline,
        commentLines child.1.comments,
        commentLines child.1.headerComments,
        onlyIf child.1.isSpaced newline,
        pad,
        onlyIf (!semicolons && child.1.needsGuard) ";",
        statement semicolons child,
        newline,
        onlyIf child.1.isSpaced newline,
        members semicolons (some child.1) rest]

/-- Members in braces. -/
def braced (semicolons : Bool) (body : List Child) (trailing : List Comment) : Layout :=
  if trailing.isEmpty && body.all (·.1.isStray) then "\x7b\x7d"
  else seq ["\x7b", newline, deeper (members semicolons none body), deeper (commentLines trailing),
    pad, "\x7d"]

/-- The node is a block. -/
def isBlock (child : Child) : Bool :=
  match child.1.form with
  | .blockStatement _ => true
  | _ => false

/-- The body of a loop or branch: a block on the same line, or a statement on the next. -/
def body (semicolons : Bool) (child : Child) : Layout :=
  if child.isBlock then seq [" ", child]
  else seq [newline,
    deeper (seq [commentLines child.1.headerComments, pad, statement semicolons child])]

/-- What stands between a body and the keyword after it. -/
def afterBody (child : Child) : Layout := if child.isBlock then " " else seq [newline, pad]

/-- The else branch of an if statement. A further if statement stays on the line. -/
def elseBranch (semicolons : Bool) (child : Child) : Layout :=
  match child.1.form with
  | .ifStatement .. => seq ["else ", child]
  | _ => seq ["else", child.body semicolons]

/-- A case of a switch on its lines. -/
def caseLines (child : Child) : Layout := seq [commentLines child.1.comments, pad, child]

/-- An expression after a keyword, if there is one. -/
def after (keyword : String) (child : Option Child) : Layout :=
  match child with
  | some child => seq [keyword, child]
  | none => nothing

/-! ## Functions and classes -/

/-- The key of a member. -/
def key (child : Child) (isComputed : Bool) : Layout :=
  if isComputed then seq ["[", child, "]"] else child

/-- What follows the name of a function. -/
def functionCore (params : List Child) (body : Child) : Layout :=
  seq [parenthesized params, " ", body]

/-- A function with its name. -/
def function (id : Option Child) (core : Layout) (isAsync isGenerator : Bool) : Layout :=
  seq [onlyIf isAsync "async ", if isGenerator then "function*" else "function", " ", optional id,
    core]

/-- A member that is a function: its kind if it is an accessor, its marks, its key and its core. -/
def method (kind : String) (key : Layout) (value : Child) : Layout :=
  let (isAsync, isGenerator) := match value.1.form with
    | .functionExpression _ _ _ isAsync isGenerator => (isAsync, isGenerator)
    | _ => (false, false)
  seq [onlyIf (kind == "get" || kind == "set") (kind ++ " "), onlyIf isAsync "async ",
    onlyIf isGenerator "*", key, value.2.core]

/-- A class with its name. -/
def classLike (id superclass : Option Child) (body : Child) : Layout :=
  seq ["class", after " " id, after " extends " superclass, " ", body]

/-! ## Modules -/

/-- The default and namespace names of an import. -/
def importClause? (child : Child) : Option Layout :=
  match child.1.form with
  | .importDefaultSpecifier _ | .importNamespaceSpecifier _ => some child
  | _ => none

/-- An import. The names in braces come after the others. -/
def importDeclaration (specifiers : List Child) (source : Child) : Layout :=
  let clauses := specifiers.filterMap importClause?
  let named := specifiers.filter fun child => (importClause? child).isNone
  seq ["import ", commas clauses,
    onlyIf (!clauses.isEmpty && !named.isEmpty) ", ",
    onlyIf (!named.isEmpty) (seq ["\x7b", list named, "\x7d"]),
    onlyIf (!specifiers.isEmpty) " from ",
    source]

/-- An export of a declaration or of names. -/
def exportNamed (declaration : Option Child) (specifiers : List Child) (source : Option Child) :
    Layout :=
  match declaration with
  | some declaration => seq ["export ", declaration]
  | none => seq ["export ", "\x7b", list specifiers, "\x7d", after " from " source]

/-! ## Expressions -/

/-- A literal: a string by its value, every other literal by its spelling. -/
def literal (value : LiteralValue) (raw : String) : Layout :=
  match value with
  | .string value => String.ofList (Text.quoteString value)
  | _ => raw

/-- The texts of a template after the first one, each after an expression. -/
def templateRest : List String → List Child → List Layout
  | [], _ => []
  | _ :: _, [] => [fault .missingExpression]
  | quasi :: quasis, expression :: expressions =>
    seq ["$\x7b", expression, "\x7d", verbatim quasi] :: templateRest quasis expressions

/-- A template. -/
def template (quasis : List String) (expressions : List Child) : Layout :=
  match quasis with
  | [] => "\x60\x60"
  | quasi :: quasis =>
    seq ["\x60", verbatim quasi, seq (templateRest quasis expressions), "\x60"]

/-- An element of an array on its line. -/
def element (child : Option Child) : Layout :=
  match child with
  | some child => seq [commentLines child.1.comments, pad, child, ",", newline]
  | none => seq [pad, ",", newline]

/-- The value of the member is written as a function, with blank lines around it. -/
def holdsFunction (child : Child) : Bool :=
  match child.1.form with
  | .property _ value .. => value.isFunctionExpression
  | _ => false

/-- A member of an object on its line. -/
def member (child : Child) : Layout :=
  seq [onlyIf child.holdsFunction newline, commentLines child.1.comments, pad, child, ",", newline,
    onlyIf child.holdsFunction newline]

/-- Lines in brackets, with comments at their end. -/
def lines (opening closing : String) (lines : List Layout) (trailing : List Comment) : Layout :=
  if lines.isEmpty && trailing.isEmpty then seq [opening, closing]
  else seq [opening, newline, deeper (seq lines), deeper (commentLines trailing), pad, closing]

/-- A member of an object. -/
def property (key value : Child) (kind : String) (isMethod isShorthand isComputed : Bool) :
    Layout :=
  if isShorthand then
    match value.1.form with
    | .assignmentPattern .. => value
    | _ => key
  else if (isMethod || kind != "init") && value.1.isFunctionExpression then
    method kind (key.key isComputed) value
  else seq [key.key isComputed, ": ", value]

/-- The parameters of an arrow function. -/
def arrowParams (params : List Child) : Layout :=
  if Node.isSingleName (params.map (·.1)) then list params else parenthesized params

/-- The text of the operator needs a space before the operand: it is a word, or a sign that would
run into the operand. -/
def needsSpace (operator : String) (argument : Node) : Bool :=
  operator.toList.any (fun c => 'a' ≤ c && c ≤ 'z')
    || (operator == "" || operator == "+" || operator == "-")
      && argument.leadingChar == operator.toList.head?

/-- An operator with operands at both sides. -/
def binary (operator : String) (left right : Child) : Layout :=
  seq [left, " " ++ operator ++ " ", right]

/-- A child of an object. -/
def memberOf (object name : Child) (isComputed isOptional : Bool) : Layout :=
  seq [object, onlyIf (object.1.isWholeNumber && !isComputed) " ", onlyIf isOptional "?.",
    if isComputed then seq ["[", name, "]"] else seq [onlyIf (!isOptional) ".", name]]

/-- The last slot is a hole, which needs a comma of its own. -/
def endsInHole (elements : List (Option Child)) : Bool := elements.getLast?.any Option.isNone

end Child

/-! ## Nodes -/

namespace Form

open Child

/-- What a node is printed as, from its children. -/
def layout (semicolons : Bool) (trailing : List Comment) : Form Child → Layout
  | .blockStatement body => braced semicolons body trailing
  | .emptyStatement => ";"
  | .debuggerStatement => "debugger"
  | .expressionStatement expression => expression
  | .ifStatement test consequent alternate =>
    seq ["if (", test, ")", consequent.body semicolons,
      match alternate with
      | some alternate => seq [consequent.afterBody, alternate.elseBranch semicolons]
      | none => nothing]
  | .whileStatement test body => seq ["while (", test, ")", body.body semicolons]
  | .doWhileStatement body test =>
    seq ["do", body.body semicolons, body.afterBody, "while (", test, ")"]
  | .forStatement init test update body =>
    seq ["for (", optional init, ";", after " " test, ";", after " " update, ")",
      body.body semicolons]
  | .forInStatement left right body =>
    seq ["for (", left, " in ", right, ")", body.body semicolons]
  | .forOfStatement left right body isAwait =>
    seq [if isAwait then "for await (" else "for (", left, " of ", right, ")",
      body.body semicolons]
  | .switchStatement discriminant cases =>
    seq ["switch (", discriminant, ") ",
      if cases.isEmpty && trailing.isEmpty then "\x7b\x7d"
      else seq ["\x7b", newline, seq (cases.map caseLines), deeper (commentLines trailing), pad,
        "\x7d"]]
  | .switchCase test consequent =>
    seq [
      match test with
      | some test => seq ["case ", test, ":"]
      | none => "default:",
      newline,
      deeper (members semicolons none consequent)]
  | .tryStatement block handler finalizer =>
    seq ["try ", block,
      match handler with
      | some handler => seq [" catch ", handler.2.core]
      | none => nothing,
      after " finally " finalizer]
  | .returnStatement argument => seq ["return", after " " argument]
  | .throwStatement argument => seq ["throw ", argument]
  | .breakStatement label => seq ["break", after " " label]
  | .continueStatement label => seq ["continue", after " " label]
  | .labeledStatement label body =>
    seq [label, ":", newline, pad, body.statement semicolons]
  | .variableDeclaration kind declarations => seq [kind ++ " ", list declarations]
  | .variableDeclarator id init => seq [id, after " = " init]
  | .functionDeclaration id params body isAsync isGenerator =>
    function (some id) (functionCore params body) isAsync isGenerator
  | .classDeclaration id superclass body => classLike (some id) superclass body
  | .classBody body => braced semicolons body trailing
  | .methodDefinition key value kind isStatic isComputed =>
    seq [onlyIf isStatic "static ", method kind (key.key isComputed) value]
  | .propertyDefinition key value isStatic isComputed =>
    seq [onlyIf isStatic "static ", key.key isComputed, after " = " value]
  | .importDeclaration specifiers source => Child.importDeclaration specifiers source
  | .importSpecifier imported localName => seq [imported, after " as " localName]
  | .importDefaultSpecifier localName => localName
  | .importNamespaceSpecifier localName => seq ["* as ", localName]
  | .exportNamedDeclaration declaration specifiers source =>
    exportNamed declaration specifiers source
  | .exportSpecifier localName exported => seq [localName, after " as " exported]
  | .exportDefaultDeclaration declaration => seq ["export default ", declaration]
  | .exportAllDeclaration exported source =>
    seq ["export *", after " as " exported, " from ", source]
  | .identifier name => name
  | .literal value raw => Child.literal value raw
  | .templateLiteral quasis expressions => template quasis expressions
  | .taggedTemplateExpression tag quasi => seq [tag, quasi]
  | .thisExpression => "this"
  | .super => "super"
  | .metaProperty head target => seq [head, ".", target]
  | .arrayExpression elements => lines "[" "]" (elements.map element) trailing
  | .objectExpression properties => lines "\x7b" "\x7d" (properties.map member) trailing
  | .property key value kind isMethod isShorthand isComputed =>
    Child.property key value kind isMethod isShorthand isComputed
  | .functionExpression id params body isAsync isGenerator =>
    function id (functionCore params body) isAsync isGenerator
  | .arrowFunctionExpression params body isAsync =>
    seq [onlyIf isAsync "async ", arrowParams params, " => ", body]
  | .classExpression id superclass body => classLike id superclass body
  | .unaryExpression operator argument =>
    seq [operator, onlyIf (needsSpace operator argument.1) " ", argument]
  | .updateExpression operator argument isPrefix =>
    if isPrefix then seq [operator, argument] else seq [argument, operator]
  | .binaryExpression operator left right => binary operator left right
  | .logicalExpression operator left right => binary operator left right
  | .assignmentExpression operator left right => binary operator left right
  | .conditionalExpression test consequent alternate =>
    seq [test, " ? ", consequent, " : ", alternate]
  | .sequenceExpression expressions => list expressions
  | .callExpression callee arguments isOptional =>
    seq [callee, onlyIf isOptional "?.", parenthesized arguments]
  | .newExpression callee arguments => seq ["new ", callee, parenthesized arguments]
  | .memberExpression object member isComputed isOptional =>
    memberOf object member isComputed isOptional
  | .parenthesizedExpression expression => seq ["(", expression, ")"]
  | .spreadElement argument => seq ["...", argument]
  | .awaitExpression argument => seq ["await ", argument]
  | .yieldExpression argument isDelegate =>
    seq [if isDelegate then "yield*" else "yield", after " " argument]
  | .arrayPattern elements =>
    seq ["[", slots elements, onlyIf (endsInHole elements) ",", "]"]
  | .objectPattern properties => seq ["\x7b", list properties, "\x7d"]
  | .assignmentPattern left right => seq [left, " = ", right]
  | .restElement argument => seq ["...", argument]
  | form => fault (.unprintable form.tag)

/-- What a function or catch clause is printed as without its head. -/
def core : Form Child → Layout
  | .functionExpression _ params body _ _ => functionCore params body
  | .catchClause param body =>
    seq [
      match param with
      | some param => seq ["(", param, ") "]
      | none => nothing,
      body]
  | _ => nothing

end Form

/-! ## Chains of operations -/

/-- Operations nested to the left, by what their operands are printed as. -/
inductive Chain where
  | operand (layout : Layout)
  | operation (operator : String) (left : Chain) (right : Layout)

/-- A chain and what follows it, from left to right. The operand at the left end is found without
nesting, however long the chain is. -/
def Chain.before : Chain → List Layout → Layout
  | operand first, rest => seq (first :: rest)
  | operation operator left right, rest =>
    left.before ((" " ++ operator ++ " " : String) :: right :: rest)

namespace Form

/-- An operator between operands that continues the chain on its left. -/
def isOperation {α : Type} : Form α → Bool
  | .binaryExpression .. | .logicalExpression .. => true
  | _ => false

/-- The chain of an operation or an assignment. -/
def chain? : Form (Node × Printed × Chain) → Option Chain
  | .binaryExpression operator left right | .logicalExpression operator left right
  | .assignmentExpression operator left right =>
    some (.operation operator left.2.2 right.2.1.whole)
  | _ => none

end Form

namespace Node

/-- What a node is printed as, and the chain that it is the end of. -/
def chained (semicolons : Bool) : Node → Printed × Chain :=
  para fun info form =>
    let children := form.map fun child => (child.1, child.2.1)
    match form.chain? with
    | some chain =>
      let whole : Layout := fun depth => chain.before [] depth
      (⟨whole, children.core⟩, if form.isOperation then chain else .operand whole)
    | none =>
      let whole := children.layout semicolons info.trailing
      (⟨whole, children.core⟩, .operand whole)

/-- What a node is printed as. -/
def printed (semicolons : Bool) (n : Node) : Printed := (n.chained semicolons).1

/-- The pieces of a program: its first line if that names an interpreter, its statements, and the
comments at its end. -/
def pieces (semicolons : Bool) (root : Node) : List Piece :=
  match root.form with
  | .program body hashbang =>
    let children := body.map fun n => (n, n.printed semicolons)
    seq [onlyIf (hashbang != "") (seq [hashbang, newline, newline]),
      Child.members semicolons none children, commentLines root.trailing] 0
  | _ => (root.printed semicolons).whole 0

/-- The text of a program. -/
def print (root : Node) (options : Options) : Except PrintFault String :=
  Piece.render options.indent (root.pieces options.semicolons)

end Node

end ScriptTidy
