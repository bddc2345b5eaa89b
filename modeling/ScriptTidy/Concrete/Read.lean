/-
Reading a concrete syntax tree as a program. For every kind of concrete node that has a counterpart
there is a reader; `readers` lists them by kind. A reader calls back for the nodes below its own,
and `read` ties the knot with a bound on the nesting. Operator chains and sequences are read without
nesting, however long they are. Comments take no part in the reading; they are collected on the
side.
-/
import ScriptTidy.Concrete.Fault

namespace ScriptTidy

/-- Reading can fail. -/
abbrev Reading := Except ReadFault

/-- What a reader works with: the source text, and how nodes below its own are read. -/
structure Reader where
  source : Source
  read : Cst → Reading Node

namespace Reader

variable (r : Reader)

/-! ## Parts of concrete nodes -/

/-- Fails at a node that has no place in the tree. -/
def unsupported {α : Type} (c : Cst) : Reading α :=
  .error (.unsupported (r.source.position c.mark.start) c.kind)

/-- The child that plays a part, which must be there. -/
def require (c : Cst) (field : String) : Reading Cst :=
  match c.field? field with
  | some d => .ok d
  | none => r.unsupported c

/-- The first named child apart from comments, which must be there. -/
def firstNamed (c : Cst) : Reading Cst :=
  match c.named with
  | d :: _ => .ok d
  | [] => .error .missingChild

/-- The kind of the first child, which must be there. -/
def firstKind (c : Cst) : Reading String :=
  match c.children with
  | d :: _ => .ok d.kind
  | [] => .error .missingChild

/-- The text between two offsets. -/
def textBetween (start stop : Nat) : Reading String :=
  match Text.decodeUtf8 (r.source.slice start stop) with
  | .ok cs => .ok (String.ofList cs)
  | .error fault => .error (.undecodable fault)

/-- The text of a node. -/
def text (c : Cst) : Reading String := r.textBetween c.mark.start c.mark.stop

/-- A node with the span of a concrete one. -/
def node (c : Cst) (form : Form Node) : Node := .plain (r.source.span c c) form

/-- Reads all of a list. -/
def readAll (cs : List Cst) : Reading (List Node) := cs.mapM r.read

/-- Reads a node that may be missing. -/
def readOptional (c : Option Cst) : Reading (Option Node) := c.mapM r.read

/-- Reads the child that plays a part. -/
def readField (c : Cst) (field : String) : Reading Node := do r.read (← r.require c field)

/-- Reads the first named child. -/
def readFirst (c : Cst) : Reading Node := do r.read (← firstNamed c)

/-- Reads the first named child if there is one. -/
def readFirst? (c : Cst) : Reading (Option Node) := r.readOptional c.named.head?

/-- A name. -/
def identifier (c : Cst) : Reading Node := do return r.node c (.identifier (← r.text c))

/-- A name that may be missing. -/
def identifier? (c : Option Cst) : Reading (Option Node) := c.mapM r.identifier

/-- An expression, without the parentheses that belong to the syntax of a statement. -/
def unparenthesized (c : Cst) : Reading Node :=
  if c.kind == "parenthesized_expression" then r.readFirst c else r.read c

/-- Parameters, none if they are missing. -/
def params (c : Option Cst) : Reading (List Node) :=
  match c with
  | some c => r.readAll c.named
  | none => .ok []

/-- The elements of an array with its holes: a comma where an element is expected stands for a
hole. -/
def elementsFrom : Bool → List Cst → Reading (List (Option Node))
  | _, [] => .ok []
  | expecting, c :: rest =>
    if c.isComment then elementsFrom expecting rest
    else if c.kind == "," then do
      let after ← elementsFrom true rest
      return if expecting then none :: after else after
    else if c.mark.isNamed then do
      let element ← r.read c
      return some element :: (← elementsFrom false rest)
    else elementsFrom expecting rest

/-- The elements of an array. -/
def elements (c : Cst) : Reading (List (Option Node)) := r.elementsFrom true c.children

/-- The name of a member, and whether it is computed. -/
def memberName (c : Cst) : Reading (Node × Bool) := do
  if c.kind == "computed_property_name" then return (← r.readFirst c, true)
  else return (← r.read c, false)

/-- Fails at a decorator. -/
def refuseDecorators (c : Cst) : Reading Unit :=
  match c.children.find? fun d => d.kind == "decorator" with
  | some d => r.unsupported d
  | none => .ok ()

/-! ## Statements -/

def block (c : Cst) : Reading Node := do
  return r.node c (.blockStatement (← r.readAll c.named))

def expressionStatement (c : Cst) : Reading Node := do
  return r.node c (.expressionStatement (← r.readFirst c))

def variableDeclarator (c : Cst) : Reading Node := do
  let id ← r.readField c "name"
  let init ← r.readOptional (c.field? "value")
  return r.node c (.variableDeclarator id init)

def declaration (kind : String) (c : Cst) : Reading Node := do
  let bindings := c.named.filter fun d => d.kind == "variable_declarator"
  return r.node c (.variableDeclaration kind (← bindings.mapM r.variableDeclarator))

def lexicalDeclaration (c : Cst) : Reading Node := do r.declaration (← firstKind c) c

/-- The else branch is read before the condition and the other branch. -/
def ifStatement (c : Cst) : Reading Node := do
  let alternate ← (c.field? "alternative").mapM r.readFirst
  let test ← r.unparenthesized (← r.require c "condition")
  let consequent ← r.readField c "consequence"
  return r.node c (.ifStatement test consequent alternate)

def whileStatement (c : Cst) : Reading Node := do
  let test ← r.unparenthesized (← r.require c "condition")
  return r.node c (.whileStatement test (← r.readField c "body"))

def doStatement (c : Cst) : Reading Node := do
  let body ← r.readField c "body"
  let test ← r.unparenthesized (← r.require c "condition")
  return r.node c (.doWhileStatement body test)

/-- A clause in the head of a loop; punctuation alone is no clause. -/
def forClause (c : Option Cst) : Reading (Option Node) :=
  match c with
  | none => .ok none
  | some c =>
    if c.kind == "empty_statement" || !c.mark.isNamed then .ok none
    else if c.kind == "expression_statement" then do return some (← r.readFirst c)
    else do return some (← r.read c)

def forStatement (c : Cst) : Reading Node := do
  let init ← r.forClause (c.field? "initializer")
  let test ← r.forClause (c.field? "condition")
  let update ← r.forClause (c.field? "increment")
  return r.node c (.forStatement init test update (← r.readField c "body"))

/-- What a loop over the parts of a value assigns: a pattern, or a declaration of one. -/
def forEachTarget (c target : Cst) : Reading Node := do
  let left ← r.read target
  match c.field? "kind" with
  | none => return left
  | some kind => do
    let init ← r.readOptional (c.field? "value")
    let binding := r.node target (.variableDeclarator left init)
    return .plain (r.source.span kind target) (.variableDeclaration kind.kind [binding])

def forInStatement (c : Cst) : Reading Node := do
  let left ← r.forEachTarget c (← r.require c "left")
  let operator ← r.require c "operator"
  let right ← r.readField c "right"
  let body ← r.readField c "body"
  if operator.kind == "of" then
    return r.node c (.forOfStatement left right body (c.hasToken "await"))
  else return r.node c (.forInStatement left right body)

def switchCase (c : Cst) : Reading Node := do
  if c.kind == "switch_case" then
    let test ← r.readFirst c
    return r.node c (.switchCase (some test) (← r.readAll c.named.tail))
  else if c.kind == "switch_default" then
    return r.node c (.switchCase none (← r.readAll c.named))
  else r.unsupported c

/-- The cases are read before the discriminant. -/
def switchStatement (c : Cst) : Reading Node := do
  let cases ← (← r.require c "body").named.mapM r.switchCase
  let discriminant ← r.unparenthesized (← r.require c "value")
  return r.node c (.switchStatement discriminant cases)

def catchClause (c : Cst) : Reading Node := do
  let param ← r.readOptional (c.field? "parameter")
  return r.node c (.catchClause param (← r.block (← r.require c "body")))

/-- The handlers are read before the block that they guard. -/
def tryStatement (c : Cst) : Reading Node := do
  let handler ← (c.field? "handler").mapM r.catchClause
  let finalizer ← (c.field? "finalizer").mapM fun d => do r.block (← r.require d "body")
  return r.node c (.tryStatement (← r.block (← r.require c "body")) handler finalizer)

def returnStatement (c : Cst) : Reading Node := do
  return r.node c (.returnStatement (← r.readFirst? c))

def throwStatement (c : Cst) : Reading Node := do
  return r.node c (.throwStatement (← r.readFirst c))

def breakStatement (c : Cst) : Reading Node := do
  return r.node c (.breakStatement (← r.identifier? c.named.head?))

def continueStatement (c : Cst) : Reading Node := do
  return r.node c (.continueStatement (← r.identifier? c.named.head?))

def labeledStatement (c : Cst) : Reading Node := do
  let label ← r.identifier (← r.require c "label")
  return r.node c (.labeledStatement label (← r.readField c "body"))

/-! ## Functions and classes -/

def functionDeclaration (c : Cst) : Reading Node := do
  let id ← r.identifier (← r.require c "name")
  let params ← r.params (c.field? "parameters")
  let body ← r.block (← r.require c "body")
  return r.node c (.functionDeclaration id params body (c.hasToken "async") (c.hasToken "*"))

def functionExpression (c : Cst) : Reading Node := do
  let id ← r.identifier? (c.field? "name")
  let params ← r.params (c.field? "parameters")
  let body ← r.block (← r.require c "body")
  return r.node c (.functionExpression id params body (c.hasToken "async") (c.hasToken "*"))

def arrowFunction (c : Cst) : Reading Node := do
  let params ← match c.field? "parameter" with
    | some single => do pure [← r.read single]
    | none => r.params (c.field? "parameters")
  let body ← r.readField c "body"
  return r.node c (.arrowFunctionExpression params body (c.hasToken "async"))

/-- What a class extends. -/
def heritage (c : Cst) : Reading (Option Node) :=
  (c.named.find? fun d => d.kind == "class_heritage").mapM r.readFirst

def classBody (c : Cst) : Reading Node := do
  return r.node c (.classBody (← r.readAll c.named))

def classDeclaration (c : Cst) : Reading Node := do
  r.refuseDecorators c
  let id ← r.identifier (← r.require c "name")
  let superclass ← r.heritage c
  let body ← r.classBody (← r.require c "body")
  return r.node c (.classDeclaration id superclass body)

def classExpression (c : Cst) : Reading Node := do
  r.refuseDecorators c
  let id ← r.identifier? (c.field? "name")
  let superclass ← r.heritage c
  let body ← r.classBody (← r.require c "body")
  return r.node c (.classExpression id superclass body)

/-- The kind of a method: an accessor, or a method. -/
def methodKind (c : Cst) : String :=
  if c.hasToken "get" || c.hasToken "static get" then "get"
  else if c.hasToken "set" then "set"
  else "method"

/-- The function of a method, from its parameters to its end. -/
def methodFunction (c : Cst) : Reading Node := do
  let paramsNode ← r.require c "parameters"
  let bodyNode ← r.require c "body"
  let params ← r.params paramsNode
  let body ← r.block bodyNode
  return .plain (r.source.span paramsNode bodyNode)
    (.functionExpression none params body (c.hasToken "async") (c.hasToken "*"))

def methodDefinition (c : Cst) : Reading Node := do
  r.refuseDecorators c
  let (key, isComputed) ← r.memberName (← r.require c "name")
  let value ← r.methodFunction c
  let isStatic := c.hasToken "static" || c.hasToken "static get"
  return r.node c (.methodDefinition key value (methodKind c) isStatic isComputed)

def fieldDefinition (c : Cst) : Reading Node := do
  r.refuseDecorators c
  let (key, isComputed) ← r.memberName (← r.require c "property")
  let value ← r.readOptional (c.field? "value")
  return r.node c (.propertyDefinition key value (c.hasToken "static") isComputed)

/-! ## Literals -/

/-- A string literal, by the value between its quotes. -/
def string (c : Cst) : Reading Node := do
  let raw ← r.text c
  let body := (raw.toList.drop 1).dropLast
  match Text.decodeString (Text.CodePoint.ofChars body) with
  | .ok value => return r.node c (.literal (.string value) raw)
  | .error fault => throw (.badEscape fault)

def number (c : Cst) : Reading Node := do
  let raw ← r.text c
  match numberValue raw with
  | .ok value => return r.node c (.literal (.number value) raw)
  | .error fault => throw (.badNumeral fault)

def regex (c : Cst) : Reading Node := do
  return r.node c (.literal .absent (← r.text c))

/-- The raw texts and the expressions of a template, from the end of one substitution on. -/
def templateFrom (stop : Nat) : Nat → List Cst → Reading (List String × List Node)
  | start, [] => do return ([← r.textBetween start stop], [])
  | start, c :: rest => do
    let quasi ← r.textBetween start c.mark.start
    let expression ← r.readFirst c
    let (quasis, expressions) ← templateFrom stop c.mark.stop rest
    return (quasi :: quasis, expression :: expressions)

def template (c : Cst) : Reading Node := do
  let substitutions := c.children.filter fun d =>
    d.mark.isNamed && d.kind == "template_substitution"
  let (quasis, expressions) ← r.templateFrom (c.mark.stop - 1) (c.mark.start + 1) substitutions
  return r.node c (.templateLiteral quasis expressions)

/-- The two names of a meta property stand before and after its point. -/
def metaProperty (c : Cst) : Reading Node := do
  let chars := (← r.text c).toList
  let name (cs : List Char) : Node := r.node c (.identifier (String.ofList (Text.trim cs)))
  return r.node c (.metaProperty (name (chars.takeWhile (· != '.')))
    (name (chars.dropWhile (· != '.')).tail))

/-! ## Modules -/

/-- A name that an import or export may give a second name. -/
def specifier (c : Cst) (form : Node → Option Node → Form Node) : Reading Node := do
  let name ← r.readField c "name"
  let renamed ← r.readOptional (c.field? "alias")
  return r.node c (form name renamed)

/-- A part of an import clause. -/
def importPart (c : Cst) : Reading (List Node) := do
  if c.kind == "identifier" then
    return [r.node c (.importDefaultSpecifier (← r.identifier c))]
  else if c.kind == "namespace_import" then
    return [r.node c (.importNamespaceSpecifier (← r.identifier (← firstNamed c)))]
  else if c.kind == "named_imports" then c.named.mapM fun d => r.specifier d .importSpecifier
  else r.unsupported c

/-- The names that a part of an import declaration brings in. -/
def importSpecifiers (c : Cst) : Reading (List Node) := do
  if c.kind == "import_clause" then return (← c.named.mapM r.importPart).flatten
  else if c.kind == "string" then return []
  else r.unsupported c

def importStatement (c : Cst) : Reading Node := do
  let specifiers ← c.named.mapM r.importSpecifiers
  let source ← r.string (← r.require c "source")
  return r.node c (.importDeclaration specifiers.flatten source)

/-- An export of names, of everything, or of everything under a name. -/
def exportOfNames (c : Cst) (source : Option Node) : Reading Node :=
  match c.named.find? fun d => d.kind == "export_clause" || d.kind == "namespace_export" with
  | some d =>
    if d.kind == "export_clause" then do
      let specifiers ← d.named.mapM fun e => r.specifier e .exportSpecifier
      return r.node c (.exportNamedDeclaration none specifiers source)
    else
      match source with
      | some source => do return r.node c (.exportAllDeclaration (← r.readFirst d) source)
      | none => r.unsupported c
  | none =>
    match source with
    | some source =>
      if c.hasToken "*" then .ok (r.node c (.exportAllDeclaration none source))
      else r.unsupported c
    | none => r.unsupported c

def exportStatement (c : Cst) : Reading Node := do
  r.refuseDecorators c
  let declaration := c.field? "declaration"
  if c.hasToken "default" then
    match declaration <|> c.field? "value" with
    | some target => return r.node c (.exportDefaultDeclaration (← r.read target))
    | none => r.unsupported c
  else
    match declaration with
    | some target => return r.node c (.exportNamedDeclaration (← r.read target) [] none)
    | none => do
      let source ← (c.field? "source").mapM r.string
      r.exportOfNames c source

/-! ## Expressions -/

def array (c : Cst) : Reading Node := do
  return r.node c (.arrayExpression (← r.elements c))

def arrayPattern (c : Cst) : Reading Node := do
  return r.node c (.arrayPattern (← r.elements c))

/-- A member of an object literal or pattern with its value. -/
def pair (c : Cst) : Reading Node := do
  let (key, isComputed) ← r.memberName (← r.require c "key")
  let value ← r.readField c "value"
  return r.node c (.property key value "init" false false isComputed)

/-- A method of an object literal. -/
def objectMethod (c : Cst) : Reading Node := do
  r.refuseDecorators c
  let kind := methodKind c
  let (key, isComputed) ← r.memberName (← r.require c "name")
  let value ← r.methodFunction c
  let isMethod := kind == "method"
  return r.node c (.property key value (if isMethod then "init" else kind) isMethod false
    isComputed)

/-- A name that is both the key and the value of a member. -/
def shorthand (c : Cst) : Reading Node := do
  let name ← r.identifier c
  return r.node c (.property name name "init" false true false)

/-- A shorthand of an object pattern with a default. It ends where the whole member ends. -/
def shorthandWithDefault (c : Cst) : Reading Node := do
  let left ← r.require c "left"
  if left.kind == "shorthand_property_identifier_pattern" then
    let right ← r.require c "right"
    let name ← r.identifier left
    let value := Node.plain (r.source.span left right) (.assignmentPattern name (← r.read right))
    return .plain (r.source.span left c) (.property name value "init" false true false)
  else r.unsupported c

def objectMember (c : Cst) : Reading Node :=
  if c.kind == "pair" then r.pair c
  else if c.kind == "method_definition" then r.objectMethod c
  else if c.kind == "shorthand_property_identifier" then r.shorthand c
  else r.read c

def object (c : Cst) : Reading Node := do
  return r.node c (.objectExpression (← c.named.mapM r.objectMember))

def patternMember (c : Cst) : Reading Node :=
  if c.kind == "pair_pattern" then r.pair c
  else if c.kind == "shorthand_property_identifier_pattern" then r.shorthand c
  else if c.kind == "object_assignment_pattern" then r.shorthandWithDefault c
  else r.read c

def objectPattern (c : Cst) : Reading Node := do
  return r.node c (.objectPattern (← c.named.mapM r.patternMember))

def callExpression (c : Cst) : Reading Node := do
  let callee ← r.readField c "function"
  let arguments ← r.require c "arguments"
  if arguments.kind == "template_string" then
    return r.node c (.taggedTemplateExpression callee (← r.template arguments))
  else
    return r.node c (.callExpression callee (← r.readAll arguments.named)
      (c.field? "optional_chain").isSome)

/-- The arguments are found before the constructor is read, and read after it. -/
def newExpression (c : Cst) : Reading Node := do
  let callee ← r.readField c "constructor"
  return r.node c (.newExpression callee (← r.params (c.field? "arguments")))

def memberExpression (c : Cst) : Reading Node := do
  let object ← r.readField c "object"
  let member ← r.identifier (← r.require c "property")
  return r.node c (.memberExpression object member false (c.field? "optional_chain").isSome)

def subscriptExpression (c : Cst) : Reading Node := do
  let object ← r.readField c "object"
  let index ← r.readField c "index"
  return r.node c (.memberExpression object index true (c.field? "optional_chain").isSome)

def assignment (c : Cst) : Reading Node := do
  let left ← r.readField c "left"
  return r.node c (.assignmentExpression "=" left (← r.readField c "right"))

def augmentedAssignment (c : Cst) : Reading Node := do
  let operator ← r.require c "operator"
  let left ← r.readField c "left"
  return r.node c (.assignmentExpression operator.kind left (← r.readField c "right"))

/-- The operator decides by its value whether the right operand is evaluated. -/
def isLogicalOperator (operator : String) : Bool :=
  operator == "&&" || operator == "||" || operator == "??"

/-- An operator with both operands. -/
def operation (operator : String) (left right : Node) : Form Node :=
  if isLogicalOperator operator then .logicalExpression operator left right
  else .binaryExpression operator left right

/-- The operations of a left-nested chain, the innermost first, and the operand at its left end. -/
def leftSpine (c : Cst) (above : List Cst) : Reading (List Cst × Cst) :=
  match _ : c.field? "left" with
  | none => r.unsupported c
  | some left =>
    if left.kind == "binary_expression" then leftSpine left (c :: above)
    else .ok (c :: above, left)
termination_by sizeOf c
decreasing_by exact Cst.sizeOf_lt_of_mem (Cst.mem_of_field? (by assumption))

/-- A chain of operations from left to right. -/
def binaryExpression (c : Cst) : Reading Node := do
  let (spine, operand) ← r.leftSpine c []
  let first ← r.read operand
  spine.foldlM (fun left d => do
    let operator ← r.require d "operator"
    let right ← r.readField d "right"
    return r.node d (operation operator.kind left right)) first

def unaryExpression (c : Cst) : Reading Node := do
  let operator ← r.require c "operator"
  return r.node c (.unaryExpression operator.kind (← r.readField c "argument"))

def updateExpression (c : Cst) : Reading Node := do
  let operator ← r.require c "operator"
  let argument ← r.readField c "argument"
  let first ← firstKind c
  return r.node c (.updateExpression operator.kind argument (first == "++" || first == "--"))

def ternaryExpression (c : Cst) : Reading Node := do
  let test ← r.readField c "condition"
  let consequent ← r.readField c "consequence"
  return r.node c (.conditionalExpression test consequent (← r.readField c "alternative"))

def sequenceExpression (c : Cst) : Reading Node := do
  return r.node c (.sequenceExpression (← r.readAll c.sequenceOperands))

def yieldExpression (c : Cst) : Reading Node := do
  return r.node c (.yieldExpression (← r.readFirst? c) (c.hasToken "*"))

/-- A node around its first named child. -/
def wrapped (form : Node → Form Node) (c : Cst) : Reading Node := do
  return r.node c (form (← r.readFirst c))

def assignmentPattern (c : Cst) : Reading Node := do
  let left ← r.readField c "left"
  return r.node c (.assignmentPattern left (← r.readField c "right"))

/-- A node without parts. -/
def leaf (form : Form Node) (c : Cst) : Reading Node := .ok (r.node c form)

/-! ## Dispatch -/

/-- The kinds of names. -/
def nameKinds : List String :=
  ["identifier", "property_identifier", "shorthand_property_identifier",
    "shorthand_property_identifier_pattern", "statement_identifier",
    "private_property_identifier", "undefined", "import"]

/-- The readers of statements. -/
def statementReaders : List (String × (Cst → Reading Node)) :=
  [("expression_statement", r.expressionStatement),
    ("variable_declaration", r.declaration "var"),
    ("lexical_declaration", r.lexicalDeclaration),
    ("variable_declarator", r.variableDeclarator),
    ("statement_block", r.block),
    ("empty_statement", r.leaf .emptyStatement),
    ("debugger_statement", r.leaf .debuggerStatement),
    ("if_statement", r.ifStatement),
    ("while_statement", r.whileStatement),
    ("do_statement", r.doStatement),
    ("for_statement", r.forStatement),
    ("for_in_statement", r.forInStatement),
    ("switch_statement", r.switchStatement),
    ("try_statement", r.tryStatement),
    ("return_statement", r.returnStatement),
    ("throw_statement", r.throwStatement),
    ("break_statement", r.breakStatement),
    ("continue_statement", r.continueStatement),
    ("labeled_statement", r.labeledStatement),
    ("function_declaration", r.functionDeclaration),
    ("generator_function_declaration", r.functionDeclaration),
    ("class_declaration", r.classDeclaration),
    ("import_statement", r.importStatement),
    ("export_statement", r.exportStatement)]

/-- The readers of expressions and of the parts of classes. -/
def expressionReaders : List (String × (Cst → Reading Node)) :=
  [("member_expression", r.memberExpression),
    ("call_expression", r.callExpression),
    ("string", r.string),
    ("number", r.number),
    ("binary_expression", r.binaryExpression),
    ("assignment_expression", r.assignment),
    ("this", r.leaf .thisExpression),
    ("super", r.leaf .super),
    ("true", r.leaf (.literal (.bool true) "true")),
    ("false", r.leaf (.literal (.bool false) "false")),
    ("null", r.leaf (.literal .absent "null")),
    ("regex", r.regex),
    ("template_string", r.template),
    ("meta_property", r.metaProperty),
    ("array", r.array),
    ("object", r.object),
    ("function_expression", r.functionExpression),
    ("function", r.functionExpression),
    ("generator_function", r.functionExpression),
    ("arrow_function", r.arrowFunction),
    ("class", r.classExpression),
    ("class_body", r.classBody),
    ("method_definition", r.methodDefinition),
    ("field_definition", r.fieldDefinition),
    ("new_expression", r.newExpression),
    ("subscript_expression", r.subscriptExpression),
    ("augmented_assignment_expression", r.augmentedAssignment),
    ("unary_expression", r.unaryExpression),
    ("update_expression", r.updateExpression),
    ("ternary_expression", r.ternaryExpression),
    ("sequence_expression", r.sequenceExpression),
    ("parenthesized_expression", r.wrapped .parenthesizedExpression),
    ("spread_element", r.wrapped .spreadElement),
    ("await_expression", r.wrapped .awaitExpression),
    ("yield_expression", r.yieldExpression)]

/-- The readers of patterns. -/
def patternReaders : List (String × (Cst → Reading Node)) :=
  [("array_pattern", r.arrayPattern),
    ("object_pattern", r.objectPattern),
    ("assignment_pattern", r.assignmentPattern),
    ("rest_pattern", r.wrapped .restElement)]

/-- The reader for a kind of concrete node. -/
def readerFor? (kind : String) : Option (Cst → Reading Node) :=
  if nameKinds.contains kind then some r.identifier
  else (r.statementReaders ++ r.expressionReaders ++ r.patternReaders).lookup kind

/-- Reads a node by the reader for its kind. -/
def dispatch (c : Cst) : Reading Node :=
  match r.readerFor? c.kind with
  | some reader => reader c
  | none => r.unsupported c

end Reader

/-! ## Programs -/

/-- How deeply nodes may nest. -/
def maxNesting : Nat := 1000

namespace Source

/-- Reads a node that may nest up to the given depth. -/
def readNode (s : Source) : Nat → Cst → Reading Node
  | 0, _ => .error .tooDeep
  | depth + 1, c => Reader.dispatch ⟨s, readNode s depth⟩ c

/-- The reader of a source text. -/
def reader (s : Source) : Reader := ⟨s, s.readNode maxNesting⟩

/-- The program of a concrete tree. It spans the whole text. -/
def readProgram (s : Source) (root : Cst) : Reading Node := do
  let body ← s.reader.readAll (root.named.filter fun c => c.kind != "hash_bang_line")
  return .plain ⟨0, s.bytes.size, 1⟩ (.program body "")

/-- A comment. White space at the end of a line comment is no part of it. -/
def readComment (s : Source) (c : Cst) : Reading Comment := do
  let text := (← s.reader.text c).toList
  let mark := c.mark
  match text with
  | '/' :: '/' :: value =>
    return ⟨.line, String.ofList (Text.trimEnd value), mark.start, mark.stop, s.line mark.start⟩
  | '/' :: '*' :: value =>
    return ⟨.block, String.ofList (value.take (value.length - 2)), mark.start, mark.stop,
      s.line mark.start⟩
  | _ => s.reader.unsupported c

/-- The comments of a concrete tree in the order of their starts. -/
def readComments (s : Source) (root : Cst) : Reading (List Comment) := do
  return Comment.sorted (← root.commentNodes.mapM s.readComment)

/-! ## Errors -/

/-- The most characters that a message quotes. -/
def maxQuoted : Nat := 30

/-- What a message quotes of a text: the start of its first line, or nothing if it is blank. -/
def quoted (text : List Char) : Reading (List Char) :=
  if text.isEmpty then .ok []
  else
    match Text.lines text with
    | line :: _ => .ok (line.take maxQuoted)
    | [] => .error .missingChild

/-- What is wrong at a node in error. -/
def problemAt (s : Source) (c : Cst) : Reading String :=
  if c.mark.isMissing then .ok ("missing " ++ Text.shown c.kind)
  else do
    let snippet ← quoted (Text.trim (Text.decodeLossy (s.slice c.mark.start c.mark.stop)))
    if snippet.isEmpty then return "unexpected end of input"
    else return "unexpected " ++ Text.shown (String.ofList snippet)

/-- Fails at a tree that holds an error. -/
def refuse {α : Type} (s : Source) (root : Cst) : Reading α := do
  let bad := root.firstError?.getD root
  throw (.malformed (s.position bad.mark.start) (← s.problemAt bad))

/-- Reads the program and the comments of a concrete tree. -/
def readTree (s : Source) (root : Cst) : Reading (Node × List Comment) :=
  if root.mark.hasError then s.refuse root
  else do
    let program ← s.readProgram root
    return (program, ← s.readComments root)

end Source

end ScriptTidy
