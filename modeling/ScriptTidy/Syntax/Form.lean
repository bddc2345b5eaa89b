/-
The kinds of node of a script's syntax tree. `Form` lists them with their parts, over a type for the
children, so that it can be instantiated with nodes, with nodes next to results, or with results
alone. The parts that are nodes stand in the order of their text; `children`, `map` and `traverse`
visit them in that order.
-/
import ScriptTidy.Syntax.Comment
import ScriptTidy.Syntax.Literal

namespace ScriptTidy

/-- A kind of node with its parts. -/
inductive Form (α : Type) where
  /-- A whole script or module, with the text of its first line when that names an interpreter. -/
  | program (body : List α) (hashbang : String)
  /-- Statements in braces. -/
  | blockStatement (body : List α)
  /-- A semicolon standing alone. -/
  | emptyStatement
  | debuggerStatement
  | expressionStatement (expression : α)
  | ifStatement (test consequent : α) (alternate : Option α)
  | whileStatement (test body : α)
  | doWhileStatement (body test : α)
  /-- A loop with up to three clauses in its head. -/
  | forStatement (init test update : Option α) (body : α)
  | forInStatement (left right body : α)
  | forOfStatement (left right body : α) (isAwait : Bool)
  /-- One case of a switch; the default case has no test. -/
  | switchCase (test : Option α) (consequent : List α)
  | switchStatement (discriminant : α) (cases : List α)
  | catchClause (param : Option α) (body : α)
  | tryStatement (block : α) (handler finalizer : Option α)
  | returnStatement (argument : Option α)
  | throwStatement (argument : α)
  | breakStatement (label : Option α)
  | continueStatement (label : Option α)
  | labeledStatement (label body : α)
  | variableDeclarator (id : α) (init : Option α)
  /-- Bindings declared with var, let or const. -/
  | variableDeclaration (kind : String) (declarations : List α)
  | functionDeclaration (id : α) (params : List α) (body : α) (isAsync isGenerator : Bool)
  | classBody (body : List α)
  | classDeclaration (id : α) (superclass : Option α) (body : α)
  /-- A class method; the kind is method, get or set. -/
  | methodDefinition (key value : α) (kind : String) (isStatic isComputed : Bool)
  /-- A class field. -/
  | propertyDefinition (key : α) (value : Option α) (isStatic isComputed : Bool)
  | importSpecifier (imported : α) (localName : Option α)
  | importDefaultSpecifier (localName : α)
  | importNamespaceSpecifier (localName : α)
  | importDeclaration (specifiers : List α) (source : α)
  | exportSpecifier (localName : α) (exported : Option α)
  | exportNamedDeclaration (declaration : Option α) (specifiers : List α) (source : Option α)
  | exportDefaultDeclaration (declaration : α)
  | exportAllDeclaration (exported : Option α) (source : α)
  | identifier (name : String)
  /-- A literal, by its value and by its spelling. -/
  | literal (value : LiteralValue) (raw : String)
  /-- The raw texts of a template and the expressions between them. -/
  | templateLiteral (quasis : List String) (expressions : List α)
  | taggedTemplateExpression (tag quasi : α)
  | thisExpression
  | super
  /-- The form new.target or import.meta. -/
  | metaProperty (head target : α)
  /-- An array literal; a missing element is a hole. -/
  | arrayExpression (elements : List (Option α))
  /-- A member of an object literal or pattern; the kind is init, get or set. -/
  | property (key value : α) (kind : String) (isMethod isShorthand isComputed : Bool)
  | objectExpression (properties : List α)
  | functionExpression (id : Option α) (params : List α) (body : α) (isAsync isGenerator : Bool)
  | arrowFunctionExpression (params : List α) (body : α) (isAsync : Bool)
  | classExpression (id superclass : Option α) (body : α)
  | unaryExpression (operator : String) (argument : α)
  /-- An increment or decrement, before or after its operand. -/
  | updateExpression (operator : String) (argument : α) (isPrefix : Bool)
  | binaryExpression (operator : String) (left right : α)
  | logicalExpression (operator : String) (left right : α)
  | assignmentExpression (operator : String) (left right : α)
  | conditionalExpression (test consequent alternate : α)
  | sequenceExpression (expressions : List α)
  | callExpression (callee : α) (arguments : List α) (isOptional : Bool)
  | newExpression (callee : α) (arguments : List α)
  | memberExpression (object member : α) (isComputed isOptional : Bool)
  | parenthesizedExpression (expression : α)
  | spreadElement (argument : α)
  | awaitExpression (argument : α)
  | yieldExpression (argument : Option α) (isDelegate : Bool)
  | arrayPattern (elements : List (Option α))
  | objectPattern (properties : List α)
  | assignmentPattern (left right : α)
  | restElement (argument : α)

namespace Form

variable {α β : Type}

/-- The name of the kind. -/
def tag : Form α → String
  | .program .. => "program"
  | .blockStatement .. => "block_statement"
  | .emptyStatement => "empty_statement"
  | .debuggerStatement => "debugger_statement"
  | .expressionStatement .. => "expression_statement"
  | .ifStatement .. => "if_statement"
  | .whileStatement .. => "while_statement"
  | .doWhileStatement .. => "do_while_statement"
  | .forStatement .. => "for_statement"
  | .forInStatement .. => "for_in_statement"
  | .forOfStatement .. => "for_of_statement"
  | .switchCase .. => "switch_case"
  | .switchStatement .. => "switch_statement"
  | .catchClause .. => "catch_clause"
  | .tryStatement .. => "try_statement"
  | .returnStatement .. => "return_statement"
  | .throwStatement .. => "throw_statement"
  | .breakStatement .. => "break_statement"
  | .continueStatement .. => "continue_statement"
  | .labeledStatement .. => "labeled_statement"
  | .variableDeclarator .. => "variable_declarator"
  | .variableDeclaration .. => "variable_declaration"
  | .functionDeclaration .. => "function_declaration"
  | .classBody .. => "class_body"
  | .classDeclaration .. => "class_declaration"
  | .methodDefinition .. => "method_definition"
  | .propertyDefinition .. => "property_definition"
  | .importSpecifier .. => "import_specifier"
  | .importDefaultSpecifier .. => "import_default_specifier"
  | .importNamespaceSpecifier .. => "import_namespace_specifier"
  | .importDeclaration .. => "import_declaration"
  | .exportSpecifier .. => "export_specifier"
  | .exportNamedDeclaration .. => "export_named_declaration"
  | .exportDefaultDeclaration .. => "export_default_declaration"
  | .exportAllDeclaration .. => "export_all_declaration"
  | .identifier .. => "identifier"
  | .literal .. => "literal"
  | .templateLiteral .. => "template_literal"
  | .taggedTemplateExpression .. => "tagged_template_expression"
  | .thisExpression => "this_expression"
  | .super => "super"
  | .metaProperty .. => "meta_property"
  | .arrayExpression .. => "array_expression"
  | .property .. => "property"
  | .objectExpression .. => "object_expression"
  | .functionExpression .. => "function_expression"
  | .arrowFunctionExpression .. => "arrow_function_expression"
  | .classExpression .. => "class_expression"
  | .unaryExpression .. => "unary_expression"
  | .updateExpression .. => "update_expression"
  | .binaryExpression .. => "binary_expression"
  | .logicalExpression .. => "logical_expression"
  | .assignmentExpression .. => "assignment_expression"
  | .conditionalExpression .. => "conditional_expression"
  | .sequenceExpression .. => "sequence_expression"
  | .callExpression .. => "call_expression"
  | .newExpression .. => "new_expression"
  | .memberExpression .. => "member_expression"
  | .parenthesizedExpression .. => "parenthesized_expression"
  | .spreadElement .. => "spread_element"
  | .awaitExpression .. => "await_expression"
  | .yieldExpression .. => "yield_expression"
  | .arrayPattern .. => "array_pattern"
  | .objectPattern .. => "object_pattern"
  | .assignmentPattern .. => "assignment_pattern"
  | .restElement .. => "rest_element"

/-- The children, in the order of their text. Holes are skipped. -/
def children : Form α → List α
  | .program body _ => body
  | .blockStatement body => body
  | .emptyStatement => []
  | .debuggerStatement => []
  | .expressionStatement expression => [expression]
  | .ifStatement test consequent alternate => [test, consequent] ++ alternate.toList
  | .whileStatement test body => [test, body]
  | .doWhileStatement body test => [body, test]
  | .forStatement init test update body => init.toList ++ test.toList ++ update.toList ++ [body]
  | .forInStatement left right body => [left, right, body]
  | .forOfStatement left right body _ => [left, right, body]
  | .switchCase test consequent => test.toList ++ consequent
  | .switchStatement discriminant cases => [discriminant] ++ cases
  | .catchClause param body => param.toList ++ [body]
  | .tryStatement block handler finalizer => [block] ++ handler.toList ++ finalizer.toList
  | .returnStatement argument => argument.toList
  | .throwStatement argument => [argument]
  | .breakStatement label => label.toList
  | .continueStatement label => label.toList
  | .labeledStatement label body => [label, body]
  | .variableDeclarator id init => [id] ++ init.toList
  | .variableDeclaration _ declarations => declarations
  | .functionDeclaration id params body _ _ => [id] ++ params ++ [body]
  | .classBody body => body
  | .classDeclaration id superclass body => [id] ++ superclass.toList ++ [body]
  | .methodDefinition key value _ _ _ => [key, value]
  | .propertyDefinition key value _ _ => [key] ++ value.toList
  | .importSpecifier imported localName => [imported] ++ localName.toList
  | .importDefaultSpecifier localName => [localName]
  | .importNamespaceSpecifier localName => [localName]
  | .importDeclaration specifiers source => specifiers ++ [source]
  | .exportSpecifier localName exported => [localName] ++ exported.toList
  | .exportNamedDeclaration declaration specifiers source =>
    declaration.toList ++ specifiers ++ source.toList
  | .exportDefaultDeclaration declaration => [declaration]
  | .exportAllDeclaration exported source => exported.toList ++ [source]
  | .identifier _ => []
  | .literal _ _ => []
  | .templateLiteral _ expressions => expressions
  | .taggedTemplateExpression tag quasi => [tag, quasi]
  | .thisExpression => []
  | .super => []
  | .metaProperty head target => [head, target]
  | .arrayExpression elements => elements.filterMap id
  | .property key value _ _ _ _ => [key, value]
  | .objectExpression properties => properties
  | .functionExpression id params body _ _ => id.toList ++ params ++ [body]
  | .arrowFunctionExpression params body _ => params ++ [body]
  | .classExpression id superclass body => id.toList ++ superclass.toList ++ [body]
  | .unaryExpression _ argument => [argument]
  | .updateExpression _ argument _ => [argument]
  | .binaryExpression _ left right => [left, right]
  | .logicalExpression _ left right => [left, right]
  | .assignmentExpression _ left right => [left, right]
  | .conditionalExpression test consequent alternate => [test, consequent, alternate]
  | .sequenceExpression expressions => expressions
  | .callExpression callee arguments _ => [callee] ++ arguments
  | .newExpression callee arguments => [callee] ++ arguments
  | .memberExpression object member _ _ => [object, member]
  | .parenthesizedExpression expression => [expression]
  | .spreadElement argument => [argument]
  | .awaitExpression argument => [argument]
  | .yieldExpression argument _ => argument.toList
  | .arrayPattern elements => elements.filterMap id
  | .objectPattern properties => properties
  | .assignmentPattern left right => [left, right]
  | .restElement argument => [argument]

/-- Replaces every child. -/
def map (f : α → β) : Form α → Form β
  | .program body hashbang => .program (body.map f) hashbang
  | .blockStatement body => .blockStatement (body.map f)
  | .emptyStatement => .emptyStatement
  | .debuggerStatement => .debuggerStatement
  | .expressionStatement expression => .expressionStatement (f expression)
  | .ifStatement test consequent alternate => .ifStatement (f test) (f consequent) (alternate.map f)
  | .whileStatement test body => .whileStatement (f test) (f body)
  | .doWhileStatement body test => .doWhileStatement (f body) (f test)
  | .forStatement init test update body =>
    .forStatement (init.map f) (test.map f) (update.map f) (f body)
  | .forInStatement left right body => .forInStatement (f left) (f right) (f body)
  | .forOfStatement left right body isAwait => .forOfStatement (f left) (f right) (f body) isAwait
  | .switchCase test consequent => .switchCase (test.map f) (consequent.map f)
  | .switchStatement discriminant cases => .switchStatement (f discriminant) (cases.map f)
  | .catchClause param body => .catchClause (param.map f) (f body)
  | .tryStatement block handler finalizer =>
    .tryStatement (f block) (handler.map f) (finalizer.map f)
  | .returnStatement argument => .returnStatement (argument.map f)
  | .throwStatement argument => .throwStatement (f argument)
  | .breakStatement label => .breakStatement (label.map f)
  | .continueStatement label => .continueStatement (label.map f)
  | .labeledStatement label body => .labeledStatement (f label) (f body)
  | .variableDeclarator id init => .variableDeclarator (f id) (init.map f)
  | .variableDeclaration kind declarations => .variableDeclaration kind (declarations.map f)
  | .functionDeclaration id params body isAsync isGenerator =>
    .functionDeclaration (f id) (params.map f) (f body) isAsync isGenerator
  | .classBody body => .classBody (body.map f)
  | .classDeclaration id superclass body => .classDeclaration (f id) (superclass.map f) (f body)
  | .methodDefinition key value kind isStatic isComputed =>
    .methodDefinition (f key) (f value) kind isStatic isComputed
  | .propertyDefinition key value isStatic isComputed =>
    .propertyDefinition (f key) (value.map f) isStatic isComputed
  | .importSpecifier imported localName => .importSpecifier (f imported) (localName.map f)
  | .importDefaultSpecifier localName => .importDefaultSpecifier (f localName)
  | .importNamespaceSpecifier localName => .importNamespaceSpecifier (f localName)
  | .importDeclaration specifiers source => .importDeclaration (specifiers.map f) (f source)
  | .exportSpecifier localName exported => .exportSpecifier (f localName) (exported.map f)
  | .exportNamedDeclaration declaration specifiers source =>
    .exportNamedDeclaration (declaration.map f) (specifiers.map f) (source.map f)
  | .exportDefaultDeclaration declaration => .exportDefaultDeclaration (f declaration)
  | .exportAllDeclaration exported source => .exportAllDeclaration (exported.map f) (f source)
  | .identifier name => .identifier name
  | .literal value raw => .literal value raw
  | .templateLiteral quasis expressions => .templateLiteral quasis (expressions.map f)
  | .taggedTemplateExpression tag quasi => .taggedTemplateExpression (f tag) (f quasi)
  | .thisExpression => .thisExpression
  | .super => .super
  | .metaProperty head target => .metaProperty (f head) (f target)
  | .arrayExpression elements => .arrayExpression (elements.map (Option.map f))
  | .property key value kind isMethod isShorthand isComputed =>
    .property (f key) (f value) kind isMethod isShorthand isComputed
  | .objectExpression properties => .objectExpression (properties.map f)
  | .functionExpression id params body isAsync isGenerator =>
    .functionExpression (id.map f) (params.map f) (f body) isAsync isGenerator
  | .arrowFunctionExpression params body isAsync =>
    .arrowFunctionExpression (params.map f) (f body) isAsync
  | .classExpression id superclass body => .classExpression (id.map f) (superclass.map f) (f body)
  | .unaryExpression operator argument => .unaryExpression operator (f argument)
  | .updateExpression operator argument isPrefix => .updateExpression operator (f argument) isPrefix
  | .binaryExpression operator left right => .binaryExpression operator (f left) (f right)
  | .logicalExpression operator left right => .logicalExpression operator (f left) (f right)
  | .assignmentExpression operator left right => .assignmentExpression operator (f left) (f right)
  | .conditionalExpression test consequent alternate =>
    .conditionalExpression (f test) (f consequent) (f alternate)
  | .sequenceExpression expressions => .sequenceExpression (expressions.map f)
  | .callExpression callee arguments isOptional =>
    .callExpression (f callee) (arguments.map f) isOptional
  | .newExpression callee arguments => .newExpression (f callee) (arguments.map f)
  | .memberExpression object member isComputed isOptional =>
    .memberExpression (f object) (f member) isComputed isOptional
  | .parenthesizedExpression expression => .parenthesizedExpression (f expression)
  | .spreadElement argument => .spreadElement (f argument)
  | .awaitExpression argument => .awaitExpression (f argument)
  | .yieldExpression argument isDelegate => .yieldExpression (argument.map f) isDelegate
  | .arrayPattern elements => .arrayPattern (elements.map (Option.map f))
  | .objectPattern properties => .objectPattern (properties.map f)
  | .assignmentPattern left right => .assignmentPattern (f left) (f right)
  | .restElement argument => .restElement (f argument)

/-- Replaces every child by what an action makes of it, in the order of their text. -/
def traverse {m : Type → Type} [Monad m] (f : α → m β) : Form α → m (Form β)
  | .program body hashbang => do return .program (← body.mapM f) hashbang
  | .blockStatement body => do return .blockStatement (← body.mapM f)
  | .emptyStatement => pure .emptyStatement
  | .debuggerStatement => pure .debuggerStatement
  | .expressionStatement expression => do return .expressionStatement (← f expression)
  | .ifStatement test consequent alternate =>
    do return .ifStatement (← f test) (← f consequent) (← alternate.mapM f)
  | .whileStatement test body => do return .whileStatement (← f test) (← f body)
  | .doWhileStatement body test => do return .doWhileStatement (← f body) (← f test)
  | .forStatement init test update body =>
    do return .forStatement (← init.mapM f) (← test.mapM f) (← update.mapM f) (← f body)
  | .forInStatement left right body => do return .forInStatement (← f left) (← f right) (← f body)
  | .forOfStatement left right body isAwait =>
    do return .forOfStatement (← f left) (← f right) (← f body) isAwait
  | .switchCase test consequent => do return .switchCase (← test.mapM f) (← consequent.mapM f)
  | .switchStatement discriminant cases =>
    do return .switchStatement (← f discriminant) (← cases.mapM f)
  | .catchClause param body => do return .catchClause (← param.mapM f) (← f body)
  | .tryStatement block handler finalizer =>
    do return .tryStatement (← f block) (← handler.mapM f) (← finalizer.mapM f)
  | .returnStatement argument => do return .returnStatement (← argument.mapM f)
  | .throwStatement argument => do return .throwStatement (← f argument)
  | .breakStatement label => do return .breakStatement (← label.mapM f)
  | .continueStatement label => do return .continueStatement (← label.mapM f)
  | .labeledStatement label body => do return .labeledStatement (← f label) (← f body)
  | .variableDeclarator id init => do return .variableDeclarator (← f id) (← init.mapM f)
  | .variableDeclaration kind declarations =>
    do return .variableDeclaration kind (← declarations.mapM f)
  | .functionDeclaration id params body isAsync isGenerator =>
    do return .functionDeclaration (← f id) (← params.mapM f) (← f body) isAsync isGenerator
  | .classBody body => do return .classBody (← body.mapM f)
  | .classDeclaration id superclass body =>
    do return .classDeclaration (← f id) (← superclass.mapM f) (← f body)
  | .methodDefinition key value kind isStatic isComputed =>
    do return .methodDefinition (← f key) (← f value) kind isStatic isComputed
  | .propertyDefinition key value isStatic isComputed =>
    do return .propertyDefinition (← f key) (← value.mapM f) isStatic isComputed
  | .importSpecifier imported localName =>
    do return .importSpecifier (← f imported) (← localName.mapM f)
  | .importDefaultSpecifier localName => do return .importDefaultSpecifier (← f localName)
  | .importNamespaceSpecifier localName => do return .importNamespaceSpecifier (← f localName)
  | .importDeclaration specifiers source =>
    do return .importDeclaration (← specifiers.mapM f) (← f source)
  | .exportSpecifier localName exported =>
    do return .exportSpecifier (← f localName) (← exported.mapM f)
  | .exportNamedDeclaration declaration specifiers source =>
    do return .exportNamedDeclaration (← declaration.mapM f) (← specifiers.mapM f)
          (← source.mapM f)
  | .exportDefaultDeclaration declaration => do return .exportDefaultDeclaration (← f declaration)
  | .exportAllDeclaration exported source =>
    do return .exportAllDeclaration (← exported.mapM f) (← f source)
  | .identifier name => pure (.identifier name)
  | .literal value raw => pure (.literal value raw)
  | .templateLiteral quasis expressions => do return .templateLiteral quasis (← expressions.mapM f)
  | .taggedTemplateExpression tag quasi => do return .taggedTemplateExpression (← f tag) (← f quasi)
  | .thisExpression => pure .thisExpression
  | .super => pure .super
  | .metaProperty head target => do return .metaProperty (← f head) (← f target)
  | .arrayExpression elements => do return .arrayExpression (← elements.mapM (Option.mapM f))
  | .property key value kind isMethod isShorthand isComputed =>
    do return .property (← f key) (← f value) kind isMethod isShorthand isComputed
  | .objectExpression properties => do return .objectExpression (← properties.mapM f)
  | .functionExpression id params body isAsync isGenerator =>
    do return .functionExpression (← id.mapM f) (← params.mapM f) (← f body) isAsync isGenerator
  | .arrowFunctionExpression params body isAsync =>
    do return .arrowFunctionExpression (← params.mapM f) (← f body) isAsync
  | .classExpression id superclass body =>
    do return .classExpression (← id.mapM f) (← superclass.mapM f) (← f body)
  | .unaryExpression operator argument => do return .unaryExpression operator (← f argument)
  | .updateExpression operator argument isPrefix =>
    do return .updateExpression operator (← f argument) isPrefix
  | .binaryExpression operator left right =>
    do return .binaryExpression operator (← f left) (← f right)
  | .logicalExpression operator left right =>
    do return .logicalExpression operator (← f left) (← f right)
  | .assignmentExpression operator left right =>
    do return .assignmentExpression operator (← f left) (← f right)
  | .conditionalExpression test consequent alternate =>
    do return .conditionalExpression (← f test) (← f consequent) (← f alternate)
  | .sequenceExpression expressions => do return .sequenceExpression (← expressions.mapM f)
  | .callExpression callee arguments isOptional =>
    do return .callExpression (← f callee) (← arguments.mapM f) isOptional
  | .newExpression callee arguments => do return .newExpression (← f callee) (← arguments.mapM f)
  | .memberExpression object member isComputed isOptional =>
    do return .memberExpression (← f object) (← f member) isComputed isOptional
  | .parenthesizedExpression expression => do return .parenthesizedExpression (← f expression)
  | .spreadElement argument => do return .spreadElement (← f argument)
  | .awaitExpression argument => do return .awaitExpression (← f argument)
  | .yieldExpression argument isDelegate =>
    do return .yieldExpression (← argument.mapM f) isDelegate
  | .arrayPattern elements => do return .arrayPattern (← elements.mapM (Option.mapM f))
  | .objectPattern properties => do return .objectPattern (← properties.mapM f)
  | .assignmentPattern left right => do return .assignmentPattern (← f left) (← f right)
  | .restElement argument => do return .restElement (← f argument)

/-- The children of a mapped form are the mapped children. -/
theorem children_map (f : α → β) (form : Form α) : (form.map f).children = form.children.map f := by
  cases form <;> simp [map, children, List.filterMap_map, List.map_filterMap, Option.toList_map]

end Form

end ScriptTidy
