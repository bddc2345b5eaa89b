/-
The grammar of statements and declarations, those of modules among them. A module's imports and
exports may stand wherever a statement may.
-/
import ScriptTidy.Grammar.Expression

namespace ScriptTidy.Grammar.Statement

open Parsing Expression

variable (below : Below)

/-! ## Parts -/

/-- An expression in parentheses that belong to the syntax of a statement. -/
def head : Parsing Cst := do
  let start ← startOffset
  let _ ← expect "("
  let inner ← below (.expression true)
  let _ ← expect ")"
  finish "parenthesized_expression" start [inner]

/-- A statement that is a part of another one. -/
def body : Parsing Cst := do
  skipMarkupComments
  below .statement

/-- A node that ends with its semicolon. -/
def terminated (kind : String) (start : Nat) (children : List Cst) : Parsing Cst := do
  semicolon
  finish kind start children

/-! ## Declarations of variables -/

/-- A binding with its value, if it has one. -/
def declarator (allowIn : Bool) : Parsing Cst := do
  let start ← startOffset
  let target ← below .binding
  let value ←
    if ← accept "=" then pure [playing "value" (← below (.assignment allowIn))] else pure []
  finish "variable_declarator" start (playing "name" target :: value)

/-- Further bindings, each after a comma. -/
def moreDeclarators (allowIn : Bool) : Parsing (List Cst) :=
  collect do if ← accept "," then return some (← declarator below allowIn) else return none

/-- The kind of node for a declaration that starts with the given word. -/
def declarationKind (word : String) : String :=
  if word == "var" then "variable_declaration" else "lexical_declaration"

/-- A declaration of variables. -/
def variableDeclaration : Parsing Cst := do
  let word ← advance
  let first ← declarator below true
  let rest ← moreDeclarators below true
  terminated (declarationKind word.text) word.start (word.toCst :: first :: rest)

/-- The token starts a declaration of variables, by the token after it. -/
def startsVariables (t followed : Token) : Bool :=
  t.is "var" || t.is "const" ||
    (t.is "let" &&
      (followed.is "[" || followed.is "\x7b" || followed.isFreeName))

/-! ## Conditions and loops -/

def ifStatement : Parsing Cst := do
  let word ← advance
  let test ← head below
  let consequent ← body below
  let other ← startOffset
  let alternative ←
    if ← accept "else" then
      let inner ← body below
      pure [playing "alternative" (← finish "else_clause" other [inner])]
    else pure []
  finish "if_statement" word.start
    ([playing "condition" test, playing "consequence" consequent] ++ alternative)

def whileStatement : Parsing Cst := do
  let word ← advance
  let test ← head below
  let inner ← body below
  finish "while_statement" word.start [playing "condition" test, playing "body" inner]

/-- The semicolon after the condition may always be missing. -/
def doStatement : Parsing Cst := do
  let word ← advance
  let inner ← body below
  let _ ← expect "while"
  let test ← head below
  let _ ← accept ";"
  finish "do_statement" word.start [playing "body" inner, playing "condition" test]

/-- An expression that may be missing before a closing mark, which is passed. -/
def clause (field closing : String) : Parsing (List Cst) := do
  if ← accept closing then return []
  else
    let inner ← below (.expression true)
    let _ ← expect closing
    return [playing field inner]

/-- The rest of a loop with three clauses, after the first semicolon. -/
def forRest (start : Nat) (init : List Cst) : Parsing Cst := do
  let test ← clause below "condition" ";"
  let update ← clause below "increment" ")"
  let inner ← body below
  finish "for_statement" start (init ++ test ++ update ++ [playing "body" inner])

/-- The rest of a loop over the parts of a value, from the operator on. -/
def forEachRest (start : Nat) (front : List Cst) : Parsing Cst := do
  let operator ← advance
  let right ← if operator.is "of" then below (.assignment true) else below (.expression true)
  let _ ← expect ")"
  let inner ← body below
  finish "for_in_statement" start
    (front ++ [playing "operator" operator.toCst, playing "right" right, playing "body" inner])

/-- The operator of a loop over the parts of a value comes next. -/
def seesForEach : Parsing Bool := return (← sees "in") || (← sees "of")

/-- A loop that declares a variable in its head. -/
def forDeclaration (start : Nat) (marks : List Cst) : Parsing Cst := do
  let word ← advance
  let bindingStart ← startOffset
  let target ← below .binding
  let value ←
    if ← accept "=" then pure [playing "value" (← below (.assignment false))] else pure []
  if ← seesForEach then
    forEachRest below start
      (marks ++ [playing "kind" word.toCst, playing "left" target] ++ value)
  else
    let first ← finish "variable_declarator" bindingStart (playing "name" target :: value)
    let rest ← moreDeclarators below false
    let _ ← expect ";"
    let init ← finish (declarationKind word.text) word.start (word.toCst :: first :: rest)
    forRest below start [playing "initializer" init]

/-- A loop of either style. -/
def forStatement : Parsing Cst := do
  let word ← advance
  let marks ← acceptToken "await"
  let _ ← expect "("
  if ← accept ";" then forRest below word.start []
  else if startsVariables (← token) (← following) then forDeclaration below word.start marks
  else
    let init ← below (.expression false)
    if ← seesForEach then
      match toPattern? false init with
      | some target => forEachRest below word.start (marks ++ [playing "left" target])
      | none => refuse
    else
      let _ ← expect ";"
      forRest below word.start [playing "initializer" init]

/-! ## Switches -/

/-- The statements of a case, up to the next case or the end of the switch. -/
def caseBody : Parsing (List Cst) :=
  collect do
    skipMarkupComments
    if (← sees "case") || (← sees "default") || (← sees "\x7d") then return none
    else return some (← below .statement)

/-- A case of a switch. -/
def switchCase : Parsing Cst := do
  let start ← startOffset
  if ← accept "default" then
    let _ ← expect ":"
    let statements ← caseBody below
    finish "switch_default" start statements
  else
    let _ ← expect "case"
    let test ← below (.expression true)
    let _ ← expect ":"
    let statements ← caseBody below
    finish "switch_case" start (playing "value" test :: statements)

def switchStatement : Parsing Cst := do
  let word ← advance
  let value ← head below
  let start ← startOffset
  let _ ← expect "\x7b"
  let cases ← membersUntil "\x7d" (switchCase below)
  let inner ← finish "switch_body" start cases
  finish "switch_statement" word.start [playing "value" value, playing "body" inner]

/-! ## Jumps and exceptions -/

/-- The expression of a return statement, if it stands on the line. -/
def returned : Parsing (List Cst) := do
  let t ← token
  if t.is ";" || t.is "\x7d" || t.kind == .finish || t.afterLineEnd then return []
  else return [← below (.expression true)]

def returnStatement : Parsing Cst := do
  let word ← advance
  let argument ← returned below
  terminated "return_statement" word.start (word.toCst :: argument)

def throwStatement : Parsing Cst := do
  let word ← advance
  if (← token).afterLineEnd then refuse
  else
    let argument ← below (.expression true)
    terminated "throw_statement" word.start [word.toCst, argument]

/-- A jump, to a label if one stands on the line. -/
def jump (kind : String) : Parsing Cst := do
  let word ← advance
  let t ← token
  let label ←
    if t.isFreeName && !t.afterLineEnd then pure [(← advance).leaf "statement_identifier"]
    else pure []
  terminated kind word.start (word.toCst :: label)

/-- What follows the word catch. -/
def catchClause : Parsing Cst := do
  let word ← advance
  let param ←
    if ← accept "(" then
      let target ← below .binding
      let _ ← expect ")"
      pure [playing "parameter" target]
    else pure []
  let inner ← block below
  finish "catch_clause" word.start (param ++ [playing "body" inner])

/-- What follows the word finally. -/
def finallyClause : Parsing Cst := do
  let word ← advance
  let inner ← block below
  finish "finally_clause" word.start [playing "body" inner]

/-- A block with a catch clause, a final block, or both. -/
def tryStatement : Parsing Cst := do
  let word ← advance
  let inner ← block below
  let handler ← if ← sees "catch" then pure [playing "handler" (← catchClause below)] else pure []
  let finalizer ←
    if ← sees "finally" then pure [playing "finalizer" (← finallyClause below)] else pure []
  if (handler ++ finalizer).isEmpty then refuse
  else finish "try_statement" word.start ([playing "body" inner] ++ handler ++ finalizer)

/-! ## Functions and classes -/

/-- A function declaration, after an optional word async. Its name may be missing only in a default
export. -/
def functionDeclaration (start : Nat) (marks : List Cst) (needsName : Bool) : Parsing Cst := do
  let c ← function below "function_declaration" start marks
  if (c.field? "name").isSome then return c
  else if needsName then refuse
  else return .node { c.mark with kind := "function_expression" } c.children

/-- A class declaration, after its decorators. Its name may be missing only in a default export. -/
def classDeclaration (start : Nat) (decorated : List Cst) (needsName : Bool) : Parsing Cst := do
  let c ← classNode below "class_declaration" start decorated
  if (c.field? "name").isSome then return c
  else if needsName then refuse
  else return .node { c.mark with kind := "class" } c.children

/-! ## Modules -/

/-- The word after which the source of an import or export stands, and the source. -/
def source : Parsing Cst := do
  let _ ← expect "from"
  if (← token).kind = .string then return playing "source" ((← advance).leaf "string") else refuse

/-- A name in an import or export clause: any word, or a string. The word default is no name. -/
def exportedName (field : String) : Parsing Cst := do
  let t ← token
  if t.is "default" then return playing field (← advance).toCst
  else if t.kind = .string then return playing field ((← advance).leaf "string")
  else return playing field (← anyName "identifier")

/-- A name in an import clause, with the name that it is bound to. -/
def importSpecifier : Parsing Cst := do
  let t ← token
  let name ← exportedName "name"
  let renamed ← if ← accept "as" then pure [playing "alias" (← identifier)] else pure []
  if renamed.isEmpty && !t.isFreeName then refuse
  else finish "import_specifier" t.start (name :: renamed)

/-- The names of an import clause in braces. -/
def namedImports : Parsing Cst := do
  let start ← startOffset
  let _ ← expect "\x7b"
  finish "named_imports" start (← commaList "\x7d" importSpecifier)

/-- A module as a whole, under a name. -/
def namespaceImport : Parsing Cst := do
  let start ← startOffset
  let _ ← expect "*"
  let _ ← expect "as"
  let name ← identifier
  finish "namespace_import" start [name]

/-- What an import clause can end with. -/
def importNames : Parsing Cst := do
  if ← sees "*" then namespaceImport else namedImports

/-- What an import declaration brings in. -/
def importClause : Parsing Cst := do
  let start ← startOffset
  let parts ←
    if (← token).isFreeName then
      let name ← identifier
      if ← accept "," then pure [name, ← importNames] else pure [name]
    else pure [← importNames]
  finish "import_clause" start parts

/-- Attributes of an import, after its source. -/
def importAttribute : Parsing (List Cst) := do
  let start ← startOffset
  if ← accept "with" then
    let inner ← object below
    return [← finish "import_attribute" start [inner]]
  else return []

def importStatement : Parsing Cst := do
  let word ← advance
  let parts ←
    if (← token).kind = .string then pure [playing "source" ((← advance).leaf "string")]
    else
      let names ← importClause
      pure [names, ← source]
  let extra ← importAttribute below
  terminated "import_statement" word.start (word.toCst :: parts ++ extra)

/-- A name in an export clause, with the name that it is known by outside. -/
def exportSpecifier : Parsing Cst := do
  let start ← startOffset
  let name ← exportedName "name"
  let renamed ← if ← accept "as" then pure [← exportedName "alias"] else pure []
  finish "export_specifier" start (name :: renamed)

/-- An export of names, possibly of another module. -/
def exportNames (start : Nat) (front : List Cst) : Parsing Cst := do
  let clauseStart ← startOffset
  let _ ← expect "\x7b"
  let clause ← finish "export_clause" clauseStart (← commaList "\x7d" exportSpecifier)
  let origin ← if ← sees "from" then pure [← source] else pure []
  terminated "export_statement" start (front ++ [clause] ++ origin)

/-- An export of all names of another module, from the star on. -/
def exportAll (start : Nat) (front : List Cst) : Parsing Cst := do
  let star ← advance
  let parts ←
    if ← accept "as" then
      let name ← exportedName ""
      pure [makeNode "namespace_export" star.start name.mark.stop [star.toCst, name]]
    else pure [star.toCst]
  let origin ← source
  terminated "export_statement" start (front ++ parts ++ [origin])

/-- An export of a single value. -/
def exportDefault (start : Nat) (front : List Cst) : Parsing Cst := do
  let t ← token
  let followed ← following
  let declared (c : Cst) : Parsing Cst := do
    let field := if (c.field? "name").isSome then "declaration" else "value"
    finish "export_statement" start (front ++ [playing field c])
  if t.is "function" then declared (← functionDeclaration below t.start [] false)
  else if t.is "async" && followed.is "function" && !followed.afterLineEnd then
    let word ← advance
    declared (← functionDeclaration below t.start [word.toCst] false)
  else if t.is "class" || t.is "@" then
    let decorated ← decorators below
    declared (← classDeclaration below t.start decorated false)
  else
    let value ← below (.assignment true)
    terminated "export_statement" start (front ++ [playing "value" value])

/-- An export, after its decorators. -/
def exportStatement (start : Nat) (decorated : List Cst) : Parsing Cst := do
  let word ← advance
  let front := decorated ++ [word.toCst]
  let t ← token
  if t.is "default" then
    let mark ← advance
    exportDefault below start (front ++ [mark.toCst])
  else if t.is "\x7b" then exportNames start front
  else if t.is "*" then exportAll start front
  else
    let isDeclaration := ["var", "let", "const", "function", "class", "async", "@"].any t.is
    if isDeclaration then
      let declaration ← below .statement
      if ["expression_statement", "labeled_statement"].contains declaration.kind then refuse
      else finish "export_statement" start (front ++ [playing "declaration" declaration])
    else refuse

/-! ## Statements -/

/-- A statement whose first expression starts with a name: it may be a label. -/
def labeled : Parsing Cst := do
  let label := (← advance).leaf "statement_identifier"
  let _ ← expect ":"
  let inner ← body below
  finish "labeled_statement" label.mark.start [playing "label" label, playing "body" inner]

def expressionStatement : Parsing Cst := do
  let inner ← expression below true
  terminated "expression_statement" inner.mark.start [inner]

/-- A statement with an object whose parts are in scope. -/
def withStatement : Parsing Cst := do
  let word ← advance
  let object ← head below
  let inner ← body below
  finish "with_statement" word.start [playing "object" object, playing "body" inner]

/-- A statement that is a single word. -/
def wordStatement (kind : String) : Parsing Cst := do
  let word ← advance
  terminated kind word.start []

/-- A class or an export with decorators. -/
def decorated : Parsing Cst := do
  let start ← startOffset
  let marks ← decorators below
  if ← sees "export" then exportStatement below start marks
  else classDeclaration below start marks true

/-- The statements that a word starts. -/
def byWord : List (String × Parsing Cst) :=
  [("if", ifStatement below),
    ("for", forStatement below),
    ("while", whileStatement below),
    ("do", doStatement below),
    ("continue", jump "continue_statement"),
    ("break", jump "break_statement"),
    ("return", returnStatement below),
    ("with", withStatement below),
    ("switch", switchStatement below),
    ("throw", throwStatement below),
    ("try", tryStatement below),
    ("debugger", wordStatement "debugger_statement")]

/-- A statement. -/
def statement : Parsing Cst := do
  skipMarkupComments
  let t ← token
  let followed ← following
  match byWord below |>.lookup t.text with
  | some parser => parser
  | none =>
    if t.is "\x7b" then braces below (expressionStatement below)
    else if t.is ";" then return (← advance).leaf "empty_statement"
    else if startsVariables t followed then variableDeclaration below
    else if t.is "function" then functionDeclaration below t.start [] true
    else if t.is "async" && followed.is "function" && !followed.afterLineEnd then
      let word ← advance
      functionDeclaration below t.start [word.toCst] true
    else if t.is "class" then classDeclaration below t.start [] true
    else if t.is "@" then decorated below
    else if t.is "import" && !followed.is "(" && !followed.is "." then importStatement below
    else if t.is "export" then exportStatement below t.start []
    else if t.isFreeName && followed.is ":" then labeled below
    else expressionStatement below

end ScriptTidy.Grammar.Statement
