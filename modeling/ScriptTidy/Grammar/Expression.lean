/-
The grammar of expressions and binding patterns. Every parser here takes the parser of the parts
below its own, by the goal it is to reach; `Script.lean` ties the knot. Parts that nest without
brackets on the right, such as chains of operators, calls and prefixes, are read in loops.
-/
import ScriptTidy.Grammar.Operation
import ScriptTidy.Grammar.Target

namespace ScriptTidy.Grammar

/-- What is to be read. Where a loop over the keys of a value can be meant, the operator in is left
out of expressions. -/
inductive Goal where
  | statement
  | expression (allowIn : Bool)
  | assignment (allowIn : Bool)
  | binding
  | construction
  | markup
deriving DecidableEq, Repr

/-- How the parts below are read. -/
abbrev Below := Goal → Parsing Cst

namespace Expression

open Parsing

variable (below : Below)

/-! ## Names -/

/-- A name that can be declared or referred to. -/
def identifier : Parsing Cst := do
  if (← token).isFreeName then return (← advance).leaf "identifier" else refuse

/-- A name of any spelling. -/
def anyName (kind : String) : Parsing Cst := do
  if (← token).kind = .name then return (← advance).leaf kind else refuse

/-- The name of a member. -/
def memberName : Parsing Cst := do
  let t ← token
  match t.kind with
  | .name => return (← advance).leaf "property_identifier"
  | .privateName => return (← advance).leaf "private_property_identifier"
  | .string => return (← advance).leaf "string"
  | .number => return (← advance).leaf "number"
  | _ =>
    let _ ← expect "["
    let inner ← below (.assignment true)
    let _ ← expect "]"
    finish "computed_property_name" t.start [inner]

/-! ## Templates -/

/-- A template with what is known of it so far: its first offset, and the text after it. Fails at a
broken escape, unless the template has a tag. -/
def templateParts (isTagged : Bool) : Nat → Cursor → Parsing (List Cst)
  | 0, _ => refuse
  | budget + 1, c => do
    match templatePiece? c.chars with
    | none => refuse
    | some piece =>
      if !(piece.isValid || isTagged) then refuse
      else
        let stop := c.offset + byteLength piece.text
        if piece.isLast then
          moveTo ⟨piece.rest, stop + 1⟩
          return []
        else
          moveTo ⟨piece.rest, stop + 2⟩
          let inner ← below (.expression true)
          if ← sees "\x7d" then
            let s ← get
            let substitution := makeNode "template_substitution" stop s.token.stop [inner]
            return substitution :: (← templateParts isTagged budget s.next)
          else refuse

/-- A template. -/
def template (isTagged : Bool) : Parsing Cst := do
  let s ← get
  let parts ← templateParts below isTagged s.budget s.next
  finish "template_string" s.token.start parts

/-! ## Patterns -/

/-- A binding pattern with a default, if there is one. -/
def bindingElement : Parsing Cst := do
  let target ← below .binding
  if ← accept "=" then
    let value ← below (.assignment true)
    return makeNode "assignment_pattern" target.mark.start value.mark.stop
      [playing "left" target, playing "right" value]
  else return target

/-- The binding pattern for all that remains. -/
def bindingRest : Parsing Cst := do
  let start ← startOffset
  let _ ← expect "..."
  let target ← below .binding
  finish "rest_pattern" start [target]

/-- The binding pattern for all that remains, which is the last member. -/
def lastBindingRest (closing : String) : Parsing Cst := do
  let pattern ← bindingRest below
  if ← sees closing then return pattern else refuse

/-- The pattern of an array, after its opening bracket. -/
def arrayBinding (start : Nat) : Parsing Cst := do
  let parts ← membersUntil "]" do
    if ← sees "," then return (← advance).toCst
    else if ← sees "..." then lastBindingRest below "]"
    else
      let element ← bindingElement below
      if (← sees ",") || (← sees "]") then return element else refuse
  finish "array_pattern" start parts

/-- A member of the pattern of an object. -/
def propertyBinding : Parsing Cst := do
  let t ← token
  if t.is "..." then lastBindingRest below "\x7d"
  else
    let followed ← following
    if t.isFreeName && !followed.is ":" then
      let name := (← advance).leaf "shorthand_property_identifier_pattern"
      if ← accept "=" then
        let value ← below (.assignment true)
        finish "object_assignment_pattern" t.start [playing "left" name, playing "right" value]
      else return name
    else
      let key ← memberName below
      let _ ← expect ":"
      let value ← bindingElement below
      finish "pair_pattern" t.start [playing "key" key, playing "value" value]

/-- A pattern that binds names. -/
def binding : Parsing Cst := do
  let start ← startOffset
  if ← accept "[" then arrayBinding below start
  else if ← accept "\x7b" then
    finish "object_pattern" start (← commaList "\x7d" (propertyBinding below))
  else identifier

/-- The parameters of a function. -/
def parameters : Parsing Cst := do
  let start ← startOffset
  let _ ← expect "("
  let params ← commaList ")" do
    if ← sees "..." then lastBindingRest below ")" else bindingElement below
  finish "formal_parameters" start params

/-! ## Functions and classes -/

/-- Statements in braces. -/
def block : Parsing Cst := do
  let start ← startOffset
  let _ ← expect "\x7b"
  let body ← collect do
    skipMarkupComments
    if ← accept "\x7d" then return none else return some (← below .statement)
  finish "statement_block" start body

/-- The parameters and the body of a function. -/
def functionParts : Parsing (List Cst) := do
  let params ← parameters below
  let body ← block below
  return [playing "parameters" params, playing "body" body]

/-- A function from the word function on, after an optional word async. -/
def function (kind : String) (start : Nat) (marks : List Cst) : Parsing Cst := do
  let _ ← expect "function"
  let star ← acceptToken "*"
  let name ← if ← sees "(" then pure [] else pure [playing "name" (← identifier)]
  finish kind start (marks ++ star ++ name ++ (← functionParts below))

/-- A method from its parameters on. -/
def method (start : Nat) (marks : List Cst) (name : Cst) : Parsing Cst := do
  finish "method_definition" start (marks ++ [playing "name" name] ++ (← functionParts below))

/-- A word that marks a member, and is not itself its name. What would follow a name tells. -/
def acceptModifier (word : String) : Parsing (List Cst) := do
  let t ← token
  let followed ← following
  let endsName := followed.kind == .finish
    || (followed.kind == .mark && !(["[", "*", "\x7b"].contains followed.text))
    || (followed.is "\x7b" && word != "static")
    || (followed.is "*" && word != "async" && word != "static")
    || (followed.afterLineEnd && word == "async")
  if t.is word && !endsName then return [(← advance).toCst] else return []

/-- The words and marks in front of a member's name, other than static. -/
def memberMarks : Parsing (List Cst) := do
  let isAsync ← acceptModifier "async"
  let star ← acceptToken "*"
  if !(isAsync ++ star).isEmpty then return isAsync ++ star
  else
    let getter ← acceptModifier "get"
    if !getter.isEmpty then return getter else acceptModifier "set"

/-- A decorator: a name with members, possibly called, or an expression in parentheses. -/
def decorator : Parsing Cst := do
  let start ← startOffset
  let _ ← expect "@"
  if ← accept "(" then
    let _ ← below (.expression true)
    let _ ← expect ")"
  else
    let _ ← identifier
    let _ ← collect do
      if ← accept "." then return some (← memberNameAfterPoint) else return none
    if ← accept "(" then
      let _ ← commaList ")" do
        let _ ← accept "..."
        below (.assignment true)
  finish "decorator" start []
where
  /-- The name of a part of an object. -/
  memberNameAfterPoint : Parsing Cst := do
    if (← token).kind = .privateName then return (← advance).leaf "private_property_identifier"
    else anyName "property_identifier"

/-- The decorators in front of a class or a member. -/
def decorators : Parsing (List Cst) :=
  collect do if ← sees "@" then return some (← decorator below) else return none

/-- A field of a class, after its name. -/
def field (start : Nat) (marks : List Cst) (name : Cst) : Parsing Cst := do
  let value ← if ← accept "=" then pure [playing "value" (← below (.assignment true))] else pure []
  let node ← finish "field_definition" start (marks ++ [playing "property" name] ++ value)
  semicolon
  return node

/-- A member of a class. -/
def classMember : Parsing Cst := do
  let start ← startOffset
  let decorated ← decorators below
  let isStatic ← acceptModifier "static"
  if !isStatic.isEmpty && (← sees "\x7b") then
    let body ← block below
    finish "class_static_block" start [body]
  else
    let marks ← memberMarks
    let name ← memberName below
    let front := decorated ++ isStatic ++ marks
    if (← sees "(") || !marks.isEmpty then method below start front name
    else field below start front name

/-- The members of a class in braces. -/
def classBody : Parsing Cst := do
  let start ← startOffset
  let _ ← expect "\x7b"
  let members ← membersUntil "\x7d" do
    if ← accept ";" then return [] else return [← classMember below]
  finish "class_body" start members.flatten

/-! ## Arguments -/

/-- An expression, or one whose members are spread out. -/
def spreadable : Parsing Cst := do
  let start ← startOffset
  if ← accept "..." then
    let inner ← below (.assignment true)
    finish "spread_element" start [inner]
  else below (.assignment true)

/-- Arguments in parentheses. -/
def arguments : Parsing Cst := do
  let start ← startOffset
  let _ ← expect "("
  finish "arguments" start (← commaList ")" (spreadable below))

/-! ## Members and calls -/

/-- The name of a part of an object, after the point. -/
def partName : Parsing Cst := do
  if (← token).kind = .privateName then return (← advance).leaf "private_property_identifier"
  else anyName "property_identifier"

/-- A part of an object by name. -/
def memberNode (object : Cst) (marks : List Cst) : Parsing Cst := do
  let name ← partName
  finish "member_expression" object.mark.start
    ([playing "object" object] ++ marks ++ [playing "property" name])

/-- A part of an object by index, after the opening bracket. -/
def subscriptNode (object : Cst) (marks : List Cst) : Parsing Cst := do
  let index ← below (.expression true)
  let _ ← expect "]"
  finish "subscript_expression" object.mark.start
    ([playing "object" object] ++ marks ++ [playing "index" index])

/-- A call. -/
def callNode (callee : Cst) (marks : List Cst) : Parsing Cst := do
  let args ← arguments below
  finish "call_expression" callee.mark.start
    ([playing "function" callee] ++ marks ++ [playing "arguments" args])

/-- One more part of an object or tag of a template after an expression. -/
def extendMember (c : Cst) : Parsing (Option Cst) := do
  if ← accept "." then return some (← memberNode c [])
  else if ← accept "[" then return some (← subscriptNode below c [])
  else if ← sees "\x60" then
    let quasi ← template below true
    return some (← finish "call_expression" c.mark.start
      [playing "function" c, playing "arguments" quasi])
  else return none

/-- One more part of an object, call or tag of a template after an expression. -/
def extendCall (c : Cst) : Parsing (Option Cst) := do
  if c.kind == "arrow_function" then return none
  else if ← sees "(" then return some (← callNode below c [])
  else if ← sees "?." then
    let chain := playing "optional_chain" (← advance).toCst
    if ← sees "(" then return some (← callNode below c [chain])
    else if ← accept "[" then return some (← subscriptNode below c [chain])
    else return some (← memberNode c [chain])
  else extendMember below c

/-! ## Primary expressions -/

/-- What surrounds an expression: whether the operator in is allowed, and where an arrow function
may start. -/
structure Surroundings where
  allowIn : Bool
  arrowAt : Option Nat

/-- Braces that hold either an object or statements. They hold an object if what starts with a key
can be read on to its end by the parser of objects, and statements otherwise. -/
def braces (withObject : Parsing Cst) : Parsing Cst := do
  if ← seesBracedLabel then
    either (do
        let c ← withObject
        if holdsStrayDefault c then refuse else return c)
      (block below)
  else block below

/-- An arrow function from its arrow on. -/
def arrow (around : Surroundings) (start : Nat) (front : List Cst) : Parsing Cst := do
  let _ ← expect "=>"
  let value := below (.assignment around.allowIn)
  let body ← if ← sees "\x7b" then braces below value else value
  finish "arrow_function" start (front ++ [playing "body" body])

/-- An arrow can follow the token before. -/
def seesArrow : Parsing Bool := do
  let t ← token
  return t.is "=>" && !t.afterLineEnd

/-- Expressions as parameters of an arrow function. -/
def toParameters (start stop : Nat) (items : List Cst) : Parsing Cst := do
  match items.mapM (toPattern? true) with
  | some params =>
    if endsWithRest params then return makeNode "formal_parameters" start stop params else refuse
  | none => refuse

/-- Several expressions with commas between them. -/
def sequence (items : List Cst) : Parsing Cst :=
  match items with
  | [] => refuse
  | [only] => return only
  | first :: rest =>
    return makeNode "sequence_expression" first.mark.start
      ((rest.getLast?.map (·.mark.stop)).getD first.mark.stop) items

/-- An expression in parentheses, or an arrow function that starts with its parameters. -/
def parenthesized (around : Surroundings) : Parsing Cst := do
  let start ← startOffset
  let _ ← expect "("
  let items ← commaList ")" do
    let item ← spreadable below
    return (item, ← sees ",")
  let stop := (← get).last
  if around.arrowAt = some start ∧ (← seesArrow) then
    let params ← toParameters start stop (items.map (·.1))
    arrow below around start [playing "parameters" params]
  else if items.any (·.1.kind == "spread_element") || (items.getLast?.any (·.2)) then refuse
  else
    let inner ← sequence (items.map (·.1))
    return makeNode "parenthesized_expression" start stop [inner]

/-- An array literal, with the commas that tell its holes. -/
def array : Parsing Cst := do
  let start ← startOffset
  let _ ← expect "["
  let parts ← membersUntil "]" do
    if ← sees "," then return (← advance).toCst
    else
      let element ← spreadable below
      if (← sees ",") || (← sees "]") then return element else refuse
  finish "array" start parts

/-- A member of an object literal. A name alone may have a default, in case that the literal turns
out to be a pattern. -/
def objectMember : Parsing Cst := do
  let t ← token
  if t.is "..." then spreadable below
  else
    let marks ← memberMarks
    let mark ← token
    let name ← memberName below
    if (← sees "(") || !marks.isEmpty then method below t.start marks name
    else if ← accept ":" then
      let value ← below (.assignment true)
      finish "pair" t.start [playing "key" name, playing "value" value]
    else if !mark.isFreeName then refuse
    else if ← accept "=" then
      let value ← below (.assignment true)
      finish "object_assignment_pattern" t.start
        [playing "left" (mark.leaf "shorthand_property_identifier_pattern"),
          playing "right" value]
    else return mark.leaf "shorthand_property_identifier"

/-- An object literal. -/
def object : Parsing Cst := do
  let start ← startOffset
  let _ ← expect "\x7b"
  finish "object" start (← commaList "\x7d" (objectMember below))

/-- What a class extends. -/
def heritage : Parsing (List Cst) := do
  let start ← startOffset
  if ← accept "extends" then
    let first ← below .construction
    let superclass ← grow (extendCall below) first
    return [← finish "class_heritage" start [superclass]]
  else return []

/-- A class from the word class on, after its decorators. -/
def classNode (kind : String) (start : Nat) (front : List Cst) : Parsing Cst := do
  let _ ← expect "class"
  let name ←
    if (← sees "\x7b") || (← sees "extends") then pure []
    else pure [playing "name" (← identifier)]
  let superclass ← heritage below
  let body ← classBody below
  finish kind start (front ++ name ++ superclass ++ [playing "body" body])

/-- The property new.target or import.meta, from its point on. -/
def metaProperty (start : Nat) (name : String) : Parsing Cst := do
  let _ ← expect "."
  let _ ← expect name
  finish "meta_property" start []

/-- The creation of an object. Its constructor holds no call outside parentheses. -/
def creation : Parsing Cst := do
  let start ← startOffset
  let _ ← expect "new"
  if ← sees "." then metaProperty start "target"
  else
    let first ← below .construction
    let callee ← grow (extendMember below) first
    let args ← if ← sees "(" then pure [playing "arguments" (← arguments below)] else pure []
    finish "new_expression" start ([playing "constructor" callee] ++ args)

/-- The word super, which a call or a part must follow. -/
def superWord : Parsing Cst := do
  let t ← advance
  if (← sees "(") || (← sees ".") || (← sees "[") then return t.leaf "super" else refuse

/-- The word import, as a function or in import.meta. -/
def importWord : Parsing Cst := do
  let t ← advance
  if ← sees "." then metaProperty t.start "meta"
  else if ← sees "(" then return t.leaf "import"
  else refuse

/-- An arrow function with a single name as parameter. -/
def singleArrow (around : Surroundings) (start : Nat) (front : List Cst) : Parsing Cst := do
  let name ← identifier
  if ← seesArrow then arrow below around start (front ++ [playing "parameter" name]) else refuse

/-- An expression that starts with the word async: a function, an arrow function, or a name. -/
def asyncExpression (around : Surroundings) : Parsing Cst := do
  let t ← token
  let followed ← following
  if followed.is "function" && !followed.afterLineEnd then
    let word ← advance
    function below "function_expression" t.start [word.toCst]
  else if around.arrowAt = some t.start ∧ !followed.afterLineEnd then
    if followed.isFreeName && (!followed.is "of" || (← secondFollowing).is "=>") then
      let word ← advance
      singleArrow below around t.start [word.toCst]
    else if followed.is "(" then
      let word ← advance
      let args ← arguments below
      if ← seesArrow then
        let params ← toParameters args.mark.start args.mark.stop args.children
        arrow below around t.start [word.toCst, playing "parameters" params]
      else
        finish "call_expression" t.start
          [playing "function" (word.leaf "identifier"), playing "arguments" args]
    else if followed.is "=>" then singleArrow below around t.start []
    else identifier
  else identifier

/-- A regular expression, which starts at the current slash. -/
def regex : Parsing Cst := do
  let s ← get
  match regex? s.here.chars with
  | some (text, rest) =>
    let stop := s.here.offset + byteLength text
    moveTo ⟨rest, stop⟩
    return makeNode "regex" s.here.offset stop []
  | none => refuse

/-- An expression that starts with a name or a word. -/
def wordExpression (around : Surroundings) (t : Token) : Parsing Cst := do
  if t.is "this" then return (← advance).leaf "this"
  else if t.is "null" then return (← advance).leaf "null"
  else if t.is "true" then return (← advance).leaf "true"
  else if t.is "false" then return (← advance).leaf "false"
  else if t.is "function" then function below "function_expression" t.start []
  else if t.is "class" then classNode below "class" t.start []
  else if t.is "new" then creation below
  else if t.is "super" then superWord
  else if t.is "import" then importWord
  else if t.is "async" then asyncExpression below around
  else
    let followed ← following
    if around.arrowAt = some t.start ∧ followed.is "=>" ∧ !followed.afterLineEnd then
      singleArrow below around t.start []
    else identifier

/-- An expression that no operator joins. -/
def primary (around : Surroundings) : Parsing Cst := do
  skipMarkupComments
  let t ← token
  match t.kind with
  | .number => return (← advance).leaf "number"
  | .string => return (← advance).leaf "string"
  | .name => wordExpression below around t
  | .privateName =>
    if (← following).is "in" && around.allowIn then
      return (← advance).leaf "private_property_identifier"
    else refuse
  | .mark =>
    if t.is "(" then parenthesized below around
    else if t.is "[" then array below
    else if t.is "\x7b" then object below
    else if t.is "\x60" then template below false
    else if t.text.startsWith "/" then regex
    else if t.text.startsWith "<" then
      let node ← below .markup
      let _ ← advance
      return node
    else if t.is "@" then
      let decorated ← decorators below
      classNode below "class" t.start decorated
    else refuse
  | _ => refuse

/-! ## Operators -/

/-- The operators in front of an operand. -/
def prefixOperators : List String :=
  ["!", "~", "+", "-", "++", "--", "typeof", "void", "delete"]

/-- The token can start the operand of the word await. -/
def startsOperand (t : Token) : Bool :=
  match t.kind with
  | .name => !(t.is "in" || t.is "instanceof" || t.is "of")
  | .privateName | .number | .string => true
  | .mark =>
    ["(", "[", "\x7b", "\x60", "+", "-", "!", "~", "++", "--", "/", "<", "@"].contains t.text
  | _ => false

/-- An operator in front of an operand, if there is one. -/
def prefixOperator? : Parsing (Option Token) := do
  skipMarkupComments
  let t ← token
  if prefixOperators.any t.is then return some (← advance)
  else if t.is "await" && startsOperand (← following) then return some (← advance)
  else return none

/-- An operand with an operator in front of it. -/
def prefixed (operator : Token) (operand : Cst) : Parsing Cst :=
  let node (kind : String) (children : List Cst) : Cst :=
    makeNode kind operator.start operand.mark.stop children
  let parts := [playing "operator" operator.toCst, playing "argument" operand]
  if operator.is "await" then return node "await_expression" [operator.toCst, operand]
  else if operator.is "++" || operator.is "--" then
    if isSimpleTarget operand then return node "update_expression" parts else refuse
  else return node "unary_expression" parts

/-- An operand with the operators around it. -/
def unary (around : Surroundings) : Parsing Cst := do
  let operators ← collect prefixOperator?
  let first ← primary below around
  let operand ← grow (extendCall below) first
  let t ← token
  let inner ←
    if (t.is "++" || t.is "--") && !t.afterLineEnd && isSimpleTarget operand then
      let operator ← advance
      finish "update_expression" operand.mark.start
        [playing "argument" operand, playing "operator" operator.toCst]
    else pure operand
  operators.foldrM prefixed inner

/-- A chain of binary operations. -/
def chain (around : Surroundings) : Parsing Cst := do
  let first ← unary below around
  if first.kind == "arrow_function" then return first
  else
    let rest ← collect do
      let t ← token
      if isBinaryOperator around.allowIn t then
        let operator ← advance
        return some (operator, ← unary below ⟨around.allowIn, none⟩)
      else return none
    if Chain.basesFit first rest && Chain.mixFits rest then return Chain.tree first [] rest
    else refuse

/-- A choice between two expressions, or a chain of operations. -/
def conditional (around : Surroundings) : Parsing Cst := do
  let test ← chain below around
  if test.kind != "arrow_function" && (← accept "?") then
    let consequent ← below (.assignment true)
    let _ ← expect ":"
    let alternate ← below (.assignment around.allowIn)
    finish "ternary_expression" test.mark.start
      [playing "condition" test, playing "consequence" consequent,
        playing "alternative" alternate]
  else return test

/-! ## Assignments -/

/-- The operators that combine an assignment with an operation. -/
def augmentedOperators : List String :=
  ["+=", "-=", "*=", "/=", "%=", "**=", "<<=", ">>=", ">>>=", "&=", "|=", "^=", "&&=", "||=", "??="]

/-- The word yield with its operand. -/
def yieldExpression (allowIn : Bool) : Parsing Cst := do
  let word ← advance
  let t ← token
  if t.afterLineEnd then finish "yield_expression" word.start [word.toCst]
  else if t.is "*" then
    let star ← advance
    let inner ← below (.assignment allowIn)
    finish "yield_expression" word.start [word.toCst, star.toCst, inner]
  else if t.kind == .finish || [")", "]", "\x7d", ",", ";", ":", "in", "of"].any t.is then
    finish "yield_expression" word.start [word.toCst]
  else
    let inner ← below (.assignment allowIn)
    finish "yield_expression" word.start [word.toCst, inner]

/-- An expression without commas. -/
def assignment (allowIn : Bool) : Parsing Cst := do
  skipMarkupComments
  let t ← token
  if t.is "yield" then yieldExpression below allowIn
  else
    let left ← conditional below ⟨allowIn, some t.start⟩
    let operator ← token
    if left.kind == "arrow_function" then return left
    else if operator.is "=" then
      match toPattern? false left with
      | some target =>
        let _ ← advance
        let right ← below (.assignment allowIn)
        finish "assignment_expression" left.mark.start
          [playing "left" target, operator.toCst, playing "right" right]
      | none => refuse
    else if augmentedOperators.any operator.is then
      if isSimpleTarget left then
        let _ ← advance
        let right ← below (.assignment allowIn)
        finish "augmented_assignment_expression" left.mark.start
          [playing "left" left, playing "operator" operator.toCst, playing "right" right]
      else refuse
    else return left

/-- An expression, or several with commas between them. -/
def expression (allowIn : Bool) : Parsing Cst := do
  let first ← assignment below allowIn
  let rest ← collect do
    if ← accept "," then return some (← assignment below allowIn) else return none
  sequence (first :: rest)

/-- What is created, or extended by a class: another creation, or an expression that no operator
joins. -/
def construction : Parsing Cst := primary below ⟨true, none⟩

end Expression

end ScriptTidy.Grammar
