/-
Printing does not look into comments, nor at the quotes around strings. A tree with other comments in
the places of its own, standing somewhere else and with other quotes, has the layout of the tree with
those comments: it depends on how many there are before a node, and on nothing in them. A string is
printed from its value; where its spelling is looked at, one quote is as good as the other.
-/
import ScriptTidy.Proofs.Layout.Lines
import ScriptTidy.Proofs.Syntax.Respelling

namespace ScriptTidy

/-! ## Pieces -/

namespace Relabeling

/-- The piece with its comment changed. -/
def piece (r : Relabeling) : Piece → Piece
  | .comment c => .comment (r.comment c)
  | piece => piece

/-- The layout with its comments changed. -/
def layout (r : Relabeling) (l : Layout) : Layout := fun depth => (l depth).map r.piece

theorem fault?_map_piece {r : Relabeling} (pieces : List Piece) :
    Piece.fault? (pieces.map r.piece) = Piece.fault? pieces := by
  rw [Piece.fault?, List.findSome?_map, Piece.fault?]
  congr 1
  funext piece
  cases piece <;> rfl

end Relabeling

/-- The changed child, next to its layouts with their comments changed. -/
def Respelling.child (r : Respelling) (child : Child) : Child :=
  (r.node child.1, ⟨r.layout child.2.whole, r.layout child.2.core⟩)

/-! ## Layouts -/

namespace Layout

variable {r : Relabeling}

@[simp] theorem layout_text (s : String) : r.layout (text s) = text s := rfl
@[simp] theorem layout_nothing : r.layout nothing = nothing := rfl
@[simp] theorem layout_newline : r.layout newline = newline := rfl
@[simp] theorem layout_pad : r.layout pad = pad := rfl
@[simp] theorem layout_verbatim (s : String) : r.layout (verbatim s) = verbatim s := rfl
@[simp] theorem layout_fault (f : PrintFault) : r.layout (fault f) = fault f := rfl
@[simp] theorem layout_deeper (l : Layout) : r.layout (deeper l) = deeper (r.layout l) := rfl

@[simp] theorem layout_seq (ls : List Layout) : r.layout (seq ls) = seq (ls.map r.layout) := by
  funext depth
  rw [Relabeling.layout, seq, List.map_flatMap, seq, List.flatMap_map]
  rfl

@[simp] theorem layout_ite (b : Prop) [Decidable b] (l m : Layout) :
    r.layout (if b then l else m) = if b then (r.layout l) else (r.layout m) :=
  apply_ite ..

@[simp] theorem layout_onlyIf (b : Bool) (l : Layout) : r.layout (onlyIf b l) = onlyIf b (r.layout l) :=
  layout_ite ..

@[simp] theorem layout_commas : ∀ ls : List Layout, r.layout (commas ls) = commas (ls.map r.layout)
  | [] => rfl
  | [_] => rfl
  | first :: second :: rest => by
    rw [commas, layout_seq, List.map_cons, List.map_cons, List.map_cons, layout_commas (second :: rest)]
    · rfl
    · simp

@[simp] theorem layout_commentLines (comments : List Comment) :
    r.layout (commentLines comments) = commentLines (comments.map r.comment) := by
  unfold commentLines
  rw [List.isEmpty_map, layout_ite, layout_seq, List.map_cons, List.map_map, List.map_map]
  rfl

end Layout

namespace Node

variable {r : Respelling}

/-! ## What printing asks -/

@[simp] theorem isFunctionLike_respelled (n : Node) : (r.node n).isFunctionLike = n.isFunctionLike := by
  rw [isFunctionLike, form_respelled, isFunctionLike]
  cases n.form <;> rfl

@[simp] theorem isFunctionExpression_respelled (n : Node) :
    (r.node n).isFunctionExpression = n.isFunctionExpression := by
  rw [isFunctionExpression, form_respelled, isFunctionExpression]
  cases n.form <;> rfl

@[simp] theorem isSpaced_respelled (n : Node) : (r.node n).isSpaced = n.isSpaced := by
  rw [isSpaced, form_respelled, isSpaced]
  cases n.form with
  | exportNamedDeclaration declaration specifiers source =>
    cases declaration with
    | none => rfl
    | some declaration => exact isFunctionLike_respelled declaration
  | exportDefaultDeclaration declaration => exact isFunctionLike_respelled declaration
  | _ => rfl

@[simp] theorem callsNamed_respelled (name : String) (n : Node) : (r.node n).callsNamed name = n.callsNamed name := by
  rw [callsNamed, form_respelled, callsNamed]
  cases n.form with
  | callExpression callee arguments isOptional =>
    simp only [Form.map, Form.respelled, form_respelled]
    cases callee.form <;> rfl
  | _ => rfl

@[simp] theorem isModuleHeader_respelled (n : Node) : (r.node n).isModuleHeader = n.isModuleHeader := by
  rw [isModuleHeader, form_respelled, isModuleHeader]
  cases n.form with
  | variableDeclaration kind declarations =>
    rcases declarations with _ | ⟨binding, _ | _⟩
    · rfl
    · simp only [Form.map, Form.respelled, List.map_cons, List.map_nil, form_respelled]
      cases binding.form with
      | variableDeclarator id init =>
        cases init with
        | none => rfl
        | some init => exact callsNamed_respelled "require" init
      | _ => rfl
    · rfl
  | _ => rfl

@[simp] theorem isStray_respelled (n : Node) : (r.node n).isStray = n.isStray := by
  rw [isStray, form_respelled, comments_respelled, List.isEmpty_map, isStray]
  cases n.form <;> rfl

@[simp] theorem takesSemicolon_respelled (n : Node) : (r.node n).takesSemicolon = n.takesSemicolon := by
  rw [takesSemicolon, form_respelled, takesSemicolon]
  cases n.form with
  | exportNamedDeclaration declaration specifiers source =>
    cases declaration with
    | none => rfl
    | some declaration => exact isVariableDeclaration_respelled declaration
  | exportDefaultDeclaration declaration => simp only [Form.map, Form.respelled, isFunctionLike_respelled]
  | _ => rfl

/-- A quote is neither a digit nor a separator. -/
theorem isWholeNumber_of_isQuoted {info : Info} {value : LiteralValue} {raw : String} (h : IsQuoted raw) :
    (Node.mk info (.literal value raw)).isWholeNumber = false := by
  show (!raw.isEmpty && raw.toList.all fun c => ('0' ≤ c && c ≤ '9') || c == '_') = false
  obtain ⟨rest, hraw⟩ | ⟨rest, hraw⟩ : (∃ rest, raw.toList = '\'' :: rest) ∨ ∃ rest, raw.toList = '"' :: rest :=
    h.imp List.head?_eq_some_iff.1 List.head?_eq_some_iff.1
  · rw [hraw]
    exact Bool.and_false _
  · rw [hraw]
    exact Bool.and_false _

@[simp] theorem isWholeNumber_respelled (n : Node) : (r.node n).isWholeNumber = n.isWholeNumber := by
  obtain ⟨info, form⟩ := n
  rw [Respelling.node_mk]
  cases form with
  | literal value raw =>
    rw [Form.map, Form.respelled]
    rcases r.respell_eq value raw with h | ⟨hraw, hspelling⟩
    · rw [h]
      rfl
    · rw [isWholeNumber_of_isQuoted hraw, isWholeNumber_of_isQuoted hspelling]
  | _ => rfl

@[simp] theorem isIdentifier_respelled (n : Node) : (r.node n).isIdentifier = n.isIdentifier := by
  rw [isIdentifier, form_respelled, isIdentifier]
  cases n.form <;> rfl

@[simp] theorem isSingleName_respelled (ns : List Node) : isSingleName (ns.map r.node) = isSingleName ns := by
  rcases ns with _ | ⟨n, _ | _⟩
  · rfl
  · exact isIdentifier_respelled n
  · rfl

/-- An expression begins as before, or with another quote. -/
theorem leadingChar_respelled (n : Node) :
    (r.node n).leadingChar = n.leadingChar ∨ IsQuote n.leadingChar ∧ IsQuote (r.node n).leadingChar := by
  induction n using byChildren with
  | node n ih =>
    obtain ⟨info, form⟩ := n
    rw [Respelling.node_mk]
    cases form with
    | literal value raw =>
      rcases r.respell_eq value raw with h | h
      · exact .inl (congrArg (fun raw : String => raw.toList.head?) h)
      · exact .inr h
    | binaryExpression operator first right | logicalExpression operator first right
    | assignmentExpression operator first right | callExpression first arguments isOptional
    | taggedTemplateExpression first quasi | memberExpression first member isComputed isOptional
    | conditionalExpression first consequent alternate =>
      exact ih first (by simp [children, Form.children, Node.form])
    | updateExpression operator argument isPrefix =>
      cases isPrefix with
      | true => exact .inl rfl
      | false => exact ih argument (by simp [children, Form.children, Node.form])
    | sequenceExpression expressions =>
      cases expressions with
      | nil => exact .inl rfl
      | cons first rest => exact ih first (by simp [children, Form.children, Node.form])
    | arrowFunctionExpression params body isAsync =>
      cases isAsync with
      | true => exact .inl rfl
      | false => exact .inl (by simp only [Form.map, Form.respelled, leadingChar, isSingleName_respelled])
    | _ => exact .inl rfl

@[simp] theorem needsGuard_respelled (n : Node) : (r.node n).needsGuard = n.needsGuard := by
  rw [needsGuard, form_respelled, needsGuard]
  cases n.form with
  | expressionStatement expression =>
    show (r.node expression).leadingChar.any continuesLine = expression.leadingChar.any continuesLine
    have hquote : ∀ first, IsQuote first → first.any continuesLine = false := by
      rintro first (rfl | rfl) <;> decide
    rcases leadingChar_respelled (r := r) expression with h | ⟨h, hrespelled⟩
    · rw [h]
    · rw [hquote _ h, hquote _ hrespelled]
  | _ => rfl

@[simp] theorem headerComments_respelled (n : Node) :
    (r.node n).headerComments = n.headerComments.map r.comment := by
  induction n using byChildren with
  | node n ih =>
    obtain ⟨info, form⟩ := n
    rw [Respelling.node_mk]
    cases form with
    | forStatement init test update body =>
      cases init with
      | none => rfl
      | some init =>
        simp only [Form.map, Form.respelled, Option.map_some, headerComments, isVariableDeclaration_respelled,
          comments_respelled]
        split <;> rfl
    | labeledStatement label body => exact ih body (by simp [children, Form.children, Node.form])
    | _ => rfl

end Node

open Layout

/-! ## Children -/

namespace Child

variable {r : Respelling}

variable {semicolons : Bool}

@[simp] theorem whole_respelled (child : Child) : (r.child child).2.whole = r.layout child.2.whole := rfl
@[simp] theorem core_respelled (child : Child) : (r.child child).2.core = r.layout child.2.core := rfl
@[simp] theorem node_respelled (child : Child) : (r.child child).1 = r.node child.1 := rfl

@[simp] theorem optional_respelled (child : Option Child) :
    optional (child.map r.child) = r.layout (optional child) := by
  cases child <;> rfl

@[simp] theorem after_respelled (keyword : String) (child : Option Child) :
    after keyword (child.map r.child) = r.layout (after keyword child) := by
  cases child <;> simp [after]

@[simp] theorem list_respelled (children : List Child) : list (children.map r.child) = r.layout (list children) := by
  rw [list, list, layout_commas, List.map_map, List.map_map]
  rfl

@[simp] theorem slots_respelled (children : List (Option Child)) :
    slots (children.map (Option.map r.child)) = r.layout (slots children) := by
  rw [slots, slots, layout_commas, List.map_map, List.map_map]
  congr 2
  exact funext optional_respelled

@[simp] theorem parenthesized_respelled (children : List Child) :
    parenthesized (children.map r.child) = r.layout (parenthesized children) := by
  simp [parenthesized]

@[simp] theorem key_respelled (child : Child) (isComputed : Bool) :
    (r.child child).key isComputed = r.layout (child.key isComputed) := by
  simp [key]

@[simp] theorem functionCore_respelled (params : List Child) (body : Child) :
    functionCore (params.map r.child) (r.child body) = r.layout (functionCore params body) := by
  simp [functionCore]

@[simp] theorem function_respelled (id : Option Child) (core : Layout) (isAsync isGenerator : Bool) :
    function (id.map r.child) (r.layout core) isAsync isGenerator =
      r.layout (function id core isAsync isGenerator) := by
  cases isGenerator <;> simp [function]

@[simp] theorem method_respelled (kind : String) (key : Layout) (value : Child) :
    method kind (r.layout key) (r.child value) = r.layout (method kind key value) := by
  simp only [method, node_respelled, Node.form_respelled]
  cases value.1.form <;> simp [Form.map, Form.respelled]

@[simp] theorem classLike_respelled (id superclass : Option Child) (body : Child) :
    classLike (id.map r.child) (superclass.map r.child) (r.child body) = r.layout (classLike id superclass body) := by
  simp [classLike]

/-! ## Statements -/

@[simp] theorem terminator_respelled (n : Node) :
    (r.node n).terminator semicolons = r.layout (n.terminator semicolons) := by
  rw [Node.terminator, Node.takesSemicolon_respelled, Node.form_respelled, Node.terminator]
  cases n.form <;> simp [Form.map, Form.respelled]

@[simp] theorem statement_respelled (child : Child) :
    (r.child child).statement semicolons = r.layout (child.statement semicolons) := by
  simp [statement]

theorem members_respelled (before : Option Node) (children : List Child) :
    members semicolons (before.map r.node) (children.map r.child) =
      r.layout (members semicolons before children) := by
  induction children generalizing before with
  | nil => rfl
  | cons child children ih =>
    have hlast := ih (some child.1)
    have hheader : (before.map r.node).any Node.isModuleHeader = before.any Node.isModuleHeader := by
      cases before <;> simp
    rw [List.map_cons, members, members, node_respelled, Node.form_respelled]
    cases child.1.form <;> simp_all [Form.map, Form.respelled]

@[simp] theorem allMembers_respelled (children : List Child) :
    members semicolons none (children.map r.child) = r.layout (members semicolons none children) :=
  members_respelled none children

@[simp] theorem braced_respelled (body : List Child) (trailing : List Comment) :
    braced semicolons (body.map r.child) (trailing.map r.comment) =
      r.layout (braced semicolons body trailing) := by
  have hstray : (body.map r.child).all (·.1.isStray) = body.all (·.1.isStray) := by
    rw [List.all_map]
    exact congrArg body.all (funext fun child => child.1.isStray_respelled)
  rw [braced, List.isEmpty_map, hstray, braced, layout_ite]
  simp

@[simp] theorem isBlock_respelled (child : Child) : (r.child child).isBlock = child.isBlock := by
  rw [isBlock, node_respelled, Node.form_respelled, isBlock]
  cases child.1.form <;> rfl

@[simp] theorem body_respelled (child : Child) :
    (r.child child).body semicolons = r.layout (child.body semicolons) := by
  simp [body]

@[simp] theorem afterBody_respelled (child : Child) : (r.child child).afterBody = r.layout child.afterBody := by
  simp [afterBody]

@[simp] theorem elseBranch_respelled (child : Child) :
    (r.child child).elseBranch semicolons = r.layout (child.elseBranch semicolons) := by
  rw [elseBranch, elseBranch, node_respelled, Node.form_respelled]
  cases child.1.form <;> simp [Form.map, Form.respelled]

@[simp] theorem caseLines_respelled (child : Child) : (r.child child).caseLines = r.layout child.caseLines := by
  simp [caseLines]

/-! ## Modules and expressions -/

@[simp] theorem importClause?_respelled (child : Child) :
    importClause? (r.child child) = (importClause? child).map r.layout := by
  rw [importClause?, importClause?, node_respelled, Node.form_respelled]
  cases child.1.form <;> rfl

@[simp] theorem importDeclaration_respelled (specifiers : List Child) (source : Child) :
    Child.importDeclaration (specifiers.map r.child) (r.child source) =
      r.layout (Child.importDeclaration specifiers source) := by
  have hclauses : (specifiers.map r.child).filterMap importClause? =
      (specifiers.filterMap importClause?).map r.layout := by
    rw [List.filterMap_map, List.map_filterMap]
    exact List.filterMap_congr fun child _ => importClause?_respelled child
  have hnamed : ((specifiers.map r.child).filter fun child => (importClause? child).isNone) =
      (specifiers.filter fun child => (importClause? child).isNone).map r.child := by
    rw [List.filter_map]
    congr 1
    exact List.filter_congr fun child _ => by simp
  simp only [Child.importDeclaration, hclauses, hnamed, List.isEmpty_map]
  simp

@[simp] theorem exportNamed_respelled (declaration : Option Child) (specifiers : List Child) (source : Option Child) :
    exportNamed (declaration.map r.child) (specifiers.map r.child) (source.map r.child) =
      r.layout (exportNamed declaration specifiers source) := by
  cases declaration <;> simp [exportNamed]

/-- A string is printed from its value. -/
@[simp] theorem literal_respelled (value : LiteralValue) (raw : String) :
    literal value (value.respell r.spelling raw) = r.layout (literal value raw) := by
  cases value <;> rfl

@[simp] theorem templateRest_respelled : ∀ (quasis : List String) (expressions : List Child),
    templateRest quasis (expressions.map r.child) = (templateRest quasis expressions).map r.layout
  | [], _ => rfl
  | _ :: _, [] => rfl
  | quasi :: quasis, expression :: expressions => by
    simp [templateRest, templateRest_respelled quasis expressions]

@[simp] theorem template_respelled (quasis : List String) (expressions : List Child) :
    template quasis (expressions.map r.child) = r.layout (template quasis expressions) := by
  cases quasis <;> simp [template]

@[simp] theorem element_respelled (child : Option Child) : element (child.map r.child) = r.layout (element child) := by
  cases child <;> simp [element]

@[simp] theorem member_respelled (child : Child) : (r.child child).member = r.layout child.member := by
  have hfunction : (r.child child).holdsFunction = child.holdsFunction := by
    rw [holdsFunction, node_respelled, Node.form_respelled, holdsFunction]
    cases child.1.form <;> simp [Form.map, Form.respelled]
  simp [member, hfunction]

@[simp] theorem lines_respelled (opening closing : String) (ls : List Layout) (trailing : List Comment) :
    lines opening closing (ls.map r.layout) (trailing.map r.comment) =
      r.layout (lines opening closing ls trailing) := by
  simp [lines, List.isEmpty_map]

@[simp] theorem property_respelled (key value : Child) (kind : String) (isMethod isShorthand isComputed : Bool) :
    Child.property (r.child key) (r.child value) kind isMethod isShorthand isComputed =
      r.layout (Child.property key value kind isMethod isShorthand isComputed) := by
  rw [Child.property, Child.property, node_respelled, Node.form_respelled]
  cases isShorthand with
  | true => cases value.1.form <;> simp [Form.map, Form.respelled]
  | false => simp

@[simp] theorem arrowParams_respelled (params : List Child) :
    arrowParams (params.map r.child) = r.layout (arrowParams params) := by
  have hnodes : (params.map r.child).map (·.1) = (params.map (·.1)).map r.node := by
    rw [List.map_map, List.map_map]
    rfl
  simp only [arrowParams, hnodes, Node.isSingleName_respelled]
  simp

@[simp] theorem needsSpace_respelled (operator : String) (n : Node) :
    needsSpace operator (r.node n) = needsSpace operator n := by
  have hquote : ∀ first, IsQuote first → ((operator == "" || operator == "+" || operator == "-") &&
      first == operator.toList.head?) = false := by
    rintro first (rfl | rfl) <;> simp <;> rintro ((rfl | rfl) | rfl) <;> decide
  unfold needsSpace
  rcases Node.leadingChar_respelled (r := r) n with h | ⟨h, hrespelled⟩
  · rw [h]
  · rw [hquote _ h, hquote _ hrespelled]

@[simp] theorem binary_respelled (operator : String) (left right : Child) :
    binary operator (r.child left) (r.child right) = r.layout (binary operator left right) := by
  simp [binary]

@[simp] theorem memberOf_respelled (object name : Child) (isComputed isOptional : Bool) :
    (r.child object).memberOf (r.child name) isComputed isOptional =
      r.layout (object.memberOf name isComputed isOptional) := by
  simp [memberOf]

@[simp] theorem endsInHole_respelled (elements : List (Option Child)) :
    endsInHole (elements.map (Option.map r.child)) = endsInHole elements := by
  rw [endsInHole, List.getLast?_map, Option.any_map, endsInHole]
  congr 1
  funext child
  exact Option.isNone_map

end Child

/-! ## Forms -/

namespace Form

variable {r : Respelling}

theorem layout_respelled (form : Form Child) (semicolons : Bool) (trailing : List Comment) :
    ((form.map r.child).respelled r.spelling).layout semicolons (trailing.map r.comment) =
      r.layout (form.layout semicolons trailing) := by
  cases form
  case ifStatement test consequent alternate => cases alternate <;> simp [map, respelled, layout]
  case switchCase test consequent => cases test <;> simp [map, respelled, layout]
  case switchStatement discriminant cases =>
    have hcases : (cases.map r.child).map Child.caseLines = (cases.map Child.caseLines).map r.layout := by
      rw [List.map_map, List.map_map]
      exact List.map_congr_left fun child _ => child.caseLines_respelled
    simp only [map, respelled, layout, hcases, List.isEmpty_map]
    simp
  case tryStatement block handler finalizer => cases handler <;> simp [map, respelled, layout]
  case functionDeclaration id params body isAsync isGenerator =>
    simp only [map, respelled, layout, Child.functionCore_respelled]
    exact Child.function_respelled (some id) _ isAsync isGenerator
  case classDeclaration id superclass body => exact Child.classLike_respelled (some id) superclass body
  case arrayExpression elements =>
    have helements : (elements.map (Option.map r.child)).map Child.element =
        (elements.map Child.element).map r.layout := by
      rw [List.map_map, List.map_map]
      exact List.map_congr_left fun child _ => Child.element_respelled child
    simp only [map, respelled, layout, helements, Child.lines_respelled]
  case objectExpression properties =>
    have hproperties : (properties.map r.child).map Child.member =
        (properties.map Child.member).map r.layout := by
      rw [List.map_map, List.map_map]
      exact List.map_congr_left fun child _ => child.member_respelled
    simp only [map, respelled, layout, hproperties, Child.lines_respelled]
  all_goals simp [map, respelled, layout, tag]

theorem core_respelled (form : Form Child) : ((form.map r.child).respelled r.spelling).core = r.layout form.core := by
  cases form
  case catchClause param body => cases param <;> simp [map, respelled, core]
  all_goals simp [map, respelled, core]

end Form

/-! ## Trees -/

namespace Node

variable {r : Respelling} {semicolons : Bool}

theorem child_respelled (n : Node) : (r.node n).child semicolons = r.child (n.child semicolons) := by
  induction n using byChildren with
  | node n ih =>
    have hchildren : (n.form.map r.node).map (child semicolons) =
        (n.form.map (child semicolons)).map r.child := by
      rw [Form.map_map, Form.map_map]
      exact Form.map_congr ih
    rw [child, printed_eq, form_respelled, trailing_respelled, Form.map_respelled, hchildren, Form.layout_respelled,
      Form.core_respelled, child, printed_eq n, Respelling.child]

theorem pieces_respelled (root : Node) : (r.node root).pieces semicolons =
    (root.pieces semicolons).map r.piece := by
  have hwhole : ((r.node root).printed semicolons).whole = r.layout (root.printed semicolons).whole :=
    congrArg (fun c : Child => c.2.whole) (child_respelled root)
  unfold pieces
  rw [form_respelled, trailing_respelled]
  cases root.form with
  | program body hashbang =>
    have hbody : (body.map r.node).map (child semicolons) = (body.map (child semicolons)).map r.child := by
      rw [List.map_map, List.map_map]
      exact List.map_congr_left fun n _ => child_respelled n
    have hall : seq [onlyIf (hashbang != "") (seq [hashbang, newline, newline]),
          Child.members semicolons none ((body.map r.node).map (child semicolons)),
          commentLines (root.trailing.map r.comment)] =
        r.layout (seq [onlyIf (hashbang != "") (seq [hashbang, newline, newline]),
          Child.members semicolons none (body.map (child semicolons)), commentLines root.trailing]) := by
      rw [hbody, Child.allMembers_respelled]
      simp
    exact congrFun hall 0
  | _ => exact congrFun hwhole 0

theorem pieces_relabeled {r : Relabeling} (root : Node) :
    (r.node root).pieces semicolons = (root.pieces semicolons).map r.piece := by
  rw [← r.node_respelling]
  exact pieces_respelled root

end Node

end ScriptTidy
