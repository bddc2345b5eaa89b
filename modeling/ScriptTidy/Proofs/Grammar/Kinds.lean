/-
Concrete trees as the grammar makes them. The kind of a node tells what it is read as, and which nodes
it can hold: statements stand in lists and as bodies only, and where an operand is wanted there is one.
Names, numbers, strings and regular expressions cover a piece of the text that is spelled like one.
-/
import ScriptTidy.Concrete.Read
import ScriptTidy.Proofs.Grammar.Places

namespace ScriptTidy

open Grammar

/-- What a node of the concrete tree is read as. -/
inductive Rank where
  /-- A statement that stands nowhere but among statements or as a body. -/
  | statement
  /-- Another member of a list of statements: a declaration or a block. -/
  | declaration
  /-- An expression that assigns. -/
  | assignment
  /-- Another expression, or a pattern in place of one. -/
  | operand
  /-- A part of an expression, a pattern or a class. -/
  | part
deriving DecidableEq, Repr

namespace Rank

/-- What has the rank can stand in a list of statements. -/
def isListed : Rank → Bool
  | .statement | .declaration => true
  | .assignment | .operand | .part => false

/-- What has the rank is an expression. -/
def isExpression : Rank → Bool
  | .assignment | .operand => true
  | .statement | .declaration | .part => false

/-- What has the rank is an expression that assigns nothing, or a pattern in place of one. -/
def isOperand : Rank → Bool
  | .operand => true
  | .statement | .declaration | .assignment | .part => false

def isDeclaration : Rank → Bool
  | .declaration => true
  | .statement | .assignment | .operand | .part => false

/-- What has the rank can stand in the middle of a line. -/
def isInner : Rank → Bool
  | .statement => false
  | .declaration | .assignment | .operand | .part => true

/-- Whatever is read has the property. -/
def isAny (_ : Rank) : Bool := true

/-- All ranks. -/
def all : List Rank := [.statement, .declaration, .assignment, .operand, .part]

variable {r : Rank}

theorem mem_all (r : Rank) : r ∈ all := by cases r <;> decide

theorem isExpression_of_isOperand (h : r.isOperand) : r.isExpression := by
  cases r <;> first | rfl | cases h

theorem isInner_of_isExpression (h : r.isExpression) : r.isInner := by
  cases r <;> first | rfl | cases h

theorem isInner_of_isOperand (h : r.isOperand) : r.isInner := isInner_of_isExpression (isExpression_of_isOperand h)

theorem isInner_of_isDeclaration (h : r.isDeclaration) : r.isInner := by
  cases r <;> first | rfl | cases h

theorem isListed_of_isDeclaration (h : r.isDeclaration) : r.isListed := by
  cases r <;> first | rfl | cases h

end Rank

/-! ## Kinds -/

namespace Kind

def statements : List String :=
  ["expression_statement", "empty_statement", "debugger_statement", "if_statement", "while_statement", "do_statement",
    "for_statement", "for_in_statement", "switch_statement", "try_statement", "return_statement", "throw_statement",
    "break_statement", "continue_statement", "labeled_statement", "with_statement"]

def declarations : List String :=
  ["variable_declaration", "lexical_declaration", "statement_block", "function_declaration",
    "generator_function_declaration", "class_declaration", "import_statement", "export_statement"]

def parts : List String :=
  ["variable_declarator", "spread_element", "rest_pattern", "assignment_pattern", "class_body", "method_definition",
    "field_definition"]

/-- What a node of the kind is read as. What is not read at all counts as an operand. -/
def rank (kind : String) : Rank :=
  if statements.contains kind then .statement
  else if declarations.contains kind then .declaration
  else if kind == "assignment_expression" || kind == "augmented_assignment_expression" then .assignment
  else if parts.contains kind then .part
  else .operand

/-- The kinds of nodes that are lists of statements. -/
def lists : List String := ["program", "statement_block", "switch_default"]

/-- The kinds of nodes that have a statement for a body. -/
def holders : List String :=
  ["if_statement", "while_statement", "do_statement", "for_statement", "for_in_statement", "labeled_statement",
    "with_statement"]

/-- The kinds of nodes all parts of which are operands. -/
def operations : List String :=
  ["expression_statement", "unary_expression", "update_expression", "binary_expression", "assignment_expression",
    "augmented_assignment_expression", "ternary_expression", "sequence_expression", "call_expression",
    "member_expression", "subscript_expression", "parenthesized_expression"]

/-- The kinds of nodes all parts of which are names. -/
def jumps : List String := ["break_statement", "continue_statement", "namespace_import"]

/-- The kinds of nodes that declare a name of their own, if they have one. -/
def named : List String :=
  ["function_declaration", "generator_function_declaration", "function_expression", "function", "generator_function",
    "class_declaration", "class"]

/-- The kinds of nodes whose body is a block. -/
def blocked : List String :=
  ["function_declaration", "generator_function_declaration", "function_expression", "function", "generator_function",
    "method_definition", "catch_clause", "finally_clause", "try_statement"]

/-- The parts that are played by names and patterns, whatever they are parts of. -/
def nameFields : List String := ["name", "alias"]

/-- A node of the kind can hold a node of the rank that plays the given part. -/
def admits (kind : String) (field : Option String) (rank : Rank) : Bool :=
  (!field.any nameFields.contains || rank.isInner) &&
    if lists.contains kind then rank.isListed
    else if kind == "switch_case" then if field == some "value" then rank.isInner else rank.isListed
    else if holders.contains kind then rank.isInner || field == some "body" || field == some "consequence"
    else if kind == "else_clause" then true
    else if operations.contains kind then rank.isExpression
    else rank.isInner

section Admits

variable {kind name : String} {field : Option String} {r : Rank}

/-- What stands in a list of statements can stand there. -/
theorem isListed_of_admits (hkind : kind ∈ lists) (h : admits kind field r) : r.isListed := by
  rw [admits, if_pos (List.contains_iff_mem.2 hkind), Bool.and_eq_true] at h
  exact h.2

theorem isInner_of_admits_name (hname : name ∈ nameFields) (h : admits kind (some name) r) : r.isInner := by
  rw [admits, Option.any_some, List.contains_iff_mem.2 hname, Bool.not_true, Bool.false_or, Bool.and_eq_true] at h
  exact h.1

/-- The kinds of nodes that can hold statements. -/
def statementHolders : List String := lists ++ holders ++ ["switch_case", "else_clause"]

/-- What a node of another kind holds is no statement. -/
theorem isInner_of_admits (hkind : kind ∉ statementHolders) (h : admits kind field r) : r.isInner := by
  simp only [statementHolders, List.mem_append, List.mem_cons, List.not_mem_nil, or_false, not_or] at hkind
  obtain ⟨⟨hlists, hholders⟩, hcase, helse⟩ := hkind
  simp only [admits, List.contains_iff_mem, hlists, hholders, hcase, helse, beq_iff_eq, if_false, Bool.and_eq_true] at h
  obtain ⟨-, h⟩ := h
  split at h
  · exact Rank.isInner_of_isExpression h
  · exact h

/-- What an operation holds is an expression. -/
theorem isExpression_of_admits (hkind : kind ∈ operations) (h : admits kind field r) : r.isExpression := by
  have hcheck : ∀ kind ∈ operations, kind ∉ statementHolders := by decide +kernel
  have hother := hcheck kind hkind
  simp only [statementHolders, List.mem_append, List.mem_cons, List.not_mem_nil, or_false, not_or] at hother
  obtain ⟨⟨hlists, hholders⟩, hcase, helse⟩ := hother
  simp only [admits, List.contains_iff_mem, hlists, hholders, hcase, helse, beq_iff_eq, if_false, hkind, if_true,
    Bool.and_eq_true] at h
  exact h.2

end Admits

/-- The kinds of what can play a part whatever it is a part of. -/
def playersOf : List (String × List String) :=
  [("label", Reader.nameKinds), ("kind", ["var", "let", "const"]), ("source", ["string"]),
    ("parameters", ["formal_parameters"]), ("arguments", ["arguments", "template_string"]),
    ("handler", ["catch_clause"]), ("finalizer", ["finally_clause"])]

/-- The kinds of what can play a part in a node of the given kind, where only some can. -/
def players? (kind field : String) : Option (List String) :=
  if field == "operator" then
    if kind == "unary_expression" then some ["!", "~", "+", "-", "typeof", "void", "delete"]
    else if kind == "update_expression" then some ["++", "--"]
    else none
  else if field == "body" then if blocked.contains kind then some ["statement_block"] else none
  else if field == "name" then if named.contains kind then some Reader.nameKinds else none
  else if field == "property" then if kind == "member_expression" then some Reader.nameKinds else none
  else playersOf.lookup field

/-- The parts that tokens play, which are no nodes themselves. -/
def tokenFields : List String := ["operator", "kind", "optional_chain"]

/-- The text of new.target and of import.meta, with whatever stands between their tokens. -/
def spellsMeta (w : List Char) : Bool :=
  w.head?.any ['n', 'i'].contains && w.contains '.' && w.getLast?.any ['t', 'a'].contains

/-- A node of the kind can hold every node with a rank of the property that plays the given part, if any. -/
def takes (kind : String) (field : Option String) (p : Rank → Bool) : Bool :=
  Rank.all.all fun r => !p r || admits kind field r

theorem admits_of_takes {kind : String} {field : Option String} {p : Rank → Bool} {r : Rank} (h : takes kind field p)
    (hr : p r) : admits kind field r := by
  have hadmits := List.all_eq_true.1 h r r.mem_all
  rwa [hr] at hadmits

/-- What the text of a node of the kind is like, where that matters. -/
def spells? (kind : String) : Option (List Char → Bool) :=
  if Reader.nameKinds.contains kind then some spellsName
  else if kind == "number" then some spellsNumber
  else if kind == "string" then some spellsString
  else if kind == "regex" then some spellsRegex
  else if kind == "meta_property" then some spellsMeta
  else none

/-- The kinds of nodes with parts of which more is asked than that each can be there. -/
def particular : List String :=
  ["switch_case", "lexical_declaration", "sequence_expression", "comment", "html_comment"] ++ jumps

/-- A node of the kind, which has the rank, can be made from any parts that it can hold. -/
def isPlain (kind : String) (p : Rank → Bool) : Bool :=
  p (rank kind) && (spells? kind).isNone && !particular.contains kind

end Kind

/-! ## Nodes -/

namespace Cst

/-- What the node is read as. -/
def rank (c : Cst) : Rank := Kind.rank c.kind

/-- The node can play its part in a node of the given kind. Of the tokens that are not named only operators and the
like play a part; the word default may stand where a name is wanted, but is not read. -/
def fits (kind : String) (d : Cst) : Bool :=
  (!d.mark.isNamed || d.isComment || Kind.admits kind d.mark.field d.rank) &&
    d.mark.field.all fun field =>
      (d.mark.isNamed || Kind.tokenFields.contains field || d.kind == "default") &&
        (Kind.players? kind field).all (·.contains d.kind)

/-- The parts are what is asked of a node of the kind, besides that each can be there: a case begins with its value,
all parts of a jump and the like are names, and so on. -/
def suits (kind : String) (c : Cst) : Bool :=
  if kind == "switch_case" then
    c.named.head?.all (·.mark.field == some "value") && c.named.tail.all (·.mark.field != some "value")
  else if Kind.jumps.contains kind then c.named.all fun d => Reader.nameKinds.contains d.kind
  else if kind == "lexical_declaration" then c.children.head?.all fun d => ["let", "const"].contains d.kind
  else if kind == "sequence_expression" then !c.named.isEmpty
  else true

/-- The parts of the node are what a node of its kind can hold. -/
def isRegular (c : Cst) : Bool := c.children.all (fits c.kind) && c.suits c.kind

/-- The node covers a piece of the text with the property. -/
def Reads (t : List Char) (p : List Char → Prop) (c : Cst) : Prop :=
  ∃ w, Covers t c.mark.start c.mark.stop w ∧ p w

/-- The concrete tree is regular, its names and literals are spelled like such, and its comments lie in lines. -/
inductive Sound (t : List Char) : Cst → Prop
  | node {c : Cst} (regular : c.mark.isNamed → c.isRegular)
      (spelled : c.mark.isNamed → ∀ p, Kind.spells? c.kind = some p → c.Reads t (p ·))
      (note : c.isComment → c.Reads t fun w => ∀ value, w = '/' :: '/' :: value → '\n' ∉ value)
      (children : ∀ d ∈ c.children, Sound t d) : Sound t c

namespace Sound

variable {t : List Char} {c d : Cst}

theorem child (h : c.Sound t) (hd : d ∈ c.children) : d.Sound t := by
  cases h with
  | node _ _ _ hchildren => exact hchildren d hd

theorem regular (h : c.Sound t) (hnamed : c.mark.isNamed) : c.isRegular := by
  cases h with
  | node hregular _ _ _ => exact hregular hnamed

theorem spelled (h : c.Sound t) (hnamed : c.mark.isNamed) {check : List Char → Bool}
    (hcheck : Kind.spells? c.kind = some check) : c.Reads t (check ·) := by
  cases h with
  | node _ hspelled _ _ => exact hspelled hnamed check hcheck

theorem note (h : c.Sound t) (hcomment : c.isComment) :
    c.Reads t fun w => ∀ value, w = '/' :: '/' :: value → '\n' ∉ value := by
  cases h with
  | node _ _ hnote _ => exact hnote hcomment

end Sound

/-- A comment that plays no part. -/
structure IsNote (t : List Char) (c : Cst) : Prop where
  comment : c.isComment
  sound : c.Sound t
  field : c.mark.field = none

end Cst

end ScriptTidy
