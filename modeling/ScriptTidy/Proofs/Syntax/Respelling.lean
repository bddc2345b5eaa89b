/-
Changes of a tree that leave alone what it says. A relabeling changes where nodes stand and which
comments they carry; a respelling may change how strings are spelled as well. What the rules ask of a
node, its kind, its name and the key by which it is sorted, is the same before and after: a string is
told by its value, and its spelling is that of no other literal.
-/
import ScriptTidy.Layout.Print
import ScriptTidy.Proofs.Syntax.Addresses
import ScriptTidy.Style.Plan

namespace ScriptTidy

/-! ## Spellings of literals -/

/-- There is a first character, and it is a quote. -/
def IsQuote (first : Option Char) : Prop := first = some '\'' ∨ first = some '"'

instance (first : Option Char) : Decidable (IsQuote first) := inferInstanceAs (Decidable (_ ∨ _))

/-- The spelling begins with a quote. -/
def IsQuoted (raw : String) : Prop := IsQuote raw.toList.head?

instance (raw : String) : Decidable (IsQuoted raw) := inferInstanceAs (Decidable (IsQuote _))

/-- How a literal is spelled if a string is spelled in another way. -/
def LiteralValue.respell (spelling : List Text.CodePoint → String → String) : LiteralValue → String → String
  | .string text, raw => spelling text raw
  | _, raw => raw

namespace Form

variable {α : Type} (spelling : List Text.CodePoint → String → String)

/-- The form, spelled in another way if it is a string. -/
def respelled : Form α → Form α
  | .literal value raw => .literal value (value.respell spelling raw)
  | form => form

theorem children_respelled (form : Form α) : (form.respelled spelling).children = form.children := by
  cases form <;> rfl

theorem map_respelled {β : Type} (f : α → β) (form : Form α) :
    (form.respelled spelling).map f = (form.map f).respelled spelling := by
  cases form <;> rfl

theorem respelled_raw (form : Form α) : form.respelled (fun _ raw => raw) = form := by
  cases form with
  | literal value raw => cases value <;> rfl
  | _ => rfl

end Form

/-! ## Trees of the same forms -/

namespace Node

/-- The function changes what is known of the nodes of a tree apart from their forms. -/
def KeepsForms (f : Node → Node) : Prop := ∀ n : Node, (f n).form = n.form.map f

/-- Of the forms of a tree the function changes the spelling of strings only. -/
def Respells (spelling : List Text.CodePoint → String → String) (f : Node → Node) : Prop :=
  ∀ n : Node, (f n).form = (n.form.map f).respelled spelling

theorem KeepsForms.respells {f : Node → Node} (hf : KeepsForms f) : Respells (fun _ raw => raw) f := by
  intro n
  rw [hf, Form.respelled_raw]

namespace Respells

variable {spelling : List Text.CodePoint → String → String} {f : Node → Node} (hf : Respells spelling f) (n : Node)
include hf

theorem children : (f n).children = n.children.map f := by
  rw [Node.children, hf, Form.children_respelled, Form.children_map, Node.children]

theorem preorder : (f n).preorder = n.preorder.map f := by
  induction n using byChildren with
  | node n ih =>
    rw [preorder_eq, preorder_eq n, hf.children, List.map_cons, List.flatMap_map, List.map_flatMap,
      List.flatMap_congr ih]

theorem sortKey : (f n).sortKey = n.sortKey := by
  rw [Node.sortKey, hf, Node.sortKey]
  cases n.form with
  | literal value raw => cases value <;> rfl
  | _ => rfl

theorem propertyKey : (f n).propertyKey = n.propertyKey := by
  rw [Node.propertyKey, hf, Node.propertyKey]
  cases n.form with
  | property key value kind isMethod isShorthand isComputed =>
    cases isComputed with
    | true => rfl
    | false =>
      simp only [Form.map, Form.respelled, hf key, hf.sortKey]
      cases key.form with
      | literal value raw => cases value <;> rfl
      | _ => rfl
  | _ => rfl

theorem propertyFault? : (f n).propertyFault? = n.propertyFault? := by
  rw [Node.propertyFault?, hf, Node.propertyFault?]
  cases n.form <;> simp [Form.map, Form.respelled, List.findSome?_map, Function.comp_def, hf.propertyKey]

end Respells

end Node

/-! ## Relabelings -/

/-- A change of where nodes stand and of the comments that they carry. -/
structure Relabeling where
  span : Span → Span
  comment : Comment → Comment

namespace Relabeling

/-- The tree with the change made at every node. -/
def node (r : Relabeling) : Node → Node :=
  Node.everywhere fun n => .mk ⟨r.span n.span, n.comments.map r.comment, n.trailing.map r.comment⟩ n.form

/-- One change after another. -/
def comp (r s : Relabeling) : Relabeling := ⟨fun span => r.span (s.span span), fun c => r.comment (s.comment c)⟩

variable {r s : Relabeling}

theorem node_mk (info : Info) (form : Form Node) : r.node (.mk info form) =
    .mk ⟨r.span info.span, info.comments.map r.comment, info.trailing.map r.comment⟩ (form.map r.node) := by
  unfold node Node.everywhere
  rw [Node.para_mk, Form.map_map]
  rfl

theorem node_node (n : Node) : r.node (s.node n) = (r.comp s).node n := by
  induction n using Node.byChildren with
  | node n ih =>
    obtain ⟨info, form⟩ := n
    have hkids : (form.map s.node).map r.node = form.map (r.comp s).node := by
      rw [Form.map_map]
      exact Form.map_congr ih
    rw [node_mk, node_mk, node_mk, hkids, List.map_map, List.map_map]
    rfl

end Relabeling

/-! ## Respellings -/

/-- A change of where nodes stand, of the comments that they carry, and of how strings are spelled. -/
structure Respelling extends Relabeling where
  spelling : List Text.CodePoint → String → String
  /-- A spelling that is changed begins with a quote, and so does the other one. -/
  spelling_eq : ∀ text raw, spelling text raw = raw ∨ IsQuoted raw ∧ IsQuoted (spelling text raw)

namespace Respelling

/-- The tree with the change made at every node. -/
def node (r : Respelling) : Node → Node :=
  Node.everywhere fun n =>
    .mk ⟨r.span n.span, n.comments.map r.comment, n.trailing.map r.comment⟩ (n.form.respelled r.spelling)

variable {r : Respelling}

theorem respell_eq (r : Respelling) (value : LiteralValue) (raw : String) :
    value.respell r.spelling raw = raw ∨ IsQuoted raw ∧ IsQuoted (value.respell r.spelling raw) := by
  cases value with
  | string text => exact r.spelling_eq text raw
  | _ => exact .inl rfl

theorem node_mk (info : Info) (form : Form Node) : r.node (.mk info form) =
    .mk ⟨r.span info.span, info.comments.map r.comment, info.trailing.map r.comment⟩
      ((form.map r.node).respelled r.spelling) := by
  unfold node Node.everywhere
  rw [Node.para_mk, Form.map_map]
  rfl

end Respelling

/-- A relabeling is a respelling that leaves all spellings alone. -/
def Relabeling.respelling (r : Relabeling) : Respelling where
  toRelabeling := r
  spelling _ raw := raw
  spelling_eq _ _ := .inl rfl

theorem Relabeling.node_respelling (r : Relabeling) : r.respelling.node = r.node := by
  have hform : (fun n : Node => n.form.respelled r.respelling.spelling) = Node.form :=
    funext fun n => Form.respelled_raw n.form
  unfold Respelling.node node
  congr 1
  funext n
  exact congrArg (Node.mk _) (congrFun hform n)

namespace Node

variable {r : Respelling}

@[simp] theorem form_respelled (n : Node) : (r.node n).form = (n.form.map r.node).respelled r.spelling := by
  obtain ⟨info, form⟩ := n
  rw [Respelling.node_mk]
  rfl

@[simp] theorem span_respelled (n : Node) : (r.node n).span = r.span n.span := by
  obtain ⟨info, form⟩ := n
  rw [Respelling.node_mk]
  rfl

@[simp] theorem comments_respelled (n : Node) : (r.node n).comments = n.comments.map r.comment := by
  obtain ⟨info, form⟩ := n
  rw [Respelling.node_mk]
  rfl

@[simp] theorem trailing_respelled (n : Node) : (r.node n).trailing = n.trailing.map r.comment := by
  obtain ⟨info, form⟩ := n
  rw [Respelling.node_mk]
  rfl

theorem respells_node : Respells r.spelling r.node := form_respelled

theorem allComments_respelled (n : Node) : (r.node n).allComments = n.allComments.map r.comment := by
  simp only [allComments, respells_node.preorder, List.flatMap_map, List.map_flatMap, heldComments, comments_respelled,
    trailing_respelled, List.map_append]

@[simp] theorem isVariableDeclaration_respelled (n : Node) :
    (r.node n).form.isVariableDeclaration = n.form.isVariableDeclaration := by
  rw [form_respelled]
  cases n.form <;> rfl

theorem isVariableDeclaration_relabeled {r : Relabeling} (n : Node) :
    (r.node n).form.isVariableDeclaration = n.form.isVariableDeclaration := by
  rw [← r.node_respelling]
  exact isVariableDeclaration_respelled n

/-! ## What rules ask -/

theorem ne_null_of_isQuoted {raw : String} (h : IsQuoted raw) : raw ≠ "null" := by
  rintro rfl
  exact absurd h (by decide)

@[simp] theorem isNull_respelled (n : Node) : (r.node n).isNull = n.isNull := by
  rw [isNull, form_respelled, isNull]
  cases n.form with
  | literal value raw =>
    show (value.respell r.spelling raw == "null") = (raw == "null")
    rcases r.respell_eq value raw with h | ⟨hraw, hspelling⟩
    · rw [h]
    · rw [beq_false_of_ne (ne_null_of_isQuoted hraw), beq_false_of_ne (ne_null_of_isQuoted hspelling)]
  | _ => rfl

@[simp] theorem isTerminator_respelled (n : Node) : (r.node n).isTerminator = n.isTerminator := by
  rw [isTerminator, form_respelled, isTerminator]
  cases n.form <;> rfl

@[simp] theorem isLexical_respelled (n : Node) : (r.node n).isLexical = n.isLexical := by
  rw [isLexical, form_respelled, isLexical]
  cases n.form <;> rfl

@[simp] theorem isFunctionDeclaration_respelled (n : Node) :
    (r.node n).isFunctionDeclaration = n.isFunctionDeclaration := by
  rw [isFunctionDeclaration, form_respelled, isFunctionDeclaration]
  cases n.form <;> rfl

@[simp] theorem isMethod_respelled (n : Node) : (r.node n).isMethod = n.isMethod := by
  rw [isMethod, form_respelled, isMethod]
  cases n.form <;> rfl

@[simp] theorem sortKey_respelled (n : Node) : (r.node n).sortKey = n.sortKey := respells_node.sortKey n

@[simp] theorem caseKey_respelled (n : Node) : (r.node n).caseKey = n.caseKey := by
  rw [caseKey, form_respelled, caseKey]
  cases n.form with
  | switchCase test consequent =>
    cases test with
    | none => rfl
    | some test => exact sortKey_respelled test
  | _ => rfl

@[simp] theorem functionKey_respelled (n : Node) : (r.node n).functionKey = n.functionKey := by
  rw [functionKey, form_respelled, functionKey]
  cases n.form <;> first | exact sortKey_respelled _ | rfl

@[simp] theorem methodKey_respelled (n : Node) : (r.node n).methodKey = n.methodKey := by
  unfold methodKey methodKey?
  rw [form_respelled]
  cases n.form <;> simp only [Form.map, Form.respelled, sortKey_respelled]

@[simp] theorem propertyKey_respelled (n : Node) : (r.node n).propertyKey = n.propertyKey :=
  respells_node.propertyKey n

@[simp] theorem propertyKeyOrMissing_respelled (n : Node) :
    (r.node n).propertyKeyOrMissing = n.propertyKeyOrMissing := by
  rw [propertyKeyOrMissing, propertyKey_respelled, propertyKeyOrMissing]

theorem propertyFault?_respelled (n : Node) : (r.node n).propertyFault? = n.propertyFault? :=
  respells_node.propertyFault? n

@[simp] theorem endsInOpenIf_respelled (n : Node) : (r.node n).endsInOpenIf = n.endsInOpenIf := by
  induction n using byChildren with
  | node n ih =>
    obtain ⟨info, form⟩ := n
    rw [Respelling.node_mk]
    cases form with
    | ifStatement test consequent alternate =>
      cases alternate with
      | none => rfl
      | some alternate => exact ih alternate (by simp [children, Form.children, Node.form])
    | whileStatement test body | forInStatement left right body | forOfStatement left right body isAwait
    | forStatement init test update body | labeledStatement label body =>
      exact ih body (by simp [children, Form.children, Node.form])
    | _ => rfl

end Node

end ScriptTidy
