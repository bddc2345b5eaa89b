/-
What a layout writes besides texts. The marks of a layout are the comments that it writes and the
faults that it meets, each as often as it stands among the pieces and without their order. They are
found by adding up those of its parts. Most kinds of node are plain: they write each of their parts
once, in the middle of a line, and their marks are those of the parts.
-/
import Mathlib.Algebra.BigOperators.Group.Multiset.Basic
import ScriptTidy.Layout.Print

namespace ScriptTidy

/-! ## Marks of layouts -/

/-- A comment, or something that cannot be printed. -/
def Piece.isMark : Piece → Bool
  | comment _ | fault _ => true
  | _ => false

/-- Comments as pieces, without an order. -/
def Comment.marks (comments : List Comment) : Multiset Piece := (comments.map Piece.comment : List Piece)

@[simp] theorem Comment.marks_nil : Comment.marks [] = 0 := rfl

theorem Comment.marks_append (a b : List Comment) : Comment.marks (a ++ b) = Comment.marks a + Comment.marks b := by
  rw [marks, List.map_append]
  rfl

theorem Comment.marks_flatMap {α : Type} (f : α → List Comment) (as : List α) :
    Comment.marks (as.flatMap f) = (as.map fun a => Comment.marks (f a)).sum := by
  induction as with
  | nil => rfl
  | cons a as ih => rw [List.flatMap_cons, marks_append, ih, List.map_cons, List.sum_cons]

namespace Layout

/-- The comments that a layout writes, and what it cannot print. -/
def marks (l : Layout) (depth : Nat) : Multiset Piece := ((l depth).filter Piece.isMark : List Piece)

variable {depth : Nat}

@[simp] theorem marks_text (s : String) : (text s).marks depth = 0 := rfl
@[simp] theorem marks_nothing : nothing.marks depth = 0 := rfl
@[simp] theorem marks_newline : newline.marks depth = 0 := rfl
@[simp] theorem marks_pad : pad.marks depth = 0 := rfl
@[simp] theorem marks_verbatim (s : String) : (verbatim s).marks depth = 0 := rfl
@[simp] theorem marks_deeper (l : Layout) : (deeper l).marks depth = l.marks (depth + 1) := rfl

@[simp] theorem marks_seq (ls : List Layout) : (seq ls).marks depth = (ls.map (·.marks depth)).sum := by
  induction ls with
  | nil => rfl
  | cons l ls ih =>
    rw [List.map_cons, List.sum_cons, ← ih, marks, seq, List.flatMap_cons, List.filter_append]
    rfl

@[simp] theorem marks_ite (b : Prop) [Decidable b] (l m : Layout) :
    (if b then l else m).marks depth = if b then l.marks depth else m.marks depth := by
  split
  · rfl
  · rfl

@[simp] theorem marks_onlyIf (b : Bool) (l : Layout) : (onlyIf b l).marks depth = if b then l.marks depth else 0 :=
  marks_ite ..

@[simp] theorem marks_commas : ∀ ls : List Layout, (commas ls).marks depth = (ls.map (·.marks depth)).sum
  | [] => rfl
  | [only] => (add_zero _).symm
  | first :: second :: rest => by
    have hrest := marks_commas (second :: rest)
    rw [List.map_cons, List.sum_cons, ← hrest]
    change (seq [first, text ", ", commas (second :: rest)]).marks depth = _
    simp

@[simp] theorem marks_commentLines (comments : List Comment) :
    (commentLines comments).marks depth = Comment.marks comments := by
  have hlines : ((comments.map fun c => seq [pad, comment c, newline]).map (·.marks depth)).sum =
      Comment.marks comments := by
    induction comments with
    | nil => rfl
    | cons c comments ih =>
      rw [List.map_cons, List.map_cons, List.sum_cons, ih]
      rfl
  unfold commentLines
  split
  case isTrue hempty =>
    rw [List.isEmpty_iff.1 hempty]
    rfl
  case isFalse => rw [marks_seq, List.map_cons, List.sum_cons, hlines, marks_newline, zero_add]

end Layout

open Layout

/-! ## Children -/

namespace Child

variable {depth : Nat}

theorem marks_optional (child : Option Child) :
    (optional child).marks depth = (child.toList.map (·.2.whole.marks depth)).sum := by
  cases child <;> simp [optional, layout]

theorem marks_after (keyword : String) (child : Option Child) :
    (after keyword child).marks depth = (child.toList.map (·.2.whole.marks depth)).sum := by
  cases child <;> simp [after]

theorem marks_list (children : List Child) :
    (list children).marks depth = (children.map (·.2.whole.marks depth)).sum := by
  rw [list, marks_commas, List.map_map]
  rfl

theorem marks_slots (children : List (Option Child)) :
    (slots children).marks depth = ((children.filterMap id).map (·.2.whole.marks depth)).sum := by
  rw [slots, marks_commas, List.map_map]
  induction children with
  | nil => rfl
  | cons child children ih =>
    rw [List.map_cons, List.sum_cons, ih, Function.comp, marks_optional]
    cases child <;> simp

theorem marks_parenthesized (children : List Child) :
    (parenthesized children).marks depth = (children.map (·.2.whole.marks depth)).sum := by
  simp [parenthesized, marks_list]

theorem marks_key (child : Child) (isComputed : Bool) :
    (child.key isComputed).marks depth = child.2.whole.marks depth := by
  cases isComputed <;> simp [key]

theorem marks_functionCore (params : List Child) (body : Child) :
    (functionCore params body).marks depth =
      (params.map (·.2.whole.marks depth)).sum + body.2.whole.marks depth := by
  simp [functionCore, marks_parenthesized]

theorem marks_importDeclaration (specifiers : List Child) (source : Child) :
    (Child.importDeclaration specifiers source).marks depth =
      (specifiers.map (·.2.whole.marks depth)).sum + source.2.whole.marks depth := by
  have hparts : ((specifiers.filterMap importClause?).map (·.marks depth)).sum +
      ((specifiers.filter fun child => (importClause? child).isNone).map (·.2.whole.marks depth)).sum =
        (specifiers.map (·.2.whole.marks depth)).sum := by
    induction specifiers with
    | nil => rfl
    | cons child specifiers ih =>
      rw [List.map_cons, List.sum_cons, ← ih]
      cases hclause : importClause? child with
      | none => simp [hclause, add_left_comm]
      | some clause =>
        have hwhole : clause = child.2.whole := by
          unfold importClause? at hclause
          split at hclause <;> simp_all
        simp [hclause, hwhole, add_assoc]
  rw [← hparts]
  simp only [Child.importDeclaration, marks_seq, List.map_cons, List.map_nil, List.sum_cons, List.sum_nil, marks_commas,
    marks_onlyIf, marks_list, marks_text, zero_add, add_zero, ite_self]
  cases hnamed : (specifiers.filter fun child => (importClause? child).isNone) with
  | nil => simp
  | cons child named => simp [add_assoc]

theorem marks_statement (semicolons : Bool) (child : Child) (depth : Nat) :
    (statement semicolons child).marks depth = child.2.whole.marks depth := by
  have hterminator : (child.1.terminator semicolons).marks depth = 0 := by
    unfold Node.terminator
    split
    · rfl
    · simp
  simp [statement, hterminator]

theorem marks_afterBody (child : Child) (depth : Nat) : child.afterBody.marks depth = 0 := by
  simp [afterBody]

theorem marks_lines (opening closing : String) (ls : List Layout) (trailing : List Comment) (depth : Nat) :
    (lines opening closing ls trailing).marks depth =
      Comment.marks trailing + (ls.map (·.marks (depth + 1))).sum := by
  unfold lines
  split
  case isTrue hempty =>
    obtain ⟨hls, htrailing⟩ := Bool.and_eq_true_iff.1 hempty
    rw [List.isEmpty_iff.1 hls, List.isEmpty_iff.1 htrailing]
    rfl
  case isFalse => simp [add_comm]

theorem marks_method (kind : String) (key : Layout) (value : Child) (depth : Nat) :
    (method kind key value).marks depth = key.marks depth + value.2.core.marks depth := by
  simp [method]

theorem marks_templateRest : ∀ {quasis : List String} {expressions : List Child}, quasis.length = expressions.length →
    ∀ depth, ((templateRest quasis expressions).map (·.marks depth)).sum =
      (expressions.map (·.2.whole.marks depth)).sum
  | [], [], _, _ => rfl
  | quasi :: quasis, expression :: expressions, h, depth => by
    have ih := marks_templateRest (Nat.succ.inj h) depth
    simp [templateRest, ih]

theorem marks_template {quasis : List String} {expressions : List Child} (h : quasis.length = expressions.length + 1)
    (depth : Nat) : (template quasis expressions).marks depth = (expressions.map (·.2.whole.marks depth)).sum := by
  cases quasis with
  | nil => cases h
  | cons quasi quasis => simp [template, marks_templateRest (Nat.succ.inj h)]

end Child

/-! ## Forms -/

namespace Form

variable {α : Type}

/-- The node is written by writing its parts in the middle of a line, each of them once. -/
def isPlain : Form α → Bool
  | .program .. | .blockStatement _ | .classBody _ | .ifStatement .. | .whileStatement .. | .doWhileStatement ..
  | .forStatement .. | .forInStatement .. | .forOfStatement .. | .labeledStatement .. | .switchStatement ..
  | .switchCase .. | .tryStatement .. | .catchClause .. | .methodDefinition .. | .exportNamedDeclaration (some _) ..
  | .templateLiteral .. | .arrayExpression _ | .objectExpression _ | .property .. => false
  | _ => true

@[simp] theorem isPlain_map {β : Type} (f : α → β) (form : Form α) : (form.map f).isPlain = form.isPlain := by
  cases form
  case exportNamedDeclaration declaration _ _ => cases declaration <;> rfl
  all_goals rfl

theorem marks_layout_of_isPlain {form : Form Child} (h : form.isPlain) (semicolons : Bool) (trailing : List Comment)
    (depth : Nat) :
    (form.layout semicolons trailing).marks depth = (form.children.map (·.2.whole.marks depth)).sum := by
  cases form
  case importDeclaration specifiers source => simp [layout, children, Child.marks_importDeclaration]
  case exportNamedDeclaration declaration specifiers source =>
    cases declaration with
    | some _ => cases h
    | none => simp [layout, children, Child.exportNamed, Child.marks_list, Child.marks_after]
  case literal value raw => cases value <;> rfl
  case updateExpression operator argument isPrefix => cases isPrefix <;> simp [layout, children]
  case memberExpression object member isComputed isOptional =>
    cases isComputed <;> simp [layout, children, Child.memberOf]
  case arrowFunctionExpression params body isAsync =>
    simp [layout, children, Child.arrowParams, Child.marks_list, Child.marks_parenthesized]
  all_goals first
    | exact absurd h Bool.false_ne_true
    | rfl
    | simp [layout, children, Child.marks_optional, Child.marks_after, Child.marks_list, Child.marks_slots,
        Child.marks_parenthesized, Child.marks_key, Child.marks_functionCore, Child.function, Child.classLike,
        Child.binary]

end Form

end ScriptTidy
