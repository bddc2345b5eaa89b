/-
The text of one comment in a printed tree. A line comment gets another value, at the place in the tree
where it stands, and the tree is printed again. Nothing changes but the text of the comment, and the
blank line below it: it is lost if the new value ends in an opening brace or bracket.

The comment is told from all others, also from equal ones, by a mark in its place, which is not printed.
-/
import ScriptTidy.Proofs.Layout.Places
import ScriptTidy.Proofs.Layout.Rendering
import ScriptTidy.Proofs.Layout.Templates
import ScriptTidy.Proofs.Syntax.Replacing

namespace ScriptTidy

open Template

/-! ## One comment of a tree -/

/-- Where a comment stands: the address of the node that carries it, whether it is one of those before the closing
bracket of the node, and its number among them. -/
structure CommentAddress where
  path : List Nat
  isTrailing : Bool
  index : Nat

namespace Comment

/-- The comment at a place that no comment without a place has. -/
def marked (c : Comment) : Comment := { c with start := 1 }

def isMarked (c : Comment) : Bool := c.start == 1

theorem reworded_reworded (value : String) (c : Comment) : (c.reworded value).reworded value = c.reworded value := by
  obtain ⟨_ | _, _, _, _, _⟩ := c
  · rfl
  · rfl

theorem unplaced_reworded (value : String) (c : Comment) : (c.reworded value).unplaced = c.unplaced.reworded value := by
  obtain ⟨_ | _, _, _, _, _⟩ := c
  · rfl
  · rfl

end Comment

namespace Options

theorem isSpace_of_mem_indent (options : Options) : ∀ c ∈ options.indent.toList, Spacing.isSpace c := by
  intro c hc
  exact List.all_eq_true.1 (Bool.and_eq_true_iff.1 options.indent_valid).2 c hc

end Options

namespace Node

/-- The comments of a node on one of its sides. -/
def commentsOn (isTrailing : Bool) (n : Node) : List Comment := if isTrailing then n.trailing else n.comments

/-- The node with its comments on one of its sides changed. -/
def modifyComments (isTrailing : Bool) (f : List Comment → List Comment) (n : Node) : Node :=
  if isTrailing then .mk { n.info with trailing := f n.trailing } n.form else n.withComments (f n.comments)

/-- The comment at an address. -/
def comment? (a : CommentAddress) (root : Node) : Option Comment :=
  (root.at? a.path).bind fun n => (n.commentsOn a.isTrailing)[a.index]?

/-- The tree with the comment at an address changed. -/
def modifyComment (a : CommentAddress) (g : Comment → Comment) (root : Node) : Node :=
  root.modifyAt (modifyComments a.isTrailing fun comments => comments.modify a.index g) a.path

/-- The tree with another value for the line comment at an address. -/
def reworded (a : CommentAddress) (value : String) (root : Node) : Node := root.modifyComment a (Comment.reworded value)

variable {a : CommentAddress} {g : Comment → Comment} {root : Node}

theorem modifyComments_eq_self {isTrailing : Bool} {f : List Comment → List Comment} {n : Node}
    (h : f (n.commentsOn isTrailing) = n.commentsOn isTrailing) : n.modifyComments isTrailing f = n := by
  obtain ⟨⟨span, comments, trailing⟩, form⟩ := n
  cases isTrailing with
  | true => exact congrArg (fun trailing => mk ⟨span, comments, trailing⟩ form) h
  | false => exact congrArg (fun comments => mk ⟨span, comments, trailing⟩ form) h

/-- With the value that its comment has a tree is what it is. -/
theorem reworded_value {c : Comment} (h : root.comment? a = some c) : root.reworded a c.value = root := by
  have hself : c.reworded c.value = c := by
    unfold Comment.reworded
    split <;> rfl
  refine modifyAt_eq_self fun n hn => modifyComments_eq_self (List.ext_getElem? fun i => ?_)
  rw [comment?, hn, Option.bind_some] at h
  by_cases hi : a.index = i
  · subst hi
    rw [List.getElem?_modify_eq, h]
    exact congrArg some hself
  · rw [List.getElem?_modify_ne _ _ hi]

/-! ### Changing all comments and one of them -/

variable {r : Relabeling} {g' : Comment → Comment}

theorem node_modifyAt {f f' : Node → Node} (h : ∀ n, r.node (f n) = f' (r.node n)) (path : List Nat) (n : Node) :
    r.node (n.modifyAt f path) = (r.node n).modifyAt f' path := by
  induction path generalizing n with
  | nil => exact h n
  | cons k path ih =>
    obtain ⟨info, form⟩ := n
    rw [modifyAt, withForm, Relabeling.node_mk, Relabeling.node_mk]
    exact congrArg (mk _) (Form.map_modifyChild ih k form)

theorem node_modifyComment (h : ∀ c, r.comment (g c) = g' (r.comment c)) :
    r.node (root.modifyComment a g) = (r.node root).modifyComment a g' := by
  refine node_modifyAt (fun n => ?_) a.path root
  obtain ⟨⟨span, comments, trailing⟩, form⟩ := n
  unfold modifyComments
  split
  · rw [Relabeling.node_mk, Relabeling.node_mk]
    exact congrArg (fun trailing => mk ⟨_, _, trailing⟩ _) (map_modify h trailing a.index)
  · rw [withComments, Relabeling.node_mk, Relabeling.node_mk]
    exact congrArg (fun comments => mk ⟨_, comments, _⟩ _) (map_modify h comments a.index)

/-! ## Marks -/

/-- The tree without places, except that the comment at an address has one. -/
def marked (a : CommentAddress) (root : Node) : Node := root.unplaced.modifyComment a Comment.marked

/-- Rewording what is marked is rewording the comment at the address. -/
theorem unplaced_rewording_marked (a : CommentAddress) (value : String) (root : Node) :
    ((Piece.rewording Comment.isMarked value).node (root.marked a)).unplaced = (root.reworded a value).unplaced := by
  have hmarked (c : Comment) :
      (Relabeling.placeless.comp (Piece.rewording Comment.isMarked value)).comment c.marked =
        ((Relabeling.placeless.comp (Piece.rewording Comment.isMarked value)).comment c).reworded value := by
    have hleft : (Relabeling.placeless.comp (Piece.rewording Comment.isMarked value)).comment c.marked =
        c.unplaced.reworded value := Comment.unplaced_reworded value c.marked
    have hright : (Relabeling.placeless.comp (Piece.rewording Comment.isMarked value)).comment c =
        (if c.isMarked then c.reworded value else c).unplaced := rfl
    rw [hleft, hright]
    split
    · rw [Comment.unplaced_reworded, Comment.reworded_reworded]
    · rfl
  have hrest : (Relabeling.placeless.comp (Piece.rewording Comment.isMarked value)).comp Relabeling.placeless =
      Relabeling.placeless := rfl
  calc ((Piece.rewording Comment.isMarked value).node (root.marked a)).unplaced
    _ = (Relabeling.placeless.comp (Piece.rewording Comment.isMarked value)).node (root.marked a) := by
      rw [unplaced_eq, Relabeling.node_node]
    _ = (Relabeling.placeless.node root).reworded a value := by
      rw [marked, node_modifyComment hmarked, unplaced_eq, Relabeling.node_node, hrest]
      rfl
    _ = (root.reworded a value).unplaced := (node_modifyComment (Comment.unplaced_reworded value)).symm

/-! ## Printing -/

theorem print_reworded_eq (a : CommentAddress) (value : String) (root : Node) (options : Options) :
    (root.reworded a value).print options = Piece.render options.indent
      (((root.marked a).pieces options.semicolons).map (Piece.rewording Comment.isMarked value).piece) := by
  rw [← print_unplaced, ← unplaced_rewording_marked, print_unplaced, print, pieces_relabeled]

/-- The value of a line comment decides of the printed text only what the comment says, and whether a blank line
follows it: a text with open places is printed for all values alike but for those that end in an opening brace or
bracket, and for these the same text, from which blank lines directly below an open place may be missing. -/
theorem print_reworded (root : Node) (a : CommentAddress) (options : Options) :
    (∃ fault, ∀ value, (root.reworded a value).print options = .error fault) ∨
      ∃ t u, Tightened false t u ∧ ∀ value, '\n' ∉ value.toList → (root.reworded a value).print options =
        .ok (String.ofList (fill (Comment.lineText value) (if Comment.opens value then u else t))) := by
  simp only [print_reworded_eq, Piece.render, Relabeling.fault?_map_piece]
  cases Piece.fault? ((root.marked a).pieces options.semicolons) with
  | some fault => exact .inl ⟨fault, fun _ => rfl⟩
  | none =>
    have hlined : Piece.Lined ((root.marked a).pieces options.semicolons) := lined_pieces _
    obtain ⟨t, u, htight, hlayout⟩ :=
      hlined.exists_normalizeLayout_rewording options.isSpace_of_mem_indent Comment.isMarked
    refine .inr ⟨t, u, htight, fun value hvalue => ?_⟩
    exact congrArg (fun text => Except.ok (String.ofList text)) (hlayout value hvalue)

/-- A call and a function with a comment above it. -/
def commentedFunction : Node :=
  let name (name : String) : Node := plain ⟨0, 0, 1⟩ (.identifier name)
  let call := plain ⟨0, 0, 1⟩ (.callExpression (name "a") [] false)
  plain ⟨0, 0, 1⟩ (.program
    [plain ⟨0, 0, 1⟩ (.expressionStatement call),
      .mk ⟨⟨0, 0, 1⟩, [⟨.line, " hi", 0, 0, 1⟩], []⟩
        (.functionDeclaration (name "f") [] (plain ⟨0, 0, 1⟩ (.blockStatement [])) false false)] "")

/-- The blank line between a comment and the function below it is lost if the comment ends in a brace. -/
theorem print_reworded_commentedFunction : ¬ ∃ t, ∀ value, '\n' ∉ value.toList →
    (commentedFunction.reworded ⟨[1], false, 0⟩ value).print .standard =
      .ok (String.ofList (fill (Comment.lineText value) t)) := by
  rintro ⟨t, ht⟩
  -- the number of lines would be the same for all values
  have hlines {value text : String} (hvalue : '\n' ∉ value.toList)
      (hprint : (commentedFunction.reworded ⟨[1], false, 0⟩ value).print .standard = .ok text) :
      text.toList.count '\n' = t.count (some '\n') := by
    have htext : text = String.ofList (fill (Comment.lineText value) t) :=
      Except.ok.inj (hprint.symm.trans (ht value hvalue))
    rw [htext, String.toList_ofList]
    exact count_newline_fill (Comment.newline_notMem_text rfl hvalue) t
  have hword : (commentedFunction.reworded ⟨[1], false, 0⟩ " hi").print .standard =
      .ok "a();\n\n// hi\n\nfunction f() \x7b\x7d\n" := by decide +kernel
  have hbrace : (commentedFunction.reworded ⟨[1], false, 0⟩ " hi \x7b").print .standard =
      .ok "a();\n\n// hi \x7b\nfunction f() \x7b\x7d\n" := by decide +kernel
  have hcount := (hlines (by decide) hword).trans (hlines (by decide) hbrace).symm
  exact absurd hcount (by decide)

end Node

end ScriptTidy
