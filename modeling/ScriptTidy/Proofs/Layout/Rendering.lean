/-
The comments in the text of a tree. A tree of the shape that is read, with its comments where they
may stand, can be printed, and each of its comments is printed once, on a line of its own. No other
comment is printed.
-/
import ScriptTidy.Proofs.Layout.Comments

namespace ScriptTidy

namespace Piece

/-- The comment of a piece. -/
def comment? : Piece → Option Comment
  | comment c => some c
  | _ => none

/-- The comments of a list of pieces, in the order in which they are written. -/
def comments (pieces : List Piece) : List Comment := pieces.filterMap comment?

theorem comments_filter_isMark (pieces : List Piece) : comments (pieces.filter isMark) = comments pieces := by
  unfold comments
  rw [List.filterMap_filter]
  congr 1
  funext p
  cases p <;> rfl

theorem comments_map_comment (cs : List Comment) : comments (cs.map comment) = cs := by
  rw [comments, List.filterMap_map]
  exact List.filterMap_some

theorem exists_eq_append_of_mem_comments {pieces : List Piece} {c : Comment} (h : c ∈ comments pieces) :
    ∃ before after, pieces = before ++ comment c :: after := by
  obtain ⟨p, hp, hc⟩ := List.mem_filterMap.1 h
  cases p <;> cases hc
  exact List.append_of_mem hp

end Piece

namespace Options

theorem newline_notMem_indent (options : Options) : '\n' ∉ options.indent.toList := by
  intro h
  have hblank := List.all_eq_true.1 (Bool.and_eq_true_iff.1 options.indent_valid).2 _ h
  cases hblank

end Options

namespace Node

variable {root : Node}

theorem comments_pieces (hshaped : root.Shaped) (hhoused : root.Housed) (semicolons : Bool) :
    (Piece.comments (root.pieces semicolons)).Perm root.allComments := by
  rw [← Piece.comments_filter_isMark, ← Piece.comments_map_comment root.allComments]
  exact (marks_pieces hshaped hhoused).filterMap _

theorem print_eq_ok (hshaped : root.Shaped) (hhoused : root.Housed) (options : Options) :
    root.print options = .ok (String.ofList
      (normalizeLayout (Piece.segments options.indent (root.pieces options.semicolons)))) := by
  have hfault : Piece.fault? (root.pieces options.semicolons) = none := by
    refine Piece.fault?_eq_none fun f hf => ?_
    have hmem := (marks_pieces hshaped hhoused).mem_iff.1 (List.mem_filter.2 ⟨hf, rfl⟩)
    obtain ⟨c, -, hc⟩ := List.mem_map.1 hmem
    cases hc
  rw [print, Piece.render, hfault]

/-- Every comment that is written stands on a line of its own. -/
theorem onOwnLine_of_print (hshaped : root.Shaped) (hhoused : root.Housed) {options : Options} {text : String}
    (hprint : root.print options = .ok text) {before after : List Piece} {c : Comment}
    (hpieces : root.pieces options.semicolons = before ++ .comment c :: after) :
    Piece.OnOwnLine options.indent before c after text.toList := by
  rw [print_eq_ok hshaped hhoused] at hprint
  cases hprint
  rw [String.toList_ofList]
  refine (lined_pieces root).onOwnLine options.newline_notMem_indent ?_ hpieces
  refine hshaped.lines c ((comments_pieces hshaped hhoused options.semicolons).mem_iff.1 ?_)
  rw [hpieces]
  exact List.mem_filterMap.2 ⟨_, List.mem_append_right _ (List.mem_cons_self ..), rfl⟩

/-- A tree is printed with each of its comments once, and with no others. Each comment stands on a
line of its own: only an indent stands before it on its line, and a newline after it. Apart from
newlines, what stands before it in the text is what the pieces before it write, and so after it. -/
theorem print_comments (hshaped : root.Shaped) (hhoused : root.Housed) (options : Options) :
    ∃ text, root.print options = .ok text ∧
      (Piece.comments (root.pieces options.semicolons)).Perm root.allComments ∧
      ∀ before c after, root.pieces options.semicolons = before ++ .comment c :: after →
        Piece.OnOwnLine options.indent before c after text.toList := by
  have hprint := print_eq_ok hshaped hhoused options
  exact ⟨_, hprint, comments_pieces hshaped hhoused _, fun _ _ _ => onOwnLine_of_print hshaped hhoused hprint⟩

/-- A loop under a label, as the only statement of a branch, with a comment in its head. -/
def labeledLoop (c : Comment) : Node :=
  let declaration := Node.mk ⟨⟨0, 0, 1⟩, [c], []⟩
    (.variableDeclaration "var" [plain ⟨0, 0, 1⟩ (.variableDeclarator (plain ⟨0, 0, 1⟩ (.identifier "i")) none)])
  let loop := plain ⟨0, 0, 1⟩ (.forStatement (some declaration) none none (plain ⟨0, 0, 1⟩ .emptyStatement))
  let labeled := plain ⟨0, 0, 1⟩ (.labeledStatement (plain ⟨0, 0, 1⟩ (.identifier "a")) loop)
  plain ⟨0, 0, 1⟩ (.program [plain ⟨0, 0, 1⟩ (.ifStatement (plain ⟨0, 0, 1⟩ .thisExpression) labeled none)] "")

theorem print_comments_labeledLoop :
    ∃ before after,
      (labeledLoop ⟨.block, " c ", 0, 7, 1⟩).pieces true = before ++ .comment ⟨.block, " c ", 0, 7, 1⟩ :: after ∧
      Piece.OnOwnLine "\t" before ⟨.block, " c ", 0, 7, 1⟩ after
        "if (this)\n\n\t/* c */\n\ta:\n\tfor (var i;;)\n\t\t;\n".toList := by
  have hshaped : (labeledLoop ⟨.block, " c ", 0, 7, 1⟩).Shaped := {
    program := ⟨_, _, rfl⟩
    roles := by decide +kernel
    coherent := by decide +kernel
    lines := by decide +kernel }
  have hhoused : (labeledLoop ⟨.block, " c ", 0, 7, 1⟩).Housed := housed_iff.2 ⟨rfl, by decide +kernel⟩
  have hprint : (labeledLoop ⟨.block, " c ", 0, 7, 1⟩).print .standard =
      .ok "if (this)\n\n\t/* c */\n\ta:\n\tfor (var i;;)\n\t\t;\n" := by decide +kernel
  have hcomments : (labeledLoop ⟨.block, " c ", 0, 7, 1⟩).allComments = [⟨.block, " c ", 0, 7, 1⟩] := by decide +kernel
  obtain ⟨text, htext, hperm, hlines⟩ := print_comments hshaped hhoused .standard
  rw [hcomments] at hperm
  have hmem := hperm.mem_iff.2 (List.mem_singleton_self _)
  obtain ⟨before, after, hpieces⟩ := Piece.exists_eq_append_of_mem_comments hmem
  rw [hprint] at htext
  cases htext
  exact ⟨before, after, hpieces, hlines before _ after hpieces⟩

end Node

end ScriptTidy
