/-
Comments from text to text. What is written of a text holds its comments once each, every one on a
line of its own, and no others; they are given capital letters, if these are asked for. A comment can
still be there twice in what is written, as a comment and inside a name. That is not so if the text
that is written is read back as its tree: then its comments are those of the text it was made from.
-/
import ScriptTidy.Proofs.Format.ReadBack
import ScriptTidy.Proofs.Layout.Rendering
import ScriptTidy.Proofs.Layout.Roles

namespace ScriptTidy

namespace Node

variable {root t : Node}

theorem Housed.trailing (h : root.Housed) : ∀ n ∈ root.preorder, n.trailing ≠ [] → n.form.isContainer :=
  fun n hn => (strays_eq_nil_iff.1 ((housed_iff.1 h).2 n hn)).2

theorem allComments_unplaced (n : Node) : n.unplaced.allComments = n.allComments.map Comment.unplaced := by
  rw [unplaced_eq, ← Relabeling.node_respelling, allComments_respelled]
  rfl

/-- What is seen of the comments of a tree in print. -/
theorem allComments_shown (h : t.Housed) : t.shown.allComments = t.allComments.map fun c => c.spaced.unplaced := by
  rw [shown, allComments_respelled, allComments_withoutStrays h.trailing]
  rfl

end Node

section Comments

variable {tree : String → Reading Cst} {options : Options} {text output : String} {s : Script} {root t : Node}

/-- The comments of a text that shows a tree are those of the tree. -/
theorem ReadsBack.exists_comments (h : ReadsBack tree t text) (hhoused : t.Housed) :
    ∃ s, Script.readWith tree text = .ok s ∧
      (s.comments.map Comment.unplaced).Perm (t.allComments.map fun c => c.spaced.unplaced) := by
  obtain ⟨s, root, hread, hattached, hroot⟩ := h
  obtain ⟨-, -, hperm⟩ := Script.of_attached hread hattached
  refine ⟨s, hread, (hperm.symm.map _).trans (.of_eq ?_)⟩
  rw [← Node.allComments_unplaced, hroot, Node.allComments_shown hhoused]

/-- Every text that is formatted is read, styled and printed, and what is printed of a tree of the shape that is read
holds the comments of the text, each once and on a line of its own. They are all comments that are read of it, if it is
read back as the tree. -/
theorem formatWith_comments (hout : formatWith tree options text = .ok output) :
    ∃ s root t, Script.readWith tree text = .ok s ∧ s.attached = .ok root ∧ root.applyPlan options = .ok t ∧
      t.print options = .ok output ∧
      let comments := if options.capComments then s.comments.map Comment.capitalized else s.comments
      (root.Shaped → (Piece.comments (t.pieces options.semicolons)).Perm comments ∧
        ∀ before c after, t.pieces options.semicolons = before ++ .comment c :: after →
          Piece.OnOwnLine options.indent before c after output.toList) ∧
      (ReadsBack tree t output → ∃ s', Script.readWith tree output = .ok s' ∧
        (s'.comments.map Comment.unplaced).Perm (comments.map fun c => c.spaced.unplaced)) := by
  obtain ⟨s, hread, htidied⟩ := formatWith_eq_ok_iff.1 hout
  obtain ⟨root, hattached, htidied⟩ := exists_of_bind_ok htidied
  obtain ⟨t, happly, hprint⟩ := exists_of_bind_ok htidied
  have hattached := eq_ok_of_mapError hattached
  have happly := eq_ok_of_mapError happly
  have hprint := eq_ok_of_mapError hprint
  obtain ⟨hcases, hhoused, hperm⟩ := Script.of_attached hread hattached
  obtain ⟨hhoused', hstyled⟩ := hhoused.applyPlan hcases happly
  have hcomments : t.allComments.Perm
      (if options.capComments then s.comments.map Comment.capitalized else s.comments) := by
    refine hstyled.trans ?_
    split
    · exact hperm.map _
    · exact hperm
  refine ⟨s, root, t, hread, hattached, happly, hprint, ?_, ?_⟩
  · intro hshaped
    have hshaped' : t.Shaped := by
      obtain ⟨-, rfl⟩ := hcases.applyPlan_eq_ok_iff.1 happly
      exact hshaped.runAll hhoused
    exact ⟨(Node.comments_pieces hshaped' hhoused' _).trans hcomments, fun _ _ _ =>
      Node.onOwnLine_of_print hshaped' hhoused' hprint⟩
  · intro hback
    obtain ⟨s', hread', hperm'⟩ := hback.exists_comments hhoused'
    exact ⟨s', hread', hperm'.trans (hcomments.map _)⟩

end Comments

end ScriptTidy
