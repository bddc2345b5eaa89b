/-
Printing does not look at places. Of a comment only its kind and its text are written, so that a tree
which says the same in other places and with other quotes is the same text. With the rules, which do
not look at these either, formatting a tree depends on what it says alone.
-/
import ScriptTidy.Format
import ScriptTidy.Proofs.Layout.Respelling
import ScriptTidy.Proofs.Style.Respelling

namespace ScriptTidy

open Node

namespace Respelling.IsNeutral

variable {r : Respelling} (hr : r.IsNeutral)
include hr

theorem segments (unit : String) (pieces : List Piece) :
    Piece.segments unit (pieces.map r.piece) = Piece.segments unit pieces := by
  have hsegment (piece : Piece) : (r.piece piece).segment unit = piece.segment unit := by
    cases piece with
    | comment c =>
      show (⟨(r.comment c).text.toList, (r.comment c).kind == .block⟩ : Segment) = ⟨c.text.toList, c.kind == .block⟩
      rw [hr.text, hr.kind]
    | _ => rfl
  rw [Piece.segments, List.foldr_map, Piece.segments]
  simp only [hsegment]

theorem print (root : Node) (options : Options) : (r.node root).print options = root.print options := by
  rw [Node.print, pieces_respelled, Piece.render, Relabeling.fault?_map_piece, hr.segments, Node.print, Piece.render]

/-- A change that formatting does not see has no part in what a tree is formatted as. -/
theorem tidied (root : Node) (options : Options) : (r.node root).tidied options = root.tidied options := by
  rw [Node.tidied, hr.applyPlan, Node.tidied]
  cases root.applyPlan options with
  | error fault => rfl
  | ok root => exact congrArg (Except.mapError FormatFault.print) (hr.print root options)

end Respelling.IsNeutral

theorem Comment.capitalized_unplaced (c : Comment) : c.unplaced.capitalized = c.capitalized.unplaced := by
  obtain ⟨_ | _, value, start, stop, line⟩ := c
  · rfl
  · rfl

theorem Relabeling.isNeutral_placeless : placeless.respelling.IsNeutral where
  span _ := rfl
  kind _ := rfl
  text _ := rfl
  capitalized := Comment.capitalized_unplaced

namespace Node

theorem node_placeless : Relabeling.placeless.respelling.node = unplaced := Relabeling.node_respelling _

/-- Without places a tree is printed as the same text. -/
theorem print_unplaced (root : Node) (options : Options) : root.unplaced.print options = root.print options := by
  rw [← node_placeless]
  exact Relabeling.isNeutral_placeless.print root options

theorem tidied_unplaced (root : Node) (options : Options) : root.unplaced.tidied options = root.tidied options := by
  rw [← node_placeless]
  exact Relabeling.isNeutral_placeless.tidied root options

/-- Trees that differ only in the places of their nodes and comments are formatted alike. -/
theorem tidied_of_unplaced_eq {root other : Node} (h : root.unplaced = other.unplaced) (options : Options) :
    root.tidied options = other.tidied options := by
  rw [← tidied_unplaced, h, tidied_unplaced]

/-- A comment and a declaration of two variables, standing at the given offset. -/
def declarationAt (offset : Nat) : Node :=
  let span : Span := ⟨offset, offset + 20, offset + 1⟩
  let binding (name : String) : Node := plain span (.variableDeclarator (plain span (.identifier name)) none)
  plain span (.program
    [.mk ⟨span, [⟨.line, " both", offset, offset + 7, offset + 1⟩], []⟩
      (.variableDeclaration "var" [binding "x", binding "y"])] "")

theorem tidied_declarationAt : (declarationAt 0).tidied .standard = (declarationAt 40).tidied .standard := by
  have hplaces : (declarationAt 0).unplaced = (declarationAt 40).unplaced := by
    simp [declarationAt, plain, unplaced_mk, Form.map, Comment.unplaced]
  exact tidied_of_unplaced_eq hplaces .standard

end Node

end ScriptTidy
