/-
Trees without the places of their nodes and comments. Two trees that are equal without their places
differ in offsets and lines only.
-/
import ScriptTidy.Proofs.Syntax.Respelling

namespace ScriptTidy

/-- The comment without its place. -/
def Comment.unplaced (c : Comment) : Comment := { c with start := 0, stop := 0, line := 0 }

/-- The place of no node in particular. -/
def Span.nowhere : Span := ⟨0, 0, 0⟩

/-- Places are taken out. -/
def Relabeling.placeless : Relabeling := ⟨fun _ => .nowhere, Comment.unplaced⟩

namespace Node

/-- The tree without the places of its nodes and comments. -/
def unplaced : Node → Node :=
  everywhere fun n => .mk ⟨.nowhere, n.comments.map Comment.unplaced, n.trailing.map Comment.unplaced⟩ n.form

theorem unplaced_eq (root : Node) : root.unplaced = Relabeling.placeless.node root := rfl

theorem unplaced_mk (info : Info) (form : Form Node) : (Node.mk info form).unplaced =
    .mk ⟨.nowhere, info.comments.map Comment.unplaced, info.trailing.map Comment.unplaced⟩ (form.map unplaced) :=
  Relabeling.node_mk (r := .placeless) info form

end Node

end ScriptTidy
