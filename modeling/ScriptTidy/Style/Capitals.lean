/-
Capital letters in line comments: the first visible character of each becomes upper case. Block
comments are left as they are.
-/
import ScriptTidy.Syntax.Node
import ScriptTidy.Text.Capital

namespace ScriptTidy

/-- A line comment that begins with a capital. -/
def Comment.capitalized (c : Comment) : Comment :=
  match c.kind with
  | .line => { c with value := Text.capitalize c.value }
  | .block => c

namespace Node

/-- Capitalizes the comments that a node itself holds. -/
def capitalizeHeld (n : Node) : Node :=
  .mk ⟨n.span, n.comments.map Comment.capitalized, n.trailing.map Comment.capitalized⟩ n.form

/-- Capitalizes every line comment. -/
def capComments (root : Node) : Node := root.everywhere capitalizeHeld

end Node

end ScriptTidy
