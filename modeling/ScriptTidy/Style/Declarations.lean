/-
One declaration for each variable. A declaration that stands in a list of statements is split into
declarations of one binding each; the first takes its comments and its start. Declarations in the
head of a loop or after export are no members of such a list and stay whole.
-/
import ScriptTidy.Syntax.Node

namespace ScriptTidy

namespace Node

/-- A declaration of one binding. -/
def singleDeclaration (kind : String) (binding : Node) : Node :=
  plain binding.span (.variableDeclaration kind [binding])

/-- The declarations of one binding each that a statement stands for, if it declares several. -/
def splitDeclaration (n : Node) : List Node :=
  match n.form with
  | .variableDeclaration kind (first :: second :: rest) =>
    .mk ⟨{ first.span with start := n.span.start }, n.comments, []⟩
        (.variableDeclaration kind [first])
      :: (second :: rest).map (singleDeclaration kind)
  | _ => [n]

/-- Splits the declarations in the statement list of a single node. -/
def splitMembers (n : Node) : Node :=
  match n.form with
  | .program body hashbang => n.withForm (.program (body.flatMap splitDeclaration) hashbang)
  | .blockStatement body => n.withForm (.blockStatement (body.flatMap splitDeclaration))
  | .switchCase test consequent =>
    n.withForm (.switchCase test (consequent.flatMap splitDeclaration))
  | _ => n

/-- Splits the declarations in every statement list. -/
def separateVars (root : Node) : Node := root.everywhere splitMembers

end Node

end ScriptTidy
