/-
Braces around the bodies of loops and the branches of if statements. `insertBraces` puts every such
body into a block, except an if statement in an else branch. `stripBraces` takes the braces off a
block with at most one statement, unless they are needed: to hold a comment, to give a declaration a
scope, or to keep an else from binding to an inner if.
-/
import ScriptTidy.Syntax.Node

namespace ScriptTidy

namespace Node

/-- Applies a function to the body of a loop. -/
def mapLoopBody (f : Node → Node) (n : Node) : Node :=
  match n.form with
  | .doWhileStatement body test => n.withForm (.doWhileStatement (f body) test)
  | .forInStatement left right body => n.withForm (.forInStatement left right (f body))
  | .forOfStatement left right body isAwait =>
    n.withForm (.forOfStatement left right (f body) isAwait)
  | .forStatement init test update body => n.withForm (.forStatement init test update (f body))
  | .whileStatement test body => n.withForm (.whileStatement test (f body))
  | _ => n

/-! ## Insertion -/

/-- A statement as a block. -/
def braced (body : Node) : Node :=
  match body.form with
  | .blockStatement _ => body
  | .emptyStatement => plain body.span (.blockStatement [])
  | _ => plain body.span (.blockStatement [body])

/-- An else branch as a block, unless it is an if statement. -/
def bracedElse (body : Node) : Node :=
  match body.form with
  | .ifStatement .. => body
  | _ => body.braced

/-- Braces the bodies of a single statement. -/
def braceBodies (n : Node) : Node :=
  match n.form with
  | .ifStatement test consequent alternate =>
    n.withForm (.ifStatement test consequent.braced (alternate.map bracedElse))
  | _ => n.mapLoopBody braced

/-- Braces every loop body and every branch. -/
def insertBraces (root : Node) : Node := root.everywhere braceBodies

/-! ## Removal -/

/-- A declaration that needs a block of its own. -/
def isLexical (n : Node) : Bool :=
  match n.form with
  | .variableDeclaration kind _ => kind != "var"
  | .classDeclaration .. | .functionDeclaration .. => true
  | _ => false

/-- An else after the statement would bind to an if inside it. -/
def endsInOpenIf : Node → Bool
  | .mk _ (.ifStatement _ _ none) => true
  | .mk _ (.ifStatement _ _ (some alternate)) => alternate.endsInOpenIf
  | .mk _ (.forInStatement _ _ body) => body.endsInOpenIf
  | .mk _ (.forOfStatement _ _ body _) => body.endsInOpenIf
  | .mk _ (.forStatement _ _ _ body) => body.endsInOpenIf
  | .mk _ (.whileStatement _ body) => body.endsInOpenIf
  | .mk _ (.labeledStatement _ body) => body.endsInOpenIf
  | .mk _ _ => false

/-- A body without the braces that it does not need. -/
def unbraced (beforeElse : Bool) (body : Node) : Node :=
  match body.form with
  | .blockStatement statements =>
    if !body.trailing.isEmpty then body
    else
      match statements with
      | [] => plain body.span .emptyStatement
      | [inner] =>
        if !inner.comments.isEmpty || inner.isLexical || (beforeElse && inner.endsInOpenIf)
        then body else inner
      | _ => body
  | _ => body

/-- Takes needless braces off the bodies of a single statement. -/
def unbraceBodies (n : Node) : Node :=
  match n.form with
  | .ifStatement test consequent alternate =>
    n.withForm (.ifStatement test (consequent.unbraced alternate.isSome)
      (alternate.map (unbraced false)))
  | _ => n.mapLoopBody (unbraced false)

/-- Takes needless braces off every loop body and every branch. -/
def stripBraces (root : Node) : Node := root.everywhere unbraceBodies

end Node

end ScriptTidy
