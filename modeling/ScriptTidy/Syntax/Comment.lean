/-
Comments of a script. A line comment runs to the end of its line, a block comment to its end mark;
the value of a comment is its text without these marks.
-/

namespace ScriptTidy

/-- The two ways to write a comment. -/
inductive CommentKind where
  | line
  | block
deriving DecidableEq, Repr

/-- A comment with its place: byte offsets, and the line on which it starts. -/
structure Comment where
  kind : CommentKind
  value : String
  start : Nat
  stop : Nat
  line : Nat
deriving DecidableEq, Repr

namespace Comment

/-- The first comment starts no later than the second. -/
def startsBy (a b : Comment) : Bool := a.start ≤ b.start

/-- The comments in the order of their starts. Comments with one start keep their order. -/
def sorted (comments : List Comment) : List Comment := comments.mergeSort startsBy

end Comment

end ScriptTidy
