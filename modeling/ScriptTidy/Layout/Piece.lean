/-
The pieces that a script is printed in, and layouts: what a node is printed as at any depth of
indentation. A layout says how deep each line is indented and leaves open what an indent looks like.
-/
import ScriptTidy.Layout.Spacing
import ScriptTidy.Syntax.Comment

namespace ScriptTidy

/-- Why a tree cannot be printed. -/
inductive PrintFault where
  /-- A kind of node that has no text of its own. -/
  | unprintable (tag : String)
  /-- A template with too few expressions. -/
  | missingExpression
deriving DecidableEq, Repr

/-- The words for a fault. -/
def PrintFault.message : PrintFault → String
  | unprintable tag =>
    "no emitter for node type <NodeType." ++ tag.toUpper ++ ": '" ++ tag ++ "'>"
  | missingExpression => "list index out of range"

/-- A piece of the text of a script. -/
inductive Piece where
  | text (s : String)
  | newline
  /-- The indent of a line. -/
  | indent (depth : Nat)
  /-- The raw text of a template. -/
  | verbatim (s : String)
  | comment (c : Comment)
  | fault (f : PrintFault)
deriving DecidableEq, Repr

/-- The text of a comment with its marks. A line comment has a space after its mark. -/
def Comment.text (c : Comment) : String :=
  match c.kind with
  | .line => if c.value.startsWith " " then "//" ++ c.value else "// " ++ c.value
  | .block => "/*" ++ c.value ++ "*/"

/-! ## Layouts -/

/-- What something is printed as, at every depth of indentation. -/
def Layout := Nat → List Piece

namespace Layout

/-- A text on a single line. -/
def text (s : String) : Layout := fun _ => [.text s]

instance : Coe String Layout := ⟨text⟩

/-- Nothing. -/
def nothing : Layout := fun _ => []

/-- The end of a line. -/
def newline : Layout := fun _ => [.newline]

/-- The indent of a line. -/
def pad : Layout := fun depth => [.indent depth]

/-- The raw text of a template. -/
def verbatim (s : String) : Layout := fun _ => [.verbatim s]

/-- The text of a comment. -/
def comment (c : Comment) : Layout := fun _ => [.comment c]

/-- What cannot be printed. -/
def fault (f : PrintFault) : Layout := fun _ => [.fault f]

/-- One after another. -/
def seq (parts : List Layout) : Layout := fun depth => parts.flatMap (· depth)

/-- One level deeper. -/
def deeper (layout : Layout) : Layout := fun depth => layout (depth + 1)

/-- A layout only under a condition. -/
def onlyIf (condition : Bool) (layout : Layout) : Layout :=
  if condition then layout else nothing

/-- One after another with commas between them. -/
def commas : List Layout → Layout
  | [] => nothing
  | [only] => only
  | first :: rest => seq [first, ", ", commas rest]

/-- Comments on lines of their own, after a blank line. -/
def commentLines (comments : List Comment) : Layout :=
  if comments.isEmpty then nothing
  else seq (newline :: comments.map fun c => seq [pad, comment c, newline])

end Layout

/-! ## Text -/

namespace Piece

/-- What an indent looks like. -/
def indentText (unit : String) (depth : Nat) : List Char :=
  (List.replicate depth unit.toList).flatten

/-- The text of a piece, and whether it is verbatim. -/
def segment (unit : String) : Piece → Segment
  | text s => ⟨s.toList, false⟩
  | newline => ⟨['\n'], false⟩
  | indent depth => ⟨indentText unit depth, false⟩
  | verbatim s => ⟨s.toList, true⟩
  | comment c => ⟨c.text.toList, c.kind == .block⟩
  | fault _ => ⟨[], false⟩

/-- Puts a segment in front of others. Adjacent segments of plain text become one, and an empty
verbatim segment is left out. -/
def join (s : Segment) (rest : List Segment) : List Segment :=
  if s.isVerbatim then if s.text.isEmpty then rest else s :: rest
  else
    match rest with
    | ⟨next, false⟩ :: more => ⟨s.text ++ next, false⟩ :: more
    | _ => s :: rest

/-- The segments of a list of pieces. -/
def segments (unit : String) (pieces : List Piece) : List Segment :=
  pieces.foldr (fun piece rest => join (piece.segment unit) rest) []

/-- The first fault of a list of pieces. -/
def fault? (pieces : List Piece) : Option PrintFault :=
  pieces.findSome? fun
    | fault f => some f
    | _ => none

/-- The text of a list of pieces, with an indent of the given unit. -/
def render (unit : String) (pieces : List Piece) : Except PrintFault String :=
  match fault? pieces with
  | some f => .error f
  | none => .ok (String.ofList (normalizeLayout (segments unit pieces)))

end Piece

end ScriptTidy
