/-
Blank lines. The text of a script is a list of segments; a verbatim segment, which holds a block
comment or the raw text of a template, is kept as it is. In every other segment only newlines are
deleted: at most one blank line in a row stays, none at the start of the text, none after a line
that ends in an opening brace or bracket or that is a label, and none before a line that starts with
a closing brace or bracket. The whole text ends in a single newline.
-/
import ScriptTidy.Text.Category

namespace ScriptTidy

/-- A part of the text of a script. -/
structure Segment where
  text : List Char
  isVerbatim : Bool
deriving DecidableEq, Repr

namespace Spacing

/-! ## Lines -/

/-- A space or a tab. -/
def isSpace (c : Char) : Bool := c == ' ' || c == '\t'

/-- A character of a label's name. -/
def isLabelChar (c : Char) : Bool := Text.isWord c.toNat || c == '$'

/-- The text begins with the word case. -/
def startsWithCase : List Char → Bool
  | 'c' :: 'a' :: 's' :: 'e' :: rest => !(rest.head?.any fun c => Text.isWord c.toNat)
  | _ => false

/-- The line is a label: a name and a colon, or a case of a switch. -/
def isLabel (line : List Char) : Bool :=
  line.getLast? == some ':' &&
    let name := (line.dropWhile isSpace).dropLast
    startsWithCase name || (!name.isEmpty && name.all isLabelChar)

/-- No blank line may follow the line. -/
def isOpener (line : List Char) : Bool :=
  line.getLast? == some '{' || line.getLast? == some '[' || isLabel line

/-- No blank line may precede the line. -/
def isCloser (line : List Char) : Bool :=
  match line.dropWhile isSpace with
  | c :: _ => c == '}' || c == ']'
  | [] => false

/-! ## Runs -/

/-- A segment alternates between lines and runs of newlines. -/
inductive Run where
  | line (text : List Char)
  | breaks (count : Nat)
deriving DecidableEq, Repr

/-- One character in front of the runs of a text. -/
def Run.cons (c : Char) (rest : List Run) : List Run :=
  if c = '\n' then
    match rest with
    | .breaks count :: more => .breaks (count + 1) :: more
    | _ => .breaks 1 :: rest
  else
    match rest with
    | .line text :: more => .line (c :: text) :: more
    | _ => .line [c] :: rest

/-- The runs of a text. -/
def runs (text : List Char) : List Run := text.foldr Run.cons []

/-- The text of a run. -/
def Run.text : Run → List Char
  | line text => text
  | breaks count => List.replicate count '\n'

/-- What stands before a run of newlines. -/
inductive Before where
  /-- The start of the whole text. -/
  | start
  /-- The start of a later segment. -/
  | seam
  | line (text : List Char)

/-- How many of the newlines between two lines stay. -/
def kept (before : Before) (count : Nat) (after : List Run) : Nat :=
  let closes := match after with
    | .line text :: _ => isCloser text
    | _ => false
  match before with
  | .start => 0
  | .seam => min count (if closes then 1 else 2)
  | .line text => min count (if closes || isOpener text then 1 else 2)

/-- Deletes the newlines that may not stay. -/
def tighten : Before → List Run → List Run
  | _, [] => []
  | _, .line text :: rest => .line text :: tighten (.line text) rest
  | before, .breaks count :: rest => .breaks (kept before count rest) :: tighten .seam rest

/-- A segment without needless newlines. -/
def normalizeSegment (before : Before) (s : Segment) : List Char :=
  if s.isVerbatim then s.text else (tighten before (runs s.text)).flatMap Run.text

/-- The text without the newlines at its end. -/
def dropFinalBreaks (text : List Char) : List Char :=
  (text.reverse.dropWhile (· == '\n')).reverse

end Spacing

open Spacing in
/-- The text of a list of segments, without needless newlines. -/
def normalizeLayout (segments : List Segment) : List Char :=
  let texts := match segments with
    | [] => []
    | first :: rest => normalizeSegment .start first ++ rest.flatMap (normalizeSegment .seam)
  dropFinalBreaks texts ++ ['\n']

end ScriptTidy
