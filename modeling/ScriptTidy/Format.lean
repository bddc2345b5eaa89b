/-
Formatting a script: reading it, giving its comments to their owners, applying the rules, and
printing the result. Reading is the only stage that can refuse a text on its own account.
-/
import ScriptTidy.Concrete.Read
import ScriptTidy.Grammar.Script
import ScriptTidy.Layout.Print
import ScriptTidy.Style.Plan

namespace ScriptTidy

/-! ## Reading -/

/-- A script as it was read: its tree, and its comments apart from the tree. -/
structure Script where
  program : Node
  comments : List Comment

/-- The first line of a text, if it names an interpreter, and the rest of the text from the end of
that line on. -/
def splitHashbang (text : List Char) : List Char × List Char :=
  match text with
  | '#' :: '!' :: _ => (text.takeWhile (· != '\n'), text.dropWhile (· != '\n'))
  | _ => ([], text)

namespace Script

/-- The program with its first line, if that names an interpreter. -/
def withHashbang (hashbang : List Char) (program : Node) : Node :=
  match program.form with
  | .program body _ => program.withForm (.program body (String.ofList hashbang))
  | _ => program

/-- The fault of a text that the grammar does not cover. -/
def grammarFault (source : Source) : Grammar.GrammarFault → ReadFault
  | .unexpected offset text =>
    .malformed (source.position offset)
      (if text.isEmpty then "unexpected end of input" else "unexpected " ++ Text.shown text)
  | .tooDeep => .tooDeep

/-- The concrete tree of a text by the grammar. -/
def concreteTree (body : String) : Reading Cst :=
  (Grammar.concreteTree maxNesting body).mapError (grammarFault (Source.ofString body))

/-- Reads a text whose concrete tree is found by the given function, which sees the text without its
first line if that names an interpreter. -/
def readWith (tree : String → Reading Cst) (text : String) : Reading Script := do
  let (hashbang, body) := splitHashbang text.toList
  let body := String.ofList body
  let root ← tree body
  let (program, comments) ← (Source.ofString body).readTree root
  return ⟨withHashbang hashbang program, comments⟩

/-- Reads a text. -/
def parse (text : String) : Reading Script := readWith concreteTree text

/-- The tree of a script with all comments at their owners. -/
def attached (s : Script) : Except AttachFault Node := s.program.attach s.comments

end Script

/-! ## Formatting -/

/-- Why a text cannot be formatted. -/
inductive FormatFault where
  | read (fault : ReadFault)
  | attach (fault : AttachFault)
  | sort (fault : NumeralFault)
  | print (fault : PrintFault)
deriving Repr, DecidableEq

/-- The words for a fault. -/
def FormatFault.message : FormatFault → String
  | read fault => fault.message
  | attach fault => fault.message
  | sort fault => fault.message
  | print fault => fault.message

/-- A tree in the style of the options, as a text. -/
def Node.tidied (root : Node) (options : Options) : Except FormatFault String := do
  let root ← (root.applyPlan options).mapError .sort
  (root.print options).mapError .print

/-- A script in the style of the options. -/
def Script.tidied (s : Script) (options : Options) : Except FormatFault String := do
  let root ← s.attached.mapError .attach
  root.tidied options

/-- A text in the style of the options. -/
def format (options : Options) (text : String) : Except FormatFault String := do
  let s ← (Script.parse text).mapError .read
  s.tidied options

/-- A text and what it is formatted as. -/
structure Formatted where
  output : String
  changed : Bool
deriving DecidableEq, Repr

/-- A text in the style of the options, and whether that is another text. -/
def formatted (options : Options) (text : String) : Except FormatFault Formatted := do
  let output ← format options text
  return ⟨output, output != text⟩

/-- Formatting would leave the text as it is. -/
def isFormatted (options : Options) (text : String) : Except FormatFault Bool := do
  return !(← formatted options text).changed

/-! ## Stages -/

/-- What a run reports about its stages. -/
inductive Event where
  | parsed (statements comments : Nat)
  | attached (comments owners : Nat)
  | applying (rule : Rule)
  | printed (characters : Nat)
  | recalled (characters : Nat)
deriving DecidableEq, Repr

/-- The words for a stage. -/
def Event.message : Event → String
  | parsed statements comments =>
    "DEBUG jsclean.tree.reader: parsed " ++ toString statements ++ " top-level statements, "
      ++ toString comments ++ " comments"
  | attached comments owners =>
    "DEBUG jsclean.tree.comments: attached " ++ toString comments ++ " comments to "
      ++ toString owners ++ " owners"
  | applying rule => "DEBUG jsclean.rules.pipeline: applying rule " ++ rule.name
  | printed characters =>
    "DEBUG jsclean.emit.emitter: emitted " ++ toString characters ++ " characters"
  | recalled characters =>
    "DEBUG jsclean.formatter: cache hit for " ++ toString characters ++ " characters"

/-- The stages that formatting a text goes through, up to the one that fails. -/
def stages (options : Options) (text : String) : List Event :=
  match Script.parse text with
  | .error _ => []
  | .ok s =>
    .parsed s.program.children.length s.comments.length ::
      match s.attached with
      | .error _ => []
      | .ok root =>
        .attached s.comments.length (root.owners.count true) :: options.plan.map .applying ++
          match root.tidied options with
          | .error _ => []
          | .ok output => [.printed output.length]

end ScriptTidy
