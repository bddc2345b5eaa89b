/-
Parsers: what they know of the text, how they move through it, and how they make concrete nodes. A
parser looks at the current token; the comments that it passes are kept on the side.
-/
import ScriptTidy.Concrete.Tree
import ScriptTidy.Grammar.Token

namespace ScriptTidy.Grammar

/-- Why a text is no script. -/
inductive GrammarFault where
  /-- The token at an offset does not fit. -/
  | unexpected (offset : Nat) (text : String)
  | tooDeep
deriving DecidableEq, Repr

/-- How far a parser has come. -/
structure State where
  token : Token
  /-- Where the current token starts. -/
  here : Cursor
  /-- Where the text goes on after the current token. -/
  next : Cursor
  /-- The end of the token before the current one. -/
  last : Nat
  /-- The comments passed so far, the last one first. -/
  comments : List Cst
  /-- More steps than any loop can take, since each step passes a token. -/
  budget : Nat

/-- A step of reading that moves through the text and yields a value, or finds a fault. -/
abbrev Parsing := StateT State (Except GrammarFault)

/-! ## Concrete nodes -/

/-- A node with its kind and place. -/
def makeNode (kind : String) (start stop : Nat) (children : List Cst) : Cst :=
  .node ⟨kind, true, false, false, start, stop, none⟩ children

/-- A punctuation mark or keyword. -/
def Token.toCst (t : Token) : Cst := .node ⟨t.text, false, false, false, t.start, t.stop, none⟩ []

/-- A named node that is a single token. -/
def Token.leaf (t : Token) (kind : String) : Cst := makeNode kind t.start t.stop []

/-- A comment with its place. -/
def Extent.comment (kind : String) (e : Extent) : Cst := makeNode kind e.start e.stop []

/-- The node as a part of its parent. -/
def playing (field : String) : Cst → Cst
  | .node mark children => .node { mark with field := some field } children

/-! ## Tokens -/

/-- The punctuation mark or keyword with the given text. -/
def Token.is (t : Token) (text : String) : Bool :=
  (t.kind == .mark || t.kind == .name) && t.text == text

/-- The words that cannot be names. -/
def reservedWords : List String :=
  ["break", "case", "catch", "class", "const", "continue", "debugger", "default", "delete", "do",
    "else", "enum", "export", "extends", "false", "finally", "for", "function", "if", "import",
    "in", "instanceof", "new", "null", "return", "super", "switch", "this", "throw", "true", "try",
    "typeof", "var", "void", "while", "with"]

/-- A word that can be a name, whichever way it is spelled. -/
def Token.isFreeName (t : Token) : Bool :=
  t.kind == .name &&
    !reservedWords.contains (((nameValue? t.text.toList).map String.ofList).getD t.text)

namespace Parsing

/-- The current token. -/
def token : Parsing Token := return (← get).token

/-- The state whose current token is the first one at a cursor. -/
def stateAt (s : State) (c : Cursor) (last : Nat) : State :=
  let trivia := c.skip
  let (token, next) :=
    if trivia.isClosed then Token.at trivia.cursor trivia.hasLineEnd
    else (⟨.invalid, "/*", trivia.cursor.offset, trivia.cursor.offset, trivia.hasLineEnd⟩,
      trivia.cursor)
  { s with
    token, next, last
    here := trivia.cursor
    comments := trivia.comments.map (Extent.comment "comment") ++ s.comments }

/-- The token after the current one. -/
def following : Parsing Token :=
  return (stateAt (← get) (← get).next 0).token

/-- The token after the one that follows the current one. -/
def secondFollowing : Parsing Token := do
  let s ← get
  return (stateAt s (stateAt s s.next 0).next 0).token

/-- Fails at the current token. -/
def refuse {α : Type} : Parsing α := do
  let t ← token
  throw (.unexpected t.start t.text)

/-- Goes on at a cursor after a token that ends there. -/
def moveTo (c : Cursor) : Parsing Unit := modify fun s => stateAt s c c.offset

/-- Passes the current token. -/
def advance : Parsing Token := do
  let s ← get
  if s.token.kind = .finish ∨ s.token.kind = .invalid then refuse
  else
    moveTo s.next
    return s.token

/-- The current token is the given one. -/
def sees (text : String) : Parsing Bool := return (← token).is text

/-- Passes the given token, which must be the current one. -/
def expect (text : String) : Parsing Token := do if ← sees text then advance else refuse

/-- Passes the given token if it is the current one. -/
def accept (text : String) : Parsing Bool := do
  if ← sees text then
    let _ ← advance
    return true
  else return false

/-- The given token, as a list of nodes, if it is the current one. -/
def acceptToken (text : String) : Parsing (List Cst) := do
  if ← sees text then return [(← advance).toCst] else return []

/-- A node from an offset to the last token passed. -/
def finish (kind : String) (start : Nat) (children : List Cst) : Parsing Cst :=
  return makeNode kind start (← get).last children

/-- Where the current token starts. -/
def startOffset : Parsing Nat := return (← token).start

/-! ## Repetition -/

/-- Repeats a step until it gives nothing. -/
def collectUpTo {α : Type} : Nat → Parsing (Option α) → Parsing (List α)
  | 0, _ => refuse
  | budget + 1, step => do
    match ← step with
    | some a => return a :: (← collectUpTo budget step)
    | none => return []

/-- Repeats a step until it gives nothing. -/
def collect {α : Type} (step : Parsing (Option α)) : Parsing (List α) := do
  collectUpTo (← get).budget step

/-- Extends a node until it cannot be extended further. -/
def growUpTo : Nat → (Cst → Parsing (Option Cst)) → Cst → Parsing Cst
  | 0, _, _ => refuse
  | budget + 1, step, c => do
    match ← step c with
    | some d => growUpTo budget step d
    | none => return c

/-- Extends a node until it cannot be extended further. -/
def grow (step : Cst → Parsing (Option Cst)) (c : Cst) : Parsing Cst := do
  growUpTo (← get).budget step c

/-- Members up to a closing mark, which is passed. -/
def membersUntil {α : Type} (closing : String) (member : Parsing α) : Parsing (List α) :=
  collect do if ← accept closing then return none else return some (← member)

/-- Members with commas between them up to a closing mark, which is passed. A comma may follow the
last member. -/
def commaList {α : Type} (closing : String) (member : Parsing α) : Parsing (List α) :=
  collect do
    if ← accept closing then return none
    else
      let a ← member
      if !(← sees closing) then let _ ← expect ","
      return some a

/-! ## Alternatives -/

/-- Reads with the first parser or, if the text does not fit it, with the second one from the same
place. -/
def either (first second : Parsing Cst) : Parsing Cst := fun s =>
  match first s with
  | .error (.unexpected ..) => second s
  | result => result

/-- An opening brace comes next, and after it a name with a colon: a label or a key. -/
def seesBracedLabel : Parsing Bool :=
  return (← sees "\x7b") && (← following).isFreeName && (← secondFollowing).is ":"

/-! ## Semicolons -/

/-- Passes the semicolon of a statement. It may be missing before a closing brace, at the end of the
text, and at the end of a line. -/
def semicolon : Parsing Unit := do
  if !(← accept ";") then
    let t ← token
    if !(t.is "\x7d" || t.kind == .finish || t.afterLineEnd) then refuse

/-! ## Comments in markup style -/

/-- A comment in markup style starts here, where an operand is expected. -/
def startsMarkupComment (s : List Char) : Bool :=
  "<!--".toList.isPrefixOf s || "-->".toList.isPrefixOf s

/-- Passes comments in markup style. -/
def skipMarkupComments : Parsing Unit := do
  let _ ← collect do
    let s ← get
    if startsMarkupComment s.here.chars then
      let text := s.here.chars.takeWhile fun c => !isLineEnd c
      let stop := s.here.offset + byteLength text
      let comment := Extent.comment "html_comment" ⟨s.here.offset, stop⟩
      set { s with comments := comment :: s.comments }
      modify fun s => stateAt s ⟨s.here.chars.drop text.length, stop⟩ s.last
      return some ()
    else return none

end Parsing

end ScriptTidy.Grammar
