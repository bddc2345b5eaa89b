/-
Markup among expressions: elements in angle brackets with attributes and content. Its inner
structure is checked and then forgotten; an element is a single node that tells only whether it has
content.
-/
import ScriptTidy.Grammar.Expression

namespace ScriptTidy.Grammar

/-- The cursor after a number of ASCII characters. -/
def Cursor.past (c : Cursor) (count : Nat) : Cursor := ⟨c.chars.drop count, c.offset + count⟩

/-- The cursor at the next of the given characters. -/
def Cursor.upTo (c : Cursor) (stops : List Char) : Cursor :=
  let text := c.chars.takeWhile fun d => !stops.contains d
  ⟨c.chars.drop text.length, c.offset + byteLength text⟩

namespace Markup

open Parsing

variable (below : Below)

/-- Makes a single character at a cursor the current token. -/
def pointTo (text : String) (c : Cursor) : Parsing Unit :=
  modify fun s => { s with
    token := ⟨.mark, text, c.offset, c.offset + 1, false⟩
    here := c
    next := c.past 1 }

/-- The current token starts with a bracket, which then is the current token alone. -/
def bracket (text : String) : Parsing Unit := do
  let s ← get
  if s.token.kind = .mark ∧ s.token.text.startsWith text then pointTo text s.here else refuse

/-! ## Names and attributes -/

/-- A name with hyphens, which start no token of their own. -/
def hyphenatedName : Parsing Unit := do
  let s ← get
  if s.token.kind = .name then
    let text := s.here.chars.takeWhile fun c => Text.isIdentifierPart c.toNat || c == '-'
    moveTo ⟨s.here.chars.drop text.length, s.here.offset + byteLength text⟩
  else refuse

/-- The name of an element or attribute. -/
def name : Parsing Unit := do
  hyphenatedName
  let _ ← collect do
    if (← accept ".") || (← accept ":") then
      hyphenatedName
      return some ()
    else return none

/-- A string without escapes, which starts at the current token. -/
def rawString : Parsing Unit := do
  let s ← get
  match s.here.chars with
  | quote :: _ =>
    let stop := (s.here.past 1).upTo [quote]
    if (quote == '"' || quote == '\'') && !stop.chars.isEmpty then moveTo (stop.past 1) else refuse
  | [] => refuse

/-- An expression in braces, which may be missing. Its closing brace is not passed. -/
def container : Parsing Unit := do
  let _ ← expect "\x7b"
  let _ ← accept "..."
  if !(← sees "\x7d") then
    let _ ← below (.expression true)
  if !(← sees "\x7d") then refuse

/-- The value of an attribute. -/
def attributeValue : Parsing Unit := do
  let s ← get
  if s.token.is "\x7b" then
    container below
    let _ ← advance
  else if s.token.kind = .mark ∧ s.token.text.startsWith "<" then
    let _ ← below .markup
    let _ ← advance
  else rawString

/-- An attribute, if there is one. -/
def attribute? : Parsing (Option Unit) := do
  if ← sees "\x7b" then
    container below
    let _ ← advance
    return some ()
  else if (← token).kind = .name then
    name
    if ← sees "=" then
      moveTo (← get).next
      attributeValue below
    return some ()
  else return none

/-! ## Elements -/

/-- The next piece of content after the current token, if the element does not end here. The last
character of the piece, or the opening bracket of the closing tag, becomes the current token. -/
def content? : Parsing (Option Unit) := do
  let s ← get
  let stop := s.next.upTo ['<', '>', '{', '}']
  match stop.chars with
  | '{' :: _ =>
    pointTo "\x7b" stop
    container below
    return some ()
  | '<' :: rest =>
    pointTo "<" stop
    if rest.head? == some '/' then return none
    else
      let _ ← below .markup
      return some ()
  | _ => refuse

/-- The content of an element after its opening tag, and its closing tag up to the last bracket. -/
def contentAndClosing : Parsing Unit := do
  let _ ← collect (content? below)
  let s ← get
  moveTo (s.next.past 1)
  if (← token).kind = .name then name
  bracket ">"

/-- An element that ends at the current token. -/
def element (kind : String) (start : Nat) : Parsing Cst :=
  return makeNode kind start (← token).stop []

/-- Markup, up to its last bracket, which is the current token at the end. -/
def markup : Parsing Cst := do
  let start ← startOffset
  bracket "<"
  let s ← get
  moveTo s.next
  if (← token).kind = .name then
    name
    let _ ← collect (attribute? below)
    if ← accept "/" then
      bracket ">"
      element "jsx_self_closing_element" start
    else
      bracket ">"
      contentAndClosing below
      element "jsx_element" start
  else
    bracket ">"
    contentAndClosing below
    element "jsx_element" start

end Markup

end ScriptTidy.Grammar
