/-
What may stand between two tokens: white space, line ends and comments. A line comment ends before
the next line end, a block comment with its end mark.
-/

namespace ScriptTidy.Grammar

/-- White space within a line: the controls, the byte order mark, and the space separators of every
script. -/
def isSpace (c : Char) : Bool :=
  let n := c.toNat
  n == 0x9 || n == 0xb || n == 0xc || n == 0x20 || n == 0xa0 || n == 0xfeff || n == 0x1680
    || (0x2000 ≤ n && n ≤ 0x200a) || n == 0x202f || n == 0x205f || n == 0x3000

/-- A character that ends a line of a script. -/
def isLineEnd (c : Char) : Bool :=
  let n := c.toNat
  n == 0xa || n == 0xd || n == 0x2028 || n == 0x2029

/-- The part of a text that lies between two offsets. -/
structure Extent where
  start : Nat
  stop : Nat
deriving DecidableEq, Repr

/-- Where a text goes on, and how many bytes precede that. -/
structure Cursor where
  chars : List Char
  offset : Nat

/-- What was found between two tokens. The comments stand in reverse order. -/
structure Trivia where
  comments : List Extent
  hasLineEnd : Bool
  isClosed : Bool
  cursor : Cursor

/-- Where a scan for the next token is: outside comments, or in a comment with a given start. -/
inductive Place where
  | outside
  | lineComment (start : Nat)
  | blockComment (start : Nat)

/-- Skips everything up to the next token. -/
def skipFrom : Place → List Extent → Bool → Nat → List Char → Trivia
  | .outside, found, lineEnd, offset, '/' :: '/' :: rest =>
    skipFrom (.lineComment offset) found lineEnd (offset + 2) rest
  | .outside, found, lineEnd, offset, '/' :: '*' :: rest =>
    skipFrom (.blockComment offset) found lineEnd (offset + 2) rest
  | .outside, found, lineEnd, offset, c :: rest =>
    if isLineEnd c then skipFrom .outside found true (offset + c.utf8Size) rest
    else if isSpace c then skipFrom .outside found lineEnd (offset + c.utf8Size) rest
    else ⟨found, lineEnd, true, ⟨c :: rest, offset⟩⟩
  | .lineComment start, found, lineEnd, offset, c :: rest =>
    if isLineEnd c then skipFrom .outside (⟨start, offset⟩ :: found) true (offset + c.utf8Size) rest
    else skipFrom (.lineComment start) found lineEnd (offset + c.utf8Size) rest
  | .blockComment start, found, lineEnd, offset, '*' :: '/' :: rest =>
    skipFrom .outside (⟨start, offset + 2⟩ :: found) lineEnd (offset + 2) rest
  | .blockComment start, found, lineEnd, offset, c :: rest =>
    skipFrom (.blockComment start) found (lineEnd || isLineEnd c) (offset + c.utf8Size) rest
  | .outside, found, lineEnd, offset, [] => ⟨found, lineEnd, true, ⟨[], offset⟩⟩
  | .lineComment start, found, lineEnd, offset, [] =>
    ⟨⟨start, offset⟩ :: found, lineEnd, true, ⟨[], offset⟩⟩
  | .blockComment _, found, lineEnd, offset, [] => ⟨found, lineEnd, false, ⟨[], offset⟩⟩

/-- Skips everything up to the next token. -/
def Cursor.skip (c : Cursor) : Trivia := skipFrom .outside [] false c.offset c.chars

end ScriptTidy.Grammar
