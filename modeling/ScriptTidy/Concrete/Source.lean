/-
A source text and the places in it. Offsets and columns count bytes.
-/
import ScriptTidy.Concrete.Tree
import ScriptTidy.Syntax.Node
import ScriptTidy.Text.Utf8

namespace ScriptTidy

/-- A place in a text, as line and column from one. -/
structure Position where
  line : Nat
  column : Nat
deriving DecidableEq, Repr

/-- The words in front of a message about a place. -/
def Position.describe (p : Position) : String :=
  "line " ++ toString p.line ++ ", column " ++ toString p.column ++ ": "

/-- The bytes of a source text, and the offsets of its line feeds in order. -/
structure Source where
  bytes : ByteArray
  breaks : List Nat

namespace Source

/-- The offsets of the line feeds in a list of bytes. -/
def breaksOf (bytes : List UInt8) : List Nat :=
  (bytes.zipIdx.filter fun b => b.1 == 10).map (·.2)

/-- Bytes as a source. They need not be valid UTF-8. -/
def ofBytes (bytes : ByteArray) : Source := ⟨bytes, breaksOf bytes.toList⟩

/-- A text as a source. -/
def ofString (s : String) : Source := ofBytes s.toUTF8

/-- The line of an offset, from one. -/
def line (s : Source) (offset : Nat) : Nat := (s.breaks.takeWhile (· < offset)).length + 1

/-- The place of an offset. -/
def position (s : Source) (offset : Nat) : Position :=
  let before := s.breaks.takeWhile (· < offset)
  let lineStart := (before.getLast?.map (· + 1)).getD 0
  ⟨before.length + 1, offset - lineStart + 1⟩

/-- The bytes between two offsets. -/
def slice (s : Source) (start stop : Nat) : List UInt8 := (s.bytes.extract start stop).toList

/-- From the start of one concrete node to the end of another. -/
def span (s : Source) (first last : Cst) : Span :=
  ⟨first.mark.start, last.mark.stop, s.line first.mark.start⟩

end Source

end ScriptTidy
