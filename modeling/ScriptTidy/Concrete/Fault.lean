/-
Why a source text cannot be read as a program.
-/
import ScriptTidy.Concrete.Source
import ScriptTidy.Number.Numeral
import ScriptTidy.Text.Display
import ScriptTidy.Text.Escape

namespace ScriptTidy

-- powers of the core library, whatever other powers are in sight
attribute [local instance (high)] instPowNat

/-- Why a source text cannot be read. -/
inductive ReadFault where
  /-- The text is no valid program. -/
  | malformed (position : Position) (problem : String)
  /-- The text uses syntax that has no place in the tree. -/
  | unsupported (position : Position) (kind : String)
  | tooDeep
  /-- A concrete node lacks a child, or a text that is quoted has no line. -/
  | missingChild
  | badEscape (fault : Text.EscapeFault)
  | badNumeral (fault : NumeralFault)
  | undecodable (fault : Text.Utf8.Fault)
deriving Repr, DecidableEq

namespace Text

/-- The words for a flaw in UTF-8. -/
def Utf8.Fault.message (f : Utf8.Fault) : String :=
  let place :=
    if f.stop = f.start + 1 then
      "byte 0x" ++ String.ofList (Quoted.hex 2 f.byte.toNat) ++ " in position " ++ toString f.start
    else "bytes in position " ++ toString f.start ++ "-" ++ toString (f.stop - 1)
  "'utf-8' codec can't decode " ++ place ++ ": " ++ f.flaw.message

/-- The words for an escape that names no code point. -/
def EscapeFault.message (f : EscapeFault) : String :=
  if f.value < 2 ^ (31 : Nat) then "chr() arg not in range(0x110000)"
  else "Python int too large to convert to C int"

end Text

/-- The words for a text that nests too deeply. -/
def nestingMessage : String := "input is nested too deeply to format"

/-- The words for a fault. -/
def ReadFault.message : ReadFault → String
  | malformed position problem => position.describe ++ problem
  | unsupported position kind => position.describe ++ "unsupported syntax " ++ Text.shown kind
  | tooDeep => nestingMessage
  | missingChild => "list index out of range"
  | badEscape fault => fault.message
  | badNumeral fault => fault.message
  | undecodable fault => fault.message

end ScriptTidy
