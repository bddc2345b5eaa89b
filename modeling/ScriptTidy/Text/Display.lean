/-
How a text is shown inside a message: between quotes, with everything that has no visible form
escaped. The quotes are single unless the text holds a single quote and no double one.
-/
import ScriptTidy.Text.Printable
import ScriptTidy.Text.Quoted

namespace ScriptTidy.Text

/-- How one character of a shown text is written between the given quotes. -/
def showChar (quote c : Char) : List Char :=
  let n := c.toNat
  if c = quote ∨ c = '\\' then ['\\', c]
  else if c = '\n' then ['\\', 'n']
  else if c = '\r' then ['\\', 'r']
  else if c = '\t' then ['\\', 't']
  else if isPrintable n then [c]
  else if n < 0x100 then ['\\', 'x'] ++ Quoted.hex 2 n
  else if n < 0x10000 then ['\\', 'u'] ++ Quoted.hex 4 n
  else ['\\', 'U'] ++ Quoted.hex 8 n

/-- The text as a message shows it. -/
def shown (s : String) : String :=
  let cs := s.toList
  let quote := if cs.contains '\'' && !cs.contains '"' then '"' else '\''
  String.ofList (quote :: cs.flatMap (showChar quote) ++ [quote])

end ScriptTidy.Text
