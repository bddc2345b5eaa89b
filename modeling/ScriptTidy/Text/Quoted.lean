/-
Writing a string value as a literal. The result is ASCII: printable characters stand for themselves,
a few controls have a short escape, and every other code unit is written in hexadecimal. The quote
is single unless the value holds one.
-/
import ScriptTidy.Text.CodePoint

namespace ScriptTidy.Text

namespace Quoted

/-- The lower-case hexadecimal digit of a number below sixteen. -/
def hexDigit (n : Nat) : Char := if n < 10 then Char.ofNat (0x30 + n) else Char.ofNat (0x57 + n)

/-- The last `count` hexadecimal digits of a number. -/
def hex : Nat → Nat → List Char
  | 0, _ => []
  | count + 1, n => hex count (n / 16) ++ [hexDigit (n % 16)]

/-- The escape of one UTF-16 unit. -/
def unit (n : Nat) : List Char := ['\\', 'u'] ++ hex 4 n

/-- How one code point is written between the given quotes. -/
def escape (quote : Char) (p : CodePoint) : List Char :=
  let n := p.val
  if n = 0x08 then ['\\', 'b']
  else if n = 0x09 then ['\\', 't']
  else if n = 0x0a then ['\\', 'n']
  else if n = 0x0b then ['\\', 'v']
  else if n = 0x0c then ['\\', 'f']
  else if n = 0x0d then ['\\', 'r']
  else if n = 0x5c then ['\\', '\\']
  else if n = quote.toNat then ['\\', quote]
  else if 0x20 ≤ n ∧ n ≤ 0x7e then [Char.ofNat n]
  else if n < 0x100 then ['\\', 'x'] ++ hex 2 n
  else if n < 0x10000 then unit n
  else unit (0xd800 + (n - 0x10000) / 0x400) ++ unit (0xdc00 + (n - 0x10000) % 0x400)

/-- The quote for a value: double if the value holds a single one. -/
def quoteFor (value : List CodePoint) : Char :=
  if value.any (·.val == 0x27) then '"' else '\''

end Quoted

/-- The literal for a string value. -/
def quoteString (value : List CodePoint) : List Char :=
  let quote := Quoted.quoteFor value
  quote :: value.flatMap (Quoted.escape quote) ++ [quote]

end ScriptTidy.Text
