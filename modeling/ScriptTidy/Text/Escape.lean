/-
Reading the escape sequences of a string literal. The body of the literal is a sequence of code
points; a backslash starts one escape, the longest of these forms that fits: a code point in braces,
four hexadecimal digits after u, two after x, up to three octal digits, a carriage return with its
line feed, or any single character. Every other code point stands for itself, and surrogate pairs
that come together are joined at the end.
-/
import ScriptTidy.Text.CodePoint

namespace ScriptTidy.Text

/-- An escape that names a code point beyond the last one. -/
structure EscapeFault where
  value : Nat
deriving Repr, DecidableEq

namespace Escape

/-- The value of a hexadecimal digit. -/
def hexValue? (p : CodePoint) : Option Nat :=
  let n := p.val
  if 0x30 ≤ n && n ≤ 0x39 then some (n - 0x30)
  else if 0x41 ≤ n && n ≤ 0x46 then some (n - 0x41 + 10)
  else if 0x61 ≤ n && n ≤ 0x66 then some (n - 0x61 + 10)
  else none

/-- The value of an octal digit. -/
def octalValue? (p : CodePoint) : Option Nat :=
  if 0x30 ≤ p.val && p.val ≤ 0x37 then some (p.val - 0x30) else none

/-- The number that the leading hexadecimal digits spell, how many they are, and what follows. -/
def hexRun : List CodePoint → Nat → Nat → Nat × Nat × List CodePoint
  | [], value, count => (value, count, [])
  | p :: rest, value, count =>
    match hexValue? p with
    | some d => hexRun rest (value * 16 + d) (count + 1)
    | none => (value, count, p :: rest)

/-- The number that exactly `count` leading hexadecimal digits spell, and what follows them. -/
def hexExactly? : Nat → List CodePoint → Nat → Option (Nat × List CodePoint)
  | 0, rest, value => some (value, rest)
  | _ + 1, [], _ => none
  | count + 1, p :: rest, value =>
    (hexValue? p).bind fun d => hexExactly? count rest (value * 16 + d)

/-- An octal escape stops before its value would pass 0o377: the third digit is read only after a
first digit up to three. -/
def octal (first : Nat) (rest : List CodePoint) : Nat × List CodePoint :=
  match rest with
  | [] => (first, [])
  | p :: rest' =>
    match octalValue? p with
    | none => (first, p :: rest')
    | some second =>
      match rest' with
      | [] => (first * 8 + second, [])
      | q :: rest'' =>
        match octalValue? q with
        | some third =>
          if first ≤ 3 then ((first * 8 + second) * 8 + third, rest'')
          else (first * 8 + second, q :: rest'')
        | none => (first * 8 + second, q :: rest'')

/-- What a single escaped character stands for: nothing for a line terminator, a control character
for its letter, itself otherwise. -/
def single (p : CodePoint) : List CodePoint :=
  match p.val with
  | 0x0a | 0x0d | 0x2028 | 0x2029 => []
  | 0x62 => [0x08]
  | 0x66 => [0x0c]
  | 0x6e => [0x0a]
  | 0x72 => [0x0d]
  | 0x74 => [0x09]
  | 0x76 => [0x0b]
  | _ => [p]

/-- The code point with the given number. -/
def codePoint (n : Nat) : Except EscapeFault CodePoint :=
  if h : n < 0x110000 then .ok ⟨n, h⟩ else .error ⟨n⟩

/-- The braced form of an escape, after its u: digits, at least one, and the closing brace. -/
def braced? (rest : List CodePoint) : Option (Nat × List CodePoint) :=
  match rest with
  | ⟨0x7b, _⟩ :: digits =>
    match hexRun digits 0 0 with
    | (value, _ + 1, ⟨0x7d, _⟩ :: after) => some (value, after)
    | _ => none
  | _ => none

/-- The escape after a backslash: what it stands for and what follows it. -/
def sequence (p : CodePoint) (rest : List CodePoint) :
    Except EscapeFault (List CodePoint × List CodePoint) := do
  if p.val = 0x75 then
    match braced? rest with
    | some (value, after) => return ([← codePoint value], after)
    | none =>
      match hexExactly? 4 rest 0 with
      | some (value, after) => return ([← codePoint value], after)
      | none => return ([p], rest)
  else if p.val = 0x78 then
    match hexExactly? 2 rest 0 with
    | some (value, after) => return ([← codePoint value], after)
    | none => return ([p], rest)
  else
    match octalValue? p with
    | some first =>
      let (value, after) := octal first rest
      return ([← codePoint value], after)
    | none =>
      match p, rest with
      | ⟨0x0d, _⟩, ⟨0x0a, _⟩ :: after => return ([], after)
      | _, _ => return (single p, rest)

/-- Replaces every escape. The first number bounds the escapes that can still follow. -/
def replaceAll : Nat → List CodePoint → Except EscapeFault (List CodePoint)
  | _, [] => .ok []
  | 0, rest => .ok rest
  | fuel + 1, ⟨0x5c, h⟩ :: rest =>
    match rest with
    | [] => .ok [⟨0x5c, h⟩]
    | p :: rest' => do
      let (value, after) ← sequence p rest'
      return value ++ (← replaceAll fuel after)
  | fuel + 1, p :: rest => do return p :: (← replaceAll fuel rest)

end Escape

/-- The value of a string literal with the given body. -/
def decodeString (body : List CodePoint) : Except EscapeFault (List CodePoint) := do
  return CodePoint.joinSurrogates (← Escape.replaceAll body.length body)

end ScriptTidy.Text
