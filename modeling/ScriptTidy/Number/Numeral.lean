/-
Reading numbers from text. Digits of every script count, blanks around the number do not, and an
underscore may stand between two digits. `integer` reads an integer in base ten and `prefixed` one
that may name its base; `double?` reads a decimal fraction. A decimal integer of more than 4300
digits is refused. On these rests `numberValue`, the value of a number literal.
-/
import ScriptTidy.Number.Basic
import ScriptTidy.Text.Blank
import ScriptTidy.Text.Category

namespace ScriptTidy

/-- Why a text denotes no number. -/
inductive NumeralFault where
  | malformed (text : String)
  | tooManyDigits (count : Nat)
deriving Repr, DecidableEq

/-- The most digits a decimal integer may have. -/
def maxDecimalDigits : Nat := 4300

/-- The words for a fault. -/
def NumeralFault.message : NumeralFault → String
  | malformed text => "invalid number: " ++ text
  | tooManyDigits count =>
    "Exceeds the limit (" ++ toString maxDecimalDigits ++ " digits) for integer string conversion: "
      ++ "value has " ++ toString count ++ " digits; use sys.set_int_max_str_digits() to increase "
      ++ "the limit"

namespace Numeral

open Text (isBlank decimalValue? isDigit)

/-- The text with digits of every script as ASCII digits and foreign blanks as spaces. A character
that is neither is kept when it is ASCII, and stands for no digit otherwise. -/
def normalize (s : List Char) : List Char :=
  s.map fun c =>
    if c.toNat < 0x80 then c
    else if isBlank c then ' '
    else
      match decimalValue? c.toNat with
      | some d => Char.ofNat (0x30 + d)
      | none => '?'

/-- The blanks that a normalized number may have around it. -/
def isSpace (c : Char) : Bool := (0x9 ≤ c.toNat && c.toNat ≤ 0xd) || c == ' '

/-- The normalized text without blanks around it. -/
def bare (s : List Char) : List Char :=
  (((normalize s).dropWhile isSpace).reverse.dropWhile isSpace).reverse

/-- A sign, if there is one, and what follows it. -/
def sign : List Char → Bool × List Char
  | '-' :: rest => (true, rest)
  | '+' :: rest => (false, rest)
  | rest => (false, rest)

/-- The value of a digit up to base sixteen. -/
def digitValue? (c : Char) : Option Nat :=
  let n := c.toNat
  if 0x30 ≤ n && n ≤ 0x39 then some (n - 0x30)
  else if 0x41 ≤ n && n ≤ 0x46 then some (n - 0x41 + 10)
  else if 0x61 ≤ n && n ≤ 0x66 then some (n - 0x61 + 10)
  else none

/-- The digits of a text that holds nothing else, in the given base, with single underscores between
them allowed. `afterDigit` tells whether a digit stands before the text. -/
def digits? (base : Nat) : Bool → List Char → Option (List Nat)
  | afterDigit, [] => if afterDigit then some [] else none
  | afterDigit, '_' :: rest => if afterDigit then digits? base false rest else none
  | _, c :: rest =>
    match digitValue? c with
    | some d => if d < base then (digits? base true rest).map (d :: ·) else none
    | none => none

/-- The number that digits spell. -/
def ofDigits (base : Nat) (ds : List Nat) : Nat := ds.foldl (fun n d => n * base + d) 0

/-- The natural number that the whole text spells in base ten. -/
def decimal (s : List Char) : Except NumeralFault Nat :=
  match digits? 10 false s with
  | some ds =>
    if ds.length ≤ maxDecimalDigits then .ok (ofDigits 10 ds) else .error (.tooManyDigits ds.length)
  | none => .error (.malformed (String.ofList s))

/-- The natural number that the whole text spells in a base that is a power of two. -/
def inBase (base : Nat) (s : List Char) : Except NumeralFault Nat :=
  match digits? base false s with
  | some ds => .ok (ofDigits base ds)
  | none => .error (.malformed (String.ofList s))

/-- A natural number with its sign. -/
def signed (negative : Bool) (n : Nat) : Int := if negative then -(n : Int) else n

/-- The integer that a text spells in base ten. -/
def integer (s : List Char) : Except NumeralFault Int :=
  let (negative, rest) := sign (bare s)
  (decimal rest).map (signed negative)

/-- The base that the letter after a leading zero names. -/
def baseOf? : Char → Option Nat
  | 'x' | 'X' => some 16
  | 'o' | 'O' => some 8
  | 'b' | 'B' => some 2
  | _ => none

/-- The natural number that a text spells, in the base that its start names. Without a base letter a
leading zero is allowed in zero only. -/
def prefixedNat (s : List Char) : Except NumeralFault Nat :=
  match s with
  | '0' :: letter :: rest =>
    match baseOf? letter with
    | some base =>
      match rest with
      | '_' :: after => inBase base after
      | _ => inBase base rest
    | none => do
      let n ← decimal s
      if n = 0 then return 0 else throw (.malformed (String.ofList s))
  | _ => decimal s

/-- The integer that a text spells, in the base that its start names. -/
def prefixed (s : List Char) : Except NumeralFault Int :=
  let (negative, rest) := sign (bare s)
  (prefixedNat rest).map (signed negative)

/-- The leading decimal digits and what follows them. -/
def digitRun (s : List Char) : List Char × List Char :=
  let isDecimal (c : Char) : Bool := '0' ≤ c && c ≤ '9'
  (s.takeWhile isDecimal, s.dropWhile isDecimal)

/-- The number that a run of decimal digits spells. -/
def ofRun (ds : List Char) : Nat := ds.foldl (fun n c => n * 10 + (c.toNat - 0x30)) 0

/-- The exponent part of a decimal fraction, which must be all that is left. -/
def exponent? : List Char → Option Int
  | [] => some 0
  | c :: rest =>
    if c = 'e' ∨ c = 'E' then
      let (negative, rest) := sign rest
      let (ds, after) := digitRun rest
      if ds.isEmpty || !after.isEmpty then none else some (signed negative (ofRun ds))
    else none

/-- The ASCII letters of a text in lower case. -/
def lowered (s : List Char) : List Char := s.map Char.toLower

/-- The double that a text spells: a decimal fraction, an infinity or a NaN. -/
def double? (s : List Char) : Option Double :=
  let (negative, rest) := sign (bare s)
  if lowered rest = ['i', 'n', 'f'] ∨ lowered rest = ['i', 'n', 'f', 'i', 'n', 'i', 't', 'y'] then
    some (.infinity negative)
  else if lowered rest = ['n', 'a', 'n'] then some (.nan negative)
  else
    let (whole, rest) := digitRun rest
    let (part, rest) := match rest with
      | '.' :: after => digitRun after
      | _ => ([], rest)
    if whole.isEmpty && part.isEmpty then none
    else
      (exponent? rest).map fun e =>
        let ds := whole ++ part
        let significant := ds.dropWhile (· == '0')
        .ofDecimal negative (ofRun significant) significant.length (e - part.length)

/-- The text names its base. -/
def namesBase : List Char → Bool
  | '0' :: letter :: _ => (baseOf? letter).isSome
  | _ => false

/-- A leading zero with nothing but digits after it. -/
def isLegacy : List Char → Bool
  | '0' :: c :: rest => (c :: rest).all fun d => isDigit d.toNat
  | _ => false

end Numeral

open Numeral in
/-- The value of a number literal. Separators go first. A last letter n marks an integer; a named
base is read as such; a leading zero means octal unless a digit rules that out; everything else is
an integer if it reads as one, and a double otherwise. -/
def numberValue (raw : String) : Except NumeralFault Number :=
  let text := raw.toList.filter (· != '_')
  if text.getLast? = some 'n' then (prefixed text.dropLast).map .integer
  else if namesBase text then (prefixed text).map .integer
  else if isLegacy text then
    if text.all fun c => '0' ≤ c && c ≤ '7' then (inBase 8 text).map fun n => .integer n
    else (integer text).map .integer
  else
    match integer text with
    | .ok n => .ok (.integer n)
    | .error _ =>
      match double? text with
      | some x => .ok (.double x)
      | none => .error (.malformed raw)

end ScriptTidy
