/-
Texts that are the standard form of a number. A property named by such a text and the property named
by the number are the same one. Integers count up to 2^53 - 1, fractions when they are the shortest
decimal of their double and written positionally.
-/
import ScriptTidy.Number.Numeral
import ScriptTidy.Number.Shortest

namespace ScriptTidy

-- powers of the core library, whatever other powers are in sight
attribute [local instance (high)] instPowNat

namespace Canonical

/-- Zero, or digits that do not start with it. -/
def isWhole : List Char → Bool
  | ['0'] => true
  | c :: rest => '1' ≤ c && c ≤ '9' && rest.all fun d => '0' ≤ d && d ≤ '9'
  | [] => false

/-- Digits that do not end in a zero. -/
def isPart (s : List Char) : Bool :=
  match s.getLast? with
  | some c => c != '0' && s.all fun d => '0' ≤ d && d ≤ '9'
  | none => false

/-- The integers beyond this one have doubles with several texts. -/
def maxInteger : Nat := 2 ^ (53 : Nat) - 1

end Canonical

open Canonical in
/-- The number whose standard form is exactly the given text. -/
def canonicalNumber (text : List Char) : Except NumeralFault (Option Number) :=
  let whole := text.takeWhile (· != '.')
  match text.dropWhile (· != '.') with
  | [] =>
    if isWhole whole then do
      let n ← Numeral.integer text
      return if n ≤ maxInteger then some (.integer n) else none
    else .ok none
  | _ :: part =>
    if isWhole whole && isPart part then
      .ok ((Numeral.double? text).bind fun x =>
        if x.display.toList = text then some (.double x) else none)
    else .ok none

end ScriptTidy
