/-
The shortest decimal that denotes a double: of all decimals that round to it, one with the fewest
digits, and of those the nearest. The decimals that round to a double form an interval around it,
closed when its significand is even. For one digit, two digits and so on, the two neighbours of the
double on that decimal grid are tried; if any point of the grid lies in the interval, one of them
does.
-/
import ScriptTidy.Number.Double

namespace ScriptTidy

-- powers of the core library, whatever other powers are in sight
attribute [local instance (high)] instPowNat

namespace Shortest

/-- A positive rational as a fraction. -/
structure Ratio where
  num : Nat
  den : Nat

/-- `m * 2 ^ e` as a fraction. -/
def dyadic (m : Nat) (e : Int) : Ratio :=
  if 0 ≤ e then ⟨m * 2 ^ e.toNat, 1⟩ else ⟨m, 2 ^ (-e).toNat⟩

/-- `n * 10 ^ e` as a fraction. -/
def decimal (n : Nat) (e : Int) : Ratio :=
  if 0 ≤ e then ⟨n * 10 ^ e.toNat, 1⟩ else ⟨n, 10 ^ (-e).toNat⟩

def Ratio.lt (a b : Ratio) : Bool := a.num * b.den < b.num * a.den

def Ratio.le (a b : Ratio) : Bool := a.num * b.den ≤ b.num * a.den

/-- The reals that round to a double. -/
structure Interval where
  low : Ratio
  value : Ratio
  high : Ratio
  closed : Bool

/-- Below a power of two the neighbours lie half as far apart as above it. -/
def interval (x : Double) : Interval :=
  let m := x.significand
  let e := x.scale
  let narrow := x.fraction = 0 ∧ 1 < x.exponentField
  let low := if narrow then dyadic (4 * m - 1) (e - 2) else dyadic (2 * m - 1) (e - 1)
  ⟨low, dyadic m e, dyadic (2 * m + 1) (e - 1), m % 2 == 0⟩

/-- The decimal lies in the interval. -/
def Interval.holds (i : Interval) (d : Ratio) : Bool :=
  if i.closed then i.low.le d && d.le i.high else i.low.lt d && d.lt i.high

/-- The number of decimal digits of the integer part of a fraction, or minus the number of zeros
after the point. The search starts from a bound below the answer. -/
def magnitude (r : Ratio) (start : Int) : Nat → Int
  | 0 => start
  | fuel + 1 => if (decimal 1 start).le r then magnitude r (start + 1) fuel else start

/-- The neighbour of the value on the grid of step `10 ^ e` that lies in the interval, the nearer
one if both do. -/
def onGrid? (i : Interval) (e : Int) : Option Nat :=
  let q :=
    if 0 ≤ e then i.value.num / (i.value.den * 10 ^ e.toNat)
    else i.value.num * 10 ^ (-e).toNat / i.value.den
  let down := i.holds (decimal q e) && 0 < q
  let up := i.holds (decimal (q + 1) e)
  if down && up then
    let middle := decimal (10 * q + 5) (e - 1)
    some (if middle.lt i.value ∨ (middle.le i.value ∧ q % 2 = 1) then q + 1 else q)
  else if down then some q
  else if up then some (q + 1)
  else none

/-- The first grid with a hit, from one digit on. -/
def search (i : Interval) (top : Int) : Nat → Nat → Nat × Int
  | count, 0 => ((onGrid? i (top - count)).getD 0, top - count)
  | count, fuel + 1 =>
    match onGrid? i (top - count) with
    | some n => (n, top - count)
    | none => search i top (count + 1) fuel

/-- Drops trailing zeros of a decimal. -/
def stripZeros : Nat → Nat × Int → Nat × Int
  | 0, d => d
  | fuel + 1, (n, e) => if n % 10 = 0 ∧ n ≠ 0 then stripZeros fuel (n / 10, e + 1) else (n, e)

end Shortest

/-- The shortest decimal of a finite double that is not zero: digits and exponent. -/
def Double.shortest (x : Double) : Nat × Int :=
  let i := Shortest.interval x
  let guess : Int := ((x.significand.log2 : Int) + x.scale) * 30103 / 100000 - 2
  let top := Shortest.magnitude i.value guess 6
  Shortest.stripZeros 20 (Shortest.search i top 1 17)

/-- The digits of a natural number in base ten. -/
def decimalDigitsOf (n : Nat) : List Char := Nat.toDigits 10 n

/-- The text of a double: positional from 0.0001 up to 10^16, with a point and at least one digit on
both sides of it, and in scientific notation with at least two digits of exponent otherwise. -/
def Double.display (x : Double) : String :=
  if x.isNaN then "nan"
  else
    let sign := if x.negative then ['-'] else []
    if x.isInfinite then String.ofList (sign ++ ['i', 'n', 'f'])
    else if x.significand = 0 then String.ofList (sign ++ ['0', '.', '0'])
    else
      let (n, e) := x.shortest
      let digits := decimalDigitsOf n
      let point : Int := digits.length + e
      let body :=
        if point > 16 ∨ point < -3 then
          let shownExponent := point - 1
          let tail := decimalDigitsOf shownExponent.natAbs
          let padded := if tail.length < 2 then '0' :: tail else tail
          let mark := if shownExponent < 0 then '-' else '+'
          match digits with
          | [d] => d :: 'e' :: mark :: padded
          | d :: rest => d :: '.' :: rest ++ 'e' :: mark :: padded
          | [] => []
        else if point ≤ 0 then '0' :: '.' :: List.replicate (-point).toNat '0' ++ digits
        else if digits.length ≤ point.toNat then
          digits ++ List.replicate (point.toNat - digits.length) '0' ++ ['.', '0']
        else digits.take point.toNat ++ '.' :: digits.drop point.toNat
      String.ofList (sign ++ body)

end ScriptTidy
