/-
Binary floating-point numbers of 64 bits (IEEE 754), by their bits. A finite one is a natural number
times a power of two, and all arithmetic on it is done exactly in that form; `ofRatio` rounds a
quotient to the nearest double, ties to the even one.
-/

namespace ScriptTidy

-- powers of the core library, whatever other powers are in sight
attribute [local instance (high)] instPowNat

/-- A double, as its bits: sign, eleven bits of exponent, fifty-two bits of fraction. -/
structure Double where
  bits : UInt64
deriving DecidableEq, Repr

namespace Double

/-- The sign bit is set. -/
def negative (x : Double) : Bool := x.bits.toNat / 2 ^ (63 : Nat) == 1

/-- The eleven bits of the exponent. -/
def exponentField (x : Double) : Nat := x.bits.toNat / 2 ^ (52 : Nat) % 2 ^ (11 : Nat)

/-- The fifty-two bits of the fraction. -/
def fraction (x : Double) : Nat := x.bits.toNat % 2 ^ (52 : Nat)

/-- No number at all. -/
def isNaN (x : Double) : Bool := x.exponentField == 0x7ff && x.fraction != 0

/-- An infinity. -/
def isInfinite (x : Double) : Bool := x.exponentField == 0x7ff && x.fraction == 0

/-- The significand of a finite double. -/
def significand (x : Double) : Nat :=
  if x.exponentField = 0 then x.fraction else 2 ^ (52 : Nat) + x.fraction

/-- The exponent of a finite double: its magnitude is `significand * 2 ^ scale`. -/
def scale (x : Double) : Int :=
  if x.exponentField = 0 then -1074 else (x.exponentField : Int) - 1075

/-- A double with the given sign and the remaining sixty-three bits. -/
def ofMagnitudeBits (negative : Bool) (magnitude : Nat) : Double :=
  ⟨UInt64.ofNat (magnitude + if negative then 2 ^ (63 : Nat) else 0)⟩

/-- The infinity of a sign. -/
def infinity (negative : Bool) : Double := ofMagnitudeBits negative (0x7ff * 2 ^ (52 : Nat))

/-- The quiet NaN of a sign. -/
def nan (negative : Bool) : Double := ofMagnitudeBits negative (0x7ff * 2 ^ (52 : Nat) + 2 ^ (51 : Nat))

/-- The zero of a sign. -/
def zero (negative : Bool) : Double := ofMagnitudeBits negative 0

/-- `num / den` rounded to the nearest natural number, a half to the even neighbour. -/
def roundedDiv (num den : Nat) : Nat :=
  let q := num / den
  let r := num % den
  if 2 * r > den ∨ (2 * r = den ∧ q % 2 = 1) then q + 1 else q

/-- The greatest power of two, as its exponent, that is at most `num / den`. -/
def binade (num den : Nat) : Int :=
  let guess : Int := (num.log2 : Int) - (den.log2 : Int)
  let fits :=
    if 0 ≤ guess then den * 2 ^ guess.toNat ≤ num else den ≤ num * 2 ^ (-guess).toNat
  if fits then guess else guess - 1

/-- The double nearest to `num / den`, of the given sign. A carry out of the significand moves to
the next exponent by itself, since the fields lie side by side. -/
def ofRatio (negative : Bool) (num den : Nat) : Double :=
  if num = 0 then zero negative
  else
    let e := max (binade num den) (-1022) - 52
    let m :=
      if 0 ≤ e then roundedDiv num (den * 2 ^ e.toNat)
      else roundedDiv (num * 2 ^ (-e).toNat) den
    let magnitude := (e + 1074).toNat * 2 ^ (52 : Nat) + m
    if 0x7ff * 2 ^ (52 : Nat) ≤ magnitude then infinity negative else ofMagnitudeBits negative magnitude

/-- The double nearest to `digits * 10 ^ exponent`, where `width` is the number of digits. Exponents
that leave no doubt are decided before any power is formed. -/
def ofDecimal (negative : Bool) (digits width : Nat) (exponent : Int) : Double :=
  if digits = 0 then zero negative
  else if exponent > 400 then infinity negative
  else if exponent + width < -400 then zero negative
  else if 0 ≤ exponent then ofRatio negative (digits * 10 ^ exponent.toNat) 1
  else ofRatio negative digits (10 ^ (-exponent).toNat)

/-- The value of a finite double. -/
def toRat (x : Double) : Rat :=
  let m : Int := if x.negative then -x.significand else x.significand
  if 0 ≤ x.scale then mkRat (m * 2 ^ x.scale.toNat) 1 else mkRat m (2 ^ (-x.scale).toNat)

end Double

end ScriptTidy
