/-
The numbers that literals denote: integers of any size, and doubles. They are compared exactly, by
their place on the extended rational line; a NaN has no place and precedes nothing.
-/
import ScriptTidy.Number.Double

namespace ScriptTidy

/-- The value of a number literal. -/
inductive Number where
  | integer (n : Int)
  | double (x : Double)
deriving DecidableEq, Repr

/-- A place on the rational line with its two ends. -/
inductive Place where
  | lowest
  | rational (q : Rat)
  | highest
deriving DecidableEq

namespace Place

/-- The first place lies below the second. -/
def below : Place → Place → Bool
  | lowest, lowest => false
  | lowest, _ => true
  | rational _, lowest => false
  | rational p, rational q => p < q
  | rational _, highest => true
  | highest, _ => false

end Place

namespace Number

/-- Where a number lies, unless it is a NaN. -/
def place? : Number → Option Place
  | integer n => some (.rational n)
  | double x =>
    if x.isNaN then none
    else if x.isInfinite then some (if x.negative then .lowest else .highest)
    else some (.rational x.toRat)

/-- The first number is smaller than the second. -/
def precedes (a b : Number) : Bool :=
  match a.place?, b.place? with
  | some p, some q => p.below q
  | _, _ => false

end Number

end ScriptTidy
