/-
Sets of characters given by sorted, disjoint intervals of code points. A property of the character
database is stored this way; membership is decided by looking for the interval that holds the code
point.
-/

namespace ScriptTidy.Text

/-- A set of code points as closed intervals, in increasing order. -/
structure Intervals where
  bounds : Array (Nat × Nat)

namespace Intervals

/-- The code point lies in one of the intervals. -/
def contains (s : Intervals) (n : Nat) : Bool :=
  s.bounds.any fun b => b.1 ≤ n && n ≤ b.2

/-- The distance of a code point from the start of the interval that holds it. -/
def offset? (s : Intervals) (n : Nat) : Option Nat :=
  (s.bounds.find? fun b => b.1 ≤ n && n ≤ b.2).map fun b => n - b.1

end Intervals

end ScriptTidy.Text
