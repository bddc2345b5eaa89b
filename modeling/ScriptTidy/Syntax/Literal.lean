/-
Values of literals. The null literal and regular expressions have no value of their own and are told
apart by their spelling.
-/
import ScriptTidy.Number.Basic
import ScriptTidy.Text.CodePoint

namespace ScriptTidy

/-- What a literal denotes. -/
inductive LiteralValue where
  | absent
  | bool (b : Bool)
  | string (value : List Text.CodePoint)
  | number (n : Number)
deriving DecidableEq, Repr

end ScriptTidy
