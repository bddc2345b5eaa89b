/-
Sessions: formatting texts one after another with the same options, with a memory of the most recent
results. A text that is remembered is not formatted again, and counts as used. When the memory is
full, the text that was used longest ago is forgotten. Failures are not remembered.
-/
import ScriptTidy.Format

namespace ScriptTidy

/-- A result with the text that it belongs to, and the number of results that preceded it. -/
structure Memory where
  text : String
  result : Formatted
  serial : Nat

/-- Options, and the results that are remembered, the one used last first. -/
structure Session where
  options : Options
  capacity : Nat
  memories : List Memory
  /-- How many results have been produced. -/
  count : Nat

/-- Why a session gives no result. -/
inductive SessionFault where
  | format (fault : FormatFault)
  /-- There is no room for a single result. -/
  | noRoom
deriving Repr, DecidableEq

/-- The words for a fault. -/
def SessionFault.message : SessionFault → String
  | format fault => fault.message
  | noRoom => "value too large"

namespace Session

/-- How many results a session remembers unless told otherwise. -/
def standardCapacity : Nat := 128

/-- A session that remembers nothing yet. -/
def new (options : Options) (capacity : Nat) : Session := ⟨options, capacity, [], 0⟩

/-- What is remembered of a text. -/
def remembered? (s : Session) (text : String) : Option Memory := s.memories.find? (·.text == text)

/-- The session after a use of what it remembers of a text. -/
def refresh (s : Session) (m : Memory) : Session :=
  { s with memories := m :: s.memories.filter (·.text != m.text) }

/-- The session with a further result. -/
def remember (s : Session) (text : String) (result : Formatted) : Session :=
  { s with
    memories := ⟨text, result, s.count⟩ :: s.memories.take (s.capacity - 1)
    count := s.count + 1 }

/-- Formats a text, or recalls what it was formatted as. -/
def format (s : Session) (text : String) : Except SessionFault Memory × Session :=
  match s.remembered? text with
  | some m => (.ok m, s.refresh m)
  | none =>
    match formatted s.options text with
    | .error fault => (.error (.format fault), s)
    | .ok result =>
      if s.capacity = 0 then (.error .noRoom, s)
      else (.ok ⟨text, result, s.count⟩, s.remember text result)

/-- The stages that formatting a text goes through. -/
def stages (s : Session) (text : String) : List Event :=
  match s.remembered? text with
  | some _ => [.recalled text.length]
  | none => ScriptTidy.stages s.options text

end Session

end ScriptTidy
