/-
Capitalizing a text: its first character that is not blank is put into upper case if it is lower
case. Nothing else changes.
-/
import ScriptTidy.Text.Blank
import ScriptTidy.Text.Casing

namespace ScriptTidy.Text

/-- The text with its first visible character in upper case. -/
def capitalizeChars (s : List Char) : List Char :=
  match s with
  | [] => []
  | c :: rest =>
    if isBlank c then c :: capitalizeChars rest
    else if isLower c then upper c ++ rest
    else c :: rest

/-- The text with its first visible character in upper case. -/
def capitalize (s : String) : String := String.ofList (capitalizeChars s.toList)

end ScriptTidy.Text
