/-
Values that a setting can be given: null, truth values, numbers, texts, lists and tables. A setting
that is asked for yes or no answers no when it is null, zero or empty.
-/
import ScriptTidy.Number.Shortest
import ScriptTidy.Text.Display

namespace ScriptTidy

/-- The value of a setting. -/
inductive Setting where
  | null
  | bool (value : Bool)
  | integer (value : Int)
  | decimal (value : Double)
  | text (value : String)
  | list (items : List Setting)
  | table (entries : List (String × Setting))

namespace Setting

/-- The setting means yes. -/
def isOn : Setting → Bool
  | null => false
  | bool value => value
  | integer value => value != 0
  | decimal value => value != .zero false && value != .zero true
  | text value => !value.isEmpty
  | list items => !items.isEmpty
  | table entries => !entries.isEmpty

/-- Texts with a comma between them. -/
def joined (texts : List String) : String := String.intercalate ", " texts

mutual

/-- The setting as a message shows it. -/
def shown : Setting → String
  | null => "None"
  | bool true => "True"
  | bool false => "False"
  | integer value => toString value
  | decimal value => value.display
  | text value => Text.shown value
  | list items => "[" ++ joined (shownItems items) ++ "]"
  | table entries => "\x7b" ++ joined (shownEntries entries) ++ "\x7d"

/-- The members of a list as a message shows them. -/
def shownItems : List Setting → List String
  | [] => []
  | item :: rest => shown item :: shownItems rest

/-- The entries of a table as a message shows them. -/
def shownEntries : List (String × Setting) → List String
  | [] => []
  | (key, value) :: rest => (Text.shown key ++ ": " ++ shown value) :: shownEntries rest

end

end Setting

end ScriptTidy
