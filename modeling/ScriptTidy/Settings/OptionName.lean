/-
The names of the options, and how a name may be spelled: in camel case, with hyphens or with low
lines, and in any case of letters. `normalizeName` turns every spelling into the one with low lines.
-/
import ScriptTidy.Text.Casing

namespace ScriptTidy

/-- What can be chosen about a run. -/
inductive OptionName where
  | exactEquals
  | extraBraces
  | stripBraces
  | capComments
  | separateVars
  | sortCases
  | sortFunctions
  | sortProperties
  | trailingBreak
  | semicolons
  | indent
deriving DecidableEq, Repr

namespace OptionName

/-- All names. -/
def all : List OptionName :=
  [exactEquals, extraBraces, stripBraces, capComments, separateVars, sortCases, sortFunctions,
    sortProperties, trailingBreak, semicolons, indent]

/-- The spelling with low lines. -/
def spelling : OptionName → String
  | exactEquals => "exact_equals"
  | extraBraces => "extra_braces"
  | stripBraces => "strip_braces"
  | capComments => "cap_comments"
  | separateVars => "separate_vars"
  | sortCases => "sort_cases"
  | sortFunctions => "sort_functions"
  | sortProperties => "sort_properties"
  | trailingBreak => "trailing_break"
  | semicolons => "semicolons"
  | indent => "indent"

/-- The name with a given spelling with low lines. -/
def ofSpelling? (s : String) : Option OptionName := all.find? (·.spelling == s)

/-! ## Spellings -/

/-- A lower-case ASCII letter or digit. -/
def endsWord (c : Char) : Bool := c.isLower || c.isDigit

/-- A low line between a word and the capital that starts the next one. -/
def splitWords : List Char → List Char
  | c :: d :: rest =>
    if endsWord c && d.isUpper then c :: '_' :: splitWords (d :: rest)
    else c :: splitWords (d :: rest)
  | rest => rest

/-- A hyphen or a low line. -/
def isSeparator (c : Char) : Bool := c == '-' || c == '_'

/-- A single low line for every run of separators. `inRun` tells whether a run has begun. -/
def joinSeparators : Bool → List Char → List Char
  | _, [] => []
  | inRun, c :: rest =>
    if isSeparator c then
      if inRun then joinSeparators true rest else '_' :: joinSeparators true rest
    else c :: joinSeparators false rest

/-- The text without low lines at either end. -/
def trimSeparators (s : List Char) : List Char :=
  ((s.dropWhile (· == '_')).reverse.dropWhile (· == '_')).reverse

/-- The spelling with low lines of a name in any spelling. -/
def normalizeName (key : String) : String :=
  String.ofList (Text.lowerChars false
    (trimSeparators (joinSeparators false (splitWords key.toList))))

end OptionName

end ScriptTidy
