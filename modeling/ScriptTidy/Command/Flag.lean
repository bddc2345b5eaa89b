/-
The options of the command line: their names, whether they take a value, and what the help says of
them.
-/
import ScriptTidy.Settings.OptionName

namespace ScriptTidy.Command

/-- What an option of the command line asks for. -/
inductive Flag where
  | help
  /-- Turns off an option that is on by itself. -/
  | without (option : OptionName)
  | stripBraces
  | noBackup
  | spaces
  | check
  | failFast
  | verbose
  | version
deriving DecidableEq, Repr

namespace Flag

/-- The options that a flag turns off. -/
def removable : List OptionName :=
  [.capComments, .exactEquals, .extraBraces, .semicolons, .separateVars, .sortCases,
    .sortFunctions, .sortProperties, .trailingBreak]

/-- All flags. Abbreviations are looked up in this order. -/
def all : List Flag :=
  [help] ++ removable.map without ++
    [stripBraces, noBackup, spaces, check, failFast, verbose, version]

/-- The text with hyphens in the place of low lines. -/
def hyphenated (s : String) : String := s.map fun c => if c = '_' then '-' else c

/-- The name of one letter. -/
def shortName? : Flag → Option Char
  | help => some 'h'
  | noBackup => some 'n'
  | spaces => some 's'
  | verbose => some 'v'
  | version => some 'V'
  | _ => none

/-- The name in words, without its hyphens in front. -/
def longName : Flag → String
  | help => "help"
  | without option => "no-" ++ hyphenated option.spelling
  | stripBraces => "strip-braces"
  | noBackup => "no-backup"
  | spaces => "spaces"
  | check => "check"
  | failFast => "fail-fast"
  | verbose => "verbose"
  | version => "version"

/-- The names as they are written, the short one first. -/
def names (f : Flag) : List String :=
  (f.shortName?.map fun c => String.ofList ['-', c]).toList ++ ["--" ++ f.longName]

/-- The names in a message. -/
def title (f : Flag) : String := "/".intercalate f.names

/-- The flag is followed by a value. -/
def takesValue (f : Flag) : Bool := f = spaces

/-- The flag with the given letter as its name. -/
def ofLetter? (c : Char) : Option Flag := all.find? (·.shortName? == some c)

/-- The flag with the given name, hyphens included. -/
def ofName? (name : String) : Option Flag := all.find? (·.names.contains name)

/-- The flags whose long name starts with the given text, hyphens included. -/
def startingWith (text : String) : List Flag :=
  all.filter fun f => ("--" ++ f.longName).startsWith text

/-! ## Help -/

/-- What the help says of a flag, line by line. -/
def description : Flag → List String
  | help => ["show this help message and exit"]
  | without .capComments => ["don't capitalize comments"]
  | without .exactEquals => ["don't replace == with ==="]
  | without .extraBraces => ["don't add optional braces"]
  | without .semicolons => ["omit semicolons"]
  | without .separateVars => ["don't separate variable declarations"]
  | without .sortCases => ["don't sort cases"]
  | without .sortFunctions => ["don't sort functions and methods"]
  | without .sortProperties => ["don't sort object properties"]
  | without .trailingBreak => ["don't add trailing break to final case"]
  | without _ => []
  | stripBraces => ["remove braces around single statements (implies --no-", "extra-braces)"]
  | noBackup => ["don't make .bak files"]
  | spaces => ["indent with N spaces"]
  | check => ["report files that would change, write nothing"]
  | failFast => ["stop at the first file that fails"]
  | verbose => ["log debug output to stderr"]
  | version => ["show program's version number and exit"]

/-- The flag concerns the rules. -/
def isRule : Flag → Bool
  | without _ | stripBraces => true
  | _ => false

/-- The names of a flag in the help, each with the value that it takes. -/
def usage (f : Flag) : String :=
  ", ".intercalate (f.names.map fun name => if f.takesValue then name ++ " N" else name)

/-- A line of the help: a term, and in the column after it a text. -/
def helpLine (term text : String) : String :=
  let lead := "  " ++ term
  lead ++ String.ofList (List.replicate (24 - lead.length) ' ') ++ text

/-- The lines of the help for one flag. -/
def helpLines (f : Flag) : List String :=
  match f.description with
  | [] => []
  | first :: rest => helpLine f.usage first :: rest.map (String.ofList (List.replicate 24 ' ') ++ ·)

end Flag

/-- The line that tells how the program is called. -/
def usageLine : String := "usage: jsclean [options] [files]"

/-- The line that tells the version. -/
def versionLine : String := "jsclean 0.1.0"

/-- The text of the help. -/
def helpText : String :=
  let parts : List (List String) := [
    [usageLine],
    ["Reformat JavaScript source into a canonical style."],
    ["positional arguments:",
      Flag.helpLine "files" "files to format in place (default: stdin to stdout)"],
    "options:" :: (Flag.all.filter fun f => !f.isRule).flatMap Flag.helpLines,
    "rules:" :: (Flag.all.filter Flag.isRule).flatMap Flag.helpLines]
  "\n\n".intercalate (parts.map fun lines => "\n".intercalate lines) ++ "\n"

end ScriptTidy.Command
