/-
The options of a run. `Profile.ofEntries` reads them from named settings, later ones taking the
place of earlier ones; a width in `spaces` stands for an indent of as many spaces. A profile has
options only if its indent is a run of spaces and tabs and at most one brace rule is on, so
`Options` can be built in no other way.
-/
import ScriptTidy.Settings.OptionName
import ScriptTidy.Settings.Setting

namespace ScriptTidy

-- powers of the core library, whatever other powers are in sight
attribute [local instance (high)] instPowNat

/-! ## Profiles -/

/-- A setting for every option. -/
structure Profile where
  get : OptionName → Setting

namespace Profile

/-- All rules are on but the removal of braces; the indent is a tab. -/
def standard : Profile where
  get
    | .stripBraces => .bool false
    | .indent => .text "\t"
    | _ => .bool true

/-- The profile with another setting for one option. -/
def set (p : Profile) (name : OptionName) (value : Setting) : Profile where
  get other := if other = name then value else p.get other

end Profile

/-- Why settings give no options. -/
inductive OptionFault where
  | unrecognized (key : String)
  | badSpaces (value : Setting)
  /-- No text can be as long as the indent would be. -/
  | tooWide
  | badIndent (value : Setting)
  | braceConflict

/-- The words for a fault. -/
def OptionFault.message : OptionFault → String
  | unrecognized key => "unrecognized option " ++ Text.shown key
  | badSpaces value => "spaces must be a positive integer, got " ++ value.shown
  | tooWide => "cannot fit 'int' into an index-sized integer"
  | badIndent value => "indent must be a non-empty run of spaces or tabs, got " ++ value.shown
  | braceConflict => "extra_braces and strip_braces cannot both be enabled"

/-- The most characters that a text may have. -/
def maxWidth : Int := 2 ^ (63 : Nat) - 1

namespace Profile

/-- Takes one named setting into a profile. -/
def apply (p : Profile) (key : String) (value : Setting) : Except OptionFault Profile :=
  let name := OptionName.normalizeName key
  if name = "spaces" then
    match value with
    | .integer width =>
      if width < 1 then .error (.badSpaces value)
      else if maxWidth < width then .error .tooWide
      else .ok (p.set .indent (.text (String.ofList (List.replicate width.toNat ' '))))
    | _ => .error (.badSpaces value)
  else
    match OptionName.ofSpelling? name with
    | some option => .ok (p.set option value)
    | none => .error (.unrecognized key)

/-- The profile of a list of named settings. -/
def ofEntries (entries : List (String × Setting)) : Except OptionFault Profile :=
  entries.foldlM (fun p entry => p.apply entry.1 entry.2) standard

end Profile

/-! ## Options -/

/-- What is done about the braces around a single statement. -/
inductive BraceStyle where
  | keep
  | insert
  | strip
deriving DecidableEq, Repr

/-- The text consists of spaces and tabs, and is not empty. -/
def isIndent (s : String) : Bool := !s.isEmpty && s.toList.all fun c => c == ' ' || c == '\t'

/-- The options of a run. -/
structure Options where
  exactEquals : Bool
  braces : BraceStyle
  capComments : Bool
  separateVars : Bool
  sortCases : Bool
  sortFunctions : Bool
  sortProperties : Bool
  trailingBreak : Bool
  semicolons : Bool
  indent : String
  indent_valid : isIndent indent = true

namespace Profile

/-- The option is on. -/
def isOn (p : Profile) (name : OptionName) : Bool := (p.get name).isOn

/-- The brace style of a profile; both rules cannot be on. -/
def braces (p : Profile) : Except OptionFault BraceStyle :=
  match p.isOn .extraBraces, p.isOn .stripBraces with
  | true, true => .error .braceConflict
  | true, false => .ok .insert
  | false, true => .ok .strip
  | false, false => .ok .keep

/-- The options of a profile. The indent is looked at before the braces. -/
def toOptions (p : Profile) : Except OptionFault Options :=
  match p.get .indent with
  | .text indent =>
    if h : isIndent indent = true then do
      let braces ← p.braces
      return {
        exactEquals := p.isOn .exactEquals
        braces
        capComments := p.isOn .capComments
        separateVars := p.isOn .separateVars
        sortCases := p.isOn .sortCases
        sortFunctions := p.isOn .sortFunctions
        sortProperties := p.isOn .sortProperties
        trailingBreak := p.isOn .trailingBreak
        semicolons := p.isOn .semicolons
        indent
        indent_valid := h }
    else .error (.badIndent (.text indent))
  | value => .error (.badIndent value)

end Profile

namespace Options

/-- The options of a list of named settings. -/
def ofEntries (entries : List (String × Setting)) : Except OptionFault Options :=
  Profile.ofEntries entries >>= Profile.toOptions

/-- The options of the standard profile. -/
def standard : Options where
  exactEquals := true
  braces := .insert
  capComments := true
  separateVars := true
  sortCases := true
  sortFunctions := true
  sortProperties := true
  trailingBreak := true
  semicolons := true
  indent := "\t"
  indent_valid := by decide

end Options

end ScriptTidy
