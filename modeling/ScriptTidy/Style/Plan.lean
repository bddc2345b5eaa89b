/-
The plan of a run: which rules are applied, and in which order. Braces are settled before
declarations are split, and the last case of a switch is terminated before cases are sorted, since
splitting works on the statements of a block and sorting on terminated fallthrough blocks.
-/
import ScriptTidy.Style.Braces
import ScriptTidy.Style.Capitals
import ScriptTidy.Style.Cases
import ScriptTidy.Style.Declarations
import ScriptTidy.Style.Equality
import ScriptTidy.Style.Members
import ScriptTidy.Settings.Options

namespace ScriptTidy

/-- A rule of style, which changes a tree. -/
inductive Rule where
  | exactEquals
  | insertBraces
  | stripBraces
  | trailingBreak
  | capComments
  | separateVars
  | sortCases
  | sortFunctions
  | sortProperties
deriving DecidableEq, Repr

namespace Rule

/-- All rules in the order of the plan. -/
def order : List Rule :=
  [exactEquals, insertBraces, stripBraces, trailingBreak, capComments, separateVars, sortCases,
    sortFunctions, sortProperties]

/-- The name of a rule. -/
def name : Rule → String
  | exactEquals => "exact_equals"
  | insertBraces => "insert_braces"
  | stripBraces => "strip_braces"
  | trailingBreak => "trailing_break"
  | capComments => "cap_comments"
  | separateVars => "separate_vars"
  | sortCases => "sort_cases"
  | sortFunctions => "sort_functions"
  | sortProperties => "sort_properties"

/-- The rule with a given name. -/
def ofName? (s : String) : Option Rule := order.find? (·.name == s)

/-- The options turn the rule on. -/
def isEnabled (options : Options) : Rule → Bool
  | exactEquals => options.exactEquals
  | insertBraces => options.braces == .insert
  | stripBraces => options.braces == .strip
  | trailingBreak => options.trailingBreak
  | capComments => options.capComments
  | separateVars => options.separateVars
  | sortCases => options.sortCases
  | sortFunctions => options.sortFunctions
  | sortProperties => options.sortProperties

/-- Applies a rule to a tree. -/
def apply : Rule → Node → Except NumeralFault Node
  | exactEquals, root => .ok root.exactEquals
  | insertBraces, root => .ok root.insertBraces
  | stripBraces, root => .ok root.stripBraces
  | trailingBreak, root => .ok root.trailingBreak
  | capComments, root => .ok root.capComments
  | separateVars, root => .ok root.separateVars
  | sortCases, root => .ok root.sortCases
  | sortFunctions, root => .ok root.sortFunctions
  | sortProperties, root => root.sortProperties

/-- Applies rules one after another. -/
def applyAll (rules : List Rule) (root : Node) : Except NumeralFault Node :=
  rules.foldlM (fun root rule => rule.apply root) root

end Rule

/-- The rules that the options turn on, in order. -/
def Options.plan (options : Options) : List Rule := Rule.order.filter (·.isEnabled options)

/-- Applies all rules that the options turn on. -/
def Node.applyPlan (root : Node) (options : Options) : Except NumeralFault Node :=
  Rule.applyAll options.plan root

end ScriptTidy
