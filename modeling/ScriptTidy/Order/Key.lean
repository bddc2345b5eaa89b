/-
The keys by which cases, functions, methods and properties are put in order. Numbers come first, in
numeric order; then texts, by code point; a missing key comes last, and the constructor of a class
before everything else. A property named by the standard form of a number is the property named by
the number, and has its key.
-/
import ScriptTidy.Number.Canonical
import ScriptTidy.Syntax.Node

namespace ScriptTidy

open Text (CodePoint)

/-- A place in the order of a sorted list. -/
inductive SortKey where
  | leading
  | number (n : Number)
  | text (value : List CodePoint)
  | missing
deriving DecidableEq

namespace SortKey

/-- The class of a key; a lower class precedes a higher one. -/
def rank : SortKey → Int
  | leading => -1
  | number _ => 0
  | text _ => 1
  | missing => 2

/-- The key of a text. -/
def ofString (s : String) : SortKey := text (CodePoint.ofString s)

/-- The first key stands strictly before the second. -/
def precedes (a b : SortKey) : Bool :=
  match a, b with
  | number m, number n => m.precedes n
  | text u, text v => CodePoint.precedes u v
  | _, _ => a.rank < b.rank

/-- The first key may stand before the second. -/
def le (a b : SortKey) : Bool := !b.precedes a

/-- Sorts by a key. Members with equal keys keep their order. The order of a list is specified as long as its keys
can be compared with each other, which only a NaN cannot; no script has one. -/
def sortBy {α : Type} (key : α → SortKey) (xs : List α) : List α :=
  xs.mergeSort fun a b => (key a).le (key b)

end SortKey

namespace Node

/-- The key of a name or an expression. -/
def sortKey (n : Node) : SortKey :=
  match n.form with
  | .identifier name => .ofString name
  | .literal (.string value) _ => .text value
  | .literal (.number number) _ => .number number
  | .literal _ raw => .ofString raw
  | form => .ofString form.tag

/-- The key of an optional name or expression. -/
def sortKey? : Option Node → SortKey
  | some n => n.sortKey
  | none => .missing

/-- The key of a switch case: that of its test. -/
def caseKey (n : Node) : SortKey :=
  match n.form with
  | .switchCase test _ => sortKey? test
  | _ => .missing

/-- The key of a function declaration: that of its name. -/
def functionKey (n : Node) : SortKey :=
  match n.form with
  | .functionDeclaration id .. => id.sortKey
  | _ => .missing

/-- The key of a class method, if the node is one. The constructor comes first. -/
def methodKey? (n : Node) : Option SortKey :=
  match n.form with
  | .methodDefinition key _ _ isStatic isComputed =>
    if isComputed then some .missing
    else if key.sortKey = .ofString "constructor" ∧ isStatic = false then some .leading
    else some key.sortKey
  | _ => none

/-- The key of a class method. -/
def methodKey (n : Node) : SortKey := n.methodKey?.getD .missing

/-- The key of a member of an object literal. It cannot be found for a text of digits too long to be
read as a number. -/
def propertyKey (n : Node) : Except NumeralFault SortKey :=
  match n.form with
  | .property key _ _ _ _ false =>
    match key.form with
    | .literal (.string value) _ =>
      match CodePoint.toString? value with
      | some name => do
        match ← canonicalNumber name.toList with
        | some number => return .number number
        | none => return key.sortKey
      | none => .ok key.sortKey
    | _ => .ok key.sortKey
  | _ => .ok .missing

end Node

end ScriptTidy
