/-
Sorting the members of a tree's lists by name. A run is a maximal sequence of adjacent function
declarations, or of methods in a class body; a member with comments starts a new run. Each run is
sorted, and its comments go to the member that comes first. Properties of object literals are sorted
as a whole, each with its comments.
-/
import ScriptTidy.Order.Key
import ScriptTidy.Syntax.Walk

namespace ScriptTidy

namespace Node

/-- Moves all comments of a list of nodes to the first of them. -/
def hoistComments : List Node → List Node
  | [] => []
  | first :: rest =>
    first.withComments ((first :: rest).flatMap comments) :: rest.map (·.withComments [])

/-! ## Runs -/

/-- A run in order, with its comments at the front. -/
def sortRun (key : Node → SortKey) (run : List Node) : List Node :=
  hoistComments (SortKey.sortBy key run)

/-- A node that belongs to the run before it. -/
def continuesRun (isMember : Node → Bool) (n : Node) : Bool := isMember n && n.comments.isEmpty

/-- Sorts the runs of a list of nodes. -/
def sortRuns (isMember : Node → Bool) (key : Node → SortKey) : List Node → List Node
  | [] => []
  | n :: rest =>
    if isMember n then
      sortRun key (n :: rest.takeWhile (continuesRun isMember))
        ++ sortRuns isMember key (rest.dropWhile (continuesRun isMember))
    else n :: sortRuns isMember key rest
termination_by ns => ns.length
decreasing_by
  · have := (List.dropWhile_sublist (l := rest) (continuesRun isMember)).length_le
    simp only [List.length_cons]
    omega
  · simp

/-- The node declares a function. -/
def isFunctionDeclaration (n : Node) : Bool :=
  match n.form with
  | .functionDeclaration .. => true
  | _ => false

/-- The node is a method of a class. -/
def isMethod (n : Node) : Bool :=
  match n.form with
  | .methodDefinition .. => true
  | _ => false

/-- Sorts the runs in the list of a single node. -/
def sortMembers (n : Node) : Node :=
  match n.form with
  | .program body hashbang =>
    n.withForm (.program (sortRuns isFunctionDeclaration functionKey body) hashbang)
  | .blockStatement body =>
    n.withForm (.blockStatement (sortRuns isFunctionDeclaration functionKey body))
  | .classBody body => n.withForm (.classBody (sortRuns isMethod methodKey body))
  | _ => n

/-- Sorts the function declarations of every list and the methods of every class. -/
def sortFunctions (root : Node) : Node := root.everywhere sortMembers

/-! ## Properties -/

/-- The key of a member, where one that cannot be found counts as missing. -/
def propertyKeyOrMissing (n : Node) : SortKey := n.propertyKey.toOption.getD .missing

/-- Sorts the members of a single object literal. -/
def sortObject (n : Node) : Node :=
  match n.form with
  | .objectExpression properties =>
    n.withForm (.objectExpression (SortKey.sortBy propertyKeyOrMissing properties))
  | _ => n

/-- Why the members of a single object literal cannot be sorted. -/
def propertyFault? (n : Node) : Option NumeralFault :=
  match n.form with
  | .objectExpression properties =>
    properties.findSome? fun p =>
      match p.propertyKey with
      | .ok _ => none
      | .error fault => some fault
  | _ => none

/-- Sorts the members of every object literal. -/
def sortProperties (root : Node) : Except NumeralFault Node :=
  match root.preorder.findSome? propertyFault? with
  | some fault => .error fault
  | none => .ok (root.everywhere sortObject)

end Node

end ScriptTidy
