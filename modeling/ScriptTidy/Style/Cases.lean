/-
Switch statements. A fallthrough block is a run of cases that ends with the first one whose
statements end in a terminator: break, continue, return or throw. `trailingBreak` terminates the
last case of a switch. `sortCases` sorts the labels of a block that only its last case has
statements for, and then the blocks by their first label; the blocks stay where they are if the last
one is not terminated, since another block would then run into it or it into another.
-/
import ScriptTidy.Order.Key

namespace ScriptTidy

namespace Node

/-- Control does not pass this statement. -/
def isTerminator (n : Node) : Bool :=
  match n.form with
  | .breakStatement _ | .continueStatement _ | .returnStatement _ | .throwStatement _ => true
  | _ => false

/-- The statements of a switch case. -/
def consequent (n : Node) : List Node :=
  match n.form with
  | .switchCase _ consequent => consequent
  | _ => []

/-- The switch case with other statements. -/
def withConsequent (n : Node) (consequent : List Node) : Node :=
  match n.form with
  | .switchCase test _ => n.withForm (.switchCase test consequent)
  | _ => n

/-- The statements of a case end in a terminator. -/
def isTerminated (n : Node) : Bool := n.consequent.getLast?.any isTerminator

/-- The fallthrough blocks of a list of cases, in order. -/
def fallthroughBlocks : List Node → List (List Node)
  | [] => []
  | case :: rest =>
    if case.isTerminated then [case] :: fallthroughBlocks rest
    else
      match fallthroughBlocks rest with
      | [] => [[case]]
      | block :: blocks => (case :: block) :: blocks

/-! ## Terminating the last case -/

/-- A case that ends in a terminator: a break is added if there is none. -/
def terminated (n : Node) : Node :=
  if n.isTerminated then n
  else n.withConsequent
    (n.consequent ++ [plain ⟨n.span.stop, n.span.stop, n.span.line⟩ (.breakStatement none)])

/-- Applies a function to the last member of a list. -/
def mapLast (f : Node → Node) : List Node → List Node
  | [] => []
  | [n] => [f n]
  | n :: rest => n :: mapLast f rest

/-- Terminates the last case of a single switch. -/
def closeSwitch (n : Node) : Node :=
  match n.form with
  | .switchStatement discriminant cases =>
    n.withForm (.switchStatement discriminant (mapLast terminated cases))
  | _ => n

/-- Terminates the last case of every switch. -/
def trailingBreak (root : Node) : Node := root.everywhere closeSwitch

/-! ## Sorting -/

/-- The labels of a block in order, if all statements belong to the last one. They stay with the
label that comes last. -/
def sortLabels (block : List Node) : List Node :=
  if block.dropLast.all (·.consequent.isEmpty) then
    let statements := (block.getLast?.map consequent).getD []
    let labels := SortKey.sortBy caseKey (block.map (·.withConsequent []))
    mapLast (·.withConsequent statements) labels
  else block

/-- The key of the first label of a block. -/
def blockKey (block : List Node) : SortKey := (block.head?.map caseKey).getD .missing

/-- The last of all cases is terminated. -/
def lastIsTerminated (blocks : List (List Node)) : Bool :=
  ((blocks.getLast?.bind List.getLast?).map isTerminated).getD false

/-- The cases of a switch in order. -/
def sortedCases (cases : List Node) : List Node :=
  let blocks := (fallthroughBlocks cases).map sortLabels
  if lastIsTerminated blocks then (SortKey.sortBy blockKey blocks).flatten else blocks.flatten

/-- Sorts the cases of a single switch. -/
def sortSwitch (n : Node) : Node :=
  match n.form with
  | .switchStatement discriminant cases =>
    n.withForm (.switchStatement discriminant (sortedCases cases))
  | _ => n

/-- Sorts the cases of every switch. -/
def sortCases (root : Node) : Node := root.everywhere sortSwitch

end Node

end ScriptTidy
