/-
Targets of assignments. What can be assigned to is first read as an expression and then turned into
a pattern: array and object literals become patterns, assignments in them defaults, and spread
elements rest elements. The parameters of an arrow function come about in the same way, but bind
names only.
-/
import ScriptTidy.Grammar.Parsing

namespace ScriptTidy.Grammar

/-- The node is part of an optional chain. -/
def isOptional (children : List Cst) : Bool :=
  children.any fun c => c.mark.field == some "optional_chain"

/-- The node is a name, or a part of an object, in any number of parentheses. -/
def isSimpleTarget : Cst → Bool
  | .node ⟨"identifier", _, _, _, _, _, _⟩ _ => true
  | .node ⟨"member_expression", _, _, _, _, _, _⟩ children => !isOptional children
  | .node ⟨"subscript_expression", _, _, _, _, _, _⟩ children => !isOptional children
  | .node ⟨"parenthesized_expression", _, _, _, _, _, _⟩ [inner] => isSimpleTarget inner
  | .node _ _ => false

/-- Nothing follows a rest element. -/
def endsWithRest : List Cst → Bool
  | [] => true
  | c :: rest => (c.kind != "rest_pattern" || rest.isEmpty) && endsWithRest rest

/-- The pattern kinds, by the kinds of the nodes that become patterns. -/
def patternKind? (kind : String) : Option String :=
  if kind == "array" || kind == "array_pattern" then some "array_pattern"
  else if kind == "object" || kind == "object_pattern" then some "object_pattern"
  else if kind == "pair" || kind == "pair_pattern" then some "pair_pattern"
  else if kind == "spread_element" || kind == "rest_pattern" then some "rest_pattern"
  else if kind == "assignment_expression" || kind == "assignment_pattern" then
    some "assignment_pattern"
  else none

/-- A part of a pattern that stays as it is: punctuation, a key, or a default. -/
def isFixed (c : Cst) : Bool :=
  !c.mark.isNamed || c.mark.field == some "key" || c.mark.field == some "right"

/-- A default cannot stand under a rest element. -/
def restFits (kind : String) (children : List Cst) : Bool :=
  kind != "rest_pattern" || children.all fun c => c.kind != "assignment_pattern"

mutual

/-- The node as a pattern, if it can be one. A binding pattern holds names only. -/
def toPattern? (isBinding : Bool) : Cst → Option Cst
  | .node mark children =>
    if mark.kind == "identifier" || mark.kind == "object_assignment_pattern"
        || mark.kind == "shorthand_property_identifier_pattern" then
      some (.node mark children)
    else if mark.kind == "shorthand_property_identifier" then
      some (.node { mark with kind := "shorthand_property_identifier_pattern" } children)
    else
      match patternKind? mark.kind with
      | some kind =>
        (toPatterns? isBinding children).bind fun parts =>
          if endsWithRest parts && restFits kind parts then
            some (.node { mark with kind } parts)
          else none
      | none =>
        if !isBinding && isSimpleTarget (.node mark children) then some (.node mark children)
        else none

/-- The parts of a pattern. -/
def toPatterns? (isBinding : Bool) : List Cst → Option (List Cst)
  | [] => some []
  | c :: rest =>
    if isFixed c then (toPatterns? isBinding rest).map (c :: ·)
    else
      (toPattern? isBinding c).bind fun d => (toPatterns? isBinding rest).map (d :: ·)

end

/-- A member of an object literal has a default, which only a pattern may have. -/
def hasStrayDefault (c : Cst) : Bool :=
  c.kind == "object" && c.children.any fun d => d.kind == "object_assignment_pattern"

/-- Some object literal of a tree has a member with a default. -/
def holdsStrayDefault (c : Cst) : Bool :=
  hasStrayDefault c || c.children.attach.any fun d => holdsStrayDefault d.val
termination_by sizeOf c
decreasing_by exact Cst.sizeOf_lt_of_mem d.property

end ScriptTidy.Grammar
