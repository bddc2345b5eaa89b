/-
Concrete syntax trees: every token of a source text has a place in such a tree, comments and
punctuation included. A node has a kind, a place in the text, and possibly a field, which is the
part it plays in its parent. A node is named if its kind is more than its own text. The walks over a
tree keep the nodes still to be visited on a stack, so that chains of any length can be walked.
-/

namespace ScriptTidy

-- sums of the core library, whatever other zeros are in sight
attribute [local instance (high)] Zero.ofOfNat0

/-- What is known of a concrete node besides its children. -/
structure Mark where
  kind : String
  isNamed : Bool
  /-- The node stands for a token that the text lacks. -/
  isMissing : Bool
  /-- The node or one below it is in error. -/
  hasError : Bool
  /-- The offset of the first byte. -/
  start : Nat
  /-- The offset after the last byte. -/
  stop : Nat
  field : Option String
deriving DecidableEq, Repr

/-- A concrete syntax tree. -/
inductive Cst where
  | node (mark : Mark) (children : List Cst)

namespace Cst

/-- What is known of the node. -/
def mark : Cst → Mark
  | node mark _ => mark

/-- The nodes directly below the node. -/
def children : Cst → List Cst
  | node _ children => children

/-- The kind of the node. -/
def kind (c : Cst) : String := c.mark.kind

/-- The node is a comment of either style. -/
def isComment (c : Cst) : Bool := c.kind == "comment" || c.kind == "html_comment"

/-- The named children apart from comments. -/
def named (c : Cst) : List Cst := c.children.filter fun d => d.mark.isNamed && !d.isComment

/-- The first child that plays the given part. -/
def field? (c : Cst) (name : String) : Option Cst :=
  c.children.find? fun d => d.mark.field == some name

/-- One of the children is the given keyword or punctuation mark. -/
def hasToken (c : Cst) (token : String) : Bool :=
  c.children.any fun d => !d.mark.isNamed && d.kind == token

theorem sizeOf_lt_of_mem {c d : Cst} (h : d ∈ c.children) : sizeOf d < sizeOf c := by
  cases c with
  | node mark children =>
    have := List.sizeOf_lt_of_mem (show d ∈ children from h)
    simp only [node.sizeOf_spec]
    omega

theorem mem_of_field? {c d : Cst} {name : String} (h : c.field? name = some d) :
    d ∈ c.children :=
  List.mem_of_find?_eq_some h

theorem mem_of_named {c d : Cst} (h : d ∈ c.named) : d ∈ c.children :=
  (List.mem_filter.1 h).1

/-! ## Walks -/

theorem sum_sizeOf_le (cs : List Cst) : (cs.map sizeOf).sum ≤ sizeOf cs := by
  induction cs with
  | nil => exact Nat.zero_le _
  | cons c cs ih =>
    simp only [List.map_cons, List.sum_cons, List.cons.sizeOf_spec]
    omega

/-- All children of a node together are smaller than the node. -/
theorem sum_sizeOf_children (c : Cst) : (c.children.map sizeOf).sum < sizeOf c := by
  cases c with
  | node mark children =>
    have := sum_sizeOf_le children
    simp only [node.sizeOf_spec, Cst.children]
    omega

theorem sum_sizeOf_filter_le (p : Cst → Bool) (cs : List Cst) :
    ((cs.filter p).map sizeOf).sum ≤ (cs.map sizeOf).sum := by
  induction cs with
  | nil => exact Nat.le_refl _
  | cons c cs ih =>
    rw [List.filter_cons]
    split
    · simp only [List.map_cons, List.sum_cons]
      omega
    · simp only [List.map_cons, List.sum_cons]
      omega

/-- The comments below a stack of nodes, in order. -/
def commentsFrom : List Cst → List Cst
  | [] => []
  | c :: stack =>
    if c.isComment then c :: commentsFrom stack else commentsFrom (c.children ++ stack)
termination_by stack => (stack.map sizeOf).sum
decreasing_by
  · have := sum_sizeOf_children c
    simp only [List.map_cons, List.sum_cons]
    omega
  · have := sum_sizeOf_children c
    simp only [List.map_append, List.sum_append, List.map_cons, List.sum_cons]
    omega

/-- The comments of a tree, in order. Nothing is looked for inside a comment. -/
def commentNodes (c : Cst) : List Cst := commentsFrom [c]

/-- The node is in error itself. -/
def isFaulty (c : Cst) : Bool := c.kind == "ERROR" || c.mark.isMissing

/-- The first node below a stack of nodes that is in error itself. -/
def firstErrorFrom? : List Cst → Option Cst
  | [] => none
  | c :: stack =>
    if c.isFaulty then some c
    else if c.mark.hasError then firstErrorFrom? (c.children ++ stack)
    else firstErrorFrom? stack
termination_by stack => (stack.map sizeOf).sum
decreasing_by
  · have := sum_sizeOf_children c
    simp only [List.map_append, List.sum_append, List.map_cons, List.sum_cons]
    omega
  · have := sum_sizeOf_children c
    simp only [List.map_cons, List.sum_cons]
    omega

/-- The first node that is in error itself, every node before its children. Only nodes that are
marked as holding an error are searched. -/
def firstError? (c : Cst) : Option Cst := firstErrorFrom? [c]

/-- The operands of a stack of nodes, where a sequence stands for its own operands. -/
def operandsFrom : List Cst → List Cst
  | [] => []
  | c :: stack =>
    if c.kind == "sequence_expression" then operandsFrom (c.named ++ stack)
    else c :: operandsFrom stack
termination_by stack => (stack.map sizeOf).sum
decreasing_by
  · have := sum_sizeOf_children c
    have := sum_sizeOf_filter_le (fun d => d.mark.isNamed && !d.isComment) c.children
    simp only [List.map_append, List.sum_append, List.map_cons, List.sum_cons, named]
    omega
  · have := sum_sizeOf_children c
    simp only [List.map_cons, List.sum_cons]
    omega

/-- The operands of a sequence from left to right, those of nested sequences included. -/
def sequenceOperands (c : Cst) : List Cst := operandsFrom c.named

end Cst

end ScriptTidy
