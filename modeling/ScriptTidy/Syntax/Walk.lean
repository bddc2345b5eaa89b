/-
Walks over a tree: every node before its children, and every node after them. Both keep the nodes
still to be visited on a stack, so that chains of any length can be walked.
-/
import ScriptTidy.Syntax.Node

namespace ScriptTidy

-- sums of the core library, whatever other zeros are in sight
attribute [local instance (high)] Zero.ofOfNat0

namespace Node

/-! ## The size of a tree -/

/-- The number of nodes of a tree. -/
def size : Node → Nat := para fun _ form => 1 + (form.children.map (·.2)).sum

theorem size_eq (n : Node) : n.size = 1 + (n.children.map size).sum := by
  cases n with
  | mk info form =>
    rw [size, para_mk, Form.children_map, List.map_map]
    rfl

/-! ## Parents first -/

/-- The nodes below a stack of roots, every node before its children. -/
def visitDown : List Node → List Node
  | [] => []
  | node :: stack => node :: visitDown (node.children ++ stack)
termination_by stack => (stack.map size).sum
decreasing_by
  simp only [List.map_append, List.sum_append, List.map_cons, List.sum_cons]
  have := size_eq node
  omega

/-- All nodes of a tree, every node before its children. -/
def preorder (root : Node) : List Node := visitDown [root]

/-! ## Children first -/

/-- What a stack entry of the second walk weighs. A node is visited twice, first to stack its
children and then to be listed. -/
def pendingWeight : Node × Bool → Nat
  | (node, false) => 2 * node.size
  | (_, true) => 1

theorem sum_pendingWeight (ns : List Node) :
    ((ns.map fun n => (n, false)).map pendingWeight).sum = 2 * (ns.map size).sum := by
  induction ns with
  | nil => rfl
  | cons n ns ih => simp only [List.map_cons, List.sum_cons, ih, pendingWeight]; omega

/-- The nodes below a stack of roots, every node after its children. The mark of an entry tells that
the children of the node have been listed. -/
def visitUp : List (Node × Bool) → List Node
  | [] => []
  | (node, true) :: stack => node :: visitUp stack
  | (node, false) :: stack =>
    visitUp ((node.children.map fun n => (n, false)) ++ (node, true) :: stack)
termination_by stack => (stack.map pendingWeight).sum
decreasing_by
  · simp only [List.map_cons, List.sum_cons, pendingWeight]
    omega
  · simp only [List.map_append, List.sum_append, List.map_cons, List.sum_cons, sum_pendingWeight,
      pendingWeight]
    have := size_eq node
    omega

/-- All nodes of a tree, every node after its children. -/
def postorder (root : Node) : List Node := visitUp [(root, false)]

end Node

end ScriptTidy
