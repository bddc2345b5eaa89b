/-
Nothing is lost by going without recursion. Chains of operations are read and printed along their
left side, sequences are read and trees are walked from a stack, so that chains of any length can be
formatted. All of this gives what plain recursion over the tree gives, in the same order and with the
same faults.
-/
import ScriptTidy.Proofs.Comments.Conservation
import ScriptTidy.Proofs.Concrete.Nesting
import ScriptTidy.Proofs.Layout.Lines
import ScriptTidy.Proofs.Syntax.Walks

namespace ScriptTidy

open Layout

/-- An operation is read from its left operand, its operator and its right operand, and printed as
these, one after another; a sequence is read as its operands, where a sequence among them stands for its
own. The walks over a tree list a node before or after what they list of its children, and visit every
address once; the comments of a tree are those of its children, unless it is a comment, and are put in
the order of their starts. -/
theorem unwound_eq_recursion :
    (∀ (r : Reader) (c : Cst),
      r.binaryExpression c = r.nestedOperation c ∧
      r.sequenceExpression c =
        (fun operands => r.node c (.sequenceExpression operands)) <$> r.nestedOperands c) ∧
    (∀ (semicolons : Bool) (info : Info) (operator : String) (left right : Node),
      let printed := fun n : Node => (n.printed semicolons).whole
      let operation := seq [printed left, " " ++ operator ++ " ", printed right]
      printed (.mk info (.binaryExpression operator left right)) = operation ∧
      printed (.mk info (.logicalExpression operator left right)) = operation ∧
      printed (.mk info (.assignmentExpression operator left right)) = operation) ∧
    (∀ n : Node,
      n.preorder = n :: n.children.flatMap Node.preorder ∧
      n.postorder = n.children.flatMap Node.postorder ++ [n] ∧
      n.preorder.map some = n.addresses.map n.at? ∧ n.postorder.Perm n.preorder ∧
      n.addresses.Pairwise (· < ·) ∧ ∀ path, path ∈ n.addresses ↔ (n.at? path).isSome) ∧
    ∀ (s : Source) (root : Cst),
      s.readComments root = Comment.sorted <$> root.commentNodes.mapM s.readComment ∧
      root.commentNodes = (if root.isComment then [root] else root.children.flatMap Cst.commentNodes) ∧
      ∀ found, (Comment.sorted found).Perm found ∧ Comment.InOrder (Comment.sorted found) := by
  refine ⟨fun r c => ⟨r.binaryExpression_eq c, ?sequence⟩, fun semicolons info operator left right => ?operation,
    fun n => ⟨n.preorder_eq, n.postorder_eq, n.map_at?_addresses.symm, n.postorder_perm, n.pairwise_addresses,
      fun _ => Node.mem_addresses⟩,
    fun s root => ⟨rfl, root.commentNodes_eq, fun found => ⟨Comment.sorted_perm found, Comment.inOrder_sorted found⟩⟩⟩
  case sequence =>
    rw [Reader.sequenceExpression, r.readAll_sequenceOperands]
    rfl
  case operation =>
    refine ⟨?_, ?_, ?_⟩ <;> exact congrArg Printed.whole (Node.printed_eq _)

end ScriptTidy
