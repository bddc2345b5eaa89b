/-
Operations and sequences read by recursion. A chain of operations is read along its left side and a
sequence from a stack, however deeply they nest; what they give, faults included, is what reading the
left operand, the operator and the right operand one after another gives, and what reading the parts of
a sequence gives when a part that is a sequence stands for its own operands.
-/
import ScriptTidy.Concrete.Read
import ScriptTidy.Proofs.Concrete.Walks
import ScriptTidy.Proofs.Lists

namespace ScriptTidy

namespace Reader

variable (r : Reader)

/-! ## Operations -/

/-- An operation with its left operand read. -/
def afterLeft (left : Node) (c : Cst) : Reading Node := do
  let operator ← r.require c "operator"
  let right ← r.readField c "right"
  return r.node c (operation operator.kind left right)

/-- Reads an operation by reading what stands on its left, its operator, and what stands on its right. -/
def nestedOperation (c : Cst) : Reading Node :=
  match _ : c.field? "left" with
  | none => r.unsupported c
  | some left => do
    let operand ← if left.kind == "binary_expression" then nestedOperation left else r.read left
    r.afterLeft operand c
termination_by sizeOf c
decreasing_by exact Cst.sizeOf_lt_of_mem (Cst.mem_of_field? (by assumption))

theorem nestedOperation_eq (c : Cst) : r.nestedOperation c = (do
    let left ← r.require c "left"
    let operand ← if left.kind == "binary_expression" then r.nestedOperation left else r.read left
    r.afterLeft operand c) := by
  rw [nestedOperation, require]
  split <;> rename_i hleft <;> rw [hleft] <;> rfl

theorem leftSpine_eq (c : Cst) (above : List Cst) : r.leftSpine c above = (do
    let left ← r.require c "left"
    if left.kind == "binary_expression" then r.leftSpine left (c :: above) else return (c :: above, left)) := by
  rw [leftSpine, require]
  split <;> rename_i hleft <;> rw [hleft] <;> rfl

/-- Reading along the left side of a node, and then the nodes above it, is reading the node by
recursion, and then the nodes above it. -/
theorem foldlM_leftSpine (c : Cst) (above : List Cst) :
    (do
      let (spine, operand) ← r.leftSpine c above
      let first ← r.read operand
      spine.foldlM r.afterLeft first) =
        (do
          let first ← r.nestedOperation c
          above.foldlM r.afterLeft first) := by
  induction c using Cst.byChildren generalizing above with
  | node c ih =>
    rw [leftSpine_eq, nestedOperation_eq, bind_assoc, bind_assoc]
    cases hleft : c.field? "left" with
    | none => simp only [require, hleft]; rfl
    | some left =>
      have hrequire : r.require c "left" = pure left := by rw [require, hleft]; rfl
      rw [hrequire, pure_bind, pure_bind]
      split
      · rw [ih left (Cst.mem_of_field? hleft) (c :: above)]
        simp
      · simp

/-- A chain of operations is read as if its operations were read by recursion. -/
theorem binaryExpression_eq (c : Cst) : r.binaryExpression c = r.nestedOperation c := by
  have h : r.binaryExpression c = _ := r.foldlM_leftSpine c []
  rw [h]
  simp

/-! ## Sequences -/

/-- Reads the parts of a sequence, those of a nested sequence in its place. -/
def nestedOperands (c : Cst) : Reading (List Node) := do
  let parts ← c.named.attach.mapM fun d =>
    if d.val.kind == "sequence_expression" then nestedOperands d.val else do return [← r.read d.val]
  return parts.flatten
termination_by sizeOf c
decreasing_by exact Cst.sizeOf_lt_of_mem (Cst.mem_of_named d.property)

theorem nestedOperands_eq (c : Cst) : r.nestedOperands c = List.flatten <$> c.named.mapM fun d =>
    if d.kind == "sequence_expression" then r.nestedOperands d else [d].mapM r.read := by
  rw [nestedOperands, List.mapM_subtype (g := fun d => if d.kind == "sequence_expression" then r.nestedOperands d
    else [d].mapM r.read) (fun d hd => by simp), List.unattach_attach]
  rfl

/-- The operands of a sequence are read as if its parts were read by recursion. -/
theorem readAll_sequenceOperands (c : Cst) : r.readAll c.sequenceOperands = r.nestedOperands c := by
  induction c using Cst.byChildren with
  | node c ih =>
    rw [readAll, Cst.sequenceOperands_eq, mapM_flatMap, nestedOperands_eq]
    congr 1
    refine mapM_congr fun d hd => ?_
    split
    · exact ih d (Cst.mem_of_named hd)
    · rfl

end Reader

end ScriptTidy
