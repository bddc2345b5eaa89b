/-
Walks over a concrete tree. A walk works off its stack entry by entry, so that what it finds below a
stack is what it finds below each entry, one after another. The comments of a node, its operands and
its first error are therefore a recursion over its children.
-/
import ScriptTidy.Concrete.Tree

namespace ScriptTidy

namespace Cst

/-- What holds of a node whenever it holds of its children holds of every node. -/
@[elab_as_elim]
theorem byChildren {P : Cst → Prop} (node : ∀ c, (∀ d ∈ c.children, P d) → P c) (c : Cst) : P c :=
  node c fun d _ => byChildren node d
termination_by sizeOf c
decreasing_by exact sizeOf_lt_of_mem ‹_›

/-! ## Comments -/

theorem commentsFrom_append (a b : List Cst) : commentsFrom (a ++ b) = commentsFrom a ++ commentsFrom b := by
  fun_induction commentsFrom a with
  | case1 => rfl
  | case2 c stack h ih => rw [List.cons_append, commentsFrom, if_pos h, ih, List.cons_append]
  | case3 c stack h ih => rw [List.cons_append, commentsFrom, if_neg h, ← List.append_assoc, ih]

theorem commentsFrom_eq (stack : List Cst) : commentsFrom stack = stack.flatMap commentNodes := by
  induction stack with
  | nil => rw [commentsFrom]; rfl
  | cons c stack ih => rw [← List.singleton_append, commentsFrom_append, ih]; rfl

/-- A comment holds itself only, and every other node the comments of its children. -/
theorem commentNodes_eq (c : Cst) :
    c.commentNodes = if c.isComment then [c] else c.children.flatMap commentNodes := by
  rw [commentNodes, commentsFrom, List.append_nil, commentsFrom_eq c.children, commentsFrom]

/-! ## Operands -/

theorem operandsFrom_append (a b : List Cst) : operandsFrom (a ++ b) = operandsFrom a ++ operandsFrom b := by
  fun_induction operandsFrom a with
  | case1 => rfl
  | case2 c stack h ih => rw [List.cons_append, operandsFrom, if_pos h, ← List.append_assoc, ih]
  | case3 c stack h ih => rw [List.cons_append, operandsFrom, if_neg h, ih, List.cons_append]

theorem operandsFrom_eq (stack : List Cst) : operandsFrom stack =
    stack.flatMap fun d => if d.kind == "sequence_expression" then d.sequenceOperands else [d] := by
  induction stack with
  | nil => rw [operandsFrom]; rfl
  | cons c stack ih =>
    have hone : operandsFrom [c] = if c.kind == "sequence_expression" then c.sequenceOperands else [c] := by
      rw [operandsFrom, List.append_nil, operandsFrom, sequenceOperands]
    rw [← List.singleton_append, operandsFrom_append, ih, hone, List.singleton_append, List.flatMap_cons]

/-- The operands of a sequence are its parts, but for the parts that are sequences. -/
theorem sequenceOperands_eq (c : Cst) : c.sequenceOperands =
    c.named.flatMap fun d => if d.kind == "sequence_expression" then d.sequenceOperands else [d] := by
  rw [sequenceOperands, operandsFrom_eq]

/-! ## Errors -/

theorem firstErrorFrom?_append (a b : List Cst) :
    firstErrorFrom? (a ++ b) = (firstErrorFrom? a).or (firstErrorFrom? b) := by
  fun_induction firstErrorFrom? a with
  | case1 => rfl
  | case2 c stack h => rw [List.cons_append, firstErrorFrom?, if_pos h, Option.some_or]
  | case3 c stack h herror ih =>
    rw [List.cons_append, firstErrorFrom?, if_neg h, if_pos herror, ← List.append_assoc, ih]
  | case4 c stack h herror ih => rw [List.cons_append, firstErrorFrom?, if_neg h, if_neg herror, ih]

theorem firstErrorFrom?_eq (stack : List Cst) : firstErrorFrom? stack = stack.findSome? firstError? := by
  induction stack with
  | nil => rw [firstErrorFrom?]; rfl
  | cons c stack ih =>
    rw [← List.singleton_append, firstErrorFrom?_append, ih, List.singleton_append, List.findSome?_cons]
    cases h : c.firstError? <;> simp only [firstError?] at h <;> simp [h]

/-- The first error of a node is the node itself, or the first error of its children if it is marked. -/
theorem firstError?_eq (c : Cst) : c.firstError? =
    if c.isFaulty then some c else if c.mark.hasError then c.children.findSome? firstError? else none := by
  rw [firstError?, firstErrorFrom?, List.append_nil, firstErrorFrom?_eq, firstErrorFrom?_eq]
  rfl

end Cst

end ScriptTidy
