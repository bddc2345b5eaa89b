/-
Strict comparison, node by node. Every node keeps its address, what it carries and its parts, and of
all operators those of loose comparisons alone change. A comparison with a bare null keeps its
operator. Null in parentheses is not seen, so a comparison with it is made strict and no longer
matches undefined: a tree is treated as the purpose of the rule demands exactly if it has no such
comparison.
-/
import ScriptTidy.Format
import ScriptTidy.Proofs.Syntax.Addresses
import ScriptTidy.Style.Equality

namespace ScriptTidy

/-- A form without what its children are. -/
def Form.shape {α : Type} (form : Form α) : Form Unit := form.map fun _ => ()

/-- The operator of a comparison made strict. -/
def strictOperator (operator : String) : String := (strictOperator? operator).getD operator

/-- Strict operators and those that are no comparisons stay as they are, and no others. -/
theorem strictOperator_eq_self_iff {operator : String} :
    strictOperator operator = operator ↔ strictOperator? operator = none := by
  unfold strictOperator strictOperator?
  split
  · next h => simp [h]
  · split
    · next h => simp [h]
    · simp

namespace Node

/-! ## Null, bare and in parentheses -/

/-- What stands in the parentheses of a node, however many they are. -/
def withoutParentheses : Node → Node :=
  para fun info form =>
    match form with
    | .parenthesizedExpression (_, inner) => inner
    | form => .mk info (form.map (·.1))

/-- The literal null, bare or in parentheses. -/
def denotesNull (n : Node) : Bool := n.withoutParentheses.isNull

/-- A loose comparison in which null stands in parentheses, and not bare. -/
def hidesNull (n : Node) : Bool :=
  match n.form with
  | .binaryExpression operator left right =>
    (strictOperator? operator).isSome && (left.denotesNull || right.denotesNull) && !(left.isNull || right.isNull)
  | _ => false

variable {null : Node → Bool} {n m : Node}

theorem withoutParentheses_of_isNull (h : n.isNull) : n.withoutParentheses = n := by
  obtain ⟨info, form⟩ := n
  cases form with
  | literal value raw => rfl
  | _ => cases h

theorem denotesNull_of_isNull (h : n.isNull) : n.denotesNull := by
  rw [denotesNull, withoutParentheses_of_isNull h, h]

/-! ## One node -/

/-- The shape of a node, with a strict operator if it is a comparison of operands that are not null
in the given sense. -/
def strictShape (null : Node → Bool) (n : Node) : Form Unit :=
  match n.form with
  | .binaryExpression operator left right =>
    .binaryExpression (if null left || null right then operator else strictOperator operator) () ()
  | form => form.shape

/-- The second node is the first with its comparison made strict unless an operand is null in the
given sense. What their children are is left open. -/
structure MadeStrict (null : Node → Bool) (n m : Node) : Prop where
  info : m.info = n.info
  shape : m.form.shape = n.strictShape null

theorem exactEquals_mk (info : Info) (form : Form Node) :
    (Node.mk info form).exactEquals = strictComparison (.mk info (form.map exactEquals)) := by
  unfold exactEquals everywhere
  rw [para_mk, Form.map_map]

/-- A node is a comparison or another operation with two operands, or it keeps its form. -/
theorem binaryExpression_or_kept (info : Info) (form : Form Node) :
    (∃ operator left right, form = .binaryExpression operator left right) ∨
      (Node.mk info form).exactEquals = .mk info (form.map exactEquals) ∧
        ∀ null, (Node.mk info form).strictShape null = form.shape ∧ (Node.mk info form).hidesNull = false := by
  cases form with
  | binaryExpression operator left right => exact .inl ⟨operator, left, right, rfl⟩
  | _ => exact .inr ⟨exactEquals_mk info _, fun _ => ⟨rfl, rfl⟩⟩

theorem isNull_exactEquals (n : Node) : n.exactEquals.isNull = n.isNull := by
  obtain ⟨info, form⟩ := n
  rw [exactEquals_mk]
  cases form with
  | binaryExpression operator left right =>
    simp only [strictComparison, Form.map, Node.form]
    split
    · split
      · rfl
      · rfl
    · rfl
  | _ => rfl

/-- A comparison keeps its operands, and its operator if one of them is null. -/
theorem exactEquals_binaryExpression (info : Info) (operator : String) (left right : Node) :
    (Node.mk info (.binaryExpression operator left right)).exactEquals =
      .mk info (.binaryExpression (if left.isNull || right.isNull then operator else strictOperator operator)
        left.exactEquals right.exactEquals) := by
  rw [exactEquals_mk]
  cases hstrict : strictOperator? operator with
  | none => simp only [strictComparison, Form.map, Node.form, strictOperator, hstrict, Option.getD_none, ite_self]
  | some strict =>
    simp only [strictComparison, Form.map, Node.form, isNull_exactEquals, strictOperator, hstrict, Option.getD_some]
    split
    · rfl
    · rfl

theorem madeStrict_exactEquals (n : Node) : MadeStrict isNull n n.exactEquals := by
  obtain ⟨info, form⟩ := n
  rcases binaryExpression_or_kept info form with ⟨operator, left, right, rfl⟩ | ⟨hkept, hshape⟩
  · rw [exactEquals_binaryExpression]
    exact ⟨rfl, rfl⟩
  · rw [hkept]
    refine ⟨rfl, ?_⟩
    rw [(hshape isNull).1]
    exact Form.map_map _ _ _

/-- Only a comparison that hides null is treated otherwise than if null had been bare. -/
theorem madeStrict_denotesNull_iff (n : Node) : MadeStrict denotesNull n n.exactEquals ↔ n.hidesNull = false := by
  have hmade := madeStrict_exactEquals n
  have hshape : MadeStrict denotesNull n n.exactEquals ↔ n.strictShape isNull = n.strictShape denotesNull :=
    ⟨fun h => hmade.shape.symm.trans h.shape, fun h => ⟨hmade.info, hmade.shape.trans h⟩⟩
  rw [hshape]
  obtain ⟨info, form⟩ := n
  rcases binaryExpression_or_kept info form with ⟨operator, left, right, rfl⟩ | ⟨-, hkept⟩
  · have hnull : (left.isNull || right.isNull) = true → (left.denotesNull || right.denotesNull) = true := by
      simp only [Bool.or_eq_true]
      exact Or.imp denotesNull_of_isNull denotesNull_of_isNull
    simp only [strictShape, hidesNull, Node.form, Form.binaryExpression.injEq, and_true]
    cases hbare : left.isNull || right.isNull with
    | true => simp [hnull hbare]
    | false =>
      cases hwrapped : left.denotesNull || right.denotesNull with
      | false => simp
      | true =>
        simp only [Bool.false_eq_true, if_false, if_true, Bool.and_true, Bool.not_false, Option.isSome_eq_false_iff,
          Option.isNone_iff_eq_none]
        exact strictOperator_eq_self_iff
  · exact iff_of_true ((hkept isNull).1.trans (hkept denotesNull).1.symm) (hkept isNull).2

/-! ## The whole tree -/

theorem children_exactEquals (n : Node) : n.exactEquals.children = n.children.map exactEquals := by
  obtain ⟨info, form⟩ := n
  rcases binaryExpression_or_kept info form with ⟨operator, left, right, rfl⟩ | ⟨hkept, -⟩
  · rw [exactEquals_binaryExpression]
    rfl
  · rw [hkept]
    exact Form.children_map _ _

theorem at?_exactEquals : ∀ (n : Node) (path : List Nat), n.exactEquals.at? path = (n.at? path).map exactEquals
  | n, [] => rfl
  | n, i :: path => by
    rw [at?, at?, children_exactEquals, List.getElem?_map, Option.bind_map, Option.map_bind]
    exact Option.bind_congr fun m _ => at?_exactEquals m path

/-- Every node is related to what becomes of it exactly if all addresses of the two trees are. -/
theorem forall_rel_at?_iff {R : Node → Node → Prop} (root : Node) :
    (∀ path, Option.Rel R (root.at? path) (root.exactEquals.at? path)) ↔ ∀ n ∈ root.preorder, R n n.exactEquals := by
  rw [← forall_at_iff_forall_preorder]
  refine forall_congr' fun path => ?_
  rw [at?_exactEquals]
  cases root.at? path with
  | none => exact iff_of_true .none fun m h => nomatch h
  | some n =>
    constructor
    · intro h m hm
      obtain rfl := Option.some.inj hm
      cases h with
      | some hrel => exact hrel
    · exact fun h => .some (h n rfl)

/-- Making comparisons strict changes nothing but the operators of the loose comparisons without a
bare null. No comparison with null is made strict exactly if none has its null in parentheses. -/
theorem exactEquals_spec (root : Node) :
    (∀ path, Option.Rel (MadeStrict isNull) (root.at? path) (root.exactEquals.at? path)) ∧
      ((∀ path, Option.Rel (MadeStrict denotesNull) (root.at? path) (root.exactEquals.at? path)) ↔
        ∀ n ∈ root.preorder, n.hidesNull = false) := by
  refine ⟨(forall_rel_at?_iff root).2 fun n _ => madeStrict_exactEquals n, (forall_rel_at?_iff root).trans ?_⟩
  exact forall₂_congr fun n _ => madeStrict_denotesNull_iff n

/-- A comparison with null in parentheses is made strict. -/
theorem exactEquals_hidden_null :
    ∃ s, Script.parse "a == (null);" = .ok s ∧
      ¬ ∀ path, Option.Rel (MadeStrict denotesNull) (s.program.at? path) (s.program.exactEquals.at? path) := by
  have hhidden : (Script.parse "a == (null);").toOption.map (fun s => (s.program.at? [0, 0]).any hidesNull) =
      some true := by
    decide +kernel
  obtain ⟨s, hs, hany⟩ := Option.map_eq_some_iff.1 hhidden
  obtain ⟨n, hat, hn⟩ := (Option.any_eq_true _ _).1 hany
  refine ⟨s, eq_ok_of_toOption hs, fun h => ?_⟩
  have hmade := h [0, 0]
  rw [at?_exactEquals, hat] at hmade
  cases hmade with
  | some hmade =>
    rw [madeStrict_denotesNull_iff, hn] at hmade
    cases hmade

end Node

end ScriptTidy
