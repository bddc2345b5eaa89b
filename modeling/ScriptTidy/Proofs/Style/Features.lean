/-
What rules look at in a node: its kind, its name or value, the key by which it is sorted. None of
it is changed by a restyling, whatever it does to the bodies and lists further down, so that every
rule finds in a changed tree what it finds in the tree before.
-/
import ScriptTidy.Proofs.Style.Restyling

namespace ScriptTidy

namespace Node

/-- The node is a case of a switch. -/
def isCase (n : Node) : Bool :=
  match n.form with
  | .switchCase .. => true
  | _ => false

end Node

namespace Restyling

variable (r : Restyling)

/-! ## Kinds -/

@[simp] theorem isNull_run (n : Node) : (r.run n).isNull = n.isNull := by
  obtain ⟨info, form⟩ := n
  rw [run_mk]
  cases form <;> rfl

@[simp] theorem isTerminator_run (n : Node) : (r.run n).isTerminator = n.isTerminator := by
  obtain ⟨info, form⟩ := n
  rw [run_mk]
  cases form <;> rfl

@[simp] theorem isCase_run (n : Node) : (r.run n).isCase = n.isCase := by
  obtain ⟨info, form⟩ := n
  rw [run_mk]
  cases form <;> rfl

@[simp] theorem isLexical_run (n : Node) : (r.run n).isLexical = n.isLexical := by
  obtain ⟨info, form⟩ := n
  rw [run_mk]
  cases form <;> rfl

@[simp] theorem isFunctionDeclaration_run (n : Node) :
    (r.run n).isFunctionDeclaration = n.isFunctionDeclaration := by
  obtain ⟨info, form⟩ := n
  rw [run_mk]
  cases form <;> rfl

@[simp] theorem isMethod_run (n : Node) : (r.run n).isMethod = n.isMethod := by
  obtain ⟨info, form⟩ := n
  rw [run_mk]
  cases form <;> rfl

@[simp] theorem isVariableDeclaration_run (n : Node) :
    (r.run n).form.isVariableDeclaration = n.form.isVariableDeclaration := by
  obtain ⟨info, form⟩ := n
  rw [run_mk]
  cases form <;> rfl

@[simp] theorem isContainer_run (n : Node) : (r.run n).form.isContainer = n.form.isContainer := by
  obtain ⟨info, form⟩ := n
  rw [run_mk]
  cases form <;> rfl

/-! ## Keys -/

@[simp] theorem sortKey_run (n : Node) : (r.run n).sortKey = n.sortKey := by
  obtain ⟨info, form⟩ := n
  rw [run_mk]
  cases form <;> rfl

@[simp] theorem caseKey_run (n : Node) : (r.run n).caseKey = n.caseKey := by
  obtain ⟨info, form⟩ := n
  rw [run_mk]
  cases form with
  | switchCase test consequent =>
    cases test with
    | none => rfl
    | some test => exact r.sortKey_run test
  | _ => rfl

@[simp] theorem functionKey_run (n : Node) : (r.run n).functionKey = n.functionKey := by
  obtain ⟨info, form⟩ := n
  rw [run_mk]
  cases form with
  | functionDeclaration id params body isAsync isGenerator => exact r.sortKey_run id
  | _ => rfl

@[simp] theorem methodKey_run (n : Node) : (r.run n).methodKey = n.methodKey := by
  obtain ⟨info, form⟩ := n
  rw [run_mk]
  cases form with
  | methodDefinition key value kind isStatic isComputed =>
    unfold Node.methodKey Node.methodKey?
    simp only [Node.form, Form.map, Restyling.form, sortKey_run]
  | _ => rfl

@[simp] theorem propertyKey_run (n : Node) : (r.run n).propertyKey = n.propertyKey := by
  obtain ⟨info, form⟩ := n
  rw [run_mk]
  cases form with
  | property key value kind isMethod isShorthand isComputed =>
    cases isComputed with
    | true => rfl
    | false =>
      obtain ⟨info, form⟩ := key
      unfold Node.propertyKey
      simp only [Node.form, Form.map, Restyling.form, run_mk]
      cases form <;> rfl
  | _ => rfl

@[simp] theorem propertyKeyOrMissing_run (n : Node) :
    (r.run n).propertyKeyOrMissing = n.propertyKeyOrMissing := by
  unfold Node.propertyKeyOrMissing
  rw [propertyKey_run]

end Restyling

end ScriptTidy
