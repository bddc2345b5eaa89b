/-
The nine rules as restylings. Each changes the parts of single nodes and leaves the others alone, so
a rule is told by a few functions; only the sorting of properties may also fail, and then it does so
before anything is changed. Every rule does the same to a tree that another rule has changed, with
three exceptions: braces are put around a declaration that is still whole or already split, and
taking braces off depends on what has been done to the bodies further down.
-/
import ScriptTidy.Proofs.Style.Bodies
import ScriptTidy.Proofs.Style.Members

namespace ScriptTidy

namespace Rule

open Node

/-- What a rule does to the parts of a single node. -/
def restyling : Rule → Restyling
  | exactEquals => {
      operator := fun operator left right =>
        match strictOperator? operator with
        | some strict => if left.isNull || right.isNull then operator else strict
        | none => operator }
  | insertBraces => { consequent := fun _ => braced, alternate := bracedElse, loopBody := braced }
  | stripBraces => { consequent := unbraced, alternate := unbraced false, loopBody := unbraced false }
  | trailingBreak => { cases := mapLast terminated }
  | capComments => { comment := Comment.capitalized }
  | separateVars => {
      statements := List.flatMap splitDeclaration, caseStatements := List.flatMap splitDeclaration }
  | sortCases => { cases := sortedCases }
  | sortFunctions => {
      statements := sortRuns isFunctionDeclaration functionKey, members := sortRuns isMethod methodKey }
  | sortProperties => { properties := SortKey.sortBy propertyKeyOrMissing }

/-! ## Rules are restylings -/

/-- The change of a single node that a rule makes everywhere. -/
def step : Rule → Node → Node
  | exactEquals => strictComparison
  | insertBraces => braceBodies
  | stripBraces => unbraceBodies
  | trailingBreak => closeSwitch
  | capComments => capitalizeHeld
  | separateVars => splitMembers
  | sortCases => sortSwitch
  | sortFunctions => sortMembers
  | sortProperties => sortObject

theorem step_exactEquals (info : Info) (operator : String) (left right : Node) :
    exactEquals.step (.mk info (.binaryExpression operator left right)) =
      exactEquals.restyling.step (.mk info (.binaryExpression operator left right)) := by
  simp only [step, strictComparison, Restyling.step, Restyling.form, restyling, Node.form, withForm, List.map_id]
  cases strictOperator? operator with
  | none => rfl
  | some strict => cases left.isNull || right.isNull <;> rfl

theorem step_eq (rule : Rule) (n : Node) : rule.step n = rule.restyling.step n := by
  obtain ⟨⟨span, comments, trailing⟩, form⟩ := n
  cases rule <;> cases form
  case exactEquals.binaryExpression => exact step_exactEquals ..
  all_goals
    simp [step, strictComparison, braceBodies, unbraceBodies, mapLoopBody, closeSwitch, capitalizeHeld, splitMembers,
      sortSwitch, sortMembers, sortObject, Restyling.step, Restyling.form, restyling, Node.form, withForm, Node.span,
      Node.comments, Node.trailing, Node.info]

/-- A rule changes every node of a tree by its restyling. -/
theorem everywhere_step (rule : Rule) (root : Node) : root.everywhere rule.step = rule.restyling.run root := by
  rw [funext rule.step_eq]
  rfl

end Rule

/-- All keys by which the properties of a tree are sorted can be found. -/
def Node.HasPropertyKeys (root : Node) : Prop := ∀ n ∈ root.preorder, n.propertyFault? = none

instance (root : Node) : Decidable root.HasPropertyKeys :=
  inferInstanceAs (Decidable (∀ n ∈ root.preorder, n.propertyFault? = none))

namespace Rule

open Node

theorem sortProperties_eq_ok_iff {root root' : Node} :
    root.sortProperties = .ok root' ↔ root.HasPropertyKeys ∧ root' = sortProperties.restyling.run root := by
  rw [← everywhere_step, Node.HasPropertyKeys, ← List.findSome?_eq_none_iff]
  unfold Node.sortProperties
  cases root.preorder.findSome? propertyFault? with
  | some fault => simp
  | none => simp [step, eq_comm]

/-- What a rule gives for a tree, and when it gives anything. -/
theorem apply_eq_ok_iff {rule : Rule} {root root' : Node} :
    rule.apply root = .ok root' ↔
      (rule = .sortProperties → root.HasPropertyKeys) ∧ root' = rule.restyling.run root := by
  cases rule with
  | sortProperties =>
    rw [apply, sortProperties_eq_ok_iff]
    simp
  | _ =>
    rw [← everywhere_step]
    simp [apply, eq_comm, step, Node.exactEquals, Node.insertBraces, Node.stripBraces, Node.trailingBreak,
      Node.capComments, Node.separateVars, Node.sortCases, Node.sortFunctions]

/-! ## What rules leave alone -/

theorem sparesCases (rule : Rule) : rule.restyling.SparesCases := by
  cases rule
  case separateVars =>
    exact ⟨isEmpty_flatMap_splitDeclaration, terminates_flatMap_splitDeclaration,
      flatMap_splitDeclaration_concat_break⟩
  all_goals exact ⟨fun _ => rfl, fun _ => rfl, fun _ _ => rfl⟩

theorem sparesBlocks {rule : Rule} (h : rule ≠ .separateVars) : rule.restyling.SparesBlocks := by
  cases rule
  case separateVars => exact absurd rfl h
  case sortFunctions => exact ⟨length_sortRuns, sortRuns_singleton⟩
  all_goals exact ⟨fun _ => rfl, fun _ => rfl⟩

theorem sparesEnds {rule : Rule} (hinsert : rule ≠ .insertBraces) (hstrip : rule ≠ .stripBraces) :
    rule.restyling.SparesEnds := by
  cases rule
  case insertBraces => exact absurd rfl hinsert
  case stripBraces => exact absurd rfl hstrip
  all_goals exact ⟨fun _ => rfl, fun _ => rfl⟩

/-- A rule does the same to changed children, unless it is one for braces. -/
theorem respects {rule : Rule} (hinsert : rule ≠ .insertBraces) (hstrip : rule ≠ .stripBraces) (other : Rule) :
    rule.restyling.Respects other.restyling := by
  cases rule
  case insertBraces => exact absurd rfl hinsert
  case stripBraces => exact absurd rfl hstrip
  case exactEquals => exact { operator := fun _ left right => by simp only [restyling, Restyling.isNull_run] }
  case trailingBreak =>
    exact { cases := mapLast_map (Restyling.terminated_run other.sparesCases) }
  case capComments => exact {}
  case separateVars =>
    exact {
      statements := Restyling.flatMap_splitDeclaration_run _
      caseStatements := Restyling.flatMap_splitDeclaration_run _ }
  case sortCases => exact { cases := Restyling.sortedCases_run other.sparesCases }
  case sortFunctions =>
    exact {
      statements := Restyling.sortRuns_run _ (Restyling.isFunctionDeclaration_run _) (Restyling.functionKey_run _)
      members := Restyling.sortRuns_run _ (Restyling.isMethod_run _) (Restyling.methodKey_run _) }
  case sortProperties =>
    exact { properties := SortKey.sortBy_map (Restyling.propertyKeyOrMissing_run _) }

theorem insertBraces_respects {other : Rule} (h : other ≠ .separateVars) :
    insertBraces.restyling.Respects other.restyling where
  consequent _ := Restyling.braced_run (sparesBlocks h)
  alternate := Restyling.bracedElse_run (sparesBlocks h)
  loopBody := Restyling.braced_run (sparesBlocks h)

theorem stripBraces_respects {other : Rule} (h : other ≠ .separateVars) (hinsert : other ≠ .insertBraces)
    (hstrip : other ≠ .stripBraces) : stripBraces.restyling.Respects other.restyling where
  consequent := Restyling.unbraced_run (sparesBlocks h) (sparesEnds hinsert hstrip)
  alternate := Restyling.unbraced_run (sparesBlocks h) (sparesEnds hinsert hstrip) false
  loopBody := Restyling.unbraced_run (sparesBlocks h) (sparesEnds hinsert hstrip) false

end Rule

end ScriptTidy
