/-
Rules and words. A name that is no word stands in a meta property only, whose two names tell how its text begins and
how it ends, and a case stands in a switch. A rule keeps the number of such nodes, and the number of those that stand
there, so none of them gets to another place. A tree with words for its names, numbers and operators has words for them
after any rules.
-/
import ScriptTidy.Proofs.Layout.Bounds
import ScriptTidy.Proofs.Layout.Roles

namespace ScriptTidy

open Spacing

/-- What the node is spelled with, parts apart, are words. The names of a meta property count as its own. -/
def Form.hasWords : Form Node → Bool
  | .metaProperty head target => isWorded (.metaProperty head target)
  | .literal value raw => isWorded (.literal value raw)
  | .unaryExpression operator _ => operator.toList.head?.any leads
  | .updateExpression operator _ _ => isWord operator
  | .variableDeclaration kind _ => kind.toList.head?.any leads
  | .sequenceExpression expressions => !expressions.isEmpty
  | _ => true

namespace Node

/-! ## Words of the nodes themselves -/

/-- The node, if it is spelled with something that is no word. -/
def misspellings (n : Node) : List Unit := if n.form.hasWords then [] else [()]

theorem misspellings_eq_nil_iff {n : Node} : n.misspellings = [] ↔ n.form.hasWords := by simp [misspellings]

theorem loose_misspellings : Loose misspellings where
  block _ _ := rfl
  emptyStatement _ := rfl
  breakStatement _ := rfl
  withConsequent n ns := by
    obtain ⟨info, form⟩ := n
    cases form <;> rfl
  hoistComments ns := .of_eq (flatMap_hoistComments (fun _ _ => rfl) ns)

theorem hasWords_run (r : Restyling) (n : Node) : (r.run n).form.hasWords = n.form.hasWords := by
  obtain ⟨info, form⟩ := n
  rw [Restyling.run_mk]
  cases form
  case metaProperty head target =>
    show (_ && _) = (_ && _)
    congr 1
    · obtain ⟨info, form⟩ := head
      cases form <;> rfl
    · obtain ⟨info, form⟩ := target
      cases form <;> rfl
  case sequenceExpression expressions => cases expressions <;> rfl
  all_goals rfl

theorem splitDeclaration_misspellings {n : Node} (h : n.misspellings = []) :
    n.splitDeclaration.flatMap misspellings = [] := by
  refine List.flatMap_eq_nil_iff.2 fun m hm => ?_
  rcases mem_splitDeclaration hm with ⟨-, rfl⟩ | ⟨kind, bindings, hform, binding, -, info, -, rfl⟩
  · exact h
  · rw [misspellings_eq_nil_iff, hform] at h
    exact misspellings_eq_nil_iff.2 h

/-! ## Nodes that cannot stand in any place -/

/-- The node, if it cannot stand in any place: a name that is no word, or a case. -/
def oddities (n : Node) : List Unit := if n.form.isWhole then [] else [()]

/-- The parts that are at home in the node all the same: the cases of a switch, and the names of a meta property. -/
def ownOddities (n : Node) : List Unit :=
  match n.form with
  | .metaProperty head target => head.oddities ++ target.oddities
  | .switchStatement _ cases => cases.map fun _ => ()
  | _ => []

/-- The other parts of the node that cannot stand in any place. -/
def oddParts (n : Node) : List Unit :=
  match n.form with
  | .metaProperty .. => []
  | .switchStatement discriminant _ => discriminant.oddities
  | form => form.children.flatMap oddities

variable {root n : Node}

theorem oddities_eq_nil_iff : n.oddities = [] ↔ n.form.isWhole := by simp [oddities]

theorem oddities_of_isCase (h : n.isCase) : n.oddities = [()] := by
  obtain ⟨info, form⟩ := n
  cases form <;> first | rfl | cases h

/-- A node is worded, if it is spelled with words and all its parts can stand where they do. -/
theorem isWorded_iff : n.form.isWorded ↔ n.form.hasWords ∧ n.oddParts = [] := by
  obtain ⟨info, form⟩ := n
  cases form
  case switchStatement | unaryExpression | updateExpression | variableDeclaration | sequenceExpression | metaProperty |
    literal =>
    simp [form, Form.isWorded, Form.hasWords, oddParts, Form.children, List.flatMap_eq_nil_iff, oddities_eq_nil_iff]
  all_goals
    exact List.all_eq_true.trans (by simp [form, Form.hasWords, oddParts, List.flatMap_eq_nil_iff, oddities_eq_nil_iff])

/-- A part of a node that cannot stand in any place is at home there, or it is one of the other parts. -/
theorem length_flatMap_oddities (h : ∀ m ∈ n.form.switchMembers, m.isCase) :
    (n.children.flatMap oddities).length = n.ownOddities.length + n.oddParts.length := by
  obtain ⟨info, form⟩ := n
  cases form
  case metaProperty head target => simp [children, form, Form.children, ownOddities, oddParts]
  case switchStatement discriminant cases =>
    have hcases : cases.flatMap oddities = cases.map fun _ => () :=
      (List.flatMap_congr fun m hm => oddities_of_isCase (h m hm)).trans List.map_eq_flatMap.symm
    simp only [children, form, Form.children, List.flatMap_append, List.flatMap_singleton, ownOddities,
      oddParts, hcases, List.length_append, Nat.add_comm]
  all_goals exact (Nat.zero_add _).symm

theorem loose_oddities : Loose oddities where
  block _ _ := rfl
  emptyStatement _ := rfl
  breakStatement _ := rfl
  withConsequent n ns := by
    obtain ⟨info, form⟩ := n
    cases form <;> rfl
  hoistComments ns := .of_eq (flatMap_hoistComments (fun _ _ => rfl) ns)

theorem fixed_ownOddities : Fixed ownOddities where
  withComments _ _ := rfl
  isMovable n h := by
    obtain ⟨info, form⟩ := n
    cases form <;> first | rfl | cases h

theorem oddities_run (r : Restyling) (n : Node) : (r.run n).oddities = n.oddities := by
  obtain ⟨info, form⟩ := n
  rw [Restyling.run_mk]
  cases form <;> rfl

theorem ownOddities_run (rule : Rule) (n : Node) : ((rule.restyling.run n).ownOddities).Perm n.ownOddities := by
  obtain ⟨info, form⟩ := n
  rw [Restyling.run_mk]
  cases form
  case metaProperty head target =>
    show ((rule.restyling.run head).oddities ++ (rule.restyling.run target).oddities).Perm _
    rw [oddities_run, oddities_run]
    exact .refl _
  case switchStatement discriminant cases =>
    have hlength : (rule.restyling.cases (cases.map rule.restyling.run)).length = cases.length := by
      cases rule
      case trailingBreak => exact (length_mapLast _ _).trans (List.length_map _)
      case sortCases => exact (length_sortedCases _).trans (List.length_map _)
      all_goals exact List.length_map _
    show ((rule.restyling.cases (cases.map rule.restyling.run)).map fun _ => ()).Perm (cases.map fun _ => ())
    rw [List.map_const', List.map_const', hlength]
  all_goals exact .refl _

/-! ## A whole tree -/

theorem gather_oddities_run (h : root.HasCases) (rule : Rule) :
    ((rule.restyling.run root).gather oddities).Perm (root.gather oddities) := by
  refine (gather_run loose_oddities rule id (fun n hn => ?_) fun n _ => ?_).trans (.of_eq (List.map_id _))
  · refine ⟨fun m _ hm => ?_, fun m _ => .of_eq (flatMap_splitDeclaration (fun m hm => ?_) m),
      isCase_of_mem_run _ (h n hn)⟩
    all_goals
      obtain ⟨info, form⟩ := m
      cases form <;> first | rfl | cases hm
  · rw [List.map_id, oddities_run]

theorem Worded.run (h : root.Worded) (hcases : root.HasCases) (rule : Rule) : (rule.restyling.run root).Worded := by
  have hwords := hcases.eq_nil_of_mem_run loose_misspellings rule
    (fun n hnone => by rwa [misspellings, hasWords_run]) (fun _ => splitDeclaration_misspellings)
    fun n hn => misspellings_eq_nil_iff.2 (isWorded_iff.1 (h n hn)).1
  have hparts := gather_rest_eq_nil (fun n hn => length_flatMap_oddities (hcases n hn))
    (fun n hn => length_flatMap_oddities (hcases.run rule n hn)) (gather_oddities_run hcases rule) (oddities_run _ _)
    (hcases.gather_run fixed_ownOddities rule fun n _ => ownOddities_run rule n)
    (gather_eq_nil_iff.2 fun n hn => (isWorded_iff.1 (h n hn)).2)
  exact fun n hn => isWorded_iff.2 ⟨misspellings_eq_nil_iff.1 (hwords n hn), gather_eq_nil_iff.1 hparts n hn⟩

/-- After any rules a tree has words for its names, numbers and operators, if it had words for them before. -/
theorem Worded.runAll {rules : List Rule} (h : root.Worded) (hcases : root.HasCases) :
    (Rule.runAll rules root).Worded := by
  induction rules generalizing root with
  | nil => exact h
  | cons rule rules ih => exact ih (h.run hcases rule) (hcases.run rule)

end Node

end ScriptTidy
