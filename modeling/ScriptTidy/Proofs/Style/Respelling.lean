/-
Rules do not look at places, nor at the quotes around strings. A rule takes the places of new nodes
from those of old ones, and compares strings by their values, so that it does to a respelled tree what
it does to the tree, if all places are taken out and capitalizing comments can change places with what
is done to them. The same holds of all rules of a plan one after another.
-/
import ScriptTidy.Proofs.Style.Rules
import ScriptTidy.Proofs.Syntax.Places

namespace ScriptTidy

/-- A change that formatting does not see: nodes lose their places, and comments go on saying the same. -/
structure Respelling.IsNeutral (r : Respelling) : Prop where
  span : ∀ span, r.span span = .nowhere
  kind : ∀ c, (r.comment c).kind = c.kind
  text : ∀ c, (r.comment c).text = c.text
  capitalized : ∀ c, (r.comment c).capitalized = r.comment c.capitalized

variable {r : Respelling}

namespace Node

theorem node_plain (span : Span) (form : Form Node) :
    r.node (plain span form) = plain (r.span span) ((form.map r.node).respelled r.spelling) :=
  Respelling.node_mk _ form

/-! ## Bodies -/

theorem braced_respelled (n : Node) : (r.node n).braced = r.node n.braced := by
  unfold braced
  rw [form_respelled, span_respelled]
  cases n.form with
  | blockStatement => rfl
  | _ => simp only [Form.map, Form.respelled, node_plain, List.map_cons, List.map_nil]

theorem bracedElse_respelled (n : Node) : (r.node n).bracedElse = r.node n.bracedElse := by
  unfold bracedElse
  rw [form_respelled, braced_respelled]
  cases n.form <;> rfl

theorem unbraced_respelled (beforeElse : Bool) (n : Node) :
    (r.node n).unbraced beforeElse = r.node (n.unbraced beforeElse) := by
  unfold unbraced
  rw [form_respelled, span_respelled, trailing_respelled, List.isEmpty_map]
  cases n.form with
  | blockStatement ns =>
    simp only [Form.map, Form.respelled]
    split
    · rfl
    · rcases ns with _ | ⟨n, _ | ⟨m, ns⟩⟩
      · rw [node_plain]
        rfl
      · simp only [List.map_cons, List.map_nil, comments_respelled, List.isEmpty_map, isLexical_respelled,
          endsInOpenIf_respelled]
        split <;> rfl
      · rfl
  | _ => rfl

/-! ## Cases -/

theorem consequent_respelled (n : Node) : (r.node n).consequent = n.consequent.map r.node := by
  rw [consequent, form_respelled, consequent]
  cases n.form <;> rfl

theorem withConsequent_respelled (n : Node) (ns : List Node) :
    r.node (n.withConsequent ns) = (r.node n).withConsequent (ns.map r.node) := by
  obtain ⟨info, form⟩ := n
  cases form <;> simp only [withConsequent, withForm, Node.form, Node.info, Respelling.node_mk,
    Form.map, Form.respelled]

theorem isTerminated_respelled (n : Node) : (r.node n).isTerminated = n.isTerminated := by
  rw [isTerminated, consequent_respelled, List.getLast?_map, Option.any_map, isTerminated]
  congr 1
  exact funext isTerminator_respelled

theorem keepsCases_respelled : KeepsCases r.node (List.map r.node) where
  withConsequent := withConsequent_respelled
  consequent := consequent_respelled
  isEmpty _ := List.isEmpty_map
  isTerminated := isTerminated_respelled
  caseKey := caseKey_respelled

/-! ## Members -/

theorem changesComments_respelled : ChangesComments r.node r.comment where
  comments := comments_respelled
  withComments n comments := by
    obtain ⟨info, form⟩ := n
    rw [withComments, Respelling.node_mk, Respelling.node_mk]
    rfl

end Node

namespace Respelling.IsNeutral

open Node

variable (hr : r.IsNeutral)
include hr

/-! ## Nodes in new places -/

theorem splitDeclaration (n : Node) : (r.node n).splitDeclaration = n.splitDeclaration.map r.node := by
  unfold Node.splitDeclaration
  rw [form_respelled, span_respelled, comments_respelled]
  cases n.form with
  | variableDeclaration kind bindings =>
    rcases bindings with _ | ⟨first, _ | ⟨second, rest⟩⟩
    · rfl
    · rfl
    · have hsingle (binding : Node) : singleDeclaration kind (r.node binding) =
        r.node (singleDeclaration kind binding) := by
        rw [singleDeclaration, singleDeclaration, node_plain, span_respelled]
        rfl
      have hspan : ({ Span.nowhere with start := Span.nowhere.start } : Span) = .nowhere := rfl
      simp only [Form.map, Form.respelled, List.map_cons, span_respelled, hr.span, hspan, Respelling.node_mk,
        List.map_nil, List.map_map, hsingle, Function.comp_def]
  | _ => rfl

theorem flatMap_splitDeclaration (ns : List Node) :
    (ns.map r.node).flatMap Node.splitDeclaration = (ns.flatMap Node.splitDeclaration).map r.node := by
  rw [List.flatMap_map, List.map_flatMap]
  exact List.flatMap_congr fun n _ => hr.splitDeclaration n

theorem terminated (n : Node) : (r.node n).terminated = r.node n.terminated := by
  unfold Node.terminated
  rw [isTerminated_respelled]
  split
  · rfl
  · rw [withConsequent_respelled, List.map_append, List.map_singleton, consequent_respelled, span_respelled,
      node_plain, hr.span, hr.span]
    rfl

/-! ## Rules -/

/-- A rule does the same to respelled parts. -/
theorem form_restyled (rule : Rule) (form : Form Node) :
    rule.restyling.form ((form.map r.node).respelled r.spelling) =
      ((rule.restyling.form form).map r.node).respelled r.spelling := by
  have hfunctions := sortRuns_map (changesComments_respelled (r := r)) isFunctionDeclaration_respelled
    functionKey_respelled
  have hmethods := sortRuns_map (changesComments_respelled (r := r)) isMethod_respelled methodKey_respelled
  cases rule <;> cases form <;>
    simp [Restyling.form, Rule.restyling, Form.map, Form.respelled, braced_respelled, bracedElse_respelled,
      unbraced_respelled, hr.flatMap_splitDeclaration, mapLast_map hr.terminated,
      sortedCases_map (keepsCases_respelled (r := r)), hfunctions, hmethods,
      SortKey.sortBy_map (propertyKeyOrMissing_respelled (r := r)), Function.comp_def]

theorem comment_restyled (rule : Rule) (c : Comment) :
    rule.restyling.comment (r.comment c) = r.comment (rule.restyling.comment c) := by
  cases rule
  case capComments => exact hr.capitalized c
  all_goals rfl

/-- A rule changes a respelled tree as it changes the tree. -/
theorem run_restyled (rule : Rule) (root : Node) :
    rule.restyling.run (r.node root) = r.node (rule.restyling.run root) := by
  induction root using byChildren with
  | node n ih =>
    obtain ⟨info, form⟩ := n
    have hkids : (form.map r.node).map rule.restyling.run = (form.map rule.restyling.run).map r.node := by
      rw [Form.map_map, Form.map_map]
      exact Form.map_congr ih
    have hcomments (l : List Comment) :
        (l.map r.comment).map rule.restyling.comment = (l.map rule.restyling.comment).map r.comment := by
      rw [List.map_map, List.map_map]
      exact List.map_congr_left fun c _ => hr.comment_restyled rule c
    rw [Restyling.run_mk, Respelling.node_mk, Respelling.node_mk, Restyling.run_mk, Form.map_respelled, hkids,
      hr.form_restyled, hcomments, hcomments]

/-- What a rule gives for a tree, or why it gives nothing. -/
theorem apply (rule : Rule) (root : Node) : rule.apply (r.node root) = (rule.apply root).map r.node := by
  by_cases hrule : rule = .sortProperties
  · subst hrule
    have hfault : propertyFault? ∘ r.node = propertyFault? := funext propertyFault?_respelled
    rw [Rule.apply, Rule.apply, Node.sortProperties, Node.sortProperties, respells_node.preorder, List.findSome?_map,
      hfault]
    cases root.preorder.findSome? propertyFault? with
    | some fault => rfl
    | none => exact congrArg Except.ok (by
        rw [show sortObject = Rule.sortProperties.step from rfl, Rule.everywhere_step, Rule.everywhere_step,
          hr.run_restyled])
  · rw [Rule.apply_eq_ok_iff.2 ⟨fun h => absurd h hrule, rfl⟩, Rule.apply_eq_ok_iff.2 ⟨fun h => absurd h hrule, rfl⟩,
      hr.run_restyled]
    rfl

theorem applyAll (rules : List Rule) (root : Node) :
    Rule.applyAll rules (r.node root) = (Rule.applyAll rules root).map r.node := by
  induction rules generalizing root with
  | nil => rfl
  | cons rule rules ih =>
    rw [Rule.applyAll, Rule.applyAll, List.foldlM_cons, List.foldlM_cons, hr.apply]
    cases rule.apply root with
    | error fault => rfl
    | ok root => exact ih root

/-- The plan changes a respelled tree as it changes the tree. -/
theorem applyPlan (root : Node) (options : Options) :
    (r.node root).applyPlan options = (root.applyPlan options).map r.node :=
  hr.applyAll _ root

end Respelling.IsNeutral

end ScriptTidy
