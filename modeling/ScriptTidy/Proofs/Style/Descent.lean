/-
Rules from the root down. A rule may change a node before the parts of the node: then it goes on to
the parts that the node has been given, which it has not changed yet, and of which there may be
others than before. As long as the rule does the same to parts whether they have been changed or
not, the tree that comes of it is the one that the rule makes from the leaves up. Taking braces off
is the exception: whether a body may lose its braces depends on what has become of the bodies in it.
-/
import ScriptTidy.Proofs.Style.Rules

namespace ScriptTidy

namespace Node

/-- Changes a node, then the parts that it has been given, and so on as many levels down. -/
def descend (f : Node → Node) : Nat → Node → Node
  | 0, n => n
  | levels + 1, n => (f n).withForm ((f n).form.map (descend f levels))

end Node

namespace Restyling

open Node

variable {r : Restyling}

/-- The parts of a changed tree are those that its root has been given, each of them changed. -/
theorem Respects.run_eq (h : r.Respects r) (n : Node) : r.run n = (r.step n).withForm ((r.step n).form.map r.run) := by
  obtain ⟨info, form⟩ := n
  rw [run_mk, h.form_map]
  rfl

/-- A restyling that does the same to changed children can be run from the root down. -/
theorem Respects.descend_eq (h : r.Respects r) {levels : Nat} {n : Node} (hlevels : (r.run n).size ≤ levels) :
    n.descend r.step levels = r.run n := by
  induction levels generalizing n with
  | zero =>
    have hpos := (r.run n).size_eq
    omega
  | succ levels ih =>
    rw [descend, h.run_eq]
    congr 1
    -- a changed part is smaller than the changed tree, so that the levels below it suffice
    refine Form.map_congr fun m hm => ih ?_
    have hchild : r.run m ∈ (r.run n).children := by
      rw [h.run_eq, children, withForm, Node.form, Form.children_map]
      exact List.mem_map_of_mem hm
    have hsize := size_lt_of_mem_children hchild
    omega

end Restyling

namespace Rule

open Node

theorem respects_self {rule : Rule} (h : rule ≠ .stripBraces) : rule.restyling.Respects rule.restyling := by
  by_cases hinsert : rule = .insertBraces
  · rw [hinsert]
    exact insertBraces_respects (by decide)
  · exact respects hinsert h rule

/-- A rule makes the same of a tree from the root down as from the leaves up, unless it takes braces off. -/
theorem descend_eq_everywhere {rule : Rule} (h : rule ≠ .stripBraces) {root : Node} {levels : Nat}
    (hlevels : (root.everywhere rule.step).size ≤ levels) :
    root.descend rule.step levels = root.everywhere rule.step := by
  rw [everywhere_step] at hlevels ⊢
  rw [funext rule.step_eq]
  exact (respects_self h).descend_eq hlevels

end Rule

end ScriptTidy
