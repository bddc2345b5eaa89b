/-
Rules and the shape of trees. A rule moves statements to other places of statements, puts cases and
properties in order, and leaves every other part where it stands; and what cannot be printed stays
where it is. So a tree of the shape that is read still has it after any rules, if its comments stand
where they may: capital letters end no line either.
-/
import ScriptTidy.Proofs.Layout.Faults
import ScriptTidy.Proofs.Layout.Occurrence
import ScriptTidy.Proofs.Style.Plan
import ScriptTidy.Proofs.Text.Characters

namespace ScriptTidy

namespace Form

variable {α : Type} {form : Form α}

theorem isFragment_of_fault? (h : form.fault? = none) : form.isFragment = false := by
  cases form <;> first | rfl | cases h

/-- Of the parts of a node only the handler of a try statement is not printed whole. -/
theorem mem_written_of_role {a : α} {role : Role} (h : (a, role) ∈ form.markRoles.children) (hrole : role ≠ .handler) :
    a ∈ form.written := by
  have hchild : a ∈ form.children := by
    rw [← children_markRoles]
    exact List.mem_map_of_mem h
  cases form
  case tryStatement block handler finalizer =>
    simp only [markRoles, children, List.mem_cons, List.mem_append, Option.mem_toList, Option.map_eq_some_iff,
      Prod.mk.injEq] at h
    simp only [written, List.mem_cons, Option.mem_toList]
    grind
  all_goals exact hchild

end Form

namespace Restyling

variable (r : Restyling)

theorem fits_form (form : Form Node) (role : Role) : (r.form form).fits role = form.fits role := by
  cases form <;> cases role <;> rfl

theorem fits_run (n : Node) (role : Role) : (r.run n).form.fits role = n.form.fits role := by
  rw [run_form, fits_form, Form.fits_map]

end Restyling

namespace Node

/-! ## Parts that are no statements -/

/-- Every part of the form that is no statement can stand where it stands. -/
def Apt (form : Form Node) : Prop := ∀ part ∈ form.markRoles.children, part.2 ≠ .statement → part.1.form.fits part.2

/-- The parts of the node that cannot stand where they stand, statements apart. -/
def misfits (n : Node) : List (Node × Role) :=
  n.form.markRoles.children.filter fun part => part.2 != .statement && !part.1.form.fits part.2

theorem misfits_eq_nil_iff {n : Node} : n.misfits = [] ↔ Apt n.form := by
  simp [misfits, Apt, List.filter_eq_nil_iff]

variable {root n : Node} {form : Form Node} {ns : List Node}

theorem fits_case {n : Node} : n.form.fits .case = n.isCase := by
  obtain ⟨info, form⟩ := n
  cases form <;> rfl

theorem Apt.isCase (h : Apt form) : ∀ m ∈ form.switchMembers, m.isCase := by
  intro m hm
  cases form with
  | switchStatement discriminant cases =>
    rw [← fits_case]
    exact h (m, .case) (List.mem_append_right _ (List.mem_map_of_mem hm)) Role.noConfusion
  | _ => cases hm

theorem Apt.run (h : Apt form) (r : Restyling) : Apt (form.map r.run) := by
  intro part hpart hrole
  rw [Form.markRoles_map, Form.children_map] at hpart
  obtain ⟨part, hmem, rfl⟩ := List.mem_map.1 hpart
  rw [r.fits_run]
  exact h part hmem hrole

/-- Nothing is asked of a form that has no other parts than statements. -/
theorem apt_of_statements (h : ∀ part ∈ form.markRoles.children, part.2 = .statement) : Apt form :=
  fun part hpart hrole => absurd (h part hpart) hrole

theorem Apt.restyled (h : Apt form) (rule : Rule) : Apt (rule.restyling.form form) := by
  cases form with
  | program | blockStatement | classBody =>
    refine apt_of_statements fun part hpart => ?_
    obtain ⟨m, -, rfl⟩ := List.mem_map.1 hpart
    rfl
  | switchCase test consequent =>
    intro part hpart hrole
    rcases List.mem_append.1 hpart with hpart | hpart
    · exact h part (List.mem_append_left _ hpart) hrole
    · obtain ⟨m, -, rfl⟩ := List.mem_map.1 hpart
      exact absurd rfl hrole
  | switchStatement discriminant cases =>
    intro part hpart hrole
    rcases List.mem_append.1 hpart with hpart | hpart
    · exact h part (List.mem_append_left _ hpart) hrole
    · obtain ⟨m, hm, rfl⟩ := List.mem_map.1 hpart
      rw [fits_case]
      exact isCase_of_mem_form rule h.isCase m hm
  | objectExpression properties =>
    have hperm : (rule.restyling.properties properties).Perm properties := by
      cases rule
      case sortProperties => exact SortKey.sortBy_perm _ _
      all_goals exact .refl _
    intro part hpart hrole
    obtain ⟨m, hm, rfl⟩ := List.mem_map.1 hpart
    exact h (m, .inner) (List.mem_map_of_mem (hperm.mem_iff.1 hm)) hrole
  | ifStatement test consequent alternate =>
    simp only [Apt, Restyling.form, Form.markRoles, Form.children] at h ⊢
    cases alternate <;> simp_all
  | whileStatement | doWhileStatement | forInStatement | forOfStatement =>
    simp only [Apt, Restyling.form, Form.markRoles, Form.children] at h ⊢
    simp_all
  | forStatement init test update body =>
    intro part hpart hrole
    rcases List.mem_append.1 hpart with hpart | hpart
    · exact h part (List.mem_append_left _ hpart) hrole
    · obtain rfl := List.mem_singleton.1 hpart
      exact absurd rfl hrole
  | _ => exact h

theorem misfits_run (rule : Rule) (h : n.misfits = []) : (rule.restyling.run n).misfits = [] := by
  rw [misfits_eq_nil_iff] at h ⊢
  rw [Restyling.run_form]
  exact (h.run rule.restyling).restyled rule

theorem loose_misfits : Loose misfits where
  block span ns := by
    refine misfits_eq_nil_iff.2 (apt_of_statements fun part hpart => ?_)
    obtain ⟨m, -, rfl⟩ := List.mem_map.1 hpart
    rfl
  emptyStatement _ := rfl
  breakStatement _ := rfl
  withConsequent n ns := by
    obtain ⟨info, form⟩ := n
    cases form with
    | switchCase test consequent =>
      simp [misfits, withConsequent, withForm, Node.form, Form.markRoles, Form.children, List.filter_map,
        Function.comp_def]
    | _ => rfl
  hoistComments ns := .of_eq (flatMap_hoistComments (fun _ _ => rfl) ns)

theorem splitDeclaration_misfits (h : n.misfits = []) : n.splitDeclaration.flatMap misfits = [] := by
  refine List.flatMap_eq_nil_iff.2 fun m hm => ?_
  rcases mem_splitDeclaration hm with ⟨-, rfl⟩ | ⟨kind, bindings, hform, binding, hb, info, -, rfl⟩
  · exact h
  · have hapt := misfits_eq_nil_iff.1 h
    rw [hform] at hapt
    refine misfits_eq_nil_iff.2 fun part hpart hrole => ?_
    obtain rfl := List.mem_singleton.1 hpart
    exact hapt (binding, .inner) (List.mem_map_of_mem hb) hrole

/-! ## Parts that belong together -/

/-- The node, if its parts do not belong together. -/
def incoherent (n : Node) : List Unit := if n.form.isCoherent then [] else [()]

theorem incoherent_eq_nil_iff : n.incoherent = [] ↔ n.form.isCoherent := by simp [incoherent]

theorem fixed_incoherent : Fixed incoherent where
  withComments _ _ := rfl
  isMovable n h := by
    obtain ⟨info, form⟩ := n
    cases form <;> first | rfl | cases h

theorem isCoherent_run (r : Restyling) (n : Node) : (r.run n).form.isCoherent = n.form.isCoherent := by
  obtain ⟨info, form⟩ := n
  rw [Restyling.run_mk]
  cases form
  case property key value kind isMethod isShorthand isComputed =>
    cases isShorthand with
    | false => rfl
    | true =>
      show (_ && _) = (_ && _)
      congr 1
      · obtain ⟨info, form⟩ := key
        cases form <;> rfl
      · obtain ⟨info, form⟩ := value
        cases form <;> rfl
  case exportNamedDeclaration declaration specifiers source =>
    cases declaration <;> cases specifiers <;> cases source <;> rfl
  case templateLiteral quasis expressions =>
    simp [form, Restyling.form, Form.map, Form.isCoherent]
  all_goals rfl

theorem coherent_of_mem_run (rule : Rule) (hcases : root.HasCases) (h : ∀ n ∈ root.preorder, n.form.isCoherent) :
    ∀ n ∈ (rule.restyling.run root).preorder, n.form.isCoherent := by
  have hnone : root.gather incoherent = [] := gather_eq_nil_iff.2 fun n hn => incoherent_eq_nil_iff.2 (h n hn)
  have hperm := hcases.gather_run fixed_incoherent rule fun n _ => .of_eq (by
    rw [incoherent, isCoherent_run, incoherent])
  rw [hnone] at hperm
  exact fun n hn => incoherent_eq_nil_iff.1 (gather_eq_nil_iff.1 hperm.eq_nil n hn)

/-! ## A whole tree -/

theorem Shaped.misfits (h : root.Shaped) : ∀ n ∈ root.preorder, n.misfits = [] :=
  fun n hn => misfits_eq_nil_iff.2 fun part hpart _ => h.roles n hn part hpart

theorem Shaped.hasCases (h : root.Shaped) : root.HasCases :=
  fun n hn => Apt.isCase (misfits_eq_nil_iff.1 (h.misfits n hn))

/-- Every part can stand where it stands, if statements can be printed and other parts can stand there. -/
theorem Printable.roles (h : root.Printable) (hmisfits : ∀ n ∈ root.preorder, n.misfits = []) :
    ∀ n ∈ root.preorder, ∀ part ∈ n.form.markRoles.children, part.1.form.fits part.2 := by
  rintro n hn ⟨m, role⟩ hpart
  by_cases hrole : role = .statement
  · subst hrole
    have hwritten := Form.mem_written_of_role hpart (by decide)
    simp [Form.fits, Form.isFragment_of_fault? (h.written n hn m hwritten)]
  · exact misfits_eq_nil_iff.1 (hmisfits n hn) (m, role) hpart hrole

theorem newline_notMem_restyled (rule : Rule) {c : Comment} (h : c.kind = .line → '\n' ∉ c.value.toList) :
    (rule.restyling.comment c).kind = .line → '\n' ∉ (rule.restyling.comment c).value.toList := by
  cases rule
  case capComments =>
    obtain ⟨_ | _, value, start, stop, line⟩ := c
    · intro _
      show '\n' ∉ (Text.capitalize value).toList
      rw [Text.capitalize, String.toList_ofList]
      exact Text.newline_notMem_capitalizeChars (h rfl)
    · exact h
  all_goals exact h

/-- A rule leaves the tree in the shape that is read. -/
theorem Shaped.run (h : root.Shaped) (hhoused : root.Housed) (rule : Rule) : (rule.restyling.run root).Shaped where
  program := by
    obtain ⟨body, hashbang, hprogram⟩ := h.program
    exact ⟨_, _, by rw [Restyling.run_form, hprogram]; rfl⟩
  roles := by
    refine (h.printable.run h.hasCases rule).roles ?_
    exact h.hasCases.eq_nil_of_mem_run loose_misfits rule (fun _ => misfits_run rule)
      (fun _ => splitDeclaration_misfits)
      h.misfits
  coherent := coherent_of_mem_run rule h.hasCases h.coherent
  lines c hc := by
    obtain ⟨c, hmem, rfl⟩ := List.mem_map.1 ((hhoused.allComments_run h.hasCases rule).mem_iff.1 hc)
    exact newline_notMem_restyled rule (h.lines c hmem)

theorem Shaped.runAll {rules : List Rule} (h : root.Shaped) (hhoused : root.Housed) :
    (Rule.runAll rules root).Shaped := by
  induction rules generalizing root with
  | nil => exact h
  | cons rule rules ih => exact ih (h.run hhoused rule) (hhoused.run h.hasCases rule)

end Node

end ScriptTidy
