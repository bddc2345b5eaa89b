/-
Comments under the rules. A tree whose comments stand where the attacher puts them, before nodes in
owning positions and at the ends of containers, keeps them there whatever rule is applied: a body
that loses its braces or gets new ones had none, the parts of a declaration leave theirs to the
first, and a sorted run leaves its comments to the member that comes first. So no rule loses a
comment, doubles one or strands it, and only one rule changes their texts.
-/
import ScriptTidy.Proofs.Comments.Housing
import ScriptTidy.Proofs.Style.Invariants

namespace ScriptTidy

namespace Node

/-! ## Nothing astray -/

section Astray

variable (rule : Rule) {form : Form Node} {n : Node}

theorem comments_braced (h : n.comments = []) : n.braced.comments = [] := by
  unfold braced
  split
  · exact h
  · rfl
  · rfl

theorem comments_unbraced (h : n.comments = []) (beforeElse : Bool) : (n.unbraced beforeElse).comments = [] := by
  rcases unbraced_cases beforeElse n with hsame | ⟨-, ⟨-, hempty⟩ | ⟨inner, -, hcomments, hinner⟩⟩
  · rwa [hsame]
  · rw [hempty]
    rfl
  · rwa [hinner]

theorem comments_consequent (h : n.comments = []) (beforeElse : Bool) :
    (rule.restyling.consequent beforeElse n).comments = [] := by
  cases rule
  case insertBraces => exact comments_braced h
  case stripBraces => exact comments_unbraced h beforeElse
  all_goals exact h

theorem comments_alternate (h : n.comments = []) : (rule.restyling.alternate n).comments = [] := by
  cases rule
  case insertBraces =>
    change n.bracedElse.comments = []
    unfold bracedElse
    split
    · exact h
    · exact comments_braced h
  case stripBraces => exact comments_unbraced h false
  all_goals exact h

theorem comments_loopBody (h : n.comments = []) : (rule.restyling.loopBody n).comments = [] := by
  cases rule
  case insertBraces => exact comments_braced h
  case stripBraces => exact comments_unbraced h false
  all_goals exact h

/-- No rule puts comments before the bodies of a node. -/
theorem Bare.restyled (h : Bare form) : Bare (rule.restyling.form form) := by
  cases form with
  | program | blockStatement | classBody | objectExpression =>
    intro m hm hfree
    obtain ⟨k, -, rfl⟩ := List.mem_map.1 hm
    cases hfree
  | switchCase test consequent | switchStatement discriminant cases =>
    intro m hm hfree
    simp only [Restyling.form, Form.markOwned, Form.children, List.mem_append, List.mem_map] at hm
    refine h m ?_ hfree
    rcases hm with hm | ⟨k, -, rfl⟩
    · exact List.mem_append_left _ hm
    · cases hfree
  | ifStatement test consequent alternate =>
    simp only [Bare, Restyling.form, Form.markOwned, Form.map, Form.children] at h ⊢
    cases alternate <;> simp_all [comments_consequent, comments_alternate]
  | whileStatement | doWhileStatement | forInStatement | forOfStatement =>
    simp only [Bare, Restyling.form, Form.markOwned, Form.map, Form.children] at h ⊢
    simp_all [comments_loopBody]
  | forStatement init test update body =>
    simp only [Bare, Restyling.form, Form.markOwned, Form.children, List.mem_append, List.mem_singleton] at h ⊢
    rintro m (hm | rfl) hfree
    · exact h m (.inl hm) hfree
    · exact comments_loopBody rule (h (body, false) (.inr rfl) rfl)
  | _ => exact h

theorem Bare.run (h : Bare form) (r : Restyling) : Bare (form.map r.run) := by
  intro m hm hfree
  rw [Form.markOwned_map, Form.children_map] at hm
  obtain ⟨k, hk, rfl⟩ := List.mem_map.1 hm
  simp only [Restyling.isVariableDeclaration_run] at hk
  rw [Restyling.run_comments, h k hk hfree, List.map_nil]

theorem strays_run (h : n.strays = []) : (rule.restyling.run n).strays = [] := by
  rw [strays_eq_nil_iff] at h ⊢
  refine ⟨?_, ?_⟩
  · rw [Restyling.run_form]
    exact (h.1.run rule.restyling).restyled rule
  · rw [Restyling.run_trailing, Restyling.isContainer_run]
    exact fun hne => h.2 fun hnil => hne (by rw [hnil, List.map_nil])

end Astray

/-! ## What rules make and take away -/

theorem loose_strays : Loose strays where
  block span ns := by
    rw [strays_eq_nil_iff]
    refine ⟨fun m hm hfree => ?_, fun _ => rfl⟩
    obtain ⟨k, -, rfl⟩ := List.mem_map.1 hm
    cases hfree
  emptyStatement _ := rfl
  breakStatement _ := rfl
  withConsequent n ns := by
    obtain ⟨info, form⟩ := n
    cases form with
    | switchCase test consequent =>
      unfold strays ownedChildren
      simp [withConsequent, withForm, Node.form, Form.markOwned, Form.children, List.filter_map, Function.comp_def]
      rfl
    | _ => rfl
  hoistComments ns := .of_eq (flatMap_hoistComments (fun _ _ => rfl) ns)

theorem loose_heldComments : Loose heldComments where
  block _ _ := rfl
  emptyStatement _ := rfl
  breakStatement _ := rfl
  withConsequent n ns := by
    obtain ⟨info, form⟩ := n
    cases form <;> rfl
  hoistComments ns := by
    have hcomments : (Node.hoistComments ns).flatMap comments = ns.flatMap comments := by
      cases ns with
      | nil => rfl
      | cons n ns =>
        have hrest : (ns.map (·.withComments [])).flatMap comments = [] :=
          List.flatMap_eq_nil_iff.2 fun m hm => by
            obtain ⟨k, -, rfl⟩ := List.mem_map.1 hm
            rfl
        rw [Node.hoistComments, List.flatMap_cons, hrest, List.append_nil, comments_withComments]
    have htrailing := flatMap_hoistComments (g := trailing) (fun _ _ => rfl) ns
    refine (List.flatMap_append_perm _ comments trailing).symm.trans ?_
    rw [hcomments, htrailing]
    exact List.flatMap_append_perm ns comments trailing

theorem splitDeclaration_heldComments {n : Node} (h : n.form.isVariableDeclaration → n.trailing = []) :
    n.splitDeclaration.flatMap heldComments = n.heldComments := by
  obtain ⟨info, form⟩ := n
  cases form with
  | variableDeclaration kind bindings =>
    rcases bindings with _ | ⟨first, _ | ⟨second, rest⟩⟩
    · exact List.flatMap_singleton ..
    · exact List.flatMap_singleton ..
    · have hrest : ((second :: rest).map (singleDeclaration kind)).flatMap heldComments = [] :=
        List.flatMap_eq_nil_iff.2 fun m hm => by
          obtain ⟨k, -, rfl⟩ := List.mem_map.1 hm
          rfl
      simp only [splitDeclaration, Node.form, List.flatMap_cons] at hrest ⊢
      rw [hrest, List.append_nil, heldComments, heldComments, h rfl]
      rfl
  | _ => exact List.flatMap_singleton ..

theorem splitDeclaration_strays {n : Node} (h : n.strays = []) : n.splitDeclaration.flatMap strays = [] := by
  refine List.flatMap_eq_nil_iff.2 fun m hm => ?_
  rcases mem_splitDeclaration hm with ⟨-, rfl⟩ | ⟨kind, bindings, hform, binding, hb, info, htrailing, rfl⟩
  · exact h
  · obtain ⟨hbare, -⟩ := strays_eq_nil_iff.1 h
    rw [hform] at hbare
    refine strays_eq_nil_iff.2 ⟨fun part hpart _ => ?_, fun hne => absurd htrailing hne⟩
    rw [List.mem_singleton.1 hpart]
    exact hbare (binding, false) (List.mem_map_of_mem hb) rfl

/-! ## A whole tree -/

section Tree

variable {root : Node}

theorem spares_heldComments (rule : Rule) (hstrays : ∀ n ∈ root.preorder, n.strays = []) (hcases : root.HasCases)
    {n : Node} (hn : n ∈ root.preorder) : Spares heldComments (n.form.map rule.restyling.run) where
  body m hm hreplaceable := by
    rw [Form.bodies_map] at hm
    obtain ⟨k, hk, rfl⟩ := List.mem_map.1 hm
    have hcontained := (strays_eq_nil_iff.1 (hstrays k (mem_preorder_trans hn
      (mem_preorder_of_mem_children (Form.mem_children_of_mem_bodies hk))))).2
    have hcomments : k.comments = [] :=
      (strays_eq_nil_iff.1 (hstrays n hn)).1 (k, false) (Form.mem_markOwned_of_mem_bodies _ hk) rfl
    have htrailing : (rule.restyling.run k).trailing = [] := by
      cases hform : (rule.restyling.run k).form with
      | blockStatement ns => rwa [isReplaceable, hform, List.isEmpty_iff] at hreplaceable
      | emptyStatement =>
        rw [Restyling.run_trailing, List.map_eq_nil_iff]
        by_contra hne
        have hcont := hcontained hne
        rw [← rule.restyling.isContainer_run, hform] at hcont
        cases hcont
      | _ => rw [isReplaceable, hform] at hreplaceable; cases hreplaceable
    rw [heldComments, htrailing, Restyling.run_comments, hcomments]
    rfl
  statement m hm := by
    rw [Form.statements_map] at hm
    obtain ⟨k, hk, rfl⟩ := List.mem_map.1 hm
    have hcontained := (strays_eq_nil_iff.1 (hstrays k (mem_preorder_trans hn
      (mem_preorder_of_mem_children (Form.mem_children_of_mem_statements hk))))).2
    refine .of_eq (splitDeclaration_heldComments fun hvar => ?_)
    rw [Restyling.run_trailing, List.map_eq_nil_iff]
    by_contra hne
    have hcont := hcontained hne
    rw [Restyling.isVariableDeclaration_run] at hvar
    rw [isContainer_eq_false hvar] at hcont
    cases hcont
  isCase := isCase_of_mem_run _ (hcases n hn)

/-- A rule keeps comments where they may stand. -/
theorem Housed.run (h : root.Housed) (hcases : root.HasCases) (rule : Rule) : (rule.restyling.run root).Housed := by
  rw [housed_iff] at h ⊢
  refine ⟨by rw [Restyling.run_comments, h.1, List.map_nil], ?_⟩
  exact hcases.eq_nil_of_mem_run loose_strays rule (fun _ => strays_run rule) (fun _ => splitDeclaration_strays) h.2

/-- The comments of a tree are those it had before a rule was applied, up to what the rule makes of
each of them. -/
theorem Housed.allComments_run (h : root.Housed) (hcases : root.HasCases) (rule : Rule) :
    ((rule.restyling.run root).allComments).Perm (root.allComments.map rule.restyling.comment) := by
  rw [housed_iff] at h
  refine gather_run loose_heldComments rule _ (fun n hn => spares_heldComments rule h.2 hcases hn) ?_
  intro n _
  rw [heldComments, Restyling.run_comments, Restyling.run_trailing, ← List.map_append]
  exact .refl _

end Tree

end Node

end ScriptTidy
