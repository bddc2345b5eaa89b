/-
What stays true of a tree whatever rules are applied to it: its switches hold cases only, the keys of
its properties can or cannot be found, and it holds a literal that is no number or it does not. All
of this is found in nodes that rules move as a whole, or in the members of lists that they only put
in order. Nodes that no rule makes or takes apart are found again after a rule that loses none of them,
each in the form that the rule gives it.
-/
import ScriptTidy.Proofs.Style.Gathering

namespace ScriptTidy

variable {α : Type}

namespace Form

/-- A node of this kind may be made or taken apart by a rule. -/
def isMovable : Form α → Bool
  | .blockStatement _ | .emptyStatement | .breakStatement _ | .variableDeclaration .. | .switchCase .. => true
  | _ => false

end Form

namespace Node

/-! ## What is found in other nodes -/

/-- What is found has nothing to do with comments, nor with the kinds of node that rules make or take
apart. -/
structure Fixed (f : Node → List α) : Prop where
  withComments : ∀ n comments, f (n.withComments comments) = f n
  isMovable : ∀ n, n.form.isMovable → f n = []

variable {f : Node → List α}

theorem Fixed.loose (hf : Fixed f) : Loose f where
  block _ _ := hf.isMovable _ rfl
  emptyStatement _ := hf.isMovable _ rfl
  breakStatement _ := hf.isMovable _ rfl
  withConsequent n ns := by
    obtain ⟨info, form⟩ := n
    cases form with
    | switchCase test consequent => rw [hf.isMovable _ rfl, hf.isMovable _ rfl]
    | _ => rfl
  hoistComments ns := .of_eq (flatMap_hoistComments hf.withComments ns)

theorem flatMap_splitDeclaration (h : ∀ m : Node, m.form.isVariableDeclaration → f m = []) (n : Node) :
    n.splitDeclaration.flatMap f = f n := by
  cases hn : n.form.isVariableDeclaration with
  | false => rw [splitDeclaration_eq_singleton hn, List.flatMap_singleton]
  | true =>
    rw [h n hn, List.flatMap_eq_nil_iff]
    exact fun m hm => h m (by rw [isVariableDeclaration_of_mem hm, hn])

theorem Fixed.splitDeclaration (hf : Fixed f) (n : Node) : n.splitDeclaration.flatMap f = f n := by
  refine flatMap_splitDeclaration (fun m hm => hf.isMovable m ?_) n
  obtain ⟨info, form⟩ := m
  cases form <;> first | rfl | cases hm

theorem Fixed.isReplaceable (hf : Fixed f) {n : Node} (h : n.isReplaceable) : f n = [] := by
  refine hf.isMovable n ?_
  obtain ⟨info, form⟩ := n
  cases form <;> first | rfl | cases h

theorem Fixed.spares (hf : Fixed f) {form : Form Node} (h : ∀ n ∈ form.switchMembers, n.isCase) : Spares f form where
  body _ _ := hf.isReplaceable
  statement n _ := .of_eq (hf.splitDeclaration n)
  isCase := h

/-! ## Nodes stay in their places -/

/-- The kind and the place of a node that rules neither make nor take apart. -/
def fixtures (n : Node) : List (Span × Form Node) := if n.form.isMovable then [] else [(n.span, n.form)]

theorem fixed_fixtures : Fixed fixtures where
  withComments _ _ := rfl
  isMovable _ h := if_pos h

theorem isMovable_form (r : Restyling) (form : Form Node) : (r.form form).isMovable = form.isMovable := by
  cases form <;> rfl

theorem isMovable_map (f : Node → Node) (form : Form Node) : (form.map f).isMovable = form.isMovable := by
  cases form <;> rfl

/-- What is made of a node stands in the place of the node, unless that is a kind of node that rules take apart. -/
theorem exists_run {r : Restyling} {root n : Node} (hr : ∀ m ∈ root.preorder, Conserves r fixtures (m.form.map r.run))
    (hn : n ∈ root.preorder) (hfixed : n.form.isMovable = false) :
    ∃ m ∈ (r.run root).preorder, m.span = n.span ∧ m.form = (r.run n).form := by
  have hrun : (r.run n).form.isMovable = false := by rw [Restyling.run_form, isMovable_form, isMovable_map, hfixed]
  have hfound : (n.span, (r.run n).form) ∈ root.gather fun n => (r.run n).fixtures := by
    refine List.mem_flatMap.2 ⟨n, hn, ?_⟩
    rw [fixtures, hrun, r.run_span]
    exact List.mem_singleton_self _
  have hperm : ((r.run root).gather fixtures).Perm (root.gather fun n => (r.run n).fixtures) :=
    gather_restyled hr fun _ _ => .refl _
  obtain ⟨m, hm, hfixture⟩ := List.mem_flatMap.1 (hperm.mem_iff.2 hfound)
  refine ⟨m, hm, ?_⟩
  unfold fixtures at hfixture
  split at hfixture
  · cases hfixture
  · exact Prod.mk.inj (List.mem_singleton.1 hfixture).symm

/-! ## Switches hold cases -/

/-- Every member of a switch is a case. -/
def HasCases (root : Node) : Prop := ∀ n ∈ root.preorder, ∀ m ∈ n.form.switchMembers, m.isCase

instance (root : Node) : Decidable root.HasCases :=
  inferInstanceAs (Decidable (∀ n ∈ root.preorder, ∀ m ∈ n.form.switchMembers, m.isCase))

/-- The members of a switch that are no cases. -/
def strangers (n : Node) : List Node := n.form.switchMembers.filter fun m => !m.isCase

theorem strangers_eq_nil_iff {n : Node} : n.strangers = [] ↔ ∀ m ∈ n.form.switchMembers, m.isCase := by
  simp [strangers]

theorem hasCases_iff {root : Node} : root.HasCases ↔ root.gather strangers = [] := by
  simp only [gather_eq_nil_iff, strangers_eq_nil_iff, HasCases]

theorem fixed_strangers : Fixed strangers where
  withComments _ _ := rfl
  isMovable n h := by
    obtain ⟨info, form⟩ := n
    cases form <;> first | rfl | cases h

theorem isCase_of_mem_run (r : Restyling) {form : Form Node} (h : ∀ n ∈ form.switchMembers, n.isCase) :
    ∀ n ∈ (form.map r.run).switchMembers, n.isCase := by
  intro n hn
  rw [Form.switchMembers_map] at hn
  obtain ⟨m, hm, rfl⟩ := List.mem_map.1 hn
  rw [Restyling.isCase_run]
  exact h m hm

theorem isCase_of_mem_form (rule : Rule) {form : Form Node} (h : ∀ n ∈ form.switchMembers, n.isCase) :
    ∀ n ∈ (rule.restyling.form form).switchMembers, n.isCase := by
  cases form with
  | switchStatement discriminant cases =>
    intro n hn
    change n ∈ rule.restyling.cases cases at hn
    cases rule
    case trailingBreak =>
      rcases exists_of_mem_mapLast hn with hn | ⟨m, hm, rfl⟩
      · exact h n hn
      · rw [isCase_terminated]
        exact h m hm
    case sortCases =>
      obtain ⟨m, hm, statements, -, rfl⟩ := exists_of_mem_sortedCases hn
      rw [isCase_withConsequent]
      exact h m hm
    all_goals exact h n hn
  | _ => exact fun n hn => nomatch hn

/-- What is found nowhere in a tree is found nowhere after a rule, if it is found neither in what the rule makes of a
single node nor in the parts of a declaration. -/
theorem HasCases.eq_nil_of_mem_run {root : Node} (hcases : root.HasCases) (hf : Loose f) (rule : Rule)
    (hrun : ∀ n, f n = [] → f (rule.restyling.run n) = [])
    (hsplit : ∀ n, f n = [] → n.splitDeclaration.flatMap f = []) (h : ∀ n ∈ root.preorder, f n = []) :
    ∀ n ∈ (rule.restyling.run root).preorder, f n = [] := by
  have hchild {n m : Node} (hn : n ∈ root.preorder) (hm : m ∈ n.children) : f (rule.restyling.run m) = [] :=
    hrun m (h m (mem_preorder_trans hn (mem_preorder_of_mem_children hm)))
  have hspares (n : Node) (hn : n ∈ root.preorder) : Spares f (n.form.map rule.restyling.run) := {
    body := fun m hm _ => by
      rw [Form.bodies_map] at hm
      obtain ⟨k, hk, rfl⟩ := List.mem_map.1 hm
      exact hchild hn (Form.mem_children_of_mem_bodies hk)
    statement := fun m hm => by
      rw [Form.statements_map] at hm
      obtain ⟨k, hk, rfl⟩ := List.mem_map.1 hm
      have hnone := hchild hn (Form.mem_children_of_mem_statements hk)
      rw [hnone, hsplit _ hnone]
    isCase := isCase_of_mem_run _ (hcases n hn) }
  have hperm : ((rule.restyling.run root).gather f).Perm ((root.gather f).map id) :=
    Node.gather_run hf rule id hspares fun n hn => by
      rw [hrun n (h n hn), h n hn]
      exact .refl _
  rw [gather_eq_nil_iff.2 h] at hperm
  exact gather_eq_nil_iff.1 hperm.eq_nil

theorem HasCases.run (rule : Rule) {root : Node} (h : root.HasCases) : (rule.restyling.run root).HasCases := by
  have hrun (n : Node) (hn : n.strangers = []) : (rule.restyling.run n).strangers = [] := by
    rw [strangers_eq_nil_iff] at hn ⊢
    rw [Restyling.run_form]
    exact isCase_of_mem_form rule (isCase_of_mem_run _ hn)
  have hsplit (n : Node) (hn : n.strangers = []) : n.splitDeclaration.flatMap strangers = [] := by
    rw [fixed_strangers.splitDeclaration, hn]
  rw [hasCases_iff, gather_eq_nil_iff]
  exact h.eq_nil_of_mem_run fixed_strangers.loose rule hrun hsplit (gather_eq_nil_iff.1 (hasCases_iff.1 h))

/-- A rule conserves what is found in nodes that rules do not make or take apart. -/
theorem HasCases.gather_run {root : Node} (h : root.HasCases) (hf : Fixed f) (rule : Rule)
    (hnode : ∀ n ∈ root.preorder, (f (rule.restyling.run n)).Perm (f n)) :
    ((rule.restyling.run root).gather f).Perm (root.gather f) := by
  refine (Node.gather_run hf.loose rule id ?_ ?_).trans (.of_eq (List.map_id _))
  · exact fun n hn => hf.spares (isCase_of_mem_run _ (h n hn))
  · intro n hn
    rw [List.map_id]
    exact hnode n hn

/-! ## Parts of nodes -/

section Parts

variable {part rest : Node → List α} {a b : Node}

/-- What is found below a node is found in parts of nodes, of one kind or of the others. -/
theorem length_gather_of_parts
    (h : ∀ n ∈ a.preorder, (n.children.flatMap f).length = (part n).length + (rest n).length) :
    (a.gather f).length = (f a).length + ((a.gather part).length + (a.gather rest).length) := by
  induction a using byChildren with
  | node a ih =>
    obtain ⟨hself, hbelow⟩ := forall_preorder_iff.1 h
    have hsums : (a.children.flatMap (gather f)).length = (a.children.flatMap f).length +
        ((a.children.flatMap (gather part)).length + (a.children.flatMap (gather rest)).length) := by
      simp only [List.length_flatMap, List.map_congr_left fun n hn => ih n hn (hbelow n hn), List.sum_map_add]
    rw [gather_eq, gather_eq part, gather_eq rest, List.length_append, List.length_append, List.length_append,
      hsums, hself]
    omega

/-- Where as much is found as before, in the root and in the parts of one kind, nothing gets to the other parts. -/
theorem gather_rest_eq_nil (ha : ∀ n ∈ a.preorder, (n.children.flatMap f).length = (part n).length + (rest n).length)
    (hb : ∀ n ∈ b.preorder, (n.children.flatMap f).length = (part n).length + (rest n).length)
    (hall : (b.gather f).Perm (a.gather f)) (hroot : f b = f a) (hpart : (b.gather part).Perm (a.gather part))
    (h : a.gather rest = []) : b.gather rest = [] := by
  have hlength := hall.length_eq
  rw [length_gather_of_parts ha, length_gather_of_parts hb, hroot, hpart.length_eq, h] at hlength
  exact List.length_eq_zero_iff.1 (by simpa using hlength)

end Parts

/-! ## Keys of properties -/

/-- The reasons why keys of the properties of a single object literal cannot be found. -/
def propertyFaults (n : Node) : List NumeralFault :=
  match n.form with
  | .objectExpression properties => properties.filterMap fun p =>
    match p.propertyKey with
    | .ok _ => none
    | .error fault => some fault
  | _ => []

theorem propertyFault?_eq_none_iff {n : Node} : n.propertyFault? = none ↔ n.propertyFaults = [] := by
  unfold propertyFault? propertyFaults
  cases n.form with
  | objectExpression properties => exact List.findSome?_eq_none_iff.trans List.filterMap_eq_nil_iff.symm
  | _ => exact iff_of_true rfl rfl

theorem hasPropertyKeys_iff {root : Node} : root.HasPropertyKeys ↔ root.gather propertyFaults = [] := by
  simp only [gather_eq_nil_iff, ← propertyFault?_eq_none_iff, HasPropertyKeys]

theorem fixed_propertyFaults : Fixed propertyFaults where
  withComments _ _ := rfl
  isMovable n h := by
    obtain ⟨info, form⟩ := n
    cases form <;> first | rfl | cases h

theorem propertyFaults_run (rule : Rule) (n : Node) :
    ((rule.restyling.run n).propertyFaults).Perm n.propertyFaults := by
  obtain ⟨info, form⟩ := n
  rw [Restyling.run_mk]
  cases form with
  | objectExpression properties =>
    have hperm : (rule.restyling.properties (properties.map rule.restyling.run)).Perm
        (properties.map rule.restyling.run) := by
      cases rule
      case sortProperties => exact SortKey.sortBy_perm _ _
      all_goals exact .refl _
    refine (hperm.filterMap _).trans (.of_eq ?_)
    rw [List.filterMap_map]
    simp only [Function.comp_def, Restyling.propertyKey_run]
    rfl
  | _ => exact .refl _

/-- Whether the keys of properties can be found does not depend on the rules applied before. -/
theorem HasCases.hasPropertyKeys_run {root : Node} (h : root.HasCases) (rule : Rule) :
    (rule.restyling.run root).HasPropertyKeys ↔ root.HasPropertyKeys := by
  have hperm := h.gather_run fixed_propertyFaults rule fun n _ => propertyFaults_run rule n
  rw [hasPropertyKeys_iff, hasPropertyKeys_iff]
  exact ⟨fun hnil => (hnil ▸ hperm).symm.eq_nil, fun hnil => (hnil ▸ hperm).eq_nil⟩

/-! ## Literals that are no numbers -/

/-- The literal is a NaN. -/
def isNaN (n : Node) : Bool :=
  match n.form with
  | .literal (.number number) _ => number.place?.isNone
  | _ => false

/-- No literal of the tree is a NaN. -/
def HasNumbers (root : Node) : Prop := ∀ n ∈ root.preorder, n.isNaN = false

instance (root : Node) : Decidable root.HasNumbers := inferInstanceAs (Decidable (∀ n ∈ root.preorder, n.isNaN = false))

/-- The node, if it is a NaN. -/
def nans (n : Node) : List Unit := if n.isNaN then [()] else []

theorem hasNumbers_iff {root : Node} : root.HasNumbers ↔ root.gather nans = [] := by
  simp [gather_eq_nil_iff, nans, HasNumbers]

theorem fixed_nans : Fixed nans where
  withComments _ _ := rfl
  isMovable n h := by
    obtain ⟨info, form⟩ := n
    cases form <;> first | rfl | cases h

theorem nans_run (r : Restyling) (n : Node) : (r.run n).nans = n.nans := by
  obtain ⟨info, form⟩ := n
  rw [Restyling.run_mk]
  cases form <;> rfl

theorem HasCases.hasNumbers_run {root : Node} (h : root.HasCases) (rule : Rule) (hnumbers : root.HasNumbers) :
    (rule.restyling.run root).HasNumbers := by
  rw [hasNumbers_iff] at hnumbers ⊢
  have hperm := h.gather_run fixed_nans rule fun n _ => .of_eq (nans_run _ n)
  exact (hnumbers ▸ hperm).eq_nil

end Node

end ScriptTidy
