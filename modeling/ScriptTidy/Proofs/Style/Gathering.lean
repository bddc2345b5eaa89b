/-
What the rules conserve. Something that is found in single nodes, such as the comments that they
hold, is gathered from a whole tree. Rules take statements out of blocks and put them into others,
split declarations, and put the members of lists in another order; as long as nothing is found in
the blocks, statements and breaks that they make or take away, and what is found in a declaration or
a list is also found in its parts, the same is gathered before and after.
-/
import Mathlib.Data.List.Perm.Basic
import ScriptTidy.Proofs.Style.Rules

namespace ScriptTidy

variable {α : Type}

/-! ## The parts that rules change -/

namespace Form

/-- The bodies of a loop, or the branches of an if statement. -/
def bodies : Form α → List α
  | .ifStatement _ consequent alternate => consequent :: alternate.toList
  | .whileStatement _ body | .doWhileStatement body _ | .forStatement _ _ _ body | .forInStatement _ _ body
  | .forOfStatement _ _ body _ => [body]
  | _ => []

/-- The statements of a program, a block or a switch case. -/
def statements : Form α → List α
  | .program body _ | .blockStatement body | .switchCase _ body => body
  | _ => []

/-- The members of a switch. -/
def switchMembers : Form α → List α
  | .switchStatement _ cases => cases
  | _ => []

theorem mem_children_of_mem_bodies {form : Form α} {a : α} (h : a ∈ form.bodies) : a ∈ form.children := by
  cases form <;> simp only [bodies, List.not_mem_nil] at h <;> simp_all [children]

theorem mem_children_of_mem_statements {form : Form α} {a : α} (h : a ∈ form.statements) : a ∈ form.children := by
  cases form <;> simp only [statements, List.not_mem_nil] at h <;> simp_all [children]

theorem mem_children_of_mem_switchMembers {form : Form α} {a : α} (h : a ∈ form.switchMembers) :
    a ∈ form.children := by
  cases form <;> simp only [switchMembers, List.not_mem_nil] at h
  exact List.mem_cons_of_mem _ h

/-- A body does not stand in an owning position. -/
theorem mem_markOwned_of_mem_bodies {form : Form α} {a : α} (declares : α → Bool) (h : a ∈ form.bodies) :
    (a, false) ∈ (form.markOwned declares).children := by
  cases form <;> simp only [bodies, List.not_mem_nil] at h <;> simp_all [markOwned, map, children]

theorem bodies_map {β : Type} (f : α → β) (form : Form α) : (form.map f).bodies = form.bodies.map f := by
  cases form <;> simp [map, bodies, Option.toList_map]

theorem statements_map {β : Type} (f : α → β) (form : Form α) : (form.map f).statements = form.statements.map f := by
  cases form <;> rfl

theorem switchMembers_map {β : Type} (f : α → β) (form : Form α) :
    (form.map f).switchMembers = form.switchMembers.map f := by
  cases form <;> rfl

end Form

namespace Node

/-- A body that may be replaced by one without its node: an empty statement, or a block without
comments before its closing bracket. -/
def isReplaceable (n : Node) : Bool :=
  match n.form with
  | .emptyStatement => true
  | .blockStatement _ => n.trailing.isEmpty
  | _ => false

/-! ## Gathering -/

/-- What is found in the nodes of a tree, node by node. -/
def gather (f : Node → List α) (root : Node) : List α := root.preorder.flatMap f

theorem gather_eq (f : Node → List α) (n : Node) : n.gather f = f n ++ n.children.flatMap (gather f) := by
  unfold gather
  rw [preorder_eq, List.flatMap_cons, List.flatMap_assoc]

theorem gather_eq_nil_iff {f : Node → List α} {n : Node} : n.gather f = [] ↔ ∀ m ∈ n.preorder, f m = [] :=
  List.flatMap_eq_nil_iff

/-- Nothing is found in the nodes that rules make, nor in what they move between nodes. -/
structure Loose (f : Node → List α) : Prop where
  block : ∀ span ns, f (plain span (.blockStatement ns)) = []
  emptyStatement : ∀ span, f (plain span .emptyStatement) = []
  breakStatement : ∀ span, f (plain span (.breakStatement none)) = []
  /-- The statements of a case do not count for the case. -/
  withConsequent : ∀ n ns, f (n.withConsequent ns) = f n
  /-- Comments count for whichever node of a list holds them, or not at all. -/
  hoistComments : ∀ ns, ((hoistComments ns).flatMap f).Perm (ns.flatMap f)

/-- Nothing is found in the parts of a node that rules take away. -/
structure Spares (f : Node → List α) (form : Form Node) : Prop where
  body : ∀ n ∈ form.bodies, n.isReplaceable → f n = []
  statement : ∀ n ∈ form.statements, (n.splitDeclaration.flatMap f).Perm (f n)
  isCase : ∀ n ∈ form.switchMembers, n.isCase

variable {f : Node → List α}

/-! ## Bodies -/

theorem gather_plain_block (hf : Loose f) (span : Span) (ns : List Node) :
    (plain span (.blockStatement ns)).gather f = ns.flatMap (gather f) := by
  rw [gather_eq, hf.block]
  rfl

theorem gather_of_children_nil {n : Node} (h : f n = []) (hchildren : n.children = []) : n.gather f = [] := by
  rw [gather_eq, h, hchildren]
  rfl

theorem gather_braced (hf : Loose f) {n : Node} (h : n.isReplaceable → f n = []) : n.braced.gather f = n.gather f := by
  unfold braced
  split
  case h_1 => rfl
  case h_2 heq =>
    have hn : f n = [] := h (by rw [isReplaceable, heq])
    rw [gather_plain_block hf, gather_of_children_nil hn (by rw [children, heq]; rfl)]
    rfl
  case h_3 => rw [gather_plain_block hf, List.flatMap_singleton]

theorem gather_bracedElse (hf : Loose f) {n : Node} (h : n.isReplaceable → f n = []) :
    n.bracedElse.gather f = n.gather f := by
  unfold bracedElse
  split
  · rfl
  · exact gather_braced hf h

theorem gather_unbraced (hf : Loose f) {n : Node} (h : n.isReplaceable → f n = []) (beforeElse : Bool) :
    (n.unbraced beforeElse).gather f = n.gather f := by
  have hblock {ns : List Node} (hform : n.form = .blockStatement ns) (htrailing : n.trailing = []) :
      n.gather f = ns.flatMap (gather f) := by
    rw [gather_eq, h (by rw [isReplaceable, hform, htrailing]; rfl), children, hform]
    rfl
  rcases unbraced_cases beforeElse n with hsame | ⟨htrailing, ⟨hform, hempty⟩ | ⟨inner, hform, -, hinner⟩⟩
  · rw [hsame]
  · rw [hempty, hblock hform htrailing]
    exact gather_of_children_nil (hf.emptyStatement _) rfl
  · rw [hinner, hblock hform htrailing, List.flatMap_singleton]

/-! ## Declarations -/

theorem gather_declaration (f : Node → List α) (info : Info) (kind : String) (binding : Node) :
    (Node.mk info (.variableDeclaration kind [binding])).gather f =
      f (.mk info (.variableDeclaration kind [binding])) ++ binding.gather f := by
  rw [gather_eq]
  exact congrArg (_ ++ ·) (List.flatMap_singleton ..)

theorem flatMap_gather_singleDeclaration (f : Node → List α) (kind : String) (bindings : List Node) :
    ((bindings.map (singleDeclaration kind)).flatMap (gather f)).Perm
      ((bindings.map (singleDeclaration kind)).flatMap f ++ bindings.flatMap (gather f)) := by
  have hsingle (binding : Node) : (singleDeclaration kind binding).gather f =
      f (singleDeclaration kind binding) ++ binding.gather f := gather_declaration ..
  rw [List.flatMap_map, List.flatMap_map, List.flatMap_congr fun binding _ => hsingle binding]
  exact (List.flatMap_append_perm bindings _ _).symm

/-- What is gathered from the parts of a declaration is found in the parts and in the bindings. -/
theorem flatMap_gather_splitDeclaration (f : Node → List α) (n : Node) :
    (n.splitDeclaration.flatMap (gather f)).Perm (n.splitDeclaration.flatMap f ++ n.children.flatMap (gather f)) := by
  obtain ⟨info, form⟩ := n
  cases form with
  | variableDeclaration kind bindings =>
    rcases bindings with _ | ⟨first, _ | ⟨second, rest⟩⟩
    · simp [splitDeclaration, Node.form, gather_eq, children]
    · simp [splitDeclaration, Node.form, gather_eq, children]
    · have hparts : (Node.mk info (.variableDeclaration kind (first :: second :: rest))).splitDeclaration =
          .mk ⟨{ first.span with start := info.span.start }, info.comments, []⟩ (.variableDeclaration kind [first]) ::
            (second :: rest).map (singleDeclaration kind) := rfl
      have hchildren : (Node.mk info (.variableDeclaration kind (first :: second :: rest))).children =
          first :: second :: rest := rfl
      rw [hparts, hchildren, List.flatMap_cons, List.flatMap_cons, List.flatMap_cons, gather_declaration,
        List.append_assoc, List.append_assoc]
      refine List.Perm.append_left _ (((flatMap_gather_singleDeclaration f kind _).append_left _).trans ?_)
      exact List.perm_append_comm_assoc ..
  | _ => simp only [splitDeclaration, Node.form, List.flatMap_singleton, gather_eq]; exact .refl _

theorem gather_splitDeclaration {n : Node} (h : (n.splitDeclaration.flatMap f).Perm (f n)) :
    (n.splitDeclaration.flatMap (gather f)).Perm (n.gather f) := by
  rw [gather_eq]
  exact (flatMap_gather_splitDeclaration f n).trans (h.append_right _)

/-- Splitting the declarations of a list conserves what is gathered from it. -/
theorem flatMap_gather_split {ns : List Node} (h : ∀ n ∈ ns, (n.splitDeclaration.flatMap f).Perm (f n)) :
    ((ns.flatMap splitDeclaration).flatMap (gather f)).Perm (ns.flatMap (gather f)) := by
  induction ns with
  | nil => exact .refl _
  | cons n ns ih =>
    rw [List.flatMap_cons, List.flatMap_append, List.flatMap_cons]
    exact (gather_splitDeclaration (h n (List.mem_cons_self ..))).append
      (ih fun m hm => h m (List.mem_cons_of_mem _ hm))

/-! ## Runs -/

/-- What is gathered from a list is found in its nodes and in those below them. -/
theorem flatMap_gather (f : Node → List α) (ns : List Node) :
    (ns.flatMap (gather f)).Perm (ns.flatMap f ++ ns.flatMap fun n => n.children.flatMap (gather f)) := by
  rw [List.flatMap_congr fun n _ => gather_eq f n]
  exact (List.flatMap_append_perm ns f _).symm

theorem flatMap_hoistComments {β : Type} {g : Node → List β} (hg : ∀ n comments, g (n.withComments comments) = g n)
    (ns : List Node) : (hoistComments ns).flatMap g = ns.flatMap g := by
  cases ns with
  | nil => rfl
  | cons n ns =>
    rw [hoistComments, List.flatMap_cons, hg, List.flatMap_map, List.flatMap_cons]
    congr 1
    exact List.flatMap_congr fun m _ => hg m []

theorem flatMap_gather_hoistComments (hf : ∀ ns, ((hoistComments ns).flatMap f).Perm (ns.flatMap f)) (ns : List Node) :
    ((hoistComments ns).flatMap (gather f)).Perm (ns.flatMap (gather f)) := by
  refine (flatMap_gather f _).trans (((hf ns).append ?_).trans (flatMap_gather f ns).symm)
  rw [flatMap_hoistComments (g := fun n => n.children.flatMap (gather f)) fun _ _ => rfl]

theorem flatMap_gather_sortRuns (hf : ∀ ns, ((hoistComments ns).flatMap f).Perm (ns.flatMap f))
    (isMember : Node → Bool) (key : Node → SortKey) (ns : List Node) :
    ((sortRuns isMember key ns).flatMap (gather f)).Perm (ns.flatMap (gather f)) := by
  fun_induction sortRuns isMember key ns with
  | case1 => exact .refl _
  | case2 n ns _ ih =>
    have hrun : ((sortRun key (n :: ns.takeWhile (continuesRun isMember))).flatMap (gather f)).Perm
        ((n :: ns.takeWhile (continuesRun isMember)).flatMap (gather f)) :=
      (flatMap_gather_hoistComments hf _).trans ((SortKey.sortBy_perm key _).flatMap_right _)
    rw [List.flatMap_append]
    refine (hrun.append ih).trans ?_
    rw [← List.flatMap_append, List.cons_append, List.takeWhile_append_dropWhile]
  | case3 n ns _ ih =>
    rw [List.flatMap_cons, List.flatMap_cons]
    exact ih.append_left _

/-! ## Cases -/

/-- A case is its label and its statements. -/
theorem gather_withConsequent (hf : Loose f) {n : Node} (h : n.isCase) (ns : List Node) :
    (n.withConsequent ns).gather f = (n.withConsequent []).gather f ++ ns.flatMap (gather f) := by
  rw [gather_eq, gather_eq f (n.withConsequent []), hf.withConsequent, hf.withConsequent]
  obtain ⟨info, form⟩ := n
  cases form with
  | switchCase test consequent =>
    simp only [withConsequent, withForm, Node.form, children, Form.children, List.flatMap_append, List.append_nil,
      List.append_assoc]
  | _ => cases h

theorem gather_case (hf : Loose f) {n : Node} (h : n.isCase) :
    n.gather f = (n.withConsequent []).gather f ++ n.consequent.flatMap (gather f) := by
  rw [← gather_withConsequent hf h, withConsequent_consequent]

theorem gather_terminated (hf : Loose f) {n : Node} (h : n.isCase) : n.terminated.gather f = n.gather f := by
  unfold terminated
  split
  · rfl
  · rw [gather_withConsequent hf h, List.flatMap_append, List.flatMap_singleton,
      gather_of_children_nil (hf.breakStatement _) rfl, List.append_nil, ← gather_case hf h]

theorem flatMap_gather_mapLast {g : Node → Node} {ns : List Node} (h : ∀ n ∈ ns, (g n).gather f = n.gather f) :
    (mapLast g ns).flatMap (gather f) = ns.flatMap (gather f) := by
  rcases List.eq_nil_or_concat ns with rfl | ⟨ms, n, rfl⟩
  · rfl
  · rw [List.concat_eq_append] at h ⊢
    rw [mapLast_append_singleton, List.flatMap_append, List.flatMap_append, List.flatMap_singleton,
      List.flatMap_singleton, h n (List.mem_append_right _ (List.mem_singleton_self n))]

/-- What is gathered from cases is gathered from their labels and from their statements. -/
theorem flatMap_gather_cases (hf : Loose f) : ∀ {ns : List Node}, (∀ n ∈ ns, n.isCase) →
    (ns.flatMap (gather f)).Perm
      ((ns.map (·.withConsequent [])).flatMap (gather f) ++ (ns.flatMap consequent).flatMap (gather f)) := by
  intro ns h
  rw [List.flatMap_congr fun n hn => gather_case hf (h n hn), List.flatMap_map, List.flatMap_assoc]
  exact (List.flatMap_append_perm ns _ _).symm

theorem flatMap_gather_sortLabels (hf : Loose f) {block : List Node} (h : ∀ n ∈ block, n.isCase) :
    ((sortLabels block).flatMap (gather f)).Perm (block.flatMap (gather f)) := by
  rcases List.eq_nil_or_concat block with rfl | ⟨ms, n, rfl⟩
  · simp [sortLabels, SortKey.sortBy, mapLast]
  rw [List.concat_eq_append] at h ⊢
  cases hempty : ms.all (·.consequent.isEmpty) with
  | false => rw [sortLabels_of_not (by rw [List.dropLast_concat]; exact hempty)]
  | true =>
    have hstatements : (ms ++ [n]).flatMap consequent = n.consequent := by
      have hms : ms.flatMap consequent = [] :=
        List.flatMap_eq_nil_iff.2 fun m hm => List.isEmpty_iff.1 (List.all_eq_true.1 hempty m hm)
      rw [List.flatMap_append, hms, List.nil_append, List.flatMap_singleton]
    have hlabels := SortKey.sortBy_perm caseKey ((ms ++ [n]).map (·.withConsequent []))
    refine List.Perm.trans ?_ (flatMap_gather_cases hf h).symm
    rw [hstatements, sortLabels_append_singleton hempty]
    rcases List.eq_nil_or_concat (SortKey.sortBy caseKey ((ms ++ [n]).map (·.withConsequent []))) with
      hsorted | ⟨ls, l, hsorted⟩
    · rw [hsorted] at hlabels
      cases (List.append_eq_nil_iff.1 (List.map_eq_nil_iff.1 hlabels.symm.eq_nil)).2
    · rw [List.concat_eq_append] at hsorted
      have hl : l.isCase ∧ l.withConsequent [] = l := by
        have hmem : l ∈ (ms ++ [n]).map (·.withConsequent []) :=
          hlabels.mem_iff.1 (by rw [hsorted]; exact List.mem_append_right _ (List.mem_singleton_self l))
        obtain ⟨m, hm, rfl⟩ := List.mem_map.1 hmem
        exact ⟨by rw [isCase_withConsequent]; exact h m hm, withConsequent_withConsequent ..⟩
      rw [hsorted] at hlabels ⊢
      rw [mapLast_append_singleton, List.flatMap_append, List.flatMap_singleton, gather_withConsequent hf hl.1, hl.2,
        ← List.append_assoc, ← List.flatMap_singleton (gather f) l, ← List.flatMap_append]
      exact (hlabels.flatMap_right _).append_right _

theorem flatMap_gather_sortedCases (hf : Loose f) {ns : List Node} (h : ∀ n ∈ ns, n.isCase) :
    ((sortedCases ns).flatMap (gather f)).Perm (ns.flatMap (gather f)) := by
  refine ((sortedCases_perm ns).flatMap_right _).trans ?_
  have hblocks : ∀ {blocks : List (List Node)}, (∀ block ∈ blocks, ∀ n ∈ block, n.isCase) →
      ((blocks.map sortLabels).flatten.flatMap (gather f)).Perm (blocks.flatten.flatMap (gather f)) := by
    intro blocks hcases
    induction blocks with
    | nil => exact .refl _
    | cons block blocks ih =>
      rw [List.map_cons, List.flatten_cons, List.flatten_cons, List.flatMap_append, List.flatMap_append]
      exact (flatMap_gather_sortLabels hf (hcases block (List.mem_cons_self ..))).append
        (ih fun k hk => hcases k (List.mem_cons_of_mem _ hk))
  have hcases : ∀ block ∈ fallthroughBlocks ns, ∀ n ∈ block, n.isCase := by
    intro block hblock n hn
    refine h n ?_
    rw [← flatten_fallthroughBlocks ns]
    exact List.mem_flatten_of_mem hblock hn
  have hperm := hblocks hcases
  rwa [flatten_fallthroughBlocks] at hperm

/-! ## A whole tree -/

/-- A restyling of a single node conserves what is gathered from its parts. -/
structure Conserves (r : Restyling) (f : Node → List α) (form : Form Node) : Prop where
  consequent : ∀ n ∈ form.bodies, ∀ beforeElse, (r.consequent beforeElse n).gather f = n.gather f := by intros; rfl
  alternate : ∀ n ∈ form.bodies, (r.alternate n).gather f = n.gather f := by intros; rfl
  loopBody : ∀ n ∈ form.bodies, (r.loopBody n).gather f = n.gather f := by intros; rfl
  statements : ((r.statements form.statements).flatMap (gather f)).Perm (form.statements.flatMap (gather f)) := by
    exact .refl _
  caseStatements :
    ((r.caseStatements form.statements).flatMap (gather f)).Perm (form.statements.flatMap (gather f)) := by
      exact .refl _
  members : ∀ ns, ((r.members ns).flatMap (gather f)).Perm (ns.flatMap (gather f)) := by intros; exact .refl _
  cases : ((r.cases form.switchMembers).flatMap (gather f)).Perm (form.switchMembers.flatMap (gather f)) := by
    exact .refl _
  properties : ∀ ns, ((r.properties ns).flatMap (gather f)).Perm (ns.flatMap (gather f)) := by
    intros; exact .refl _

theorem Conserves.children {r : Restyling} {form : Form Node} (h : Conserves r f form) :
    ((r.form form).children.flatMap (gather f)).Perm (form.children.flatMap (gather f)) := by
  obtain ⟨hconsequent, halternate, hloop, hstatements, hcaseStatements, hmembers, hcases, hproperties⟩ := h
  cases form with
  | program body hashbang => exact hstatements
  | blockStatement body => exact hstatements
  | classBody body => exact hmembers body
  | objectExpression properties => exact hproperties properties
  | switchCase test consequent =>
    simp only [Restyling.form, Form.children, List.flatMap_append]
    exact hcaseStatements.append_left _
  | switchStatement discriminant cases =>
    simp only [Restyling.form, Form.children, List.flatMap_append]
    exact hcases.append_left _
  | ifStatement test consequent alternate =>
    have hfirst := hconsequent consequent (by simp [Form.bodies]) alternate.isSome
    cases alternate with
    | none =>
      simp only [Restyling.form, Form.children, List.flatMap_append, List.flatMap_cons, hfirst, Option.map_none]
      exact .refl _
    | some alternate =>
      have hsecond := halternate alternate (by simp [Form.bodies])
      simp only [Restyling.form, Form.children, List.flatMap_append, List.flatMap_cons, hfirst, Option.map_some,
        Option.toList_some, hsecond]
      exact .refl _
  | whileStatement test body | doWhileStatement body test | forStatement init test update body
  | forInStatement left right body | forOfStatement left right body isAwait =>
    simp only [Restyling.form, Form.children, List.flatMap_append, List.flatMap_cons,
      hloop body (by simp [Form.bodies])]
    exact .refl _
  | _ => exact .refl _

/-- A rule conserves what is gathered from the parts of a node, if it spares them. -/
theorem Spares.conserves (hf : Loose f) {form : Form Node} (h : Spares f form) (rule : Rule) :
    Conserves rule.restyling f form := by
  cases rule
  case insertBraces =>
    exact {
      consequent := fun n hn _ => gather_braced hf (h.body n hn)
      alternate := fun n hn => gather_bracedElse hf (h.body n hn)
      loopBody := fun n hn => gather_braced hf (h.body n hn) }
  case stripBraces =>
    exact {
      consequent := fun n hn => gather_unbraced hf (h.body n hn)
      alternate := fun n hn => gather_unbraced hf (h.body n hn) false
      loopBody := fun n hn => gather_unbraced hf (h.body n hn) false }
  case trailingBreak =>
    exact { cases := .of_eq (flatMap_gather_mapLast fun n hn => gather_terminated hf (h.isCase n hn)) }
  case separateVars =>
    exact { statements := flatMap_gather_split h.statement, caseStatements := flatMap_gather_split h.statement }
  case sortCases => exact { cases := flatMap_gather_sortedCases hf h.isCase }
  case sortFunctions =>
    exact {
      statements := flatMap_gather_sortRuns hf.hoistComments _ _ _
      members := flatMap_gather_sortRuns hf.hoistComments _ _ }
  case sortProperties => exact { properties := fun ns => (SortKey.sortBy_perm _ ns).flatMap_right _ }
  case exactEquals => exact {}
  case capComments => exact {}

/-- What is gathered from a restyled tree is found in the nodes of the tree once they are changed, if the parts of
every node are conserved. -/
theorem gather_restyled {r : Restyling} {found : Node → List α} {root : Node}
    (hparts : ∀ n ∈ root.preorder, Conserves r f (n.form.map r.run))
    (hnode : ∀ n ∈ root.preorder, (f (r.run n)).Perm (found n)) :
    ((r.run root).gather f).Perm (root.gather found) := by
  induction root using byChildren with
  | node n ih =>
    obtain ⟨hself, hparts⟩ := forall_preorder_iff.1 hparts
    obtain ⟨hnode, hnodes⟩ := forall_preorder_iff.1 hnode
    have hkids : ((r.run n).children.flatMap (gather f)).Perm (n.children.flatMap fun m => (r.run m).gather f) := by
      have h := hself.children
      rw [Form.children_map, List.flatMap_map, ← Restyling.run_form] at h
      exact h
    rw [gather_eq, gather_eq found n]
    refine hnode.append (hkids.trans (List.Perm.flatMap_left _ fun m hm => ?_))
    exact ih m hm (hparts m hm) (hnodes m hm)

/-- A rule conserves what is gathered from a tree, up to what it makes of the parts of single nodes. -/
theorem gather_run (hf : Loose f) (rule : Rule) (g : α → α) {root : Node}
    (hspares : ∀ n ∈ root.preorder, Spares f (n.form.map rule.restyling.run))
    (hnode : ∀ n ∈ root.preorder, (f (rule.restyling.run n)).Perm ((f n).map g)) :
    ((rule.restyling.run root).gather f).Perm ((root.gather f).map g) := by
  rw [gather, gather, List.map_flatMap]
  exact gather_restyled (fun n hn => (hspares n hn).conserves hf rule) hnode

end Node

end ScriptTidy
