/-
Semicolons that stand alone. A semicolon without comments in a list of statements or class members
leaves nothing in print. No rule makes one: the braces around a single semicolon hold nothing, a
semicolon that is taken out of its braces is a body and no member of a list, and whatever else is put
into a list declares something, ends a case, or was in a list before.
-/
import ScriptTidy.Proofs.Layout.Siblings
import ScriptTidy.Proofs.Style.Plan

namespace ScriptTidy

/-! ## What is left of a list -/

theorem Node.isStray_iff {n : Node} : n.isStray ↔ n.form = .emptyStatement ∧ n.comments = [] := by
  unfold isStray
  split
  next h => rw [h, List.isEmpty_iff, eq_self, true_and]
  next h =>
    constructor
    · rintro ⟨⟩
    · rintro ⟨hform, -⟩
      exact absurd hform h

/-! ## Trees without semicolons that stand alone -/

namespace Form

variable {α : Type}

/-- The form with only those members of its list that the condition holds of. -/
def filterMembers (p : α → Bool) : Form α → Form α
  | .program body hashbang => .program (body.filter p) hashbang
  | .blockStatement body => .blockStatement (body.filter p)
  | .classBody body => .classBody (body.filter p)
  | .switchCase test body => .switchCase test (body.filter p)
  | form => form

theorem filterMembers_eq_self {p : α → Bool} {form : Form α}
    (h : ∀ body, form.members? = some body → ∀ a ∈ body, p a) : form.filterMembers p = form := by
  cases form with
  | program body | blockStatement body | classBody body | switchCase _ body =>
    rw [filterMembers, List.filter_eq_self.2 (h body rfl)]
  | _ => rfl

theorem members?_map {β : Type} (f : α → β) (form : Form α) :
    (form.map f).members? = form.members?.map (List.map f) := by
  cases form <;> rfl

theorem of_members?_filterMembers {p : α → Bool} {form : Form α} {body : List α}
    (h : (form.filterMembers p).members? = some body) : ∀ a ∈ body, p a := by
  intro a ha
  cases form with
  | program | blockStatement | classBody | switchCase =>
    obtain rfl := Option.some.inj h
    exact List.of_mem_filter ha
  | _ => cases h

theorem children_filterMembers_subset (p : α → Bool) (form : Form α) :
    (form.filterMembers p).children ⊆ form.children := by
  cases form with
  | program body | blockStatement body | classBody body => exact List.filter_subset_self _
  | switchCase test body =>
    exact List.append_subset.2
      ⟨List.subset_append_left .., List.Subset.trans (List.filter_subset_self _) (List.subset_append_right ..)⟩
  | _ => exact List.Subset.refl _

/-- Members that add nothing can be left out. -/
theorem flatMap_filterMembers {β : Type} {p : α → Bool} {g : α → List β} {form : Form α}
    (h : ∀ a ∈ form.children, p a = false → g a = []) :
    (form.filterMembers p).children.flatMap g = form.children.flatMap g := by
  have hlist (as : List α) (has : ∀ a ∈ as, p a = false → g a = []) : (as.filter p).flatMap g = as.flatMap g := by
    induction as with
    | nil => rfl
    | cons a as ih =>
      obtain ⟨ha, has⟩ := List.forall_mem_cons.1 has
      rw [List.flatMap_cons, ← ih has]
      cases hp : p a with
      | true => rw [List.filter_cons_of_pos hp, List.flatMap_cons]
      | false => rw [List.filter_cons_of_neg (by simp [hp]), ha hp, List.nil_append]
  cases form with
  | program body | blockStatement body | classBody body => exact hlist body h
  | switchCase test body =>
    rw [filterMembers, children, children, List.flatMap_append, List.flatMap_append]
    rw [hlist body fun a ha => h a (List.mem_append_right _ ha)]
  | _ => rfl

theorem switchMembers_filterMembers (p : α → Bool) (form : Form α) :
    (form.filterMembers p).switchMembers = form.switchMembers := by
  cases form <;> rfl

end Form

namespace Node

/-- The tree without the semicolons that stand alone in its lists. -/
def withoutStrays : Node → Node := everywhere fun n => n.withForm (n.form.filterMembers fun m => !m.isStray)

/-- No semicolon stands alone in the list of the node. -/
def HoldsNoStrays (n : Node) : Prop := ∀ body, n.form.members? = some body → ∀ m ∈ body, m.isStray = false

instance (n : Node) : Decidable n.HoldsNoStrays :=
  inferInstanceAs (Decidable (∀ body ∈ n.form.members?, ∀ m ∈ body, m.isStray = false))

/-- No semicolon stands alone in a list of the tree. -/
def HasNoStrays (root : Node) : Prop := ∀ n ∈ root.preorder, n.HoldsNoStrays

instance (root : Node) : Decidable root.HasNoStrays :=
  inferInstanceAs (Decidable (∀ n ∈ root.preorder, n.HoldsNoStrays))

theorem withoutStrays_mk (info : Info) (form : Form Node) : (Node.mk info form).withoutStrays =
    .mk info ((form.map withoutStrays).filterMembers fun m => !m.isStray) := by
  unfold withoutStrays everywhere
  rw [para_mk, Form.map_map]
  rfl

theorem withoutStrays_eq_self {root : Node} (h : root.HasNoStrays) : root.withoutStrays = root := by
  induction root using byChildren with
  | node n ih =>
    obtain ⟨info, form⟩ := n
    obtain ⟨hself, hbelow⟩ := forall_preorder_iff.1 h
    have hkids : form.map withoutStrays = form := Form.map_eq_self fun m hm => ih m hm (hbelow m hm)
    rw [withoutStrays_mk, hkids]
    refine congrArg (mk info) (Form.filterMembers_eq_self fun body hbody m hm => ?_)
    rw [hself body hbody m hm]
    rfl

/-- Every node that is left is what is left of a node. -/
theorem exists_of_mem_withoutStrays {root n : Node} (h : n ∈ root.withoutStrays.preorder) :
    ∃ m ∈ root.preorder, n = m.withoutStrays := by
  induction root using byChildren with
  | node root ih =>
    obtain ⟨info, form⟩ := root
    rw [preorder_eq, List.mem_cons, List.mem_flatMap] at h
    rcases h with rfl | ⟨c, hc, hn⟩
    · exact ⟨_, mem_preorder_self _, rfl⟩
    · rw [withoutStrays_mk] at hc
      have hc := Form.children_filterMembers_subset _ _ hc
      rw [Form.children_map] at hc
      obtain ⟨d, hd, rfl⟩ := List.mem_map.1 hc
      obtain ⟨m, hm, rfl⟩ := ih d hd hn
      exact ⟨m, mem_preorder_trans (mem_preorder_of_mem_children hd) hm, rfl⟩

theorem form_withoutStrays (n : Node) :
    n.withoutStrays.form = (n.form.map withoutStrays).filterMembers fun m => !m.isStray := by
  obtain ⟨info, form⟩ := n
  rw [withoutStrays_mk]
  rfl

theorem hasNoStrays_withoutStrays (root : Node) : root.withoutStrays.HasNoStrays := by
  intro n hn body hbody m hm
  obtain ⟨k, -, rfl⟩ := exists_of_mem_withoutStrays hn
  rw [form_withoutStrays] at hbody
  simpa using Form.of_members?_filterMembers hbody m hm

theorem HasCases.withoutStrays {root : Node} (h : root.HasCases) : root.withoutStrays.HasCases := by
  intro n hn m hm
  obtain ⟨k, hk, rfl⟩ := exists_of_mem_withoutStrays hn
  rw [form_withoutStrays, Form.switchMembers_filterMembers, Form.switchMembers_map] at hm
  obtain ⟨c, hc, rfl⟩ := List.mem_map.1 hm
  have hcase := h k hk c hc
  obtain ⟨info, form⟩ := c
  rw [withoutStrays_mk]
  cases form <;> first | rfl | cases hcase

theorem HasNumbers.withoutStrays {root : Node} (h : root.HasNumbers) : root.withoutStrays.HasNumbers := by
  intro n hn
  obtain ⟨k, hk, rfl⟩ := exists_of_mem_withoutStrays hn
  have hnumber := h k hk
  obtain ⟨info, form⟩ := k
  rw [withoutStrays_mk]
  cases form with
  | literal value raw => exact hnumber
  | _ => rfl

theorem isStray_withoutStrays (n : Node) : n.withoutStrays.isStray = n.isStray := by
  obtain ⟨info, form⟩ := n
  rw [withoutStrays_mk]
  cases form <;> rfl

theorem heldComments_withoutStrays (n : Node) : n.withoutStrays.heldComments = n.heldComments := by
  obtain ⟨info, form⟩ := n
  rw [withoutStrays_mk]
  rfl

theorem allComments_of_isStray {n : Node} (hstray : n.isStray) (h : n.trailing ≠ [] → n.form.isContainer) :
    n.allComments = [] := by
  obtain ⟨hform, hcomments⟩ := isStray_iff.1 hstray
  have htrailing : n.trailing = [] := by
    by_contra hne
    have hcontainer := h hne
    rw [hform] at hcontainer
    cases hcontainer
  rw [allComments_eq, heldComments, hcomments, htrailing, children, hform]
  rfl

/-- No comment is left out with the semicolons, if only containers have comments at their ends. -/
theorem allComments_withoutStrays {root : Node} (h : ∀ n ∈ root.preorder, n.trailing ≠ [] → n.form.isContainer) :
    root.withoutStrays.allComments = root.allComments := by
  induction root using byChildren with
  | node n ih =>
    obtain ⟨-, hbelow⟩ := forall_preorder_iff.1 h
    have hchild (m : Node) (hm : m ∈ n.children) : m.withoutStrays.allComments = m.allComments := ih m hm (hbelow m hm)
    have hkids : n.withoutStrays.children.flatMap allComments = n.children.flatMap allComments := by
      rw [children, form_withoutStrays, Form.flatMap_filterMembers, Form.children_map, List.flatMap_map]
      · exact List.flatMap_congr hchild
      · intro m hm hstray
        rw [Form.children_map] at hm
        obtain ⟨k, hk, rfl⟩ := List.mem_map.1 hm
        rw [isStray_withoutStrays, Bool.not_eq_false'] at hstray
        rw [hchild k hk]
        exact allComments_of_isStray hstray (hbelow k hk k (mem_preorder_self k))
    rw [allComments_eq, allComments_eq n, heldComments_withoutStrays, hkids]

/-! ## Parts without semicolons that stand alone -/

/-- No semicolon stands alone in the list of the form, nor in a list below. -/
structure Clear (form : Form Node) : Prop where
  members : ∀ body, form.members? = some body → ∀ m ∈ body, m.isStray = false
  children : ∀ c ∈ form.children, c.HasNoStrays

/-- The nodes can be the members of a list. -/
def AllClear (ns : List Node) : Prop := ∀ n ∈ ns, n.isStray = false ∧ n.HasNoStrays

theorem hasNoStrays_iff {n : Node} : n.HasNoStrays ↔ Clear n.form :=
  forall_preorder_iff.trans ⟨fun ⟨hself, hbelow⟩ => ⟨hself, hbelow⟩, fun ⟨hself, hbelow⟩ => ⟨hself, hbelow⟩⟩

theorem hasNoStrays_plain {span : Span} {form : Form Node} : (plain span form).HasNoStrays ↔ Clear form :=
  hasNoStrays_iff

theorem isStray_eq_false {n : Node} (h : n.form ≠ .emptyStatement) : n.isStray = false := by
  rw [← Bool.not_eq_true, isStray_iff]
  exact fun hstray => h hstray.1

variable {n : Node} {ns : List Node}

theorem Clear.of_members {form : Form Node} (hmembers : form.members? = some ns) (hns : AllClear ns)
    (hothers : ∀ c ∈ form.children, c ∈ ns ∨ c.HasNoStrays) : Clear form where
  members body hbody m hm := by
    rw [hmembers] at hbody
    cases hbody
    exact (hns m hm).1
  children c hc := (hothers c hc).elim (fun hmem => (hns c hmem).2) id

theorem Clear.of_children {form : Form Node} (hmembers : form.members? = none)
    (hchildren : ∀ c ∈ form.children, c.HasNoStrays) : Clear form where
  members body hbody := by
    rw [hmembers] at hbody
    cases hbody
  children := hchildren

theorem clear_blockStatement : Clear (.blockStatement ns) ↔ AllClear ns :=
  ⟨fun h m hm => ⟨h.members ns rfl m hm, h.children m hm⟩, fun h => .of_members rfl h fun _ => .inl⟩

theorem clear_of_children_nil {form : Form Node} (hmembers : form.members? = none) (hchildren : form.children = []) :
    Clear form :=
  .of_children hmembers (by simp [hchildren])

/-! ### Bodies -/

theorem HasNoStrays.braced (h : n.HasNoStrays) : n.braced.HasNoStrays := by
  unfold Node.braced
  split
  case h_1 => exact h
  case h_2 => exact hasNoStrays_plain.2 (clear_blockStatement.2 fun _ hm => nomatch hm)
  case h_3 hempty =>
    refine hasNoStrays_plain.2 (clear_blockStatement.2 fun m hm => ?_)
    obtain rfl := List.mem_singleton.1 hm
    exact ⟨isStray_eq_false hempty, h⟩

theorem HasNoStrays.bracedElse (h : n.HasNoStrays) : n.bracedElse.HasNoStrays := by
  unfold Node.bracedElse
  split
  · exact h
  · exact h.braced

theorem HasNoStrays.unbraced (h : n.HasNoStrays) (beforeElse : Bool) : (n.unbraced beforeElse).HasNoStrays := by
  rcases unbraced_cases beforeElse n with hsame | ⟨-, ⟨-, hempty⟩ | ⟨inner, hform, -, hinner⟩⟩
  · rwa [hsame]
  · rw [hempty]
    exact hasNoStrays_plain.2 (clear_of_children_nil rfl rfl)
  · rw [hinner]
    exact (clear_blockStatement.1 (hform ▸ hasNoStrays_iff.1 h) inner (List.mem_singleton_self _)).2

/-! ### Cases -/

theorem HasNoStrays.consequent (h : n.HasNoStrays) : AllClear n.consequent := by
  obtain ⟨info, form⟩ := n
  have hclear : Clear form := hasNoStrays_iff.1 h
  cases form with
  | switchCase test consequent =>
    exact fun m hm => ⟨hclear.members _ rfl m hm, hclear.children m (List.mem_append_right _ hm)⟩
  | _ => exact fun m hm => nomatch hm

theorem HasNoStrays.withConsequent (h : n.HasNoStrays) (hns : AllClear ns) : (n.withConsequent ns).HasNoStrays := by
  obtain ⟨info, form⟩ := n
  have hclear : Clear form := hasNoStrays_iff.1 h
  cases form with
  | switchCase test consequent =>
    refine hasNoStrays_iff.2 (.of_members rfl hns fun c hc => ?_)
    exact (List.mem_append.1 hc).symm.imp_right fun hc => hclear.children c (List.mem_append_left _ hc)
  | _ => exact h

theorem HasNoStrays.terminated (h : n.HasNoStrays) : n.terminated.HasNoStrays := by
  unfold Node.terminated
  split
  · exact h
  · refine h.withConsequent fun m hm => ?_
    rcases List.mem_append.1 hm with hm | hm
    · exact h.consequent m hm
    · obtain rfl := List.mem_singleton.1 hm
      exact ⟨rfl, hasNoStrays_plain.2 (clear_of_children_nil rfl rfl)⟩

theorem hasNoStrays_sortedCases (h : ∀ n ∈ ns, n.HasNoStrays) : ∀ n ∈ sortedCases ns, n.HasNoStrays := by
  intro n hn
  obtain ⟨m, hm, statements, hstatements, rfl⟩ := exists_of_mem_sortedCases hn
  refine (h m hm).withConsequent ?_
  rcases hstatements with rfl | ⟨k, hk, rfl⟩
  · exact fun _ h => nomatch h
  · exact (h k hk).consequent

/-! ### Members -/

theorem HasNoStrays.withComments (h : n.HasNoStrays) (comments : List Comment) :
    (n.withComments comments).HasNoStrays :=
  have hclear : Clear n.form := hasNoStrays_iff.1 h
  hasNoStrays_iff.2 hclear

/-- A member of a list whose runs are sorted is one of the list, with other comments if it is in a run. -/
theorem exists_of_mem_sortRuns {isMember : Node → Bool} {key : Node → SortKey} (h : n ∈ sortRuns isMember key ns) :
    n ∈ ns ∨ ∃ m ∈ ns, isMember m ∧ ∃ comments, n = m.withComments comments := by
  fun_induction sortRuns isMember key ns with
  | case1 => cases h
  | case2 first rest hfirst ih =>
    rcases List.mem_append.1 h with h | h
    · obtain ⟨m, hm, comments, rfl⟩ := exists_of_mem_sortRun h
      have hmem : m ∈ first :: rest := by
        rcases List.mem_cons.1 hm with rfl | hm
        · exact List.mem_cons_self ..
        · exact List.mem_cons_of_mem _ ((List.takeWhile_sublist _).subset hm)
      exact .inr ⟨m, hmem, isMember_of_mem_run hfirst hm, comments, rfl⟩
    · have hrest {m : Node} (hm : m ∈ rest.dropWhile (continuesRun isMember)) : m ∈ first :: rest :=
        List.mem_cons_of_mem _ ((List.dropWhile_sublist _).subset hm)
      refine (ih h).imp hrest ?_
      rintro ⟨m, hm, h⟩
      exact ⟨m, hrest hm, h⟩
  | case3 first rest hfirst ih =>
    rcases List.mem_cons.1 h with rfl | h
    · exact .inl (List.mem_cons_self ..)
    · refine (ih h).imp (List.mem_cons_of_mem _) ?_
      rintro ⟨m, hm, h⟩
      exact ⟨m, List.mem_cons_of_mem _ hm, h⟩

theorem AllClear.sortRuns {isMember : Node → Bool} {key : Node → SortKey}
    (hmember : ∀ n, isMember n → n.form ≠ .emptyStatement) (h : AllClear ns) :
    AllClear (Node.sortRuns isMember key ns) := by
  intro n hn
  rcases exists_of_mem_sortRuns hn with hn | ⟨m, hm, hrun, comments, rfl⟩
  · exact h n hn
  · exact ⟨isStray_eq_false (hmember m hrun), (h m hm).2.withComments comments⟩

theorem AllClear.flatMap_splitDeclaration (h : AllClear ns) : AllClear (ns.flatMap splitDeclaration) := by
  intro m hm
  obtain ⟨n, hn, hm⟩ := List.mem_flatMap.1 hm
  obtain ⟨hstray, hclear⟩ := h n hn
  rcases mem_splitDeclaration hm with ⟨-, rfl⟩ | ⟨kind, bindings, hform, binding, hb, info, -, rfl⟩
  · exact ⟨hstray, hclear⟩
  · rw [hasNoStrays_iff, hform] at hclear
    refine ⟨rfl, hasNoStrays_iff.2 (.of_children rfl fun c hc => ?_)⟩
    obtain rfl := List.mem_singleton.1 hc
    exact hclear.children c hb

end Node

/-! ## Rules make none -/

namespace Restyling

open Node

variable {r : Restyling} {form : Form Node} {root : Node}

/-- The change leaves parts without semicolons that stand alone as parts without them. -/
structure LeavesClear (r : Restyling) : Prop where
  consequent : ∀ beforeElse n, n.HasNoStrays → (r.consequent beforeElse n).HasNoStrays := by intro _ _ h; exact h
  alternate : ∀ n, n.HasNoStrays → (r.alternate n).HasNoStrays := by intro _ h; exact h
  loopBody : ∀ n, n.HasNoStrays → (r.loopBody n).HasNoStrays := by intro _ h; exact h
  statements : ∀ ns, AllClear ns → AllClear (r.statements ns) := by intro _ h; exact h
  caseStatements : ∀ ns, AllClear ns → AllClear (r.caseStatements ns) := by intro _ h; exact h
  members : ∀ ns, AllClear ns → AllClear (r.members ns) := by intro _ h; exact h
  cases : ∀ ns, (∀ n ∈ ns, n.HasNoStrays) → ∀ n ∈ r.cases ns, n.HasNoStrays := by intro _ h; exact h
  properties : ∀ ns, (∀ n ∈ ns, n.HasNoStrays) → ∀ n ∈ r.properties ns, n.HasNoStrays := by intro _ h; exact h

theorem LeavesClear.clear_form (hr : r.LeavesClear) (h : Clear form) : Clear (r.form form) := by
  obtain ⟨hmembers, hchildren⟩ := h
  cases form with
  | program body hashbang =>
    have hbody : AllClear (r.statements body) := hr.statements body fun m hm => ⟨hmembers body rfl m hm, hchildren m hm⟩
    exact .of_members rfl hbody fun _ => .inl
  | blockStatement body =>
    exact clear_blockStatement.2 (hr.statements body fun m hm => ⟨hmembers body rfl m hm, hchildren m hm⟩)
  | classBody body =>
    have hbody : AllClear (r.members body) := hr.members body fun m hm => ⟨hmembers body rfl m hm, hchildren m hm⟩
    exact .of_members rfl hbody fun _ => .inl
  | switchCase test body =>
    have hbody : AllClear (r.caseStatements body) := hr.caseStatements body fun m hm =>
      ⟨hmembers body rfl m hm, hchildren m (List.mem_append_right _ hm)⟩
    refine .of_members rfl hbody fun c hc => ?_
    exact (List.mem_append.1 hc).symm.imp_right fun hc => hchildren c (List.mem_append_left _ hc)
  | objectExpression properties => exact .of_children rfl (hr.properties properties hchildren)
  | switchStatement discriminant cases =>
    refine .of_children rfl fun c hc => ?_
    rcases List.mem_cons.1 hc with rfl | hc
    · exact hchildren c (List.mem_cons_self ..)
    · exact hr.cases cases (fun n hn => hchildren n (List.mem_cons_of_mem _ hn)) c hc
  | ifStatement test consequent alternate =>
    have hconsequent := hr.consequent alternate.isSome consequent
    have halternate := hr.alternate
    refine .of_children rfl ?_
    cases alternate <;> simp_all [Restyling.form, Form.children]
  | forStatement init test update body =>
    refine .of_children rfl fun c hc => ?_
    rcases List.mem_append.1 hc with hc | hc
    · exact hchildren c (List.mem_append_left _ hc)
    · obtain rfl := List.mem_singleton.1 hc
      exact hr.loopBody body (hchildren body (List.mem_append_right _ (List.mem_singleton_self _)))
  | whileStatement test body | doWhileStatement body test | forInStatement left right body
  | forOfStatement left right body isAwait =>
    have hbody := hr.loopBody body
    refine .of_children rfl ?_
    simp_all [Restyling.form, Form.children]
  | binaryExpression operator left right => exact .of_children rfl hchildren
  | _ => exact ⟨hmembers, hchildren⟩

theorem isStray_run (r : Restyling) (n : Node) : (r.run n).isStray = n.isStray := by
  unfold isStray
  rw [run_form, run_comments, List.isEmpty_map]
  cases n.form <;> rfl

theorem LeavesClear.run (hr : r.LeavesClear) (h : root.HasNoStrays) : (r.run root).HasNoStrays := by
  induction root using byChildren with
  | node n ih =>
    obtain ⟨hmembers, hchildren⟩ := hasNoStrays_iff.1 h
    rw [hasNoStrays_iff, run_form]
    refine hr.clear_form ⟨fun body hbody m hm => ?_, fun c hc => ?_⟩
    · rw [Form.members?_map] at hbody
      obtain ⟨ns, hns, rfl⟩ := Option.map_eq_some_iff.1 hbody
      obtain ⟨k, hk, rfl⟩ := List.mem_map.1 hm
      rw [isStray_run]
      exact hmembers ns hns k hk
    · rw [Form.children_map] at hc
      obtain ⟨k, hk, rfl⟩ := List.mem_map.1 hc
      exact ih k hk (hchildren k hk)

end Restyling

namespace Rule

open Node

variable {root : Node}

theorem leavesClear (rule : Rule) : rule.restyling.LeavesClear := by
  cases rule
  case exactEquals => exact {}
  case insertBraces =>
    exact {
      consequent := fun _ _ => HasNoStrays.braced
      alternate := fun _ => HasNoStrays.bracedElse
      loopBody := fun _ => HasNoStrays.braced }
  case stripBraces =>
    exact {
      consequent := fun beforeElse _ h => h.unbraced beforeElse
      alternate := fun _ h => h.unbraced false
      loopBody := fun _ h => h.unbraced false }
  case trailingBreak =>
    refine { cases := fun ns h n hn => ?_ }
    rcases exists_of_mem_mapLast hn with hn | ⟨m, hm, rfl⟩
    · exact h n hn
    · exact (h m hm).terminated
  case capComments => exact {}
  case separateVars =>
    exact {
      statements := fun _ => AllClear.flatMap_splitDeclaration
      caseStatements := fun _ => AllClear.flatMap_splitDeclaration }
  case sortCases => exact { cases := fun _ => hasNoStrays_sortedCases }
  case sortFunctions =>
    have hfunction (n : Node) (h : n.isFunctionDeclaration) : n.form ≠ .emptyStatement := by
      intro hempty
      rw [isFunctionDeclaration, hempty] at h
      exact nomatch h
    have hmethod (n : Node) (h : n.isMethod) : n.form ≠ .emptyStatement := by
      intro hempty
      rw [isMethod, hempty] at h
      exact nomatch h
    exact { statements := fun _ h => h.sortRuns hfunction, members := fun _ h => h.sortRuns hmethod }
  case sortProperties =>
    exact { properties := fun ns h n hn => h n ((SortKey.sortBy_perm _ ns).mem_iff.1 hn) }

/-- Rules leave no semicolon standing alone in a list of a tree that has none. -/
theorem hasNoStrays_runAll (rules : List Rule) (h : root.HasNoStrays) : (runAll rules root).HasNoStrays := by
  induction rules generalizing root with
  | nil => exact h
  | cons rule rules ih => exact ih (rule.leavesClear.run h)

end Rule

end ScriptTidy
