/-
Applying the plan to its own result. A rule that is applied twice in a row changes nothing the
second time, as long as keys can be compared: strict comparisons stay strict, blocks stay blocks,
sorted lists stay sorted. Another rule in between can be moved out of the way, with two exceptions,
which are looked at by themselves: in split blocks nothing is left to be braced, and the last of
sorted cases is as terminated as the last case was before. Taking braces off is no such rule, since
what it uncovers may be uncovered further.
-/
import ScriptTidy.Proofs.Style.Plan

namespace ScriptTidy

namespace Node

/-! ## Keys -/

theorem isPlaced_sortKey {n : Node} (h : n.isNaN = false) : n.sortKey.isPlaced := by
  obtain ⟨info, form⟩ := n
  cases form with
  | literal value raw =>
    cases value with
    | number x =>
      change x.place?.isNone = false at h
      change x.place?.isSome
      rw [← Option.not_isNone, h]
      rfl
    | _ => rfl
  | _ => rfl

/-- The keys by which a node may be sorted can be compared. -/
structure HasPlacedKeys (n : Node) : Prop where
  case : n.caseKey.isPlaced
  function : n.functionKey.isPlaced
  method : n.methodKey.isPlaced
  property : n.propertyKeyOrMissing.isPlaced

theorem isPlaced_of_propertyKey {n : Node} (h : ∀ m ∈ n.children, m.isNaN = false) {k : SortKey}
    (hkey : n.propertyKey = .ok k) : k.isPlaced := by
  obtain ⟨info, form⟩ := n
  cases form with
  | property key value kind isMethod isShorthand isComputed =>
    have hsort : key.sortKey.isPlaced := isPlaced_sortKey (h key (List.mem_cons_self ..))
    cases isComputed with
    | true => cases hkey; rfl
    | false =>
      unfold propertyKey at hkey
      simp only [Node.form] at hkey
      split at hkey
      · split at hkey
        · obtain ⟨number?, hnumber, hkey⟩ := exists_of_bind_ok hkey
          cases number? with
          | none => cases hkey; exact hsort
          | some number => cases hkey; exact place?_of_canonicalNumber hnumber
        · cases hkey; exact hsort
      · cases hkey; exact hsort
  | _ => cases hkey; rfl

theorem isPlaced_propertyKeyOrMissing {n : Node} (h : ∀ m ∈ n.children, m.isNaN = false) :
    n.propertyKeyOrMissing.isPlaced := by
  unfold propertyKeyOrMissing
  cases hkey : n.propertyKey with
  | error fault => rfl
  | ok k => exact isPlaced_of_propertyKey h hkey

theorem hasPlacedKeys {n : Node} (h : ∀ m ∈ n.children, m.isNaN = false) : n.HasPlacedKeys where
  case := by
    obtain ⟨info, form⟩ := n
    cases form with
    | switchCase test consequent =>
      cases test with
      | none => rfl
      | some test => exact isPlaced_sortKey (h test (List.mem_cons_self ..))
    | _ => rfl
  function := by
    obtain ⟨info, form⟩ := n
    cases form with
    | functionDeclaration id params body isAsync isGenerator => exact isPlaced_sortKey (h id (List.mem_cons_self ..))
    | _ => rfl
  method := by
    obtain ⟨info, form⟩ := n
    cases form with
    | methodDefinition key value kind isStatic isComputed =>
      unfold methodKey methodKey?
      simp only [Node.form]
      split
      · rfl
      · split
        · rfl
        · exact isPlaced_sortKey (h key (List.mem_cons_self ..))
    | _ => rfl
  property := isPlaced_propertyKeyOrMissing h

theorem HasNumbers.hasPlacedKeys {root n : Node} (h : root.HasNumbers) (hn : n ∈ root.preorder) :
    ∀ m ∈ n.children, m.HasPlacedKeys := fun _ hm =>
  Node.hasPlacedKeys fun c hc =>
    h c (mem_preorder_trans (mem_preorder_trans hn (mem_preorder_of_mem_children hm)) (mem_preorder_of_mem_children hc))

theorem HasPlacedKeys.run {n : Node} (h : n.HasPlacedKeys) (r : Restyling) : (r.run n).HasPlacedKeys where
  case := by rw [r.caseKey_run]; exact h.case
  function := by rw [r.functionKey_run]; exact h.function
  method := by rw [r.methodKey_run]; exact h.method
  property := by rw [r.propertyKeyOrMissing_run]; exact h.property

/-! ## A rule after itself -/

theorem braced_of_block {n : Node} {ns : List Node} (h : n.form = .blockStatement ns) : n.braced = n := by
  rw [braced, h]

theorem bracedElse_of_block {n : Node} {ns : List Node} (h : n.form = .blockStatement ns) : n.bracedElse = n := by
  rw [bracedElse, h]
  exact braced_of_block h

theorem exists_form_braced (n : Node) : ∃ ns, n.braced.form = .blockStatement ns := by
  unfold braced
  split
  case h_1 ns h => exact ⟨ns, h⟩
  case h_2 => exact ⟨_, rfl⟩
  case h_3 => exact ⟨_, rfl⟩

theorem braced_idem (n : Node) : n.braced.braced = n.braced := by
  obtain ⟨ns, h⟩ := exists_form_braced n
  exact braced_of_block h

theorem bracedElse_idem (n : Node) : n.bracedElse.bracedElse = n.bracedElse := by
  cases hn : n.form with
  | ifStatement => simp only [bracedElse, hn]
  | _ =>
    have hbraced : n.bracedElse = n.braced := by rw [bracedElse, hn]
    obtain ⟨ns, h⟩ := exists_form_braced n
    rw [hbraced, bracedElse_of_block h]

end Node

theorem Comment.capitalized_idem (c : Comment) : c.capitalized.capitalized = c.capitalized := by
  obtain ⟨kind, value, start, stop, line⟩ := c
  cases kind with
  | block => rfl
  | line =>
    simp only [capitalized, Text.capitalize, String.toList_ofList, Text.capitalizeChars_idem]

namespace Restyling

variable {r s : Restyling}

/-- The second restyling has nothing to do in the parts that the first has changed. -/
structure Absorbs (s r : Restyling) (form : Form Node) : Prop where
  operator : ∀ operator left right,
    r.operator (s.operator operator left right) left right = s.operator operator left right := by intros; rfl
  consequent : ∀ beforeElse n, r.consequent beforeElse (s.consequent beforeElse n) = s.consequent beforeElse n := by
    intros; rfl
  alternate : ∀ n, r.alternate (s.alternate n) = s.alternate n := by intros; rfl
  loopBody : ∀ n, r.loopBody (s.loopBody n) = s.loopBody n := by intros; rfl
  statements : ∀ ns ⊆ form.children, r.statements (s.statements ns) = s.statements ns := by intros; rfl
  caseStatements : ∀ ns ⊆ form.children, r.caseStatements (s.caseStatements ns) = s.caseStatements ns := by intros; rfl
  members : ∀ ns ⊆ form.children, r.members (s.members ns) = s.members ns := by intros; rfl
  cases : r.cases (s.cases form.switchMembers) = s.cases form.switchMembers := by rfl
  properties : ∀ ns ⊆ form.children, r.properties (s.properties ns) = s.properties ns := by intros; rfl

theorem Absorbs.form_eq {form : Form Node} (h : s.Absorbs r form) : r.form (s.form form) = s.form form := by
  obtain ⟨hoperator, hconsequent, halternate, hloop, hstatements, hcaseStatements, hmembers, hcases, hproperties⟩ := h
  cases form with
  | program body hashbang => simp only [Restyling.form, hstatements body (List.Subset.refl _)]
  | blockStatement body => simp only [Restyling.form, hstatements body (List.Subset.refl _)]
  | classBody body => simp only [Restyling.form, hmembers body (List.Subset.refl _)]
  | objectExpression properties => simp only [Restyling.form, hproperties properties (List.Subset.refl _)]
  | switchCase test consequent =>
    simp only [Restyling.form, hcaseStatements consequent (List.subset_append_right _ _)]
  | switchStatement discriminant cases => exact congrArg (Form.switchStatement discriminant) hcases
  | ifStatement test consequent alternate =>
    simp only [Restyling.form, hconsequent, Option.isSome_map, Option.map_map, Function.comp_def, halternate]
  | binaryExpression operator left right => simp only [Restyling.form, hoperator]
  | whileStatement | doWhileStatement | forStatement | forInStatement | forOfStatement =>
    simp only [Restyling.form, hloop]
  | _ => rfl

/-- A restyling that has nothing to do in any node of a changed tree leaves the tree alone. -/
theorem run_absorbed (h : s.Respects r) (hcomment : ∀ c, r.comment (s.comment c) = s.comment c) {n : Node}
    (habsorbs : ∀ m ∈ n.preorder, s.Absorbs r (m.form.map s.run)) : r.run (s.run n) = s.run n := by
  rw [run_run h]
  refine run_congr (funext hcomment) fun m hm => ?_
  rw [form_andThen]
  exact (habsorbs m hm).form_eq

end Restyling

namespace Rule

open Node

variable {rule : Rule} {form : Form Node} {root : Node}

/-- The parts of a node can be compared and sorted. -/
structure Comparable (form : Form Node) : Prop where
  isCase : ∀ n ∈ form.switchMembers, n.isCase
  keys : ∀ n ∈ form.children, n.HasPlacedKeys

theorem comparable_run (hcases : root.HasCases) (hnumbers : root.HasNumbers) (r : Restyling) {n : Node}
    (hn : n ∈ root.preorder) : Comparable (n.form.map r.run) where
  isCase := isCase_of_mem_run r (hcases n hn)
  keys m hm := by
    rw [Form.children_map] at hm
    obtain ⟨k, hk, rfl⟩ := List.mem_map.1 hm
    exact (hnumbers.hasPlacedKeys hn k hk).run r

theorem exactEquals_idem (operator : String) (left right : Node) :
    exactEquals.restyling.operator (exactEquals.restyling.operator operator left right) left right =
      exactEquals.restyling.operator operator left right := by
  have hstrict : ∀ strict, strictOperator? operator = some strict → strictOperator? strict = none := by
    intro strict h
    unfold strictOperator? at h
    split at h
    · cases h; decide
    · split at h
      · cases h; decide
      · cases h
  simp only [restyling]
  cases hop : strictOperator? operator with
  | none => simp only [hop]
  | some strict =>
    cases hnull : left.isNull || right.isNull with
    | true => simp only [if_true, hop]
    | false => simp only [Bool.false_eq_true, if_false, hstrict strict hop]

/-- A rule has nothing to do in what it has changed. -/
theorem absorbs_self (hstrip : rule ≠ .stripBraces) (h : Comparable form) :
    rule.restyling.Absorbs rule.restyling form := by
  cases rule
  case stripBraces => exact absurd rfl hstrip
  case capComments => exact {}
  case exactEquals => exact { operator := exactEquals_idem }
  case insertBraces =>
    exact { consequent := fun _ => braced_idem, alternate := bracedElse_idem, loopBody := braced_idem }
  case trailingBreak => exact { cases := mapLast_terminated_idem h.isCase }
  case separateVars =>
    exact {
      statements := fun ns _ => flatMap_splitDeclaration_idem ns
      caseStatements := fun ns _ => flatMap_splitDeclaration_idem ns }
  case sortCases =>
    exact { cases := sortedCases_idem fun n hn =>
      ⟨h.isCase n hn, (h.keys n (Form.mem_children_of_mem_switchMembers hn)).case⟩ }
  case sortFunctions =>
    exact {
      statements := fun ns hns => sortRuns_idem sortsByForm_function ns fun n hn _ => (h.keys n (hns hn)).function
      members := fun ns hns => sortRuns_idem sortsByForm_method ns fun n hn _ => (h.keys n (hns hn)).method }
  case sortProperties =>
    exact { properties := fun ns hns =>
      SortKey.sortBy_eq_self (SortKey.inOrder_sortBy fun n hn => (h.keys n (hns hn)).property) }

theorem comment_idem (rule : Rule) (c : Comment) :
    rule.restyling.comment (rule.restyling.comment c) = rule.restyling.comment c := by
  cases rule
  case capComments => exact c.capitalized_idem
  all_goals rfl

/-- A rule that is applied twice in a row changes nothing the second time. -/
theorem run_idem (hstrip : rule ≠ .stripBraces) (hcases : root.HasCases) (hnumbers : root.HasNumbers) :
    rule.restyling.run (rule.restyling.run root) = rule.restyling.run root := by
  have hrespects : rule.restyling.Respects rule.restyling := by
    by_cases hinsert : rule = .insertBraces
    · subst hinsert
      exact insertBraces_respects (by decide)
    · exact respects hinsert hstrip rule
  exact Restyling.run_absorbed hrespects rule.comment_idem fun n hn =>
    absorbs_self hstrip (comparable_run hcases hnumbers _ hn)

/-! ## Terminating cases around sorting them -/

theorem run_trailingBreak_sortCases (hcases : root.HasCases) (hnumbers : root.HasNumbers) :
    trailingBreak.restyling.run (sortCases.restyling.run (trailingBreak.restyling.run root)) =
      sortCases.restyling.run (trailingBreak.restyling.run root) := by
  have hbreak (other : Rule) : trailingBreak.restyling.Respects other.restyling :=
    respects (by decide) (by decide) other
  have hsort (other : Rule) : sortCases.restyling.Respects other.restyling := respects (by decide) (by decide) other
  rw [Restyling.run_run (hbreak .sortCases)]
  refine Restyling.run_absorbed ((hbreak _).andThen (hsort _)) (fun _ => rfl) fun n hn => { cases := ?_ }
  have h := comparable_run hcases hnumbers (trailingBreak.restyling.andThen sortCases.restyling) hn
  have hsortable : Sortable (n.form.map (trailingBreak.restyling.andThen sortCases.restyling).run).switchMembers :=
    fun m hm => ⟨h.isCase m hm, (h.keys m (Form.mem_children_of_mem_switchMembers hm)).case⟩
  exact mapLast_eq_self fun m hm => terminated_eq_self
    (isTerminated_of_sortedCases hsortable.mapLast_terminated (isTerminated_of_mapLast h.isCase) m hm)

/-! ## Bracing around splitting declarations -/

end Rule

namespace Node

/-- A body as a block in which declarations are split. -/
def bracedSplit (body : Node) : Node :=
  match body.form with
  | .blockStatement _ => body
  | .emptyStatement => plain body.span (.blockStatement [])
  | _ => plain body.span (.blockStatement body.splitDeclaration)

/-- An else branch as a block in which declarations are split, unless it is an if statement. -/
def bracedSplitElse (body : Node) : Node :=
  match body.form with
  | .ifStatement .. => body
  | _ => body.bracedSplit

/-- Bodies are braced and declarations split. -/
def bracesAndSplits : Restyling where
  consequent _ := bracedSplit
  alternate := bracedSplitElse
  loopBody := bracedSplit
  statements := List.flatMap splitDeclaration
  caseStatements := List.flatMap splitDeclaration

theorem exists_form_bracedSplit (n : Node) : ∃ ns, n.bracedSplit.form = .blockStatement ns := by
  unfold bracedSplit
  split
  case h_1 ns h => exact ⟨ns, h⟩
  case h_2 => exact ⟨_, rfl⟩
  case h_3 => exact ⟨_, rfl⟩

theorem braced_bracedSplit (n : Node) : n.bracedSplit.braced = n.bracedSplit := by
  obtain ⟨ns, h⟩ := exists_form_bracedSplit n
  exact braced_of_block h

theorem bracedElse_bracedSplitElse (n : Node) : n.bracedSplitElse.bracedElse = n.bracedSplitElse := by
  cases hn : n.form with
  | ifStatement => simp only [bracedSplitElse, bracedElse, hn]
  | _ =>
    have hsplit : n.bracedSplitElse = n.bracedSplit := by rw [bracedSplitElse, hn]
    obtain ⟨ns, h⟩ := exists_form_bracedSplit n
    rw [hsplit, bracedElse_of_block h]

end Node

namespace Rule

open Node

/-- Declarations are split in a body that has been braced. -/
theorem run_separateVars_braced (n : Node) :
    separateVars.restyling.run n.braced = (separateVars.restyling.run n).bracedSplit := by
  unfold braced bracedSplit
  rw [Restyling.run_form, Restyling.run_span]
  cases n.form with
  | blockStatement => rfl
  | emptyStatement => exact Restyling.run_plain _ _ _
  | _ =>
    refine (Restyling.run_plain _ _ _).trans (congrArg (fun ns => plain n.span (.blockStatement ns)) ?_)
    exact List.flatMap_singleton ..

theorem run_separateVars_bracedElse (n : Node) :
    separateVars.restyling.run n.bracedElse = (separateVars.restyling.run n).bracedSplitElse := by
  have hbraced := run_separateVars_braced n
  unfold bracedElse bracedSplitElse
  rw [Restyling.run_form]
  cases hform : n.form <;> first | rfl | exact hbraced

theorem run_separateVars_insertBraces (root : Node) :
    separateVars.restyling.run (insertBraces.restyling.run root) = bracesAndSplits.run root := by
  refine Restyling.run_fuse (fun _ => rfl) (fun form => ?_) root
  cases form with
  | ifStatement test consequent alternate =>
    cases alternate with
    | none => exact congrArg (Form.ifStatement _ · none) (run_separateVars_braced consequent)
    | some alternate =>
      exact congrArg₂ (Form.ifStatement _ · <| some ·) (run_separateVars_braced consequent)
        (run_separateVars_bracedElse alternate)
  | whileStatement test body => exact congrArg (Form.whileStatement _) (run_separateVars_braced body)
  | doWhileStatement body test => exact congrArg (Form.doWhileStatement · _) (run_separateVars_braced body)
  | forStatement init test update body => exact congrArg (Form.forStatement _ _ _) (run_separateVars_braced body)
  | forInStatement left right body => exact congrArg (Form.forInStatement _ _) (run_separateVars_braced body)
  | forOfStatement left right body isAwait =>
    exact congrArg (Form.forOfStatement _ _ · isAwait) (run_separateVars_braced body)
  | _ => rfl

/-- Splitting declarations makes them single whether it is done before or after bracing inside. -/
theorem bracedSplit_run (n : Node) :
    (insertBraces.restyling.run n).bracedSplit = insertBraces.restyling.run n.bracedSplit := by
  unfold bracedSplit
  rw [Restyling.run_form, Restyling.run_span]
  cases n.form with
  | blockStatement => rfl
  | emptyStatement => exact (Restyling.run_plain insertBraces.restyling n.span (.blockStatement [])).symm
  | _ =>
    refine Eq.trans ?_ (Restyling.run_plain _ _ _).symm
    exact congrArg (fun ns => plain n.span (.blockStatement ns)) (Restyling.splitDeclaration_run _ n)

theorem bracesAndSplits_respects : bracesAndSplits.Respects insertBraces.restyling where
  consequent _ := bracedSplit_run
  alternate n := by
    have hsplit := bracedSplit_run n
    change (insertBraces.restyling.run n).bracedSplitElse = insertBraces.restyling.run n.bracedSplitElse
    unfold bracedSplitElse
    rw [Restyling.run_form]
    cases n.form <;> first | rfl | exact hsplit
  loopBody := bracedSplit_run
  statements := Restyling.flatMap_splitDeclaration_run _
  caseStatements := Restyling.flatMap_splitDeclaration_run _

/-- No body is left to be braced in a tree whose bodies are braced and whose declarations are split. -/
theorem run_insertBraces_separateVars :
    insertBraces.restyling.run (separateVars.restyling.run (insertBraces.restyling.run root)) =
      separateVars.restyling.run (insertBraces.restyling.run root) := by
  rw [run_separateVars_insertBraces]
  exact Restyling.run_absorbed bracesAndSplits_respects (fun _ => rfl) fun _ _ => {
    consequent := fun _ => braced_bracedSplit
    alternate := bracedElse_bracedSplitElse
    loopBody := braced_bracedSplit }

/-! ## The plan after itself -/

/-- Rules of the plan that may come last are applied last. -/
theorem runAll_plan_eq {options : Options} (last : List Rule) (hlast : Ordered last) (hdistinct : last.Nodup)
    (hplan : ∀ rule ∈ last, rule ∈ options.plan)
    (hbefore : ∀ rule ∈ options.plan, rule ∉ last → ∀ other ∈ last, rule.mayPrecede other) (root : Node) :
    runAll options.plan root = runAll last (runAll (options.plan.filter (· ∉ last)) root) := by
  have hrest := (nodup_plan options).filter (· ∉ last)
  have happend : (options.plan.filter (· ∉ last) ++ last).Nodup := by
    refine hrest.append hdistinct fun rule hrule hmem => ?_
    simpa [hmem] using (List.mem_filter.1 hrule).2
  have hperm : options.plan.Perm (options.plan.filter (· ∉ last) ++ last) := by
    refine (List.perm_ext_iff_of_nodup (nodup_plan options) happend).2 fun rule => ?_
    simp only [List.mem_append, List.mem_filter, decide_eq_true_eq]
    have := hplan rule
    tauto
  have hordered : Ordered (options.plan.filter (· ∉ last) ++ last) := by
    refine List.pairwise_append.2 ⟨(ordered_plan options).filter _, hlast, fun rule hrule other hother => ?_⟩
    obtain ⟨hrule, hnot⟩ := List.mem_filter.1 hrule
    exact hbefore rule hrule (of_decide_eq_true hnot) other hother
  rw [runAll_perm hperm (ordered_plan options) hordered, runAll_append]

/-- A rule that has been applied in the plan has nothing left to do in the end, unless it takes braces off. -/
theorem run_runAll_plan {options : Options} (hstrip : rule ≠ .stripBraces) (hcases : root.HasCases)
    (hnumbers : root.HasNumbers) (hrule : rule ∈ options.plan) :
    rule.restyling.run (runAll options.plan root) = runAll options.plan root := by
  -- braces are put around bodies or taken off, but not both
  have hbraces : insertBraces ∈ options.plan → stripBraces ∉ options.plan := by
    intro hinsert hstrip
    exact nomatch (beq_iff_eq.1 (mem_plan.1 hinsert)).symm.trans (beq_iff_eq.1 (mem_plan.1 hstrip))
  have hrest (last : List Rule) : (runAll (options.plan.filter (· ∉ last)) root).HasCases ∧
      (runAll (options.plan.filter (· ∉ last)) root).HasNumbers := ⟨hcases.runAll, hcases.hasNumbers_runAll hnumbers⟩
  -- the rule is moved to the end of the plan, together with the one that must come after it, if that is planned
  by_cases hsplit : rule = .insertBraces ∧ separateVars ∈ options.plan
  · obtain ⟨rfl, hsplit⟩ := hsplit
    rw [runAll_plan_eq [insertBraces, separateVars] (by decide) (by decide) (by simp [hrule, hsplit])]
    · exact run_insertBraces_separateVars
    · intro other hother hnot
      cases other <;> simp_all [mayPrecede]
  by_cases hsort : rule = .trailingBreak ∧ sortCases ∈ options.plan
  · obtain ⟨rfl, hsort⟩ := hsort
    rw [runAll_plan_eq [trailingBreak, sortCases] (by decide) (by decide) (by simp [hrule, hsort])]
    · exact run_trailingBreak_sortCases (hrest _).1 (hrest _).2
    · intro other hother hnot
      cases other <;> simp_all [mayPrecede]
  · rw [runAll_plan_eq [rule] (List.pairwise_singleton _ _) (List.nodup_singleton _) (by simp [hrule])]
    · exact run_idem hstrip (hrest _).1 (hrest _).2
    · intro other hother hnot
      cases rule <;> cases other <;> simp_all [mayPrecede]

theorem runAll_eq_self : ∀ {rules : List Rule} {t : Node}, (∀ rule ∈ rules, rule.restyling.run t = t) →
    runAll rules t = t
  | [], _, _ => rfl
  | rule :: rules, t, h => by
    obtain ⟨hrule, hrules⟩ := List.forall_mem_cons.1 h
    rw [runAll_cons, hrule, runAll_eq_self hrules]

end Rule

namespace Node

/-- Applying the plan to its own result gives the result again, if taking braces off does. -/
theorem applyPlan_eq_self {options : Options} {root t : Node} (hcases : root.HasCases) (hnumbers : root.HasNumbers)
    (h : root.applyPlan options = .ok t) (hstrip : .stripBraces ∈ options.plan → t.stripBraces = t) :
    t.applyPlan options = .ok t := by
  obtain ⟨hkeys, rfl⟩ := hcases.applyPlan_eq_ok_iff.1 h
  refine hcases.runAll.applyPlan_eq_ok_iff.2 ⟨fun hsort => hcases.hasPropertyKeys_runAll.2 (hkeys hsort), ?_⟩
  refine (Rule.runAll_eq_self fun rule hrule => ?_).symm
  by_cases hrule' : rule = .stripBraces
  · subst hrule'
    rw [← Rule.everywhere_step]
    exact hstrip hrule
  · exact Rule.run_runAll_plan hrule' hcases hnumbers hrule

/-- Applying the plan to its own result gives the result again, unless braces are taken off. -/
theorem applyPlan_idem {options : Options} {root t : Node} (hbraces : options.braces ≠ .strip)
    (hcases : root.HasCases) (hnumbers : root.HasNumbers) (h : root.applyPlan options = .ok t) :
    t.applyPlan options = .ok t := by
  refine applyPlan_eq_self hcases hnumbers h fun hplan => ?_
  exact absurd (beq_iff_eq.1 (mem_plan.1 hplan)) hbraces

theorem applyPlan_idem_openSwitch : ∃ t, openSwitch.applyPlan .standard = .ok t ∧ t.applyPlan .standard = .ok t := by
  have hnumbers : openSwitch.HasNumbers := by decide +kernel
  exact ⟨_, applyPlan_openSwitch, applyPlan_idem (by decide) hasCases_openSwitch hnumbers applyPlan_openSwitch⟩

end Node

end ScriptTidy
