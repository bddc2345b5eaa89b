/-
The order of the rules. Any two rules can change places, unless one of them sets braces and the
other splits declarations, one terminates the last case of a switch and the other sorts cases, or
both set braces. Two orders of the same rules that agree on such pairs therefore give the same tree.
-/
import ScriptTidy.Proofs.Style.Rules

namespace ScriptTidy

namespace Rule

open Node

/-- The first rule may be applied before the second. Braces are set by one rule, before declarations
are split; the last case of a switch is terminated before cases are sorted. -/
def mayPrecede : Rule → Rule → Bool
  | separateVars, insertBraces | separateVars, stripBraces => false
  | sortCases, trailingBreak => false
  | insertBraces, stripBraces | stripBraces, insertBraces => false
  | _, _ => true

/-! ## Two rules -/

theorem andThen_separateVars_sortFunctions :
    separateVars.restyling.andThen sortFunctions.restyling =
      sortFunctions.restyling.andThen separateVars.restyling := by
  simp only [Restyling.andThen, restyling]
  congr 1
  funext ns
  exact sortRuns_flatMap_splitDeclaration ns

theorem andThen_comm {rule other : Rule} (h : rule.mayPrecede other) (h' : other.mayPrecede rule) :
    rule.restyling.andThen other.restyling = other.restyling.andThen rule.restyling := by
  cases rule <;> cases other
  case separateVars.sortFunctions => exact andThen_separateVars_sortFunctions
  case sortFunctions.separateVars => exact andThen_separateVars_sortFunctions.symm
  all_goals first | rfl | exact absurd h (by decide) | exact absurd h' (by decide)

theorem respects_of_mayPrecede {rule other : Rule} (hne : rule ≠ other) (h : rule.mayPrecede other)
    (h' : other.mayPrecede rule) : rule.restyling.Respects other.restyling := by
  by_cases hinsert : rule = .insertBraces
  · subst hinsert
    refine insertBraces_respects ?_
    rintro rfl
    cases h'
  by_cases hstrip : rule = .stripBraces
  · subst hstrip
    refine stripBraces_respects ?_ ?_ (Ne.symm hne)
    · rintro rfl
      cases h'
    · rintro rfl
      cases h
  · exact respects hinsert hstrip other

/-- Two rules of which each may be applied before the other can change places. -/
theorem run_comm {rule other : Rule} (h : rule.mayPrecede other) (h' : other.mayPrecede rule) (n : Node) :
    other.restyling.run (rule.restyling.run n) = rule.restyling.run (other.restyling.run n) := by
  by_cases hne : rule = other
  · rw [hne]
  · exact Restyling.run_comm (respects_of_mayPrecede hne h h') (respects_of_mayPrecede (Ne.symm hne) h' h)
      (andThen_comm h h') n

/-! ## A list of rules -/

/-- Changes a tree by rules one after another. -/
def runAll (rules : List Rule) (root : Node) : Node := rules.foldl (fun n rule => rule.restyling.run n) root

/-- The order of the rules keeps the constraints. -/
def Ordered (rules : List Rule) : Prop := rules.Pairwise fun rule other => rule.mayPrecede other

instance (rules : List Rule) : Decidable (Ordered rules) := inferInstanceAs (Decidable (List.Pairwise _ _))

theorem runAll_cons (rule : Rule) (rules : List Rule) (root : Node) :
    runAll (rule :: rules) root = runAll rules (rule.restyling.run root) := rfl

theorem runAll_append (rules others : List Rule) (root : Node) :
    runAll (rules ++ others) root = runAll others (runAll rules root) := List.foldl_append

/-- A rule can be moved to the front over rules with which it can change places. -/
theorem runAll_append_cons {rule : Rule} : ∀ {front : List Rule},
    (∀ other ∈ front, rule.mayPrecede other ∧ other.mayPrecede rule) → ∀ (rest : List Rule) (root : Node),
    runAll (front ++ rule :: rest) root = runAll (rule :: (front ++ rest)) root
  | [], _, _, _ => rfl
  | other :: front, h, rest, root => by
    obtain ⟨hbefore, hafter⟩ := h other (List.mem_cons_self ..)
    have ih := runAll_append_cons (fun k hk => h k (List.mem_cons_of_mem _ hk)) rest (other.restyling.run root)
    rw [List.cons_append, runAll_cons, ih, runAll_cons, runAll_cons, List.cons_append, runAll_cons,
      run_comm hbefore hafter]

/-- The same rules in two orders that keep the constraints give the same tree. -/
theorem runAll_perm {rules : List Rule} : ∀ {others : List Rule}, rules.Perm others → Ordered rules →
    Ordered others → ∀ root, runAll rules root = runAll others root := by
  induction rules with
  | nil =>
    intro others hperm _ _ root
    rw [hperm.symm.eq_nil]
  | cons rule rules ih =>
    intro others hperm hrules hothers root
    -- the first rule of the one order may precede all that stand before it in the other
    obtain ⟨front, rest, rfl⟩ := List.append_of_mem (hperm.subset (List.mem_cons_self ..))
    have hperm : rules.Perm (front ++ rest) :=
      (List.perm_cons rule).1 (hperm.trans List.perm_middle)
    obtain ⟨hfirst, hrules⟩ := List.pairwise_cons.1 hrules
    have hfront : ∀ other ∈ front, rule.mayPrecede other ∧ other.mayPrecede rule := by
      intro other hmem
      refine ⟨hfirst other (hperm.mem_iff.2 (List.mem_append_left _ hmem)), ?_⟩
      exact (List.pairwise_append.1 hothers).2.2 other hmem rule (List.mem_cons_self ..)
    have hothers : Ordered (front ++ rest) :=
      hothers.sublist (List.Sublist.append_left (List.sublist_cons_self rule rest) front)
    rw [runAll_append_cons hfront, runAll_cons, runAll_cons, ih hperm hrules hothers]

/-! ## The plan -/

/-- The plan keeps the constraints. -/
theorem ordered_plan (options : Options) : Ordered options.plan := by
  unfold Ordered Options.plan order
  rw [List.pairwise_filter]
  simp only [List.pairwise_cons, List.mem_cons, List.not_mem_nil, or_false, forall_eq_or_imp, forall_eq]
  simp [mayPrecede, isEnabled]
  intro h
  rw [h]
  decide

end Rule

end ScriptTidy
