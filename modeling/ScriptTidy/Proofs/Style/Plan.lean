/-
The plan as a whole. Applying rules one after another gives a tree unless properties are to be
sorted and the key of one cannot be found, whatever else is applied before; the tree is that of the
restylings in their order. So every order of the planned rules that keeps the two constraints gives
the tree of the plan, and comments come through the plan as they come through each rule.
-/
import Mathlib.Data.List.Permutation
import ScriptTidy.Proofs.Style.Keys
import ScriptTidy.Proofs.Style.Order
import ScriptTidy.Proofs.Style.Ownership
import ScriptTidy.Proofs.Text.Characters

namespace ScriptTidy

/-! ## Rules one after another -/

namespace Node

variable {root t : Node} {rules : List Rule}

theorem HasCases.runAll (h : root.HasCases) : (Rule.runAll rules root).HasCases := by
  induction rules generalizing root with
  | nil => exact h
  | cons rule rules ih => exact ih (h.run rule)

theorem HasCases.hasNumbers_runAll (h : root.HasCases) (hnumbers : root.HasNumbers) :
    (Rule.runAll rules root).HasNumbers := by
  induction rules generalizing root with
  | nil => exact hnumbers
  | cons rule rules ih => exact ih (h.run rule) (h.hasNumbers_run rule hnumbers)

theorem HasCases.hasPropertyKeys_runAll (h : root.HasCases) :
    (Rule.runAll rules root).HasPropertyKeys ↔ root.HasPropertyKeys := by
  induction rules generalizing root with
  | nil => exact Iff.rfl
  | cons rule rules ih => exact (ih (h.run rule)).trans (h.hasPropertyKeys_run rule)

/-- What rules give for a tree, and when they give anything. -/
theorem HasCases.applyAll_eq_ok_iff (h : root.HasCases) : Rule.applyAll rules root = .ok t ↔
    (Rule.sortProperties ∈ rules → root.HasPropertyKeys) ∧ t = Rule.runAll rules root := by
  induction rules generalizing root with
  | nil =>
    rw [Rule.applyAll, List.foldlM_nil]
    simp [pure, Except.pure, Rule.runAll, eq_comm]
  | cons rule rules ih =>
    have ih := ih (h.run rule)
    have hrun := h.hasPropertyKeys_run rule
    rw [Rule.runAll_cons, Rule.applyAll, List.foldlM_cons]
    constructor
    · intro happly
      obtain ⟨root', hfirst, hrest⟩ := exists_of_bind_ok happly
      obtain ⟨hkeys, rfl⟩ := Rule.apply_eq_ok_iff.1 hfirst
      obtain ⟨hkeys', rfl⟩ := ih.1 hrest
      refine ⟨fun hmem => ?_, rfl⟩
      rcases List.mem_cons.1 hmem with heq | hmem
      · exact hkeys heq.symm
      · exact hrun.1 (hkeys' hmem)
    · rintro ⟨hkeys, rfl⟩
      have hfirst := Rule.apply_eq_ok_iff.2 ⟨fun heq => hkeys (heq ▸ List.mem_cons_self ..), rfl⟩
      rw [hfirst]
      exact ih.2 ⟨fun hmem => hrun.2 (hkeys (List.mem_cons_of_mem _ hmem)), rfl⟩

theorem mem_plan {options : Options} {rule : Rule} : rule ∈ options.plan ↔ rule.isEnabled options := by
  rw [Options.plan, List.mem_filter]
  exact and_iff_right (by cases rule <;> decide)

/-- What the plan gives for a tree, and when it gives anything. -/
theorem HasCases.applyPlan_eq_ok_iff (h : root.HasCases) {options : Options} :
    root.applyPlan options = .ok t ↔
      (options.sortProperties → root.HasPropertyKeys) ∧ t = Rule.runAll options.plan root := by
  rw [applyPlan, h.applyAll_eq_ok_iff, mem_plan]
  rfl

/-! ## Comments -/

theorem Housed.runAll (h : root.Housed) (hcases : root.HasCases) : (Rule.runAll rules root).Housed := by
  induction rules generalizing root with
  | nil => exact h
  | cons rule rules ih => exact ih (h.run hcases rule) (hcases.run rule)

theorem Housed.allComments_runAll (h : root.Housed) (hcases : root.HasCases) (rules : List Rule) :
    ((Rule.runAll rules root).allComments).Perm
      (root.allComments.map fun c => rules.foldl (fun c rule => rule.restyling.comment c) c) := by
  induction rules generalizing root with
  | nil => exact .of_eq (List.map_id' _).symm
  | cons rule rules ih =>
    rw [Rule.runAll_cons]
    refine (ih (h.run hcases rule) (hcases.run rule)).trans ?_
    refine ((h.allComments_run hcases rule).map _).trans (.of_eq ?_)
    rw [List.map_map]
    rfl

/-- Rules none of which is applied twice capitalize a comment or leave it as it is. -/
theorem foldl_comment : ∀ {rules : List Rule}, rules.Nodup → ∀ c : Comment,
    rules.foldl (fun c rule => rule.restyling.comment c) c = if Rule.capComments ∈ rules then c.capitalized else c
  | [], _, _ => rfl
  | rule :: rules, hdistinct, c => by
    obtain ⟨hrule, hdistinct⟩ := List.nodup_cons.1 hdistinct
    rw [List.foldl_cons, foldl_comment hdistinct]
    by_cases hcap : rule = .capComments
    · subst hcap
      rw [if_neg hrule, if_pos (List.mem_cons_self ..)]
      rfl
    · have hcomment : rule.restyling.comment c = c := by
        cases rule <;> first | rfl | exact absurd rfl hcap
      rw [hcomment]
      simp only [List.mem_cons, Ne.symm hcap, false_or]

theorem nodup_plan (options : Options) : options.plan.Nodup := List.Nodup.filter _ (by decide)

end Node

/-! ## Every allowed order -/

namespace Node

/-- A declaration of two variables. -/
def twoVars : Node :=
  let binding (name : String) := plain ⟨0, 0, 1⟩ (.variableDeclarator (plain ⟨0, 0, 1⟩ (.identifier name)) none)
  plain ⟨0, 0, 1⟩ (.variableDeclaration "var" [binding "x", binding "y"])

/-- An endless loop with a given body. -/
def loopOver (body : Node) : Node :=
  plain ⟨0, 0, 1⟩ (.program [plain ⟨0, 0, 1⟩ (.whileStatement (plain ⟨0, 0, 1⟩ .thisExpression) body)] "")

/-- A switch with two cases out of order, of which only the first is terminated. -/
def openSwitch : Node :=
  let label (name : String) := some (plain ⟨0, 0, 1⟩ (.identifier name))
  plain ⟨0, 0, 1⟩ (.program [plain ⟨0, 0, 1⟩ (.switchStatement (plain ⟨0, 0, 1⟩ .thisExpression) [
    plain ⟨0, 0, 1⟩ (.switchCase (label "b") [plain ⟨0, 0, 1⟩ (.breakStatement none)]),
    plain ⟨0, 0, 1⟩ (.switchCase (label "a") [])])] "")

theorem hasCases_openSwitch : openSwitch.HasCases := by decide +kernel

theorem applyPlan_openSwitch :
    openSwitch.applyPlan .standard = .ok (Rule.runAll (Options.plan .standard) openSwitch) :=
  hasCases_openSwitch.applyPlan_eq_ok_iff.2 ⟨fun _ => by decide +kernel, rfl⟩

/-- What two rules give in the one order and in the other, as the labels of the nodes. -/
def outline (rules : List Rule) (root : Node) : Option (List String) :=
  (Rule.applyAll rules root).toOption.map fun t => t.preorder.map label

theorem applyAll_ne_of_outline {rules others : List Rule} {root : Node} (h : outline rules root ≠ outline others root) :
    Rule.applyAll rules root ≠ Rule.applyAll others root :=
  fun heq => h (by rw [outline, outline, heq])

/-- Rules whose order is constrained do not give the same in the other order. -/
theorem exists_applyAll_ne {rule other : Rule} (h : rule.mayPrecede other) (h' : other.mayPrecede rule = false) :
    ∃ root : Node, root.Housed ∧ root.HasCases ∧
      Rule.applyAll [rule, other] root ≠ Rule.applyAll [other, rule] root := by
  cases rule <;> cases other
  case insertBraces.separateVars =>
    exact ⟨loopOver twoVars, housed_iff.2 ⟨rfl, by decide +kernel⟩, by decide +kernel,
      applyAll_ne_of_outline (by cbv; decide)⟩
  case stripBraces.separateVars =>
    exact ⟨loopOver (plain ⟨0, 0, 1⟩ (.blockStatement [twoVars])), housed_iff.2 ⟨rfl, by decide +kernel⟩,
      by decide +kernel, applyAll_ne_of_outline (by cbv; decide)⟩
  case trailingBreak.sortCases =>
    exact ⟨openSwitch, housed_iff.2 ⟨rfl, by decide +kernel⟩, hasCases_openSwitch,
      applyAll_ne_of_outline (by cbv; decide)⟩
  all_goals first | exact absurd h (by decide) | exact absurd h' (by decide)

/-- The two constraints on the order of the rules are needed, and no others are: the planned rules in
any order that keeps them give what the plan gives, and for two rules that are constrained there is
a tree for which the other order gives something else. -/
theorem applyAll_eq_plan_iff_ordered :
    (∀ {options : Options} {rules : List Rule} {root t : Node}, rules.Perm options.plan → Rule.Ordered rules →
      root.HasCases → (Rule.applyAll rules root = .ok t ↔ root.applyPlan options = .ok t)) ∧
    ∀ {rule other : Rule}, rule.mayPrecede other → other.mayPrecede rule = false →
      ∃ root : Node, root.Housed ∧ root.HasCases ∧
        Rule.applyAll [rule, other] root ≠ Rule.applyAll [other, rule] root := by
  refine ⟨?_, exists_applyAll_ne⟩
  intro options rules root t hperm hordered hcases
  rw [hcases.applyAll_eq_ok_iff, applyPlan, hcases.applyAll_eq_ok_iff, hperm.mem_iff,
    Rule.runAll_perm hperm hordered (Rule.ordered_plan options)]

theorem applyAll_openSwitch_backwards :
    ∃ t, Rule.applyAll [.sortProperties, .sortFunctions, .trailingBreak, .sortCases, .capComments, .insertBraces,
        .separateVars, .exactEquals] openSwitch = .ok t ∧ openSwitch.applyPlan .standard = .ok t :=
  ⟨_, (applyAll_eq_plan_iff_ordered.1 (by decide) (by decide) hasCases_openSwitch).2 applyPlan_openSwitch,
    applyPlan_openSwitch⟩

/-! ## Comments through the plan -/

/-- After the rules of the options comments stand where they may, and are those they were, up to capital letters. -/
theorem Housed.applyPlan {root t : Node} (h : root.Housed) (hcases : root.HasCases) {options : Options}
    (happly : root.applyPlan options = .ok t) : t.Housed ∧ t.allComments.Perm
      (if options.capComments then root.allComments.map Comment.capitalized else root.allComments) := by
  obtain ⟨-, rfl⟩ := hcases.applyPlan_eq_ok_iff.1 happly
  refine ⟨h.runAll hcases, ?_⟩
  have hperm := h.allComments_runAll hcases options.plan
  simp only [foldl_comment (nodup_plan options), mem_plan] at hperm
  cases hcap : options.capComments with
  | true => simpa [Rule.isEnabled, hcap] using hperm
  | false => simpa [Rule.isEnabled, hcap] using hperm

/-- No rule loses a comment, doubles one or leaves one where none may stand; one rule capitalizes
them. Every rule gives a tree, but for the sorting of properties when the key of one cannot be
found; and all this is so for the plan of any options. -/
theorem apply_conserves_comments {root : Node} (h : root.Housed) (hcases : root.HasCases) :
    (∀ rule : Rule, ((∃ t, rule.apply root = .ok t) ↔ (rule = .sortProperties → root.HasPropertyKeys)) ∧
      ∀ t, rule.apply root = .ok t → t.Housed ∧ t.allComments.Perm
        (if rule = .capComments then root.allComments.map Comment.capitalized else root.allComments)) ∧
    ∀ options : Options,
      ((∃ t, root.applyPlan options = .ok t) ↔ (options.sortProperties → root.HasPropertyKeys)) ∧
      ∀ t, root.applyPlan options = .ok t → t.Housed ∧ t.allComments.Perm
        (if options.capComments then root.allComments.map Comment.capitalized else root.allComments) := by
  refine ⟨fun rule => ⟨?_, fun t ht => ?_⟩, fun options => ⟨?_, fun t ht => ?_⟩⟩
  · simp only [Rule.apply_eq_ok_iff, exists_and_left, exists_eq, and_true]
  · obtain ⟨-, rfl⟩ := Rule.apply_eq_ok_iff.1 ht
    refine ⟨h.run hcases rule, ?_⟩
    have hperm := h.allComments_run hcases rule
    by_cases hcap : rule = .capComments
    · subst hcap
      exact hperm
    · have hcomment : rule.restyling.comment = id := by
        cases rule <;> first | rfl | exact absurd rfl hcap
      rw [if_neg hcap]
      rwa [hcomment, List.map_id] at hperm
  · simp only [hcases.applyPlan_eq_ok_iff, exists_and_left, exists_eq, and_true]
  · exact h.applyPlan hcases ht

/-- Two functions out of order, the first with a comment. -/
def twoFunctions : Node :=
  let function (comments : List Comment) (name : String) : Node :=
    .mk ⟨⟨0, 0, 1⟩, comments, []⟩ (.functionDeclaration (plain ⟨0, 0, 1⟩ (.identifier name)) []
      (plain ⟨0, 0, 1⟩ (.blockStatement [])) false false)
  plain ⟨0, 0, 1⟩ (.program [function [⟨.line, " first", 0, 8, 1⟩] "b", function [] "a"] "")

theorem apply_conserves_comments_twoFunctions :
    ∃ t, twoFunctions.applyPlan .standard = .ok t ∧ t.Housed ∧ t.allComments.Perm [⟨.line, " First", 0, 8, 1⟩] := by
  have hhoused : twoFunctions.Housed := housed_iff.2 ⟨rfl, by decide +kernel⟩
  have hcases : twoFunctions.HasCases := by decide +kernel
  have hkeys : twoFunctions.HasPropertyKeys := by decide +kernel
  have hcomments : twoFunctions.allComments.map Comment.capitalized = [⟨.line, " First", 0, 8, 1⟩] := by decide +kernel
  obtain ⟨hok, hconserved⟩ := (apply_conserves_comments hhoused hcases).2 .standard
  obtain ⟨t, ht⟩ := hok.2 fun _ => hkeys
  obtain ⟨ht', hperm⟩ := hconserved t ht
  rw [if_pos (by rfl), hcomments] at hperm
  exact ⟨t, ht, ht', hperm⟩

/-! ## Keys that cannot be found -/

/-- A property named by a text. -/
def namedProperty (name : List Char) : Node :=
  let key := plain ⟨0, 0, 1⟩ (.literal (.string (name.map Text.CodePoint.ofChar)) (String.ofList name))
  plain ⟨0, 0, 1⟩ (.property key (plain ⟨0, 0, 1⟩ .thisExpression) "init" false false false)

/-- An object with a single property, named by a text. -/
def objectWithKey (name : List Char) : Node :=
  plain ⟨0, 0, 1⟩ (.program
    [plain ⟨0, 0, 1⟩ (.expressionStatement (plain ⟨0, 0, 1⟩ (.objectExpression [namedProperty name])))] "")

theorem mem_preorder_objectWithKey {name : List Char} {n : Node} (h : n ∈ (objectWithKey name).preorder) :
    n.form.switchMembers = [] ∧ n.comments = [] ∧ n.trailing = [] := by
  revert n
  simp [objectWithKey, namedProperty, preorder_eq, plain, children, form, Form.children, Form.switchMembers,
    Node.comments, Node.trailing, Node.info]

theorem hasCases_objectWithKey (name : List Char) : (objectWithKey name).HasCases := by
  intro n hn m hm
  rw [(mem_preorder_objectWithKey hn).1] at hm
  cases hm

/-- A tree without comments has none where it may not have any. -/
theorem housed_of_comments_eq_nil {root : Node} (h : ∀ n ∈ root.preorder, n.comments = [] ∧ n.trailing = []) :
    root.Housed := by
  refine housed_iff.2 ⟨(h root (mem_preorder_self root)).1, fun n hn => strays_eq_nil_iff.2 ⟨fun m hm _ => ?_, ?_⟩⟩
  · exact (h m.1 (mem_preorder_trans hn (mem_preorder_of_mem_children (mem_children_of_owned hm)))).1
  · exact fun hne => absurd (h n hn).2 hne

theorem not_hasPropertyKeys_objectWithKey {name : List Char} (hwhole : Canonical.isWhole name)
    (hlength : maxDecimalDigits < name.length) : ¬ (objectWithKey name).HasPropertyKeys := by
  have hname : (namedProperty name).nameText? = some (String.ofList name) := Text.CodePoint.toString?_map_ofChar name
  have hoverlong : (namedProperty name).IsOverlong := by
    refine ⟨_, hname, ?_⟩
    rw [String.toList_ofList]
    exact ⟨hwhole, hlength⟩
  rw [hasPropertyKeys_iff_overlong, not_not]
  refine ⟨plain ⟨0, 0, 1⟩ (.objectExpression [namedProperty name]), ?_, _, rfl, _, List.mem_singleton_self _, hoverlong⟩
  exact mem_preorder_trans (mem_preorder_of_mem_children (List.mem_singleton_self _))
    (mem_preorder_of_mem_children (List.mem_singleton_self _))

theorem isWhole_ones (count : Nat) : Canonical.isWhole ('1' :: List.replicate count '1') := by
  simp [Canonical.isWhole, List.all_replicate]

/-- A rule that gives no tree for a tree whose comments stand where they may. -/
theorem exists_apply_eq_error : ∃ (rule : Rule) (root : Node), root.Housed ∧ root.HasCases ∧
    ∀ t, rule.apply root ≠ .ok t := by
  have hlength : maxDecimalDigits < ('1' :: List.replicate maxDecimalDigits '1').length := by
    rw [List.length_cons, List.length_replicate]
    exact Nat.lt_succ_self _
  refine ⟨.sortProperties, objectWithKey ('1' :: List.replicate maxDecimalDigits '1'), ?_, hasCases_objectWithKey _, ?_⟩
  · exact housed_of_comments_eq_nil fun n hn => (mem_preorder_objectWithKey hn).2
  · intro t ht
    exact not_hasPropertyKeys_objectWithKey (isWhole_ones _) hlength ((Rule.apply_eq_ok_iff.1 ht).1 rfl)

end Node

end ScriptTidy
