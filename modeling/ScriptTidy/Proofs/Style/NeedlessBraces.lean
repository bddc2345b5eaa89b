/-
Needless braces. A body has needless braces if they would be taken off where it stands; a tree is
terse if no body has any, and then, and only then, taking braces off changes nothing. One run does
not make every tree terse. It takes one pair of braces off a body and does not look again at what it
has uncovered, which may be a block in braces that are needless as well. There is no other way to
miss the normal form: a tree reaches it in one run unless the only statement in the needless braces
of a body is a block whose braces would be needless in their place.
-/
import ScriptTidy.Proofs.Style.Bracing

namespace ScriptTidy

namespace Form

variable {α β : Type}

/-- The bodies of a loop or the branches of an if statement, with whether an else follows. -/
def bodiesBeforeElse : Form α → List (α × Bool)
  | .ifStatement _ consequent alternate => (consequent, alternate.isSome) :: alternate.toList.map (·, false)
  | form => form.bodies.map (·, false)

theorem bodiesBeforeElse_map (f : α → β) (form : Form α) :
    (form.map f).bodiesBeforeElse = form.bodiesBeforeElse.map fun b => (f b.1, b.2) := by
  cases form <;> simp [map, bodiesBeforeElse, bodies, Option.toList_map, Function.comp_def]

end Form

namespace Node

/-! ## Needless braces -/

/-- The braces of the statement would be taken off if it were a body. -/
def isNeedless (beforeElse : Bool) (n : Node) : Bool :=
  match n.form with
  | .blockStatement [] => n.trailing.isEmpty
  | .blockStatement [inner] =>
    n.trailing.isEmpty && inner.comments.isEmpty && !inner.isLexical && !(beforeElse && inner.endsInOpenIf)
  | _ => false

/-- What stands in the place of a body once its braces are taken off. -/
def uncovered (n : Node) : Node :=
  match n.form with
  | .blockStatement [inner] => inner
  | _ => plain n.span .emptyStatement

theorem unbraced_eq (beforeElse : Bool) (n : Node) :
    n.unbraced beforeElse = if n.isNeedless beforeElse then n.uncovered else n := by
  obtain ⟨info, form⟩ := n
  cases form with
  | blockStatement ns =>
    simp only [unbraced, isNeedless, uncovered, Node.form, Node.trailing, Node.info]
    rcases ns with _ | ⟨inner, _ | ⟨m, ns⟩⟩
    · by_cases htrailing : info.trailing = [] <;> simp [htrailing]
    · by_cases htrailing : info.trailing = [] <;> by_cases hcomments : inner.comments = [] <;>
        by_cases hlexical : inner.isLexical <;> by_cases hopen : beforeElse && inner.endsInOpenIf <;>
        simp [htrailing, hcomments, hlexical, hopen]
    · simp
  | _ => rfl

theorem isBraced_of_isNeedless {beforeElse : Bool} {n : Node} (h : n.isNeedless beforeElse) : n.isBraced := by
  obtain ⟨info, form⟩ := n
  cases form with
  | blockStatement => rfl
  | _ => cases h

/-- No statement is a block around itself. -/
theorem ne_block_self (info : Info) (n : Node) : n ≠ .mk info (.blockStatement [n]) := by
  intro h
  have hsize := congrArg sizeOf h
  simp only [mk.sizeOf_spec, Form.blockStatement.sizeOf_spec, List.cons.sizeOf_spec] at hsize
  omega

theorem uncovered_ne_self {n : Node} (h : n.isBraced) : n.uncovered ≠ n := by
  obtain ⟨info, form⟩ := n
  cases form with
  | blockStatement ns =>
    rcases ns with _ | ⟨inner, _ | ⟨m, ns⟩⟩
    · exact fun h => nomatch congrArg Node.form h
    · exact ne_block_self info inner
    · exact fun h => nomatch congrArg Node.form h
  | _ => cases h

theorem unbraced_eq_self_iff {beforeElse : Bool} {n : Node} :
    n.unbraced beforeElse = n ↔ n.isNeedless beforeElse = false := by
  rw [unbraced_eq]
  cases hneedless : n.isNeedless beforeElse with
  | false => exact iff_of_true rfl rfl
  | true => exact iff_of_false (uncovered_ne_self (isBraced_of_isNeedless hneedless)) nofun

/-! ## Terse trees -/

/-- The node has a body with needless braces. -/
def hasNeedlessBraces (n : Node) : Bool := n.form.bodiesBeforeElse.any fun b => b.1.isNeedless b.2

/-- No body of the tree has needless braces. -/
def IsTerse (root : Node) : Prop := ∀ n ∈ root.preorder, n.hasNeedlessBraces = false

instance (root : Node) : Decidable root.IsTerse :=
  inferInstanceAs (Decidable (∀ n ∈ root.preorder, n.hasNeedlessBraces = false))

end Node

namespace Rule

open Node

/-- Taking braces off changes a single node only if a body of it has needless ones. -/
theorem form_stripBraces_eq_self_iff {form : Form Node} :
    stripBraces.restyling.form form = form ↔ ∀ b ∈ form.bodiesBeforeElse, b.1.isNeedless b.2 = false := by
  cases form with
  | ifStatement test consequent alternate =>
    cases alternate <;>
      simp [Restyling.form, restyling, Form.bodiesBeforeElse, unbraced_eq_self_iff]
  | whileStatement | doWhileStatement | forStatement | forInStatement | forOfStatement =>
    simp [Restyling.form, restyling, Form.bodiesBeforeElse, Form.bodies, unbraced_eq_self_iff]
  | _ => exact iff_of_true rfl (by simp [Form.bodiesBeforeElse, Form.bodies])

/-- A run makes of no statement a block around it. -/
theorem run_stripBraces_ne_block_self (n : Node) :
    ∀ info : Info, stripBraces.restyling.run n ≠ .mk info (.blockStatement [n]) := by
  induction n using byChildren with
  | node n ih =>
    intro info h
    have hform : (stripBraces.restyling.run n).form = .blockStatement [n] := by rw [h]; rfl
    obtain ⟨info', form⟩ := n
    rw [Restyling.run_mk] at hform
    cases form with
    | blockStatement ns =>
      -- then the only statement of the block becomes a block around itself as well
      have hkids : ns.map stripBraces.restyling.run = [.mk info' (.blockStatement ns)] :=
        Form.blockStatement.inj hform
      obtain ⟨inner, rfl, hinner⟩ := List.map_eq_singleton_iff.1 hkids
      exact ih inner (List.mem_singleton_self inner) info' hinner
    | _ => exact nomatch hform

/-- A body that a run leaves as it is has kept its braces. -/
theorem run_eq_self_of_unbraced {beforeElse : Bool} {n : Node}
    (h : (stripBraces.restyling.run n).unbraced beforeElse = n) : stripBraces.restyling.run n = n := by
  rw [unbraced_eq] at h
  split at h
  case isFalse => exact h
  case isTrue hneedless =>
    have hbraced := isBraced_of_isNeedless hneedless
    rw [Restyling.isBraced_run] at hbraced
    exfalso
    obtain ⟨info, form⟩ := n
    cases form with
    | blockStatement ns =>
      rw [Restyling.run_mk] at h
      rcases ns with _ | ⟨inner, _ | ⟨m, ns⟩⟩
      · exact nomatch congrArg Node.form h
      · exact run_stripBraces_ne_block_self inner info h
      · exact nomatch congrArg Node.form h
    | _ => cases hbraced

theorem map_run_eq_self_of_form {form : Form Node}
    (h : stripBraces.restyling.form (form.map stripBraces.restyling.run) = form) :
    form.map stripBraces.restyling.run = form := by
  cases form with
  | ifStatement test consequent alternate =>
    simp only [Form.map, Restyling.form, Form.ifStatement.injEq] at h ⊢
    obtain ⟨htest, hconsequent, halternate⟩ := h
    refine ⟨htest, run_eq_self_of_unbraced hconsequent, ?_⟩
    cases alternate with
    | none => rfl
    | some m => exact congrArg some (run_eq_self_of_unbraced (Option.some.inj halternate))
  | whileStatement test body | doWhileStatement body test | forStatement init test update body
  | forInStatement left right body | forOfStatement left right body isAwait =>
    have hbody : stripBraces.restyling.loopBody (stripBraces.restyling.run body) = body →
        stripBraces.restyling.run body = body := @run_eq_self_of_unbraced false body
    simp only [Form.map, Restyling.form, Form.whileStatement.injEq, Form.doWhileStatement.injEq,
      Form.forStatement.injEq, Form.forInStatement.injEq, Form.forOfStatement.injEq] at h ⊢
    simp_all
  | _ => exact h

theorem run_stripBraces_eq_self_iff {info : Info} {form : Form Node} :
    stripBraces.restyling.run (.mk info form) = .mk info form ↔
      (∀ n ∈ form.children, stripBraces.restyling.run n = n) ∧
        ∀ b ∈ form.bodiesBeforeElse, b.1.isNeedless b.2 = false := by
  have hinfo : (⟨info.span, info.comments.map stripBraces.restyling.comment,
      info.trailing.map stripBraces.restyling.comment⟩ : Info) = info := by
    simp only [restyling, List.map_id]
  rw [Restyling.run_mk, hinfo, Node.mk.injEq, and_iff_right rfl, ← form_stripBraces_eq_self_iff]
  constructor
  · intro h
    have hkids := map_run_eq_self_of_form h
    rw [hkids] at h
    have hchildren := congrArg Form.children hkids
    rw [Form.children_map] at hchildren
    refine ⟨fun n hn => ?_, h⟩
    exact List.map_inj_left.1 (hchildren.trans (List.map_id _).symm) n hn
  · rintro ⟨hkids, hself⟩
    rw [Form.map_eq_self hkids, hself]

end Rule

namespace Node

variable {root : Node}

/-- Taking braces off changes nothing in terse trees, and something in all others. -/
theorem stripBraces_eq_self_iff : root.stripBraces = root ↔ root.IsTerse := by
  rw [stripBraces_eq, IsTerse]
  induction root using byChildren with
  | node n ih =>
    obtain ⟨info, form⟩ := n
    rw [Rule.run_stripBraces_eq_self_iff, forall_preorder_iff, and_comm]
    refine and_congr (by simp [hasNeedlessBraces, Node.form]) ?_
    exact forall₂_congr fun m hm => ih m hm

/-! ## One run -/

/-- The braces of the statement come off if the tree around it is stripped where the statement is a body. -/
def losesBraces (beforeElse : Bool) (n : Node) : Bool :=
  match n.form with
  | .blockStatement [] => n.trailing.isEmpty
  | .blockStatement [inner] =>
    n.trailing.isEmpty && inner.comments.isEmpty && !inner.isLexical && !(beforeElse && inner.opensUp false)
  | _ => false

/-- The body loses its braces, and what they uncover is a block that would lose its braces in the same place. -/
def isDoublyBraced (beforeElse : Bool) (n : Node) : Bool :=
  n.losesBraces beforeElse && n.uncovered.losesBraces beforeElse

theorem isNeedless_run (beforeElse : Bool) (n : Node) :
    (Rule.stripBraces.restyling.run n).isNeedless beforeElse = n.losesBraces beforeElse := by
  obtain ⟨info, form⟩ := n
  unfold isNeedless losesBraces
  rw [Restyling.run_trailing, List.isEmpty_map, Restyling.run_form]
  cases form with
  | blockStatement ns =>
    rcases ns with _ | ⟨inner, _ | ⟨m, ns⟩⟩
    · rfl
    · simp only [Node.form, Form.map, Restyling.form, List.map_cons, List.map_nil]
      rw [← (Rule.endsInOpenIf_run_stripBraces inner).1, ← Restyling.isLexical_run Rule.stripBraces.restyling inner,
        ← List.isEmpty_map (f := Rule.stripBraces.restyling.comment) (l := inner.comments), ← Restyling.run_comments]
      rfl
    · rfl
  | _ => rfl

theorem uncovered_run (n : Node) :
    (Rule.stripBraces.restyling.run n).uncovered = Rule.stripBraces.restyling.run n.uncovered := by
  obtain ⟨info, form⟩ := n
  have hempty := Restyling.run_plain Rule.stripBraces.restyling info.span .emptyStatement
  rw [Restyling.run_mk]
  cases form with
  | blockStatement ns =>
    rcases ns with _ | ⟨inner, _ | ⟨m, ns⟩⟩
    · exact hempty.symm
    · rfl
    · exact hempty.symm
  | _ => exact hempty.symm

/-- A body still has needless braces after a run if it had two pairs of them. -/
theorem isNeedless_unbraced_run (beforeElse : Bool) (n : Node) :
    ((Rule.stripBraces.restyling.run n).unbraced beforeElse).isNeedless beforeElse = n.isDoublyBraced beforeElse := by
  rw [unbraced_eq, isNeedless_run, isDoublyBraced]
  cases hloses : n.losesBraces beforeElse with
  | false =>
    rw [if_neg Bool.false_ne_true, isNeedless_run, hloses]
    rfl
  | true => rw [if_pos rfl, uncovered_run, isNeedless_run, Bool.true_and]

theorem bodiesBeforeElse_stripBraces (form : Form Node) :
    (Rule.stripBraces.restyling.form form).bodiesBeforeElse =
      form.bodiesBeforeElse.map fun b => (b.1.unbraced b.2, b.2) := by
  cases form with
  | ifStatement test consequent alternate => cases alternate <;> rfl
  | _ => rfl

theorem hasNeedlessBraces_run (n : Node) :
    (Rule.stripBraces.restyling.run n).hasNeedlessBraces =
      n.form.bodiesBeforeElse.any fun b => b.1.isDoublyBraced b.2 := by
  rw [hasNeedlessBraces, Restyling.run_form, bodiesBeforeElse_stripBraces, Form.bodiesBeforeElse_map, List.map_map,
    List.any_map]
  exact congrArg (n.form.bodiesBeforeElse.any ·) (funext fun b => isNeedless_unbraced_run b.2 b.1)

/-- The node, if it has a body with needless braces. -/
def needless (n : Node) : List Unit := if n.hasNeedlessBraces then [()] else []

theorem needless_eq_nil_iff {n : Node} : n.needless = [] ↔ n.hasNeedlessBraces = false := by
  simp [needless]

theorem fixed_needless : Fixed needless where
  withComments _ _ := rfl
  isMovable n h := by
    obtain ⟨info, form⟩ := n
    cases form <;> first | rfl | cases h

/-- A tree is stripped of its needless braces by one run if, and only if, no body has two pairs of them. -/
theorem isTerse_stripBraces_iff :
    root.stripBraces.IsTerse ↔
      ∀ n ∈ root.preorder, ∀ b ∈ n.form.bodiesBeforeElse, b.1.isDoublyBraced b.2 = false := by
  have hperm : (root.stripBraces.gather needless).Perm
      (root.gather fun n => (Rule.stripBraces.restyling.run n).needless) := by
    rw [stripBraces_eq]
    exact gather_restyled (fun n _ => Rule.conserves_stripBraces fixed_needless _) fun _ _ => .refl _
  have hafter : root.stripBraces.IsTerse ↔ root.stripBraces.gather needless = [] := by
    simp only [gather_eq_nil_iff, needless_eq_nil_iff, IsTerse]
  rw [hafter, ← List.perm_nil, hperm.congr_left, List.perm_nil, gather_eq_nil_iff]
  refine forall₂_congr fun n _ => ?_
  rw [needless_eq_nil_iff, hasNeedlessBraces_run]
  simp

/-- Taking braces off once more changes nothing exactly when the first run leaves no needless braces, and it leaves
some exactly where a body has two pairs of them. -/
theorem stripBraces_idem_iff :
    (root.stripBraces.stripBraces = root.stripBraces ↔ root.stripBraces.IsTerse) ∧
      (root.stripBraces.IsTerse ↔
        ∀ n ∈ root.preorder, ∀ b ∈ n.form.bodiesBeforeElse, b.1.isDoublyBraced b.2 = false) :=
  ⟨stripBraces_eq_self_iff, isTerse_stripBraces_iff⟩

/-- A block in a block loses only one pair of braces. -/
theorem stripBraces_twice_differs :
    ∃ s, Script.parse "if (a) {{ b(); }}" = .ok s ∧
      s.program.stripBraces.stripBraces ≠ s.program.stripBraces := by
  have hprogram : (Script.parse "if (a) {{ b(); }}").toOption.map (fun s => decide s.program.stripBraces.IsTerse) =
      some false := by
    decide +kernel
  obtain ⟨s, hs, hterse⟩ := Option.map_eq_some_iff.1 hprogram
  exact ⟨s, eq_ok_of_toOption hs, fun h => of_decide_eq_false hterse (stripBraces_eq_self_iff.1 h)⟩

end Node

end ScriptTidy
