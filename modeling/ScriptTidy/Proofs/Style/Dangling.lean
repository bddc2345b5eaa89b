/-
Dangling elses. Between an if statement and its else there may be an open if statement only inside a
block: without the braces the else would be read as the inner one's. Taking braces off looks for an
open if statement in the block that it opens, the consequent of the outer if statement, and so a
consequent in braces never comes to capture the else after it. A consequent without braces is not
looked at again. What stands at its end, the body of a loop or the branch of another if statement,
may be a block whose braces are taken off, and then an if statement that was closed is open.
-/
import ScriptTidy.Format
import ScriptTidy.Proofs.Lists
import ScriptTidy.Proofs.Style.Invariants

namespace ScriptTidy

namespace Node

/-! ## Captured elses -/

/-- The else of an if statement would be read as that of an if statement inside the consequent. -/
def capturesElse (n : Node) : Bool :=
  match n.form with
  | .ifStatement _ consequent (some _) => consequent.endsInOpenIf
  | _ => false

/-- Every else of a tree is read as the one of the if statement that it belongs to. -/
def Unambiguous (root : Node) : Prop := ∀ n ∈ root.preorder, n.capturesElse = false

instance (root : Node) : Decidable root.Unambiguous :=
  inferInstanceAs (Decidable (∀ n ∈ root.preorder, n.capturesElse = false))

/-- The node, if it is an if statement whose else is captured. -/
def captures (n : Node) : List Unit := if n.capturesElse then [()] else []

theorem captures_eq_nil_iff {n : Node} : n.captures = [] ↔ n.capturesElse = false := by
  simp [captures]

theorem unambiguous_iff {root : Node} : root.Unambiguous ↔ root.gather captures = [] := by
  simp only [gather_eq_nil_iff, captures_eq_nil_iff, Unambiguous]

theorem fixed_captures : Fixed captures where
  withComments _ _ := rfl
  isMovable n h := by
    obtain ⟨info, form⟩ := n
    cases form <;> first | rfl | cases h

/-! ## Where braces come off -/

/-- The statement is a block. -/
def isBraced (n : Node) : Bool :=
  match n.form with
  | .blockStatement _ => true
  | _ => false

/-- An if statement is open at the end of the statement once the needless braces are taken off: those of the bodies in
it, and the braces of the statement itself where it is a body. -/
def opensUp : Bool → Node → Bool
  | _, .mk _ (.ifStatement _ _ none) => true
  | _, .mk _ (.ifStatement _ _ (some alternate)) => alternate.opensUp true
  | _, .mk _ (.forInStatement _ _ body) => body.opensUp true
  | _, .mk _ (.forOfStatement _ _ body _) => body.opensUp true
  | _, .mk _ (.forStatement _ _ _ body) => body.opensUp true
  | _, .mk _ (.whileStatement _ body) => body.opensUp true
  | _, .mk _ (.labeledStatement _ body) => body.opensUp false
  | true, .mk info (.blockStatement [inner]) =>
    info.trailing.isEmpty && inner.comments.isEmpty && !inner.isLexical && inner.opensUp false
  | _, .mk _ _ => false

/-- A statement without braces of its own opens up in the same way wherever it stands. -/
theorem opensUp_of_not_isBraced {n : Node} (h : n.isBraced = false) (isBody : Bool) :
    n.opensUp isBody = n.opensUp false := by
  obtain ⟨info, form⟩ := n
  cases form with
  | blockStatement => cases h
  | ifStatement test consequent alternate => cases alternate <;> simp only [opensUp]
  | _ => simp only [opensUp]

theorem unbraced_of_not_isBraced {n : Node} (h : n.isBraced = false) (beforeElse : Bool) :
    n.unbraced beforeElse = n := by
  obtain ⟨info, form⟩ := n
  cases form with
  | blockStatement => cases h
  | _ => rfl

/-- Before an else the braces are kept where an if statement would be open without them. -/
theorem endsInOpenIf_unbraced_true {n : Node} (h : n.isBraced) : (n.unbraced true).endsInOpenIf = false := by
  obtain ⟨info, form⟩ := n
  cases form with
  | blockStatement ns =>
    have hblock : (Node.mk info (.blockStatement ns)).endsInOpenIf = false := by simp only [endsInOpenIf]
    simp only [unbraced, Node.form]
    split
    · exact hblock
    · rcases ns with _ | ⟨inner, _ | ⟨m, ns⟩⟩
      · rfl
      · simp only [Bool.true_and]
        split
        · exact hblock
        · next hkept => exact (Bool.or_eq_false_iff.1 (Bool.eq_false_iff.2 hkept)).2
      · exact hblock
  | _ => cases h

/-- Without its braces a block ends in an open if statement as the one statement in it does. -/
theorem endsInOpenIf_unbraced_false (info : Info) (ns : List Node) :
    ((Node.mk info (.blockStatement ns)).unbraced false).endsInOpenIf =
      match ns with
      | [inner] => info.trailing.isEmpty && inner.comments.isEmpty && !inner.isLexical && inner.endsInOpenIf
      | _ => false := by
  have hblock : (Node.mk info (.blockStatement ns)).endsInOpenIf = false := by simp only [endsInOpenIf]
  simp only [unbraced, Node.form, Node.trailing, Node.info, Bool.false_and, Bool.or_false]
  rcases ns with _ | ⟨inner, _ | ⟨m, ns⟩⟩
  · split
    · exact hblock
    · rfl
  · dsimp only
    cases info.trailing.isEmpty <;> cases inner.comments.isEmpty <;> cases inner.isLexical <;> simp [hblock]
  · split <;> exact hblock

end Node

namespace Restyling

open Node

@[simp] theorem isBraced_run (r : Restyling) (n : Node) : (r.run n).isBraced = n.isBraced := by
  obtain ⟨info, form⟩ := n
  rw [run_mk]
  cases form <;> rfl

end Restyling

namespace Rule

open Node

/-- Whether a statement ends in an open if statement without the needless braces, those of the bodies in it and, where
it is a body, those around it. -/
theorem endsInOpenIf_run_stripBraces (n : Node) :
    (stripBraces.restyling.run n).endsInOpenIf = n.opensUp false ∧
      ((stripBraces.restyling.run n).unbraced false).endsInOpenIf = n.opensUp true := by
  induction n using byChildren with
  | node n ih =>
    have hopen : (stripBraces.restyling.run n).endsInOpenIf = n.opensUp false := by
      obtain ⟨info, form⟩ := n
      rw [Restyling.run_mk]
      cases form with
      | ifStatement test consequent alternate =>
        cases alternate with
        | none => simp only [Form.map, Restyling.form, Option.map_none, endsInOpenIf, opensUp]
        | some alternate =>
          simp only [Form.map, Restyling.form, Option.map_some, endsInOpenIf, opensUp]
          exact (ih alternate (by simp [children, Form.children, Node.form])).2
      | whileStatement test body | forInStatement left right body | forOfStatement left right body isAwait
      | forStatement init test update body =>
        simp only [Form.map, Restyling.form, endsInOpenIf, opensUp]
        exact (ih body (by simp [children, Form.children, Node.form])).2
      | labeledStatement label body =>
        simp only [Form.map, Restyling.form, endsInOpenIf, opensUp]
        exact (ih body (by simp [children, Form.children, Node.form])).1
      | _ => simp only [Form.map, Restyling.form, endsInOpenIf, opensUp]
    refine ⟨hopen, ?_⟩
    -- as a body the statement may lose braces of its own
    cases hbraced : n.isBraced with
    | false =>
      rw [unbraced_of_not_isBraced (by rw [Restyling.isBraced_run, hbraced]), hopen,
        opensUp_of_not_isBraced hbraced true]
    | true =>
      obtain ⟨info, form⟩ := n
      cases form with
      | blockStatement ns =>
        rw [Restyling.run_mk]
        refine (endsInOpenIf_unbraced_false _ (ns.map stripBraces.restyling.run)).trans ?_
        rcases ns with _ | ⟨inner, _ | ⟨m, ns⟩⟩
        · simp only [List.map_nil, opensUp]
        · simp only [List.map_cons, List.map_nil, List.isEmpty_map, Restyling.run_comments, Restyling.isLexical_run,
            (ih inner (List.mem_singleton_self inner)).1, opensUp]
        · simp only [List.map_cons, opensUp]
      | _ => cases hbraced

/-- The else of an if statement comes to be captured if the consequent has no braces and opens up. -/
theorem capturesElse_run_stripBraces (n : Node) :
    (stripBraces.restyling.run n).capturesElse =
      match n.form with
      | .ifStatement _ consequent (some _) => !consequent.isBraced && consequent.opensUp false
      | _ => false := by
  obtain ⟨info, form⟩ := n
  rw [Restyling.run_mk]
  cases form with
  | ifStatement test consequent alternate =>
    cases alternate with
    | none => rfl
    | some alternate =>
      simp only [capturesElse, Node.form, Form.map, Restyling.form, restyling, Option.map_some, Option.isSome_some]
      cases hbraced : consequent.isBraced with
      | true => exact endsInOpenIf_unbraced_true (by rw [Restyling.isBraced_run, hbraced])
      | false =>
        rw [unbraced_of_not_isBraced (by rw [Restyling.isBraced_run, hbraced])]
        exact (endsInOpenIf_run_stripBraces consequent).1
  | _ => rfl

/-- Taking braces off conserves what is found in no block and no empty statement. -/
theorem conserves_stripBraces {α : Type} {f : Node → List α} (hf : Fixed f) (form : Form Node) :
    Conserves stripBraces.restyling f form where
  consequent _ _ := gather_unbraced hf.loose hf.isReplaceable
  alternate _ _ := gather_unbraced hf.loose hf.isReplaceable false
  loopBody _ _ := gather_unbraced hf.loose hf.isReplaceable false

end Rule

namespace Node

/-- After braces are taken off, every else is still read as its own if statement's unless some consequent without
braces opens up before an else. -/
theorem unambiguous_stripBraces_iff {root : Node} :
    root.stripBraces.Unambiguous ↔
      ∀ n ∈ root.preorder, ∀ test consequent alternate, n.form = .ifStatement test consequent (some alternate) →
        consequent.isBraced = false → consequent.opensUp false = false := by
  have hstrip : root.stripBraces = Rule.stripBraces.restyling.run root := Rule.everywhere_step .stripBraces root
  have hperm : (root.stripBraces.gather captures).Perm
      (root.gather fun n => (Rule.stripBraces.restyling.run n).captures) := by
    rw [hstrip]
    exact gather_restyled (fun n _ => Rule.conserves_stripBraces fixed_captures _) fun _ _ => .refl _
  have hnil : root.stripBraces.Unambiguous ↔
      ∀ n ∈ root.preorder, (Rule.stripBraces.restyling.run n).capturesElse = false := by
    rw [unambiguous_iff, ← List.perm_nil, hperm.congr_left, List.perm_nil, gather_eq_nil_iff]
    simp only [captures_eq_nil_iff]
  rw [hnil]
  refine forall₂_congr fun n _ => ?_
  rw [Rule.capturesElse_run_stripBraces]
  constructor
  · intro h test consequent alternate hform hbraced
    simpa only [hform, hbraced, Bool.not_false, Bool.true_and] using h
  · intro h
    split
    · next test consequent alternate hform =>
      cases hbraced : consequent.isBraced with
      | true => rfl
      | false => exact h test consequent alternate hform hbraced
    · rfl

/-- Nothing but the if statement of the source captures an else, until the braces in the loop body are taken off. -/
theorem stripBraces_captures_else :
    ∃ s, Script.parse "if (a) for (;;) { if (b) c(); } else d();" = .ok s ∧
      s.program.Unambiguous ∧ ¬ s.program.stripBraces.Unambiguous := by
  have hprogram : (Script.parse "if (a) for (;;) { if (b) c(); } else d();").toOption.map (fun s =>
      (decide s.program.Unambiguous, decide s.program.stripBraces.Unambiguous)) = some (true, false) := by
    decide +kernel
  obtain ⟨s, hs, hdecided⟩ := Option.map_eq_some_iff.1 hprogram
  obtain ⟨hbefore, hafter⟩ := Prod.mk.inj hdecided
  exact ⟨s, eq_ok_of_toOption hs, of_decide_eq_true hbefore, of_decide_eq_false hafter⟩

end Node

end ScriptTidy
