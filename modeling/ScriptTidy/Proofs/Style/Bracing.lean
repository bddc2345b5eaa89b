/-
Braces as a matter of style. Two trees are bracings of one tree if nothing but the braces around
bodies tells them apart: once all of these are erased, the ones inside the others as well, the trees
are the same. Both rules for braces give a bracing of the tree that they are given. Insertion reaches
every body, also those in the blocks that it has just put in; the comments before a body do not get
lost, since a body has none where comments stand before owners only.
-/
import ScriptTidy.Proofs.Style.Dangling
import ScriptTidy.Proofs.Style.Ownership

namespace ScriptTidy

namespace Node

/-! ## Trees without braces -/

/-- A body without its braces, and without those of the only statement in them. Braces without a statement leave an
empty one; braces with comments before the closing one are kept. -/
def unwrapped : Node → Node
  | .mk info (.blockStatement []) =>
    if info.trailing.isEmpty then plain info.span .emptyStatement else .mk info (.blockStatement [])
  | .mk info (.blockStatement [inner]) =>
    if info.trailing.isEmpty then inner.unwrapped else .mk info (.blockStatement [inner])
  | n => n

/-- Erases the braces of all bodies. -/
def braceErasure : Restyling where
  consequent _ := unwrapped
  alternate := unwrapped
  loopBody := unwrapped

/-- The tree without the braces around loop bodies and branches. -/
def withoutBraces (root : Node) : Node := braceErasure.run root

theorem unwrapped_plain_block (span : Span) (n : Node) :
    (plain span (.blockStatement [n])).unwrapped = n.unwrapped := by
  unfold plain
  rw [unwrapped]
  exact if_pos rfl

/-! ## Bodies -/

/-- There is nothing to an empty statement but its place. -/
def IsLoneIfEmpty (n : Node) : Prop := n.form = .emptyStatement → n.comments = [] ∧ n.trailing = []

/-- Braces that are put around a body are erased again. -/
theorem unwrapped_run_braced {n : Node} (h : n.IsLoneIfEmpty) :
    (braceErasure.run n.braced).unwrapped = (braceErasure.run n).unwrapped := by
  have hwrapped : ∀ m : Node,
      (braceErasure.run (plain m.span (.blockStatement [m]))).unwrapped = (braceErasure.run m).unwrapped := fun m => by
    rw [Restyling.run_plain]
    exact unwrapped_plain_block ..
  obtain ⟨⟨span, comments, trailing⟩, form⟩ := n
  cases form with
  | blockStatement => rfl
  | emptyStatement =>
    obtain ⟨hcomments, htrailing⟩ := h rfl
    cases hcomments
    cases htrailing
    have hbraced : (Node.mk ⟨span, [], []⟩ .emptyStatement).braced = plain span (.blockStatement []) := rfl
    rw [hbraced, Restyling.run_plain, Restyling.run_mk]
    simp only [Form.map, Restyling.form, List.map_nil, plain, unwrapped, braceErasure, id, List.isEmpty_nil, if_true]
  | _ => exact hwrapped _

theorem unwrapped_run_bracedElse {n : Node} (h : n.IsLoneIfEmpty) :
    (braceErasure.run n.bracedElse).unwrapped = (braceErasure.run n).unwrapped := by
  unfold bracedElse
  split
  · rfl
  · exact unwrapped_run_braced h

/-- Braces that are taken off a body would have been erased. -/
theorem unwrapped_run_unbraced (beforeElse : Bool) (n : Node) :
    (braceErasure.run (n.unbraced beforeElse)).unwrapped = (braceErasure.run n).unwrapped := by
  obtain ⟨info, form⟩ := n
  cases form with
  | blockStatement ns =>
    by_cases htrailing : info.trailing = []
    · have hrun : (info.trailing.map braceErasure.comment).isEmpty = true := by rw [htrailing]; rfl
      have hopen : (!(Node.mk info (.blockStatement ns)).trailing.isEmpty) = false := by
        rw [Node.trailing, Node.info, htrailing]; rfl
      rw [unbraced, Node.form]
      dsimp only
      rw [hopen, if_neg Bool.false_ne_true]
      rcases ns with _ | ⟨inner, _ | ⟨m, ns⟩⟩
      · have hblock : braceErasure.run (.mk info (.blockStatement [])) =
            .mk ⟨info.span, info.comments.map braceErasure.comment, info.trailing.map braceErasure.comment⟩
              (.blockStatement []) := Restyling.run_mk ..
        rw [hblock, unwrapped, if_pos hrun]
        rfl
      · have hblock : braceErasure.run (.mk info (.blockStatement [inner])) =
            .mk ⟨info.span, info.comments.map braceErasure.comment, info.trailing.map braceErasure.comment⟩
              (.blockStatement [braceErasure.run inner]) := Restyling.run_mk ..
        dsimp only
        split
        · rfl
        · rw [hblock, unwrapped, if_pos hrun]
      · rfl
    · have hkept : (Node.mk info (.blockStatement ns)).unbraced beforeElse = .mk info (.blockStatement ns) := by
        simp [unbraced, Node.form, Node.trailing, Node.info, htrailing]
      rw [hkept]
  | _ => rfl

/-! ## Full bracing -/

/-- An else branch that needs no more braces: a block or an if statement. -/
def isBracedElse (n : Node) : Bool :=
  match n.form with
  | .ifStatement .. => true
  | _ => n.isBraced

/-- Every loop body and every first branch is a block, and every else branch a block or an if statement. -/
def hasBracedBodies (n : Node) : Bool :=
  match n.form with
  | .ifStatement _ consequent alternate => consequent.isBraced && alternate.all isBracedElse
  | form => form.bodies.all isBraced

/-- The node, if a body of it lacks braces. -/
def bareBodied (n : Node) : List Unit := if n.hasBracedBodies then [] else [()]

theorem bareBodied_eq_nil_iff {n : Node} : n.bareBodied = [] ↔ n.hasBracedBodies := by
  simp [bareBodied]

theorem fixed_bareBodied : Fixed bareBodied where
  withComments _ _ := rfl
  isMovable n h := by
    obtain ⟨info, form⟩ := n
    cases form <;> first | rfl | cases h

theorem isBraced_braced (n : Node) : n.braced.isBraced := by
  unfold braced
  split
  case h_1 hform => rw [isBraced, hform]
  case h_2 => rfl
  case h_3 => rfl

theorem isBracedElse_bracedElse (n : Node) : n.bracedElse.isBracedElse := by
  unfold bracedElse
  split
  case h_1 hform => rw [isBracedElse, hform]
  case h_2 =>
    unfold isBracedElse
    split
    · rfl
    · exact isBraced_braced n

end Node

namespace Rule

open Node

theorem hasBracedBodies_run_insertBraces (n : Node) : (insertBraces.restyling.run n).hasBracedBodies := by
  obtain ⟨info, form⟩ := n
  rw [Restyling.run_mk]
  cases form with
  | ifStatement test consequent alternate =>
    have helse : (alternate.map insertBraces.restyling.run).map bracedElse |>.all isBracedElse := by
      cases alternate with
      | none => rfl
      | some m => exact isBracedElse_bracedElse _
    simp only [hasBracedBodies, Node.form, Form.map, Restyling.form, Bool.and_eq_true]
    exact ⟨isBraced_braced _, helse⟩
  | whileStatement | doWhileStatement | forStatement | forInStatement | forOfStatement =>
    simp only [hasBracedBodies, Node.form, Form.map, Restyling.form, restyling, Form.bodies, List.all_cons,
      List.all_nil, isBraced_braced, Bool.and_self]
  | _ => rfl

/-- Putting braces in conserves what is found in no block and no empty statement. -/
theorem conserves_insertBraces {α : Type} {f : Node → List α} (hf : Fixed f) (form : Form Node) :
    Conserves insertBraces.restyling f form where
  consequent _ _ _ := gather_braced hf.loose hf.isReplaceable
  alternate _ _ := gather_bracedElse hf.loose hf.isReplaceable
  loopBody _ _ := gather_braced hf.loose hf.isReplaceable

end Rule

namespace Node

variable {root : Node}

theorem insertBraces_eq (root : Node) : root.insertBraces = Rule.insertBraces.restyling.run root :=
  Rule.everywhere_step .insertBraces root

theorem stripBraces_eq (root : Node) : root.stripBraces = Rule.stripBraces.restyling.run root :=
  Rule.everywhere_step .stripBraces root

theorem hasBracedBodies_insertBraces (root : Node) : ∀ n ∈ root.insertBraces.preorder, n.hasBracedBodies := by
  have hperm : (root.insertBraces.gather bareBodied).Perm
      (root.gather fun n => (Rule.insertBraces.restyling.run n).bareBodied) := by
    rw [insertBraces_eq]
    exact gather_restyled (fun n _ => Rule.conserves_insertBraces fixed_bareBodied _) fun _ _ => .refl _
  have hnone : (root.gather fun n => (Rule.insertBraces.restyling.run n).bareBodied) = [] :=
    gather_eq_nil_iff.2 fun n _ => bareBodied_eq_nil_iff.2 (Rule.hasBracedBodies_run_insertBraces n)
  rw [hnone] at hperm
  intro n hn
  exact bareBodied_eq_nil_iff.1 (gather_eq_nil_iff.1 hperm.eq_nil n hn)

/-! ## Bracings of one tree -/

/-- In a tree whose comments stand where they may, a body that is an empty statement holds none. -/
theorem isLoneIfEmpty_of_mem_bodies {n m : Node} (hn : n.strays = []) (hm : m ∈ n.form.bodies)
    (hstrays : m.strays = []) : m.IsLoneIfEmpty := by
  intro hform
  refine ⟨(strays_eq_nil_iff.1 hn).1 (m, false) (Form.mem_markOwned_of_mem_bodies _ hm) rfl, ?_⟩
  by_contra htrailing
  have hcontainer := (strays_eq_nil_iff.1 hstrays).2 htrailing
  rw [hform] at hcontainer
  cases hcontainer

theorem IsLoneIfEmpty.run {n : Node} (h : n.IsLoneIfEmpty) (r : Restyling) : (r.run n).IsLoneIfEmpty := by
  intro hform
  have hempty : n.form = .emptyStatement := by
    rw [Restyling.run_form] at hform
    revert hform
    cases n.form <;> simp [Form.map, Restyling.form]
  obtain ⟨hcomments, htrailing⟩ := h hempty
  rw [Restyling.run_comments, Restyling.run_trailing, hcomments, htrailing]
  exact ⟨rfl, rfl⟩

/-- Erasing braces undoes their insertion at a node whose empty bodies hold nothing. -/
theorem form_braceErasure_insertBraces {form : Form Node} (h : ∀ m ∈ form.bodies, m.IsLoneIfEmpty) :
    braceErasure.form ((Rule.insertBraces.restyling.form form).map braceErasure.run) =
      braceErasure.form (form.map braceErasure.run) := by
  cases form with
  | ifStatement test consequent alternate =>
    have hconsequent := unwrapped_run_braced (h consequent (List.mem_cons_self ..))
    simp only [Restyling.form, Form.map, braceErasure, Rule.restyling, Option.map_map] at hconsequent ⊢
    rw [hconsequent]
    congr 1
    exact Option.map_congr fun m hm => unwrapped_run_bracedElse (h m (by simp [Form.bodies, Option.mem_def.1 hm]))
  | whileStatement test body | doWhileStatement body test | forStatement init test update body
  | forInStatement left right body | forOfStatement left right body isAwait =>
    have hbody := unwrapped_run_braced (h body (List.mem_singleton_self body))
    simp only [Restyling.form, Form.map, braceErasure, Rule.restyling] at hbody ⊢
    rw [hbody]
  | _ => rfl

theorem form_braceErasure_stripBraces (form : Form Node) :
    braceErasure.form ((Rule.stripBraces.restyling.form form).map braceErasure.run) =
      braceErasure.form (form.map braceErasure.run) := by
  have hbody := unwrapped_run_unbraced
  cases form with
  | ifStatement test consequent alternate =>
    simp only [Restyling.form, Form.map, braceErasure, Rule.restyling, Option.map_map] at hbody ⊢
    rw [hbody]
    congr 1
    exact Option.map_congr fun m _ => hbody false m
  | whileStatement test body | doWhileStatement body test | forStatement init test update body
  | forInStatement left right body | forOfStatement left right body isAwait =>
    simp only [Restyling.form, Form.map, braceErasure, Rule.restyling] at hbody ⊢
    rw [hbody]
  | _ => rfl

/-- The tree with braces everywhere is a bracing of the tree. -/
theorem Housed.withoutBraces_insertBraces (h : root.Housed) : root.insertBraces.withoutBraces = root.withoutBraces := by
  have hstrays := (housed_iff.1 h).2
  rw [insertBraces_eq]
  refine Restyling.run_fuse_of_mem (fun _ => rfl) fun n hn => form_braceErasure_insertBraces fun m hm => ?_
  rw [Form.bodies_map] at hm
  obtain ⟨k, hk, rfl⟩ := List.mem_map.1 hm
  have hkid : k ∈ n.children := Form.mem_children_of_mem_bodies hk
  have hstray := hstrays k (mem_preorder_trans hn (mem_preorder_of_mem_children hkid))
  exact (isLoneIfEmpty_of_mem_bodies (hstrays n hn) hk hstray).run _

/-- The tree without needless braces is a bracing of the tree. -/
theorem withoutBraces_stripBraces (root : Node) : root.stripBraces.withoutBraces = root.withoutBraces := by
  rw [stripBraces_eq]
  exact Restyling.run_fuse (fun _ => rfl) form_braceErasure_stripBraces root

/-- The rules for braces change the bracing of a tree and nothing else, and insertion leaves no body without braces,
at whatever depth. -/
theorem bracings_agree (h : root.Housed) :
    root.insertBraces.withoutBraces = root.withoutBraces ∧ root.stripBraces.withoutBraces = root.withoutBraces ∧
      ∀ n ∈ root.insertBraces.preorder, n.hasBracedBodies :=
  ⟨h.withoutBraces_insertBraces, withoutBraces_stripBraces root, hasBracedBodies_insertBraces root⟩

/-- A loop whose body is an if statement without braces, with a comment in the only braces: those around its else. -/
def halfBraced : Node :=
  let place : Span := ⟨0, 0, 1⟩
  let test := plain place .thisExpression
  let closing := .mk ⟨place, [], [⟨.line, " last", 0, 7, 1⟩]⟩ (.blockStatement [plain place .debuggerStatement])
  plain place (.program
    [plain place (.whileStatement test (plain place (.ifStatement test (plain place .emptyStatement) (some closing))))]
    "")

theorem bracings_agree_halfBraced :
    halfBraced.Housed ∧ halfBraced.insertBraces.withoutBraces = halfBraced.stripBraces.withoutBraces ∧
      (∀ n ∈ halfBraced.insertBraces.preorder, n.hasBracedBodies) ∧
      halfBraced.preorder.map hasBracedBodies = [true, false, true, false, true, true, true, true] := by
  have hhoused : halfBraced.Housed := housed_iff.2 ⟨rfl, by decide +kernel⟩
  obtain ⟨hinsert, hstrip, hbraced⟩ := bracings_agree hhoused
  exact ⟨hhoused, hinsert.trans hstrip.symm, hbraced, by decide +kernel⟩

end Node

end ScriptTidy
