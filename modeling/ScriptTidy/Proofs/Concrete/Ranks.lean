/-
Nodes that are read of sound concrete trees. Such a node can be printed: its parts stand in their roles and
belong together, its names and operators are words, and its numbers have their places. What it can stand for
is told by the rank of the concrete node it is read of. It is spelled as in a script as well, the second names
of meta properties apart, which begin with whatever stands behind the point.
-/
import ScriptTidy.Proofs.Grammar.Kinds
import ScriptTidy.Proofs.Layout.Leading
import ScriptTidy.Proofs.Layout.Shape
import ScriptTidy.Proofs.Style.Invariants

namespace ScriptTidy

open Spacing

/-! ## Forms -/

namespace Form

variable {α : Type} {form : Form α} {r : Rank}

/-- What is read of a concrete node of the rank has such a form. -/
def hasRank : Rank → Form α → Bool
  | .statement, form => form.isListed
  | .declaration, form => form.isListed && form.fits .inner
  | .assignment, form | .operand, form => form.isExpression
  | .part, form => form.fits .inner

theorem fits_inner_of_isExpression (h : form.isExpression) : form.fits .inner := by
  cases form <;> first | rfl | cases h

theorem fits_statement_of_isListed (h : form.isListed) : form.fits .statement := by
  cases form <;> first | rfl | cases h

theorem fits_statement_of_inner (h : form.fits .inner) : form.fits .statement := by
  cases form <;> first | rfl | cases h

theorem fits_inner_of_hasRank (hr : r.isInner) (h : form.hasRank r) : form.fits .inner := by
  cases r with
  | statement => cases hr
  | declaration => exact (Bool.and_eq_true_iff.1 h).2
  | assignment => exact fits_inner_of_isExpression h
  | operand => exact fits_inner_of_isExpression h
  | part => exact h

theorem isListed_of_hasRank (hr : r.isListed) (h : form.hasRank r) : form.isListed := by
  cases r with
  | statement => exact h
  | declaration => exact (Bool.and_eq_true_iff.1 h).1
  | assignment => cases hr
  | operand => cases hr
  | part => cases hr

theorem isExpression_of_hasRank (hr : r.isExpression) (h : form.hasRank r) : form.isExpression := by
  cases r with
  | statement => cases hr
  | declaration => cases hr
  | assignment => exact h
  | operand => exact h
  | part => cases hr

theorem fits_statement_of_hasRank (h : form.hasRank r) : form.fits .statement := by
  cases hr : r.isInner with
  | true => exact fits_statement_of_inner (fits_inner_of_hasRank hr h)
  | false =>
    cases r with
    | statement => exact fits_statement_of_isListed h
    | declaration => cases hr
    | assignment => cases hr
    | operand => cases hr
    | part => cases hr

/-- No words are asked of the node but that its parts are whole. -/
def isCommon : Form α → Bool
  | .identifier _ | .literal .. | .metaProperty .. | .unaryExpression .. | .updateExpression .. |
    .variableDeclaration ..
  | .sequenceExpression .. | .switchStatement .. | .switchCase .. => false
  | _ => true

/-- All parts of the node stand in the middle of a line. -/
def isUniform : Form α → Bool
  | .program .. | .blockStatement .. | .classBody .. | .ifStatement .. | .whileStatement .. | .doWhileStatement ..
  | .forStatement .. | .forInStatement .. | .forOfStatement .. | .labeledStatement .. | .switchStatement ..
  | .switchCase .. | .tryStatement .. | .methodDefinition .. | .property .. => false
  | _ => true

theorem markRoles_of_isUniform (h : form.isUniform) : form.markRoles = form.map (·, .inner) := by
  cases form <;> first | rfl | cases h

theorem isWorded_of_isCommon {form : Form Node} (h : form.isCommon) :
    form.isWorded = form.children.all (·.form.isWhole) := by
  cases form <;> first | rfl | cases h

theorem isWhole_of_isCommon (h : form.isCommon) : form.isWhole := by
  cases form <;> first | rfl | cases h

/-- The second name of a meta property is spelled like a name. -/
def isTargetSpelled : Form Node → Bool
  | .metaProperty _ target => target.form.isSpelled
  | _ => true

end Form

/-! ## Nodes -/

namespace Node

variable {span : Span} {form : Form Node} {p q : Rank → Bool} {r : Rank} {n : Node} {ns ms : List Node}

/-- The second names of all meta properties are spelled like names. -/
def TargetsSpelled (root : Node) : Prop := ∀ n ∈ root.preorder, n.form.isTargetSpelled

instance (root : Node) : Decidable root.TargetsSpelled :=
  inferInstanceAs (Decidable (∀ n ∈ root.preorder, n.form.isTargetSpelled))

/-- All parts can stand in their roles. -/
def AllStand (parts : List (Node × Role)) : Prop := ∀ m ∈ parts, m.1.form.fits m.2

@[simp] theorem allStand_nil : AllStand [] := fun _ h => nomatch h

@[simp] theorem allStand_cons {m : Node × Role} {parts : List (Node × Role)} :
    AllStand (m :: parts) ↔ m.1.form.fits m.2 ∧ AllStand parts := List.forall_mem_cons

@[simp] theorem allStand_append {parts others : List (Node × Role)} :
    AllStand (parts ++ others) ↔ AllStand parts ∧ AllStand others := List.forall_mem_append

theorem allStand_map {role : Role} (h : ∀ n ∈ ns, n.form.fits role) : AllStand (ns.map (·, role)) := by
  intro m hm
  obtain ⟨n, hn, rfl⟩ := List.mem_map.1 hm
  exact h n hn

/-- A node that can be printed, and sorted by, if its parts can. -/
structure IsSound (n : Node) : Prop where
  roles : AllStand n.form.markRoles.children
  coherent : n.form.isCoherent
  worded : n.form.isWorded
  number : n.isNaN = false

/-- A tree all nodes of which can be printed. -/
structure Sound (root : Node) : Prop where
  nodes : ∀ n ∈ root.preorder, n.IsSound
  spelled : root.TargetsSpelled → root.Spelled

/-- A sound tree that was read of a concrete node of the rank. -/
structure Ranked (r : Rank) (n : Node) : Prop where
  sound : n.Sound
  whole : n.form.isWhole
  rank : n.form.hasRank r

/-- A sound tree that was read of a concrete node with a rank of the property. -/
def Has (p : Rank → Bool) (n : Node) : Prop := ∃ r, p r ∧ n.Ranked r

/-- Sound trees that were read of concrete nodes with ranks of the property. -/
def AllHave (p : Rank → Bool) (ns : List Node) : Prop := ∀ n ∈ ns, n.Has p

@[simp] theorem allHave_nil : AllHave p [] := fun _ h => nomatch h

@[simp] theorem allHave_cons : AllHave p (n :: ns) ↔ n.Has p ∧ AllHave p ns := List.forall_mem_cons

@[simp] theorem allHave_append : AllHave p (ns ++ ms) ↔ AllHave p ns ∧ AllHave p ms := List.forall_mem_append

theorem allHave_flatten {ns : List (List Node)} (h : ∀ l ∈ ns, AllHave p l) : AllHave p ns.flatten := by
  intro n hn
  obtain ⟨l, hl, hn⟩ := List.mem_flatten.1 hn
  exact h l hl n hn

theorem Ranked.has (h : n.Ranked r) (hp : p r) : n.Has p := ⟨r, hp, h⟩

namespace Has

theorem sound (h : n.Has p) : n.Sound := h.choose_spec.2.sound

theorem whole (h : n.Has p) : n.form.isWhole := h.choose_spec.2.whole

theorem mono (h : n.Has p) (hpq : ∀ r, p r → q r) : n.Has q := by
  obtain ⟨r, hr, h⟩ := h
  exact ⟨r, hpq r hr, h⟩

theorem any (h : n.Has p) : n.Has Rank.isAny := h.mono fun _ _ => rfl

theorem asInner (h : n.Has Rank.isExpression) : n.Has Rank.isInner := h.mono fun _ => Rank.isInner_of_isExpression

/-- Whatever is read can stand among statements. -/
theorem statement (h : n.Has p) : n.form.fits .statement := by
  obtain ⟨r, -, h⟩ := h
  exact Form.fits_statement_of_hasRank h.rank

theorem inner (h : n.Has Rank.isInner) : n.form.fits .inner := by
  obtain ⟨r, hr, h⟩ := h
  exact Form.fits_inner_of_hasRank hr h.rank

theorem listed (h : n.Has Rank.isListed) : n.form.isListed := by
  obtain ⟨r, hr, h⟩ := h
  exact Form.isListed_of_hasRank hr h.rank

theorem expression (h : n.Has Rank.isExpression) : n.form.isExpression := by
  obtain ⟨r, hr, h⟩ := h
  exact Form.isExpression_of_hasRank hr h.rank

end Has

namespace AllHave

theorem statement (h : AllHave p ns) : AllStand (ns.map (·, .statement)) := allStand_map fun n hn => (h n hn).statement

theorem inner (h : AllHave Rank.isInner ns) : AllStand (ns.map (·, .inner)) := allStand_map fun n hn => (h n hn).inner

theorem mono (h : AllHave p ns) (hpq : ∀ r, p r → q r) : AllHave q ns := fun n hn => (h n hn).mono hpq

theorem any (h : AllHave p ns) : AllHave Rank.isAny ns := fun n hn => (h n hn).any

end AllHave

/-! ## Nodes from their parts -/

theorem sound_plain (h : (plain span form).IsSound) (hspelled : form.isSpelled)
    (hparts : ∀ m ∈ form.children, m.Sound) : (plain span form).Sound where
  nodes := forall_preorder_iff.2 ⟨h, fun m hm => (hparts m hm).nodes⟩
  spelled htargets := forall_preorder_iff.2
    ⟨hspelled, fun m hm => (hparts m hm).spelled fun k hk =>
      htargets k (mem_preorder_trans (mem_preorder_of_mem_children hm) hk)⟩

theorem ranked_plain (h : (plain span form).IsSound) (hspelled : form.isSpelled) (hwhole : form.isWhole)
    (hrank : form.hasRank r) (hparts : ∀ m ∈ form.children, m.Sound) : (plain span form).Ranked r where
  sound := sound_plain h hspelled hparts
  whole := hwhole
  rank := hrank

theorem isNaN_of_isCommon (h : form.isCommon) : (plain span form).isNaN = false := by
  cases form <;> first | rfl | cases h

/-- A node of which no words are asked but that its parts are whole. -/
theorem ranked_common (hcommon : form.isCommon) (hcoherent : form.isCoherent) (hspelled : form.isSpelled)
    (hrank : form.hasRank r) (hroles : AllStand form.markRoles.children)
    (hparts : AllHave Rank.isAny form.children) : (plain span form).Ranked r := by
  refine ranked_plain ⟨hroles, hcoherent, ?_, isNaN_of_isCommon hcommon⟩ hspelled
    (Form.isWhole_of_isCommon hcommon) hrank
    fun m hm => (hparts m hm).sound
  show form.isWorded = true
  rw [Form.isWorded_of_isCommon hcommon, List.all_eq_true]
  exact fun m hm => (hparts m hm).whole

theorem allStand_of_isUniform (huniform : form.isUniform) (hparts : ∀ m ∈ form.children, m.form.fits .inner) :
    AllStand form.markRoles.children := by
  rw [Form.markRoles_of_isUniform huniform, Form.children_map]
  exact allStand_map hparts

/-- A node all parts of which stand in the middle of a line. -/
theorem ranked_uniform (hcommon : form.isCommon) (huniform : form.isUniform) (hcoherent : form.isCoherent)
    (hspelled : form.isSpelled) (hrank : form.hasRank r) (hparts : AllHave Rank.isInner form.children) :
    (plain span form).Ranked r :=
  ranked_common hcommon hcoherent hspelled hrank
    (allStand_of_isUniform huniform fun m hm => (hparts m hm).inner) hparts.any

end Node

end ScriptTidy
