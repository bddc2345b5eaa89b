/-
Addresses in a tree. A node is told from all others by the way to it from the root, a list of
indices of children; two nodes at different addresses may be equal. The walk that lists parents
first is a recursion over the children, and the nodes that it lists next to the owning positions
are those at some address.
-/
import Mathlib.Algebra.Order.BigOperators.Group.List
import Mathlib.Algebra.Order.Group.Nat
import ScriptTidy.Proofs.Lists
import ScriptTidy.Proofs.Syntax.Forms

namespace ScriptTidy

namespace Node

/-! ## Induction over a tree -/

theorem size_lt_of_mem_children {n m : Node} (h : m ∈ n.children) : m.size < n.size := by
  have hle := List.le_sum_of_mem (List.mem_map_of_mem (f := size) h)
  rw [size_eq n]; omega

/-- What holds of a node whenever it holds of its children holds of every node. -/
@[elab_as_elim]
theorem byChildren {P : Node → Prop} (node : ∀ n, (∀ m ∈ n.children, P m) → P n) (n : Node) : P n :=
  node n fun m _ => byChildren node m
termination_by n.size
decreasing_by exact size_lt_of_mem_children ‹_›

/-! ## Parents first -/

theorem visitDown_append (a b : List Node) : visitDown (a ++ b) = visitDown a ++ visitDown b := by
  fun_induction visitDown a with
  | case1 => rfl
  | case2 n stack ih => rw [List.cons_append, visitDown, ← List.append_assoc, ih, List.cons_append]

theorem visitDown_eq (stack : List Node) : visitDown stack = stack.flatMap preorder := by
  induction stack with
  | nil => rw [visitDown]; rfl
  | cons n stack ih => rw [← List.singleton_append, visitDown_append, ih]; rfl

/-- A node is listed before its children, and they one after another. -/
theorem preorder_eq (n : Node) : n.preorder = n :: n.children.flatMap preorder := by
  rw [preorder, visitDown, List.append_nil, visitDown_eq]

/-- What holds of all nodes of a tree holds of the root and of all nodes below it. -/
theorem forall_preorder_iff {n : Node} {P : Node → Prop} :
    (∀ m ∈ n.preorder, P m) ↔ P n ∧ ∀ k ∈ n.children, ∀ m ∈ k.preorder, P m := by
  rw [preorder_eq]
  simp only [List.mem_cons, List.mem_flatMap, forall_eq_or_imp]
  exact and_congr_right fun _ => ⟨fun h k hk m hm => h m ⟨k, hk, hm⟩, fun h m ⟨k, hk, hm⟩ => h k hk m hm⟩

theorem mem_preorder_self (n : Node) : n ∈ n.preorder := by
  rw [preorder_eq]
  exact List.mem_cons_self ..

theorem mem_preorder_of_mem_children {n m : Node} (h : m ∈ n.children) : m ∈ n.preorder := by
  rw [preorder_eq]
  exact List.mem_cons_of_mem _ (List.mem_flatMap.2 ⟨m, h, mem_preorder_self m⟩)

theorem mem_preorder_trans {n m k : Node} (hm : m ∈ n.preorder) (hk : k ∈ m.preorder) : k ∈ n.preorder := by
  induction n using byChildren with
  | node n ih =>
    rw [preorder_eq, List.mem_cons, List.mem_flatMap] at hm
    rcases hm with rfl | ⟨c, hc, hm⟩
    · exact hk
    · rw [preorder_eq]
      exact List.mem_cons_of_mem _ (List.mem_flatMap.2 ⟨c, hc, ih c hc hm⟩)

theorem allComments_eq (n : Node) :
    n.allComments = n.heldComments ++ n.children.flatMap allComments := by
  unfold allComments
  rw [preorder_eq, List.flatMap_cons, List.flatMap_assoc]

/-! ## Addresses -/

/-- The node at an address, which lists the indices of the children to descend through. -/
def at? : Node → List Nat → Option Node
  | n, [] => some n
  | n, i :: path => n.children[i]?.bind fun m => m.at? path

/-- The children, with whether each stands in an owning position. -/
def ownedChildren (n : Node) : List (Node × Bool) :=
  (n.form.markOwned fun m => m.form.isVariableDeclaration).children

/-- The node at an address stands in an owning position. Of the node at the empty address this has
to be told. -/
def ownedAt : Node → Bool → List Nat → Bool
  | _, owned, [] => owned
  | n, _, i :: path => n.ownedChildren[i]?.any fun m => m.1.ownedAt m.2 path

theorem at?_nil (n : Node) : n.at? [] = some n := rfl

theorem at?_cons {n m : Node} {i : Nat} {path : List Nat} :
    n.at? (i :: path) = some m ↔ ∃ k, n.children[i]? = some k ∧ k.at? path = some m :=
  Option.bind_eq_some_iff

/-- What holds at all addresses holds of the root and at all addresses of its children. -/
theorem forall_at_iff {n : Node} {P : Node → Prop} :
    (∀ path m, n.at? path = some m → P m) ↔ P n ∧ ∀ k ∈ n.children, ∀ path m, k.at? path = some m → P m := by
  constructor
  · intro h
    refine ⟨h [] n rfl, ?_⟩
    intro k hk path m hat
    obtain ⟨i, hi⟩ := List.mem_iff_getElem?.1 hk
    exact h (i :: path) m (at?_cons.2 ⟨k, hi, hat⟩)
  · rintro ⟨hroot, hkids⟩ path m hat
    cases path with
    | nil =>
      obtain rfl := Option.some.inj hat
      exact hroot
    | cons i path =>
      obtain ⟨k, hk, hat⟩ := at?_cons.1 hat
      exact hkids k (List.mem_of_getElem? hk) path m hat

/-- What holds at all addresses holds of all nodes. -/
theorem forall_at_iff_forall_preorder {n : Node} {P : Node → Prop} :
    (∀ path m, n.at? path = some m → P m) ↔ ∀ m ∈ n.preorder, P m := by
  induction n using byChildren with
  | node n ih =>
    rw [forall_at_iff, forall_preorder_iff]
    exact and_congr_right fun _ => forall₂_congr fun k hk => ih k hk

theorem children_eq_map (n : Node) : n.children = n.ownedChildren.map (·.1) :=
  (Form.children_markOwned _ _).symm

theorem mem_children_of_owned {n : Node} {m : Node × Bool} (h : m ∈ n.ownedChildren) : m.1 ∈ n.children := by
  rw [children_eq_map]
  exact List.mem_map_of_mem h

theorem getElem?_children (n : Node) (i : Nat) :
    n.children[i]? = n.ownedChildren[i]?.map (·.1) := by
  rw [children_eq_map, List.getElem?_map]

/-! ## Owning positions, node by node -/

theorem ownership_mk (info : Info) (form : Form Node) (owned : Bool) :
    (Node.mk info form).ownership owned =
      owned :: (Node.mk info form).ownedChildren.flatMap fun m => m.1.ownership m.2 := by
  unfold ownership
  rw [para_mk, Form.markOwned_map, Form.children_map, List.flatMap_map]
  rfl

theorem length_ownership (n : Node) : ∀ owned, (n.ownership owned).length = n.preorder.length := by
  induction n using byChildren with
  | node n ih =>
    obtain ⟨info, form⟩ := n
    intro owned
    rw [ownership_mk, preorder_eq, children_eq_map, List.length_cons, List.length_cons,
      List.length_flatMap, List.flatMap_map, List.length_flatMap]
    congr 2
    exact List.map_congr_left fun m hm => ih m.1 (mem_children_of_owned hm) m.2

theorem zip_ownership (n : Node) (owned : Bool) :
    n.preorder.zip (n.ownership owned) =
      (n, owned) :: n.ownedChildren.flatMap fun m => m.1.preorder.zip (m.1.ownership m.2) := by
  cases n with
  | mk info form =>
    rw [ownership_mk, preorder_eq, children_eq_map, List.zip_cons_cons, List.flatMap_map, zip_flatMap]
    exact fun m _ => (length_ownership m.1 m.2).symm

/-- Every node that the walk lists next to a mark is at an address to which the mark belongs. -/
theorem exists_at_of_mem_zip (n : Node) : ∀ {owned : Bool} {m : Node × Bool},
    m ∈ n.preorder.zip (n.ownership owned) → ∃ path, n.at? path = some m.1 ∧ n.ownedAt owned path = m.2 := by
  induction n using byChildren with
  | node n ih =>
    obtain ⟨info, form⟩ := n
    intro owned m hm
    rw [zip_ownership, List.mem_cons, List.mem_flatMap] at hm
    rcases hm with rfl | ⟨k, hk, hm⟩
    · exact ⟨[], rfl, rfl⟩
    · obtain ⟨i, hi⟩ := List.mem_iff_getElem?.1 hk
      have hc : (Node.mk info form).children[i]? = some k.1 := by rw [getElem?_children, hi]; rfl
      obtain ⟨path, hat, how⟩ := ih k.1 (List.mem_of_getElem? hc) hm
      refine ⟨i :: path, at?_cons.2 ⟨k.1, hc, hat⟩, ?_⟩
      rw [ownedAt, hi, Option.any_some]
      exact how

/-! ## Trees without their comments -/

/-- The tree without its comments. -/
def uncommented : Node → Node := everywhere fun n => .plain n.span n.form

theorem uncommented_eq (n : Node) : n.uncommented = .plain n.span (n.form.map uncommented) := by
  obtain ⟨info, form⟩ := n
  unfold uncommented everywhere
  rw [para_mk, Form.map_map]
  rfl

end Node

end ScriptTidy
