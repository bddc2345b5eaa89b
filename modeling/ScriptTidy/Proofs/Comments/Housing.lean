/-
Where comments may stand. Attaching leaves leading comments before nodes in owning positions only,
and trailing ones in containers only. Whether a tree is such a tree can be seen node by node, from
what each node holds itself and what its children hold.
-/
import ScriptTidy.Proofs.Comments.Conservation

namespace ScriptTidy

namespace Node

/-! ## Where comments may stand -/

/-- The comments of a tree stand where they may: leading ones before owners, and trailing ones in
containers. -/
structure Housed (root : Node) : Prop where
  /-- Only owners have comments before them. -/
  owned : ∀ {path n}, root.at? path = some n → n.comments ≠ [] → root.ownedAt false path
  /-- Only containers have trailing comments. -/
  contained : ∀ {path n}, root.at? path = some n → n.trailing ≠ [] → n.form.isContainer

theorem Settled.housed {root : Node} (h : root.Settled) : root.Housed := ⟨h.owned, h.contained⟩

/-- No child that does not own comments holds any. -/
def Bare (form : Form Node) : Prop :=
  ∀ m ∈ (form.markOwned fun m => m.form.isVariableDeclaration).children, m.2 = false → m.1.comments = []

/-- The comments that stand astray at a single node: those of children that do not own them, and its
own trailing ones if it is no container. -/
def strays (n : Node) : List Comment :=
  (n.ownedChildren.filter fun m => !m.2).flatMap (·.1.comments) ++ if n.form.isContainer then [] else n.trailing

theorem strays_eq_nil_iff {n : Node} : n.strays = [] ↔ Bare n.form ∧ (n.trailing ≠ [] → n.form.isContainer) := by
  unfold strays
  rw [List.append_eq_nil_iff, List.flatMap_eq_nil_iff]
  refine and_congr ?_ ?_
  · simp only [List.mem_filter, Bool.not_eq_true', and_imp]
    exact Iff.rfl
  · cases n.form.isContainer <;> simp

/-- Only owners have comments if that is so at the root and below each of its children. -/
theorem forall_ownedAt_iff {n : Node} {owned : Bool} :
    (∀ path m, n.at? path = some m → m.comments ≠ [] → n.ownedAt owned path) ↔
      (n.comments ≠ [] → owned) ∧
        ∀ k ∈ n.ownedChildren, ∀ path m, k.1.at? path = some m → m.comments ≠ [] → k.1.ownedAt k.2 path := by
  constructor
  · intro h
    refine ⟨h [] n rfl, ?_⟩
    intro k hk path m hat hm
    obtain ⟨i, hi⟩ := List.mem_iff_getElem?.1 hk
    have hchild : n.children[i]? = some k.1 := by rw [getElem?_children, hi]; rfl
    have howned := h (i :: path) m (at?_cons.2 ⟨k.1, hchild, hat⟩) hm
    rwa [ownedAt, hi] at howned
  · rintro ⟨hroot, hkids⟩ path m hat hm
    cases path with
    | nil =>
      rw [← Option.some.inj hat] at hm
      exact hroot hm
    | cons i path =>
      obtain ⟨k, hk, hat⟩ := at?_cons.1 hat
      rw [getElem?_children] at hk
      obtain ⟨k', hi, rfl⟩ := Option.map_eq_some_iff.1 hk
      rw [ownedAt, hi]
      exact hkids k' (List.mem_of_getElem? hi) path m hat hm

/-- The comments below a node stand where they may if none stands astray at any node. -/
theorem forall_at_iff_strays (n : Node) : ∀ owned : Bool,
    ((∀ path m, n.at? path = some m → m.comments ≠ [] → n.ownedAt owned path) ∧
      ∀ path m, n.at? path = some m → m.trailing ≠ [] → m.form.isContainer) ↔
    (n.comments ≠ [] → owned) ∧ ∀ m ∈ n.preorder, m.strays = [] := by
  induction n using byChildren with
  | node n ih =>
    intro owned
    have ih' (k : Node × Bool) (hk : k ∈ n.ownedChildren) := ih k.1 (mem_children_of_owned hk) k.2
    rw [forall_ownedAt_iff, forall_at_iff, forall_preorder_iff, strays_eq_nil_iff, children_eq_map]
    simp only [List.mem_map, forall_exists_index, and_imp, forall_apply_eq_imp_iff₂]
    constructor
    · rintro ⟨⟨hroot, hkids⟩, htrailing, hcontained⟩
      have hkid (k) (hk : k ∈ n.ownedChildren) := (ih' k hk).1 ⟨hkids k hk, hcontained k hk⟩
      refine ⟨hroot, ⟨?_, htrailing⟩, fun k hk => (hkid k hk).2⟩
      intro k hk hfree
      by_contra hm
      rw [(hkid k hk).1 hm] at hfree
      cases hfree
    · rintro ⟨hroot, ⟨hfree, htrailing⟩, hkids⟩
      have hkid (k) (hk : k ∈ n.ownedChildren) := (ih' k hk).2 ⟨fun hm => by
        by_contra hk2
        exact hm (hfree k hk (Bool.not_eq_true _ ▸ hk2)), hkids k hk⟩
      exact ⟨⟨hroot, fun k hk => (hkid k hk).1⟩, htrailing, fun k hk => (hkid k hk).2⟩

theorem housed_iff {root : Node} : root.Housed ↔ root.comments = [] ∧ ∀ n ∈ root.preorder, n.strays = [] := by
  have h := forall_at_iff_strays root false
  rw [show (root.comments ≠ [] → false = true) ↔ root.comments = [] by simp] at h
  exact Iff.trans ⟨fun h => ⟨fun _ _ => h.owned, fun _ _ => h.contained⟩, fun h => ⟨h.1 _ _, h.2 _ _⟩⟩ h

end Node

end ScriptTidy
