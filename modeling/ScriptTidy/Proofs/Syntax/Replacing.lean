/-
Changing one node of a tree. The parts of a form are numbered in the order of their text, so that the
part of one number can be changed; and a node is found by the numbers on the way to it from the root.
A change that leaves the node at the address as it is leaves the tree as it is.
-/
import ScriptTidy.Proofs.Syntax.Addresses

namespace ScriptTidy

namespace Form

variable {α β γ : Type}

/-! ## Numbers -/

/-- The action that gives out the next number. -/
def number (a : α) : StateM Nat (Nat × α) := fun i => ((i, a), i + 1)

/-- The form with its children numbered. -/
def numbered (form : Form α) : Form (Nat × α) := (form.traverse number 0).1

section Actions

variable {m : Type → Type} [Monad m] [LawfulMonad m] (g : β → γ) (f : α → m β)

theorem map_after_mapM (as : List α) : List.map g <$> as.mapM f = as.mapM fun a => g <$> f a := by
  induction as with
  | nil => simp
  | cons a as ih => simp [← ih]

theorem map_after_option_mapM (o : Option α) : Option.map g <$> o.mapM f = o.mapM fun a => g <$> f a := by
  cases o <;> simp

theorem map_after_slots_mapM (as : List (Option α)) :
    List.map (Option.map g) <$> as.mapM (Option.mapM f) = as.mapM (Option.mapM fun a => g <$> f a) := by
  rw [map_after_mapM]
  congr 1
  funext o
  exact map_after_option_mapM g f o

/-- What an action makes of the children can be replaced afterwards or at once. -/
theorem map_after_traverse (form : Form α) : map g <$> form.traverse f = form.traverse fun a => g <$> f a := by
  cases form <;> simp [map, traverse, ← map_after_mapM, ← map_after_option_mapM, ← map_after_slots_mapM]

end Actions

theorem numbered_map (g : α → β) (form : Form α) :
    (form.map g).numbered = form.numbered.map fun p => (p.1, g p.2) := by
  have h := congrArg (fun x : StateM Nat _ => (x 0).1)
    (map_after_traverse (fun p : Nat × α => (p.1, g p.2)) number form)
  rw [numbered, traverse_map]
  exact h.symm

theorem map_snd_numbered (form : Form α) : form.numbered.map (·.2) = form := by
  rw [numbered, map_traverse form 0 (h := id) fun a _ _ => rfl]
  exact map_eq_self fun a _ => rfl

theorem getElem?_mapM_number (as : List α) (i j : Nat) :
    ((as.mapM number : StateM Nat _) i).1[j]? = as[j]?.map fun a => (i + j, a) := by
  induction as generalizing i j with
  | nil => rfl
  | cons a as ih =>
    rw [List.mapM_cons, bind_apply, bind_apply, pure_apply]
    cases j with
    | zero => rfl
    | succ j =>
      rw [List.getElem?_cons_succ, List.getElem?_cons_succ]
      refine (ih (i + 1) j).trans ?_
      rw [Nat.add_right_comm, Nat.add_assoc]

/-- The children are numbered from zero. -/
theorem getElem?_children_numbered (form : Form α) (j : Nat) :
    form.numbered.children[j]? = form.children[j]?.map fun a => (j, a) := by
  have h := congrArg (fun x : StateM Nat _ => (x 0).1) (children_traverse number form)
  have hchildren : form.numbered.children = ((form.children.mapM number : StateM Nat _) 0).1 := h
  rw [hchildren, getElem?_mapM_number, Nat.zero_add]

/-! ## Changing a part -/

/-- The form with the child of one number changed. -/
def modifyChild (k : Nat) (f : α → α) (form : Form α) : Form α :=
  form.numbered.map fun p => if p.1 = k then f p.2 else p.2

theorem map_modifyChild {f : α → α} {f' : β → β} {g : α → β} (h : ∀ a, g (f a) = f' (g a)) (k : Nat) (form : Form α) :
    (form.modifyChild k f).map g = (form.map g).modifyChild k f' := by
  rw [modifyChild, modifyChild, numbered_map, map_map, map_map]
  refine map_congr fun p _ => ?_
  rw [apply_ite g, h]

theorem modifyChild_eq_self {k : Nat} {f : α → α} {form : Form α} (h : ∀ a, form.children[k]? = some a → f a = a) :
    form.modifyChild k f = form := by
  conv_rhs => rw [← form.map_snd_numbered]
  refine map_congr fun p hp => ?_
  split
  case isTrue hk =>
    obtain ⟨j, hj⟩ := List.mem_iff_getElem?.1 hp
    rw [getElem?_children_numbered] at hj
    obtain ⟨a, ha, rfl⟩ := Option.map_eq_some_iff.1 hj
    obtain rfl : j = k := hk
    exact h a ha
  case isFalse => rfl

end Form

namespace Node

/-- The tree with the node at an address changed. -/
def modifyAt (f : Node → Node) : List Nat → Node → Node
  | [], n => f n
  | k :: path, n => n.withForm (n.form.modifyChild k (modifyAt f path))

theorem modifyAt_eq_self {f : Node → Node} {path : List Nat} {n : Node} (h : ∀ m, n.at? path = some m → f m = m) :
    n.modifyAt f path = n := by
  induction path generalizing n with
  | nil => exact h n rfl
  | cons k path ih =>
    have hform : n.form.modifyChild k (modifyAt f path) = n.form :=
      Form.modifyChild_eq_self fun m hm => ih fun m' hm' => h m' (at?_cons.2 ⟨m, hm, hm'⟩)
    rw [modifyAt, hform]
    exact n.mk_info_form

end Node

end ScriptTidy
