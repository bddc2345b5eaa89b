/-
Laws of the three ways to visit the parts of a form: replacing its children (`map`), running an
action on each of them in the order of the text (`traverse`), and listing them (`children`). The
children of a traversed form are what the action makes of the children, and whatever a function of
the results does not depend on the state is a replacement.
-/
import ScriptTidy.Comments.Attach

namespace ScriptTidy

namespace Form

variable {α β γ σ : Type}

/-! ## Replacing -/

theorem slots_map_congr {f g : α → β} {l : List (Option α)} (h : ∀ a, some a ∈ l → f a = g a) :
    l.map (Option.map f) = l.map (Option.map g) := by
  rw [List.map_inj_left]
  rintro (_ | a) ha
  · rfl
  · simp only [Option.map_some, h a ha]

/-- Two replacements that agree on the children give the same form. -/
theorem map_congr {f g : α → β} {form : Form α} (h : ∀ a ∈ form.children, f a = g a) :
    form.map f = form.map g := by
  cases form <;> simp only [map] <;> congr 1 <;>
    first
    | exact h _ (by simp [children])
    | exact List.map_inj_left.2 fun a ha => h a (by simp [children, ha])
    | exact Option.map_congr fun a ha => h a (by simp [children, ha])
    | exact slots_map_congr fun a ha => h a (by simp [children, ha])

/-- A replacement of every child by itself. -/
theorem map_eq_self {f : α → α} {form : Form α} (h : ∀ a ∈ form.children, f a = a) : form.map f = form := by
  have hsome : Option.map (fun a : α => a) = id := funext fun o => Option.map_id'
  rw [map_congr (g := fun a => a) h]
  cases form <;> simp [map, hsome]

theorem map_map (g : β → γ) (f : α → β) (form : Form α) :
    (form.map f).map g = form.map fun a => g (f a) := by
  cases form <;> simp [map, Function.comp_def]

@[simp] theorem isContainer_map (f : α → β) (form : Form α) :
    (form.map f).isContainer = form.isContainer := by
  cases form <;> rfl

@[simp] theorem isVariableDeclaration_map (f : α → β) (form : Form α) :
    (form.map f).isVariableDeclaration = form.isVariableDeclaration := by
  cases form <;> rfl

@[simp] theorem tag_map (f : α → β) (form : Form α) : (form.map f).tag = form.tag := by
  cases form <;> rfl

/-! ## Owning positions -/

theorem markOwned_map (f : α → β) (declares : β → Bool) (form : Form α) :
    (form.map f).markOwned declares =
      (form.markOwned fun a => declares (f a)).map fun m => (f m.1, m.2) := by
  cases form <;> simp [map, markOwned, Function.comp_def]

/-- Marking the owned children leaves the form as it is otherwise. -/
theorem map_fst_markOwned (declares : α → Bool) (form : Form α) :
    (form.markOwned declares).map (·.1) = form := by
  cases form <;> simp [map, markOwned, Function.comp_def]

theorem children_markOwned (declares : α → Bool) (form : Form α) :
    (form.markOwned declares).children.map (·.1) = form.children := by
  rw [← children_map, map_fst_markOwned]

/-! ## Visiting with a state -/

theorem bind_apply (x : StateM σ α) (k : α → StateM σ β) (s : σ) :
    (x >>= k) s = k (x s).1 (x s).2 := rfl

theorem pure_apply (a : α) (s : σ) : (pure a : StateM σ α) s = (a, s) := rfl

theorem map_apply (f : α → β) (x : StateM σ α) (s : σ) : (f <$> x) s = (f (x s).1, (x s).2) := rfl

section Results

variable {f : α → StateM σ β} {g : β → γ} {h : α → γ}

theorem map_mapM : ∀ (l : List α) (s : σ), (∀ a ∈ l, ∀ s, g (f a s).1 = h a) →
    (l.mapM f s).1.map g = l.map h
  | [], _, _ => rfl
  | a :: l, s, hl => by
    rw [List.mapM_cons, bind_apply, bind_apply, pure_apply, List.map_cons, List.map_cons,
      hl a (List.mem_cons_self ..), map_mapM l _ fun b hb => hl b (List.mem_cons_of_mem _ hb)]

theorem map_option_mapM (o : Option α) (s : σ) (ho : ∀ a ∈ o, ∀ s, g (f a s).1 = h a) :
    (o.mapM f s).1.map g = o.map h := by
  cases o with
  | none => rfl
  | some a => simp only [Option.mapM_some, map_apply, Option.map_some, ho a rfl]

theorem map_slots_mapM (l : List (Option α)) (s : σ)
    (hl : ∀ a, some a ∈ l → ∀ s, g (f a s).1 = h a) :
    (l.mapM (Option.mapM f) s).1.map (Option.map g) = l.map (Option.map h) := by
  refine map_mapM l s fun o ho s => map_option_mapM o s fun a ha => hl a ?_
  rwa [← Option.mem_def.1 ha]

/-- What does not depend on the state is the same for a traversed form as for a replaced one. -/
theorem map_traverse (form : Form α) (s : σ) (hf : ∀ a ∈ form.children, ∀ s, g (f a s).1 = h a) :
    (form.traverse f s).1.map g = form.map h := by
  cases form <;> simp only [map, traverse, bind_apply, pure_apply] <;> congr 1 <;>
    first
    | exact hf _ (by simp [children]) _
    | exact map_mapM _ _ fun a ha => hf a (by simp [children, ha])
    | exact map_option_mapM _ _ fun a ha => hf a (by simp [children, Option.mem_def.1 ha])
    | exact map_slots_mapM _ _ fun a ha => hf a (by simp [children, ha])

end Results

section Actions

variable {m : Type → Type} [Monad m]

theorem option_mapM_map (g : α → β) (f : β → m γ) (o : Option α) :
    (o.map g).mapM f = o.mapM fun a => f (g a) := by
  cases o <;> rfl

variable [LawfulMonad m]

theorem traverse_map (g : α → β) (f : β → m γ) (form : Form α) :
    (form.map g).traverse f = form.traverse fun a => f (g a) := by
  cases form <;> simp [map, traverse, option_mapM_map, Function.comp_def]

theorem toList_mapM (f : α → m β) (o : Option α) :
    Option.toList <$> o.mapM f = o.toList.mapM f := by
  cases o <;> simp

theorem slots_mapM (f : α → m β) (l : List (Option α)) :
    List.filterMap id <$> l.mapM (Option.mapM f) = (l.filterMap id).mapM f := by
  induction l with
  | nil => simp only [List.mapM_nil, map_pure, List.filterMap_nil]
  | cons o l ih =>
    cases o with
    | none =>
      rw [List.mapM_cons, Option.mapM_none, pure_bind, bind_pure_comp, Functor.map_map]
      exact ih
    | some a =>
      have hsome : (some a :: l).filterMap id = a :: l.filterMap id := rfl
      rw [hsome, List.mapM_cons, List.mapM_cons, ← ih, Option.mapM_some]
      simp only [map_bind, bind_map_left, bind_pure_comp, Functor.map_map]
      rfl

/-- A form is traversed child by child. -/
theorem children_traverse (f : α → m β) (form : Form α) :
    children <$> form.traverse f = form.children.mapM f := by
  cases form
  case arrayExpression elements | arrayPattern elements =>
    simp only [children, traverse, ← slots_mapM, bind_pure_comp, Functor.map_map]
  all_goals simp [children, traverse, ← toList_mapM]

end Actions

end Form

end ScriptTidy
