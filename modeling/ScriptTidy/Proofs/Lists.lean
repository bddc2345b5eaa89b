/-
Lists that are taken apart where a condition first fails, and steps that may fail. A list is cut in
two by `takeWhile` and `dropWhile`; what no element of the first part can be stays in the second.
It can also be cut at the last element with a property, or changed in one element.
-/
import Mathlib.Data.List.Basic

namespace ScriptTidy

variable {α β γ ε : Type}

/-! ## The part in front -/

section Front

variable {p q : α → Bool}

theorem mem_dropWhile_of_not {a : α} : ∀ {l : List α}, a ∈ l → p a = false → a ∈ l.dropWhile p
  | b :: l, ha, hp => by
    by_cases hb : p b
    · rw [List.dropWhile_cons_of_pos hb]
      rcases List.mem_cons.1 ha with rfl | ha
      · rw [hp] at hb
        cases hb
      · exact mem_dropWhile_of_not ha hp
    · rwa [List.dropWhile_cons_of_neg hb]

/-- What is left from an element on begins with it. -/
theorem exists_dropWhile_ne [BEq α] [LawfulBEq α] {a : α} :
    ∀ {l : List α}, a ∈ l → ∃ rest, l.dropWhile (· != a) = a :: rest
  | b :: l, h => by
    by_cases hb : b = a
    · subst hb
      exact ⟨l, List.dropWhile_cons_of_neg (by simp)⟩
    · obtain ⟨rest, hrest⟩ := exists_dropWhile_ne ((List.mem_cons.1 h).resolve_left (Ne.symm hb))
      exact ⟨rest, by rwa [List.dropWhile_cons_of_pos (by simpa using hb)]⟩

theorem dropWhile_dropWhile : ∀ {l : List α}, (∀ a ∈ l, p a → q a) → (l.dropWhile p).dropWhile q = l.dropWhile q
  | [], _ => rfl
  | a :: l, h => by
    by_cases ha : p a
    · rw [List.dropWhile_cons_of_pos ha, List.dropWhile_cons_of_pos (h a (List.mem_cons_self ..) ha)]
      exact dropWhile_dropWhile fun b hb => h b (List.mem_cons_of_mem _ hb)
    · rw [List.dropWhile_cons_of_neg ha]

/-- Cutting off the end of a list keeps a first element that is not cut off. -/
theorem exists_cons_of_trimmed {a : α} (ha : p a = false) (l : List α) :
    ∃ rest, ((a :: l).reverse.dropWhile p).reverse = a :: rest := by
  rw [List.reverse_cons, List.dropWhile_append]
  split
  · rw [List.dropWhile_cons_of_neg (by rw [ha]; exact Bool.false_ne_true)]
    exact ⟨[], rfl⟩
  · exact ⟨_, List.reverse_concat ..⟩

/-- Where the first part ends the condition fails. -/
theorem takeWhile_dropWhile (p : α → Bool) : ∀ l : List α, (l.dropWhile p).takeWhile p = []
  | [] => rfl
  | a :: l => by
    by_cases ha : p a
    · rw [List.dropWhile_cons_of_pos ha, takeWhile_dropWhile p l]
    · rw [List.dropWhile_cons_of_neg ha, List.takeWhile_cons_of_neg ha]

theorem count_takeWhile_add [BEq α] (p : α → Bool) (l : List α) (a : α) :
    (l.takeWhile p).count a + (l.dropWhile p).count a = l.count a := by
  rw [← List.count_append, List.takeWhile_append_dropWhile]

end Front

/-! ## One element -/

/-- If some element has a property, one has it that none with the property follows. -/
theorem exists_last_or_forall (p : α → Bool) (l : List α) :
    (∃ front a rest, l = front ++ a :: rest ∧ p a = true ∧ ∀ b ∈ rest, p b = false) ∨ ∀ a ∈ l, p a = false := by
  induction l with
  | nil => exact .inr fun _ h => nomatch h
  | cons a l ih =>
    rcases ih with ⟨front, b, rest, rfl, hb⟩ | hnone
    · exact .inl ⟨a :: front, b, rest, rfl, hb⟩
    · cases ha : p a with
      | true => exact .inl ⟨[], a, l, rfl, ha, hnone⟩
      | false => exact .inr (List.forall_mem_cons.2 ⟨ha, hnone⟩)

theorem map_modify {f : α → β} {g : α → α} {g' : β → β} (h : ∀ a, f (g a) = g' (f a)) (l : List α) (i : Nat) :
    (l.modify i g).map f = (l.map f).modify i g' := by
  refine List.ext_getElem? fun j => ?_
  rw [List.getElem?_map, List.getElem?_modify, List.getElem?_modify, List.getElem?_map]
  cases l[j]? with
  | none => rfl
  | some a =>
    split
    · exact congrArg some (h a)
    · rfl

/-! ## Lists in step -/

theorem zip_flatMap {f : α → List β} {g : α → List γ} : ∀ {l : List α}, (∀ a ∈ l, (f a).length = (g a).length) →
    (l.flatMap f).zip (l.flatMap g) = l.flatMap fun a => (f a).zip (g a)
  | [], _ => rfl
  | a :: l, h => by
    rw [List.flatMap_cons, List.flatMap_cons, List.zip_append (h a (List.mem_cons_self ..)),
      zip_flatMap fun b hb => h b (List.mem_cons_of_mem _ hb), List.flatMap_cons]

/-! ## Steps that may fail -/

instance decidableEqExcept [DecidableEq ε] [DecidableEq α] : DecidableEq (Except ε α)
  | .ok a, .ok b => decidable_of_iff (a = b) ⟨congrArg _, Except.ok.inj⟩
  | .error a, .error b => decidable_of_iff (a = b) ⟨congrArg _, Except.error.inj⟩
  | .ok _, .error _ => .isFalse nofun
  | .error _, .ok _ => .isFalse nofun

theorem eq_ok_of_toOption {x : Except ε α} {a : α} (h : x.toOption = some a) : x = .ok a := by
  cases x with
  | error _ => cases h
  | ok b => rw [Option.some.inj h]

/-- What a step gives does not depend on the words for its faults. -/
theorem eq_ok_of_mapError {x : Except ε α} {f : ε → β} {a : α} (h : x.mapError f = .ok a) : x = .ok a := by
  cases x with
  | error _ => cases h
  | ok b => cases h; rfl

/-- If a step after another succeeds, both do. -/
theorem exists_of_bind_ok {x : Except ε α} {f : α → Except ε β} {b : β} (h : x >>= f = .ok b) :
    ∃ a, x = .ok a ∧ f a = .ok b := by
  cases x with
  | error _ => cases h
  | ok a => exact ⟨a, rfl, h⟩

/-- If only the first of two steps can fail, both fail where it does. -/
theorem bind_eq_error_iff {x : Except ε α} {f : α → Except ε β} (hf : ∀ a, ∃ b, f a = .ok b) {e : ε} :
    x >>= f = .error e ↔ x = .error e := by
  cases x with
  | error _ => exact ⟨fun h => congrArg _ (Except.error.inj h), fun h => congrArg _ (Except.error.inj h)⟩
  | ok a =>
    obtain ⟨b, hb⟩ := hf a
    have hok : Except.ok a >>= f = .ok b := hb
    rw [hok]
    exact iff_of_false (by simp) (by simp)

section Steps

variable {m : Type → Type} [Monad m] [LawfulMonad m]

theorem mapM_congr {f g : α → m β} {as : List α} (h : ∀ a ∈ as, f a = g a) : as.mapM f = as.mapM g := by
  induction as with
  | nil => rfl
  | cons a as ih =>
    rw [List.mapM_cons, List.mapM_cons, h a (List.mem_cons_self ..), ih fun b hb => h b (List.mem_cons_of_mem _ hb)]

theorem mapM_flatMap (f : β → m γ) (g : α → List β) (as : List α) :
    (as.flatMap g).mapM f = List.flatten <$> as.mapM fun a => (g a).mapM f := by
  induction as with
  | nil => simp
  | cons a as ih => simp [ih]

end Steps

theorem length_of_mapM_ok {f : α → Except ε β} : ∀ {as : List α} {bs : List β},
    as.mapM f = .ok bs → bs.length = as.length
  | [], bs, h => by cases h; rfl
  | a :: as, bs, h => by
    rw [List.mapM_cons] at h
    obtain ⟨b, -, h⟩ := exists_of_bind_ok h
    obtain ⟨bs', hbs, h⟩ := exists_of_bind_ok h
    cases h
    rw [List.length_cons, List.length_cons, length_of_mapM_ok hbs]

/-- What a step gives has the property, if the step gives anything. -/
def Yields (P : α → Prop) (x : Except ε α) : Prop := ∀ a, x = .ok a → P a

namespace Yields

variable {P : α → Prop} {Q : β → Prop} {x : Except ε α} {f : α → Except ε β}

theorem error (e : ε) : Yields P (.error e) := fun _ h => nomatch h

theorem pure {a : α} (h : P a) : Yields P (pure a : Except ε α) := by
  rintro _ ⟨⟩
  exact h

theorem imp {P' : α → Prop} (hx : Yields P x) (h : ∀ a, P a → P' a) : Yields P' x := fun a ha => h a (hx a ha)

theorem bind (hx : Yields P x) (hf : ∀ a, P a → Yields Q (f a)) : Yields Q (x >>= f) := by
  intro b hb
  obtain ⟨a, ha, hb⟩ := exists_of_bind_ok hb
  exact hf a (hx a ha) b hb

/-- A step of which nothing is known. -/
theorem step (hf : ∀ a, Yields Q (f a)) : Yields Q (x >>= f) :=
  bind (P := fun _ => True) (fun _ _ => trivial) fun a _ => hf a

theorem ite {c : Prop} [Decidable c] {y : Except ε α} (hx : Yields P x) (hy : Yields P y) :
    Yields P (if c then x else y) := by
  split
  · exact hx
  · exact hy

theorem mapM_of_mem : ∀ {as : List α}, (∀ a ∈ as, Yields Q (f a)) → Yields (fun bs => ∀ b ∈ bs, Q b) (as.mapM f)
  | [], _ => pure fun _ hb => nomatch hb
  | a :: as, hf => by
    rw [List.mapM_cons]
    exact bind (hf a (List.mem_cons_self ..)) fun b hb =>
      bind (mapM_of_mem fun c hc => hf c (List.mem_cons_of_mem _ hc)) fun bs hbs =>
        pure (List.forall_mem_cons.2 ⟨hb, hbs⟩)

theorem mapM (hf : ∀ a, Yields Q (f a)) (as : List α) : Yields (fun bs => ∀ b ∈ bs, Q b) (as.mapM f) :=
  mapM_of_mem fun a _ => hf a

theorem option_mapM_of_mem : ∀ {o : Option α}, (∀ a ∈ o, Yields Q (f a)) →
    Yields (fun o => ∀ b ∈ o.toList, Q b) (o.mapM f)
  | none, _ => pure fun _ hb => nomatch hb
  | some a, hf => by
    rw [Option.mapM_some, ← bind_pure_comp]
    exact bind (hf a rfl) fun b hb => pure fun c hc => List.mem_singleton.1 hc ▸ hb

theorem option_mapM (hf : ∀ a, Yields Q (f a)) (o : Option α) : Yields (fun o => ∀ b ∈ o.toList, Q b) (o.mapM f) :=
  option_mapM_of_mem fun a _ => hf a

theorem foldlM_of_mem {g : β → α → Except ε β} :
    ∀ {as : List α} {b : β}, (∀ b, ∀ a ∈ as, Q b → Yields Q (g b a)) → Q b → Yields Q (as.foldlM g b)
  | [], _, _, hb => pure hb
  | a :: as, b, hg, hb => by
    rw [List.foldlM_cons]
    exact bind (hg b a (List.mem_cons_self ..) hb) fun _ hb =>
      foldlM_of_mem (fun b c hc => hg b c (List.mem_cons_of_mem _ hc)) hb

theorem foldlM {g : β → α → Except ε β} (hg : ∀ b a, Q b → Yields Q (g b a)) (as : List α) {b : β} (hb : Q b) :
    Yields Q (as.foldlM g b) :=
  foldlM_of_mem (fun b a _ => hg b a) hb

end Yields

end ScriptTidy
