/-
Members of sorted lists among themselves. Members that are in order among themselves stand as they
stood once their list is sorted, up to the comments that the first member of a run takes over. Of two
members of one run with different keys the one with the smaller key comes first; members of different
runs stay as they are.
-/
import ScriptTidy.Proofs.Style.Again

namespace ScriptTidy

/-- Two members of a list, the second in the run after the first, are both in the run that starts the list, or the run
ends before both. -/
theorem mem_takeWhile_or_dropWhile {α : Type} {p : α → Bool} {a b : α} {l : List α} (hb : b ∈ l.takeWhile p) :
    ∀ front : List α, (a ∈ (front ++ a :: l).takeWhile p ∧ b ∈ (front ++ a :: l).takeWhile p) ∨
      ∃ front', (front ++ a :: l).dropWhile p = front' ++ a :: l
  | [] => by
    rw [List.nil_append]
    by_cases ha : p a
    · rw [List.takeWhile_cons_of_pos ha]
      exact .inl ⟨List.mem_cons_self .., List.mem_cons_of_mem _ hb⟩
    · exact .inr ⟨[], List.dropWhile_cons_of_neg ha⟩
  | c :: front => by
    rw [List.cons_append]
    by_cases hc : p c
    · rw [List.takeWhile_cons_of_pos hc, List.dropWhile_cons_of_pos hc]
      exact (mem_takeWhile_or_dropWhile hb front).imp_left
        (And.imp (List.mem_cons_of_mem _) (List.mem_cons_of_mem _))
    · exact .inr ⟨c :: front, List.dropWhile_cons_of_neg hc⟩

/-- A prefix that holds of a list and does not go on in another is that of the two together. -/
theorem takeWhile_append_of_head {α : Type} {p : α → Bool} {l₂ : List α} (h : ∀ a ∈ l₂.head?, p a = false) :
    ∀ l₁ : List α, (l₁ ++ l₂).takeWhile p = l₁.takeWhile p ∧ (l₁ ++ l₂).dropWhile p = l₁.dropWhile p ++ l₂
  | [] => by
    cases l₂ with
    | nil => exact ⟨rfl, rfl⟩
    | cons a l₂ =>
      have ha : ¬ p a = true := by rw [h a rfl]; decide
      exact ⟨List.takeWhile_cons_of_neg ha, List.dropWhile_cons_of_neg ha⟩
  | a :: l₁ => by
    obtain ⟨htake, hdrop⟩ := takeWhile_append_of_head h l₁
    rw [List.cons_append]
    by_cases ha : p a
    · rw [List.takeWhile_cons_of_pos ha, List.takeWhile_cons_of_pos ha, List.dropWhile_cons_of_pos ha,
        List.dropWhile_cons_of_pos ha, htake, hdrop]
      exact ⟨rfl, rfl⟩
    · rw [List.takeWhile_cons_of_neg ha, List.takeWhile_cons_of_neg ha, List.dropWhile_cons_of_neg ha,
        List.dropWhile_cons_of_neg ha]
      exact ⟨rfl, rfl⟩

namespace Node

/-! ## Members of runs -/

section Runs

variable {isMember : Node → Bool} {key : Node → SortKey}

theorem map_hoistComments (ns : List Node) :
    (hoistComments ns).map (·.withComments []) = ns.map (·.withComments []) := by
  cases ns with
  | nil => rfl
  | cons n ns =>
    rw [hoistComments, List.map_cons, List.map_cons, List.map_map]
    rfl

theorem map_sortRun (ns : List Node) :
    (sortRun key ns).map (·.withComments []) = (SortKey.sortBy key ns).map (·.withComments []) := map_hoistComments _

/-- Sorting runs moves nodes and comments only. -/
theorem perm_sortRuns (ns : List Node) :
    ((sortRuns isMember key ns).map (·.withComments [])).Perm (ns.map (·.withComments [])) := by
  fun_induction sortRuns isMember key ns with
  | case1 => exact .refl _
  | case2 n ns _ ih =>
    rw [List.map_append, map_sortRun]
    refine (((SortKey.sortBy_perm key _).map _).append ih).trans (.of_eq ?_)
    rw [← List.map_append, List.cons_append, List.takeWhile_append_dropWhile]
  | case3 n ns _ ih => exact ih.cons _

theorem isPlaced_of_mem_run {n : Node} {ns : List Node} (hn : isMember n)
    (h : ∀ m ∈ n :: ns, isMember m → (key m).isPlaced) :
    ∀ m ∈ n :: ns.takeWhile (continuesRun isMember), (key m).isPlaced := fun m hm =>
  h m ((List.takeWhile_sublist _).cons_cons n |>.subset hm) (isMember_of_mem_run hn hm)

/-- Nodes of a list that are in order among themselves stand, up to comments, as they stood once the runs are sorted. -/
theorem sublist_sortRuns {ns group : List Node} (hplaced : ∀ n ∈ ns, isMember n → (key n).isPlaced)
    (horder : SortKey.InOrder key group) (hsub : group.Sublist ns) :
    (group.map (·.withComments [])).Sublist ((sortRuns isMember key ns).map (·.withComments [])) := by
  fun_induction sortRuns isMember key ns generalizing group with
  | case1 => exact hsub.map _
  | case2 n ns hn ih =>
    rw [← List.takeWhile_append_dropWhile (p := continuesRun isMember) (l := ns), ← List.cons_append,
      List.sublist_append_iff] at hsub
    obtain ⟨first, rest, rfl, hfirst, hrest⟩ := hsub
    obtain ⟨hfirstOrder, hrestOrder, -⟩ := List.pairwise_append.1 horder
    rw [List.map_append, List.map_append, map_sortRun]
    refine List.Sublist.append ?_ (ih ?_ hrestOrder hrest)
    · exact (SortKey.sublist_sortBy (isPlaced_of_mem_run hn hplaced) hfirstOrder hfirst).map _
    · exact fun m hm => hplaced m (List.mem_cons_of_mem _ ((List.dropWhile_sublist _).subset hm))
  | case3 n ns hn ih =>
    have hns : ∀ m ∈ ns, isMember m → (key m).isPlaced := fun m hm => hplaced m (List.mem_cons_of_mem _ hm)
    rw [List.map_cons]
    rcases List.sublist_cons_iff.1 hsub with hsub | ⟨rest, rfl, hrest⟩
    · exact (ih hns horder hsub).cons _
    · exact (ih hns (List.pairwise_cons.1 horder).2 hrest).cons_cons _

/-- Two members of a sorted run change places if the key of the second is the smaller one. -/
theorem pair_sublist_sortRun {p q : Node} {ns : List Node} (hplaced : ∀ n ∈ ns, (key n).isPlaced)
    (hp : p ∈ ns) (hq : q ∈ ns) (hlt : (key q).precedes (key p)) :
    [q.withComments [], p.withComments []].Sublist ((sortRun key ns).map (·.withComments [])) := by
  rw [map_sortRun]
  exact (SortKey.pair_sublist_sortBy hplaced hq hp hlt).map (·.withComments [])

/-- Two members of one run of a list change places if the key of the second is the smaller one. -/
theorem pair_sublist_sortRuns {p q : Node} {rest : List Node} (hp : isMember p)
    (hq : q ∈ rest.takeWhile (continuesRun isMember)) (hlt : (key q).precedes (key p)) (front : List Node)
    (hplaced : ∀ n ∈ front ++ p :: rest, isMember n → (key n).isPlaced) :
    [q.withComments [], p.withComments []].Sublist
      ((sortRuns isMember key (front ++ p :: rest)).map (·.withComments [])) := by
  generalize hns : front ++ p :: rest = ns at hplaced ⊢
  fun_induction sortRuns isMember key ns generalizing front with
  | case1 => simp at hns
  | case2 n ns hn ih =>
    have hboth : p ∈ n :: ns.takeWhile (continuesRun isMember) ∧ q ∈ n :: ns.takeWhile (continuesRun isMember) ∨
        ∃ front', front' ++ p :: rest = ns.dropWhile (continuesRun isMember) := by
      cases front with
      | nil =>
        obtain ⟨rfl, rfl⟩ := List.cons.inj hns
        exact .inl ⟨List.mem_cons_self .., List.mem_cons_of_mem _ hq⟩
      | cons m front =>
        obtain ⟨rfl, rfl⟩ := List.cons.inj hns
        rcases mem_takeWhile_or_dropWhile (a := p) hq front with ⟨hp, hq⟩ | ⟨front', hfront'⟩
        · exact .inl ⟨List.mem_cons_of_mem _ hp, List.mem_cons_of_mem _ hq⟩
        · exact .inr ⟨front', hfront'.symm⟩
    rw [List.map_append]
    rcases hboth with ⟨hp, hq⟩ | ⟨front', hfront'⟩
    · exact (pair_sublist_sortRun (isPlaced_of_mem_run hn hplaced) hp hq hlt).trans (List.sublist_append_left ..)
    · refine (ih front' hfront' fun m hm => ?_).trans (List.sublist_append_right ..)
      exact hplaced m (List.mem_cons_of_mem _ ((List.dropWhile_sublist _).subset hm))
  | case3 n ns hn ih =>
    cases front with
    | nil =>
      obtain ⟨rfl, rfl⟩ := List.cons.inj hns
      exact absurd hp hn
    | cons m front =>
      obtain ⟨rfl, rfl⟩ := List.cons.inj hns
      exact (ih front rfl fun k hk => hplaced k (List.mem_cons_of_mem _ hk)).cons _

/-- Runs end where a node continues none. -/
theorem sortRuns_append {ns ms : List Node} (h : ∀ m ∈ ms.head?, continuesRun isMember m = false) :
    sortRuns isMember key (ns ++ ms) = sortRuns isMember key ns ++ sortRuns isMember key ms := by
  fun_induction sortRuns isMember key ns with
  | case1 => rfl
  | case2 n ns hn ih =>
    obtain ⟨htake, hdrop⟩ := takeWhile_append_of_head h ns
    rw [List.cons_append, sortRuns_cons_of_member hn, htake, hdrop, ih, List.append_assoc]
  | case3 n ns hn ih => rw [List.cons_append, sortRuns_cons_of_not (Bool.eq_false_of_not_eq_true hn), ih]; rfl

/-- A node that is not in the run after another stays behind it. -/
theorem pair_sublist_of_mem_dropWhile {p q : Node} {front rest : List Node}
    (hq : q ∈ rest.dropWhile (continuesRun isMember)) :
    [p.withComments [], q.withComments []].Sublist
      ((sortRuns isMember key (front ++ p :: rest)).map (·.withComments [])) := by
  have hhead : ∀ m ∈ (rest.dropWhile (continuesRun isMember)).head?, continuesRun isMember m = false := by
    intro m hm
    have hnot := List.head?_dropWhile_not (continuesRun isMember) rest
    rw [Option.mem_def.1 hm] at hnot
    exact hnot
  have hsplit : front ++ p :: rest = (front ++ p :: rest.takeWhile (continuesRun isMember)) ++
      rest.dropWhile (continuesRun isMember) := by
    rw [List.append_assoc, List.cons_append, List.takeWhile_append_dropWhile]
  rw [hsplit, sortRuns_append hhead, List.map_append]
  have hmem {n : Node} {ns : List Node} (hn : n ∈ ns) :
      [n.withComments []].Sublist ((sortRuns isMember key ns).map (·.withComments [])) := by
    rw [List.singleton_sublist]
    exact (perm_sortRuns ns).mem_iff.2 (List.mem_map_of_mem hn)
  exact (hmem (List.mem_append_right _ (List.mem_cons_self ..))).append (hmem hq)

end Runs

end Node

end ScriptTidy
