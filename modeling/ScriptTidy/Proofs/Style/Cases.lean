/-
Switches under restyling. The two rules for switches, the one that terminates the last case and the
one that sorts the cases, do the same to cases whose statements have been changed by another rule,
as long as that rule leaves no case empty that was not, and does not change whether its statements
end in a terminator.
-/
import ScriptTidy.Proofs.Order.Sorting
import ScriptTidy.Proofs.Style.Features

namespace ScriptTidy

namespace Node

/-! ## Cases and their statements -/

@[simp] theorem withConsequent_consequent (n : Node) : n.withConsequent n.consequent = n := by
  obtain ⟨info, form⟩ := n
  cases form <;> rfl

@[simp] theorem withConsequent_withConsequent (n : Node) (ms ns : List Node) :
    (n.withConsequent ms).withConsequent ns = n.withConsequent ns := by
  obtain ⟨info, form⟩ := n
  cases form <;> rfl

@[simp] theorem caseKey_withConsequent (n : Node) (ns : List Node) :
    (n.withConsequent ns).caseKey = n.caseKey := by
  obtain ⟨info, form⟩ := n
  cases form <;> rfl

@[simp] theorem isCase_withConsequent (n : Node) (ns : List Node) :
    (n.withConsequent ns).isCase = n.isCase := by
  obtain ⟨info, form⟩ := n
  cases form <;> rfl

theorem consequent_withConsequent {n : Node} (h : n.isCase) (ns : List Node) :
    (n.withConsequent ns).consequent = ns := by
  obtain ⟨info, form⟩ := n
  cases form <;> first | rfl | cases h

@[simp] theorem consequent_withConsequent_nil (n : Node) : (n.withConsequent []).consequent = [] := by
  obtain ⟨info, form⟩ := n
  cases form <;> rfl

/-- A node that loses nothing with its statements has none. -/
theorem consequent_eq_nil {n : Node} (h : n.withConsequent [] = n) : n.consequent = [] := by
  rw [← h, consequent_withConsequent_nil]

/-! ## Members at the end of a list -/

theorem mapLast_append_singleton (f : Node → Node) (n : Node) : ∀ ns : List Node,
    mapLast f (ns ++ [n]) = ns ++ [f n]
  | [] => rfl
  | [_] => rfl
  | m :: k :: ns => by
    have ih := mapLast_append_singleton f n (k :: ns)
    rw [List.cons_append, List.cons_append, mapLast, ← List.cons_append, ih]
    · rfl
    · simp

theorem length_mapLast (f : Node → Node) (ns : List Node) : (mapLast f ns).length = ns.length := by
  rcases List.eq_nil_or_concat ns with rfl | ⟨ms, n, rfl⟩
  · rfl
  · rw [List.concat_eq_append, mapLast_append_singleton, List.length_append, List.length_append]
    rfl

theorem mapLast_map {F f g : Node → Node} (h : ∀ n, f (F n) = F (g n)) (ns : List Node) :
    mapLast f (ns.map F) = (mapLast g ns).map F := by
  rcases List.eq_nil_or_concat ns with rfl | ⟨ms, n, rfl⟩
  · rfl
  · rw [List.concat_eq_append, List.map_append, List.map_singleton, mapLast_append_singleton,
      mapLast_append_singleton, List.map_append, List.map_singleton, h]

theorem exists_of_mem_mapLast {f : Node → Node} {n : Node} {ns : List Node} (h : n ∈ mapLast f ns) :
    n ∈ ns ∨ ∃ m ∈ ns, n = f m := by
  rcases List.eq_nil_or_concat ns with rfl | ⟨ms, m, rfl⟩
  · cases h
  · rw [List.concat_eq_append, mapLast_append_singleton, List.mem_append, List.mem_singleton] at h
    rw [List.concat_eq_append]
    rcases h with h | h
    · exact .inl (List.mem_append_left _ h)
    · exact .inr ⟨m, List.mem_append_right _ (List.mem_singleton_self m), h⟩

/-! ## Blocks of cases -/

theorem flatten_fallthroughBlocks (ns : List Node) : (fallthroughBlocks ns).flatten = ns := by
  induction ns with
  | nil => rfl
  | cons n ns ih =>
    rw [fallthroughBlocks]
    split
    · rw [List.flatten_cons, ih, List.singleton_append]
    · cases hblocks : fallthroughBlocks ns with
      | nil =>
        rw [hblocks] at ih
        rw [← ih]
        rfl
      | cons block blocks =>
        rw [hblocks] at ih
        rw [← ih]
        rfl

/-- A sorted block: the labels in order, and the statements of its last case at its end. -/
theorem sortLabels_append_singleton {ms : List Node} {n : Node} (h : ms.all (·.consequent.isEmpty)) :
    sortLabels (ms ++ [n]) = mapLast (·.withConsequent n.consequent)
      (SortKey.sortBy caseKey ((ms ++ [n]).map (·.withConsequent []))) := by
  unfold sortLabels
  rw [List.dropLast_concat, if_pos h, List.getLast?_concat]
  rfl

theorem sortLabels_of_not {block : List Node} (h : block.dropLast.all (·.consequent.isEmpty) = false) :
    sortLabels block = block := by
  unfold sortLabels
  rw [h]
  rfl

/-- The members of a sorted block are those of the block, with no statements or those of one of them. -/
theorem exists_of_mem_sortLabels {n : Node} {block : List Node} (h : n ∈ sortLabels block) :
    ∃ m ∈ block, ∃ ns, (ns = [] ∨ ∃ k ∈ block, ns = k.consequent) ∧ n = m.withConsequent ns := by
  unfold sortLabels at h
  split at h
  · have hlabel : ∀ k ∈ SortKey.sortBy caseKey (block.map (·.withConsequent [])), ∃ m ∈ block,
        k = m.withConsequent [] := fun k hk => by
      obtain ⟨m, hm, rfl⟩ := List.mem_map.1 ((SortKey.sortBy_perm _ _).mem_iff.1 hk)
      exact ⟨m, hm, rfl⟩
    rcases exists_of_mem_mapLast h with h | ⟨k, hk, rfl⟩
    · obtain ⟨m, hm, rfl⟩ := hlabel n h
      exact ⟨m, hm, [], .inl rfl, rfl⟩
    · obtain ⟨m, hm, rfl⟩ := hlabel k hk
      refine ⟨m, hm, _, ?_, withConsequent_withConsequent ..⟩
      cases hlast : block.getLast? with
      | none => exact .inl rfl
      | some last => exact .inr ⟨last, List.mem_of_getLast? hlast, rfl⟩
  · exact ⟨n, h, n.consequent, .inr ⟨n, h, rfl⟩, (withConsequent_consequent n).symm⟩

/-- The sorted cases are made of sorted blocks. -/
theorem sortedCases_perm (ns : List Node) :
    (sortedCases ns).Perm ((fallthroughBlocks ns).map sortLabels).flatten := by
  simp only [sortedCases]
  split
  · exact (SortKey.sortBy_perm _ _).flatten
  · exact .refl _

theorem length_sortLabels (block : List Node) : (sortLabels block).length = block.length := by
  unfold sortLabels
  split
  · rw [length_mapLast, (SortKey.sortBy_perm _ _).length_eq, List.length_map]
  · rfl

theorem length_sortedCases (ns : List Node) : (sortedCases ns).length = ns.length := by
  have hblocks : ((fallthroughBlocks ns).map sortLabels).flatten.length = (fallthroughBlocks ns).flatten.length := by
    simp only [List.length_flatten, List.map_map, Function.comp_def, length_sortLabels]
  rw [(sortedCases_perm ns).length_eq, hblocks, flatten_fallthroughBlocks]

/-- The sorted cases are the cases, with no statements or those of one of them. -/
theorem exists_of_mem_sortedCases {n : Node} {ns : List Node} (h : n ∈ sortedCases ns) :
    ∃ m ∈ ns, ∃ statements, (statements = [] ∨ ∃ k ∈ ns, statements = k.consequent) ∧
      n = m.withConsequent statements := by
  obtain ⟨sorted, hsorted, hn⟩ := List.mem_flatten.1 ((sortedCases_perm ns).mem_iff.1 h)
  obtain ⟨block, hblock, rfl⟩ := List.mem_map.1 hsorted
  obtain ⟨m, hm, statements, hstatements, rfl⟩ := exists_of_mem_sortLabels hn
  have hcases : block ⊆ ns := by
    intro k hk
    rw [← flatten_fallthroughBlocks ns]
    exact List.mem_flatten_of_mem hblock hk
  exact ⟨m, hcases hm, statements, hstatements.imp_right fun ⟨k, hk, heq⟩ => ⟨k, hcases hk, heq⟩, rfl⟩

/-! ## Closed blocks -/

/-- The block ends in its only terminated case. -/
def IsClosed (block : List Node) : Prop :=
  ∃ ms n, block = ms ++ [n] ∧ (∀ m ∈ ms, m.isTerminated = false) ∧ n.isTerminated

/-- The block has cases, none of them terminated. -/
def IsOpen (block : List Node) : Prop := block ≠ [] ∧ ∀ m ∈ block, m.isTerminated = false

theorem fallthroughBlocks_cons_of_not {n : Node} (h : n.isTerminated = false) (ns : List Node) :
    fallthroughBlocks (n :: ns) =
      match fallthroughBlocks ns with
      | [] => [[n]]
      | block :: blocks => (n :: block) :: blocks := by
  rw [fallthroughBlocks, h]
  rfl

/-- A closed block at the start of a list of cases is its first block. -/
theorem fallthroughBlocks_append_of_closed {block : List Node} (h : IsClosed block) (rest : List Node) :
    fallthroughBlocks (block ++ rest) = block :: fallthroughBlocks rest := by
  obtain ⟨ms, n, rfl, hms, hn⟩ := h
  induction ms with
  | nil => rw [List.nil_append, List.singleton_append, fallthroughBlocks, if_pos hn]
  | cons m ms ih =>
    have ih := ih fun k hk => hms k (List.mem_cons_of_mem _ hk)
    rw [List.cons_append, List.cons_append, fallthroughBlocks_cons_of_not (hms m (List.mem_cons_self ..)), ih]

theorem fallthroughBlocks_of_open {block : List Node} (h : IsOpen block) : fallthroughBlocks block = [block] := by
  obtain ⟨hne, hblock⟩ := h
  induction block with
  | nil => exact absurd rfl hne
  | cons n ns ih =>
    rw [fallthroughBlocks_cons_of_not (hblock n (List.mem_cons_self ..))]
    cases ns with
    | nil => rfl
    | cons m ms => rw [ih (List.cons_ne_nil _ _) fun k hk => hblock k (List.mem_cons_of_mem _ hk)]

/-- Closed blocks are found again in the cases that they make up. -/
theorem fallthroughBlocks_flatten_append : ∀ {blocks : List (List Node)}, (∀ block ∈ blocks, IsClosed block) →
    ∀ rest, fallthroughBlocks (blocks.flatten ++ rest) = blocks ++ fallthroughBlocks rest
  | [], _, _ => rfl
  | block :: blocks, h, rest => by
    rw [List.flatten_cons, List.append_assoc, fallthroughBlocks_append_of_closed (h block (List.mem_cons_self ..)),
      fallthroughBlocks_flatten_append fun k hk => h k (List.mem_cons_of_mem _ hk)]
    rfl

theorem fallthroughBlocks_flatten {blocks : List (List Node)} (h : ∀ block ∈ blocks, IsClosed block) :
    fallthroughBlocks blocks.flatten = blocks := by
  have happend := fallthroughBlocks_flatten_append h []
  rwa [List.append_nil, fallthroughBlocks, List.append_nil] at happend

theorem fallthroughBlocks_flatten_append_open {blocks : List (List Node)} (h : ∀ block ∈ blocks, IsClosed block)
    {block : List Node} (hopen : IsOpen block) : fallthroughBlocks (blocks.flatten ++ block) = blocks ++ [block] := by
  rw [fallthroughBlocks_flatten_append h, fallthroughBlocks_of_open hopen]

/-- Cases are made up of closed blocks, with an open one after them unless the last case is
terminated. -/
theorem exists_blocks (ns : List Node) : ∃ (blocks : List (List Node)) (rest : List Node),
    (∀ block ∈ blocks, IsClosed block) ∧ (rest = [] ∨ IsOpen rest) ∧ ns = blocks.flatten ++ rest := by
  induction ns with
  | nil => exact ⟨[], [], nofun, .inl rfl, rfl⟩
  | cons n ns ih =>
    obtain ⟨blocks, rest, hclosed, hrest, rfl⟩ := ih
    cases hn : n.isTerminated with
    | true => exact ⟨[n] :: blocks, rest, List.forall_mem_cons.2 ⟨⟨[], n, rfl, nofun, hn⟩, hclosed⟩, hrest, rfl⟩
    | false =>
      -- a case that falls through joins the block after it
      cases blocks with
      | nil =>
        refine ⟨[], n :: rest, nofun, .inr ⟨List.cons_ne_nil _ _, List.forall_mem_cons.2 ⟨hn, ?_⟩⟩, rfl⟩
        rcases hrest with rfl | hrest
        · exact nofun
        · exact hrest.2
      | cons first blocks =>
        obtain ⟨⟨ms, k, rfl, hms, hk⟩, hblocks⟩ := List.forall_mem_cons.1 hclosed
        have hfirst : IsClosed (n :: (ms ++ [k])) := ⟨n :: ms, k, rfl, List.forall_mem_cons.2 ⟨hn, hms⟩, hk⟩
        exact ⟨(n :: (ms ++ [k])) :: blocks, rest, List.forall_mem_cons.2 ⟨hfirst, hblocks⟩, hrest, rfl⟩

/-! ## Sorted blocks -/

/-- The labels of a block in order, the last of them apart. -/
theorem exists_labels {block : List Node} (hne : block ≠ []) (h : ∀ n ∈ block, n.isCase) :
    ∃ ls l, SortKey.sortBy caseKey (block.map (·.withConsequent [])) = ls ++ [l] ∧
      ∀ m ∈ ls ++ [l], m.isCase ∧ m.withConsequent [] = m := by
  have hperm := SortKey.sortBy_perm caseKey (block.map (·.withConsequent []))
  rcases List.eq_nil_or_concat (SortKey.sortBy caseKey (block.map (·.withConsequent []))) with hnil | ⟨ls, l, hconcat⟩
  · rw [hnil] at hperm
    exact absurd (List.map_eq_nil_iff.1 hperm.symm.eq_nil) hne
  · rw [List.concat_eq_append] at hconcat
    refine ⟨ls, l, hconcat, fun k hk => ?_⟩
    obtain ⟨m, hm, rfl⟩ := List.mem_map.1 (hperm.mem_iff.1 (by rw [hconcat]; exact hk))
    rw [isCase_withConsequent, withConsequent_withConsequent]
    exact ⟨h m hm, rfl⟩

/-- A block stays as it is, or its labels are put in order and the statements go to the last one. -/
theorem sortLabels_cases {ms : List Node} {n : Node} (h : ∀ m ∈ ms ++ [n], m.isCase) :
    sortLabels (ms ++ [n]) = ms ++ [n] ∨
      (∀ m ∈ ms, m.consequent = []) ∧ ∃ ls l,
        SortKey.sortBy caseKey ((ms ++ [n]).map (·.withConsequent [])) = ls ++ [l] ∧
        (∀ m ∈ ls ++ [l], m.isCase ∧ m.withConsequent [] = m) ∧
        sortLabels (ms ++ [n]) = ls ++ [l.withConsequent n.consequent] := by
  cases hempty : ms.all (·.consequent.isEmpty) with
  | false => exact .inl (sortLabels_of_not (by rwa [List.dropLast_concat]))
  | true =>
    obtain ⟨ls, l, hlabels, hbare⟩ := exists_labels (by simp) h
    refine .inr ⟨fun m hm => List.isEmpty_iff.1 (List.all_eq_true.1 hempty m hm), ls, l, hlabels, hbare, ?_⟩
    rw [sortLabels_append_singleton hempty, hlabels, mapLast_append_singleton]

/-- Sorting a block moves labels and leaves its statements at its end. -/
theorem exists_sortLabels_eq {ms : List Node} {n : Node} (h : ∀ m ∈ ms ++ [n], m.isCase) :
    ∃ ls l, sortLabels (ms ++ [n]) = ls ++ [l] ∧ l.isTerminated = n.isTerminated ∧
      ((∀ m ∈ ms, m.isTerminated = false) → ∀ m ∈ ls, m.isTerminated = false) := by
  rcases sortLabels_cases h with heq | ⟨-, ls, l, -, hbare, heq⟩
  · exact ⟨ms, n, heq, rfl, id⟩
  · obtain ⟨hls, hl⟩ := List.forall_mem_append.1 hbare
    refine ⟨ls, l.withConsequent n.consequent, heq, ?_, fun _ m hm => ?_⟩
    · rw [isTerminated, consequent_withConsequent (List.forall_mem_singleton.1 hl).1, isTerminated]
    · rw [isTerminated, consequent_eq_nil (hls m hm).2]
      rfl

theorem IsClosed.sortLabels {block : List Node} (hblock : IsClosed block) (h : ∀ n ∈ block, n.isCase) :
    IsClosed (Node.sortLabels block) := by
  obtain ⟨ms, n, rfl, hms, hn⟩ := hblock
  obtain ⟨ls, l, heq, hl, hls⟩ := exists_sortLabels_eq h
  rw [heq]
  exact ⟨ls, l, rfl, hls hms, by rw [hl, hn]⟩

theorem IsOpen.sortLabels {block : List Node} (hblock : IsOpen block) (h : ∀ n ∈ block, n.isCase) :
    IsOpen (Node.sortLabels block) := by
  obtain ⟨hne, hblock⟩ := hblock
  rcases List.eq_nil_or_concat block with rfl | ⟨ms, n, rfl⟩
  · exact absurd rfl hne
  rw [List.concat_eq_append] at h hblock ⊢
  obtain ⟨hms, hn⟩ := List.forall_mem_append.1 hblock
  obtain ⟨ls, l, heq, hl, hls⟩ := exists_sortLabels_eq h
  rw [heq]
  have hlast : l.isTerminated = false := by rw [hl, hn n (List.mem_singleton_self n)]
  exact ⟨by simp, List.forall_mem_append.2 ⟨hls hms, List.forall_mem_singleton.2 hlast⟩⟩

theorem lastIsTerminated_of_closed {blocks : List (List Node)} (h : ∀ block ∈ blocks, IsClosed block)
    (hne : blocks ≠ []) : lastIsTerminated blocks := by
  rcases List.eq_nil_or_concat blocks with rfl | ⟨front, block, rfl⟩
  · exact absurd rfl hne
  obtain ⟨ms, n, rfl, -, hn⟩ := h block (by simp)
  rw [lastIsTerminated, List.concat_eq_append, List.getLast?_concat, Option.bind_some, List.getLast?_concat]
  exact hn

theorem lastIsTerminated_of_open {block : List Node} (h : IsOpen block) (blocks : List (List Node)) :
    lastIsTerminated (blocks ++ [block]) = false := by
  rw [lastIsTerminated, List.getLast?_concat, Option.bind_some]
  cases hlast : block.getLast? with
  | none => rfl
  | some n => exact h.2 n (List.mem_of_getLast? hlast)

section Blocks

variable {blocks : List (List Node)} (hclosed : ∀ block ∈ blocks, IsClosed block ∧ ∀ n ∈ block, n.isCase)
include hclosed

theorem forall_mem_map_sortLabels : ∀ block ∈ blocks.map sortLabels, IsClosed block ∧ ∀ n ∈ block, n.isCase := by
  intro block hblock
  obtain ⟨b, hb, rfl⟩ := List.mem_map.1 hblock
  refine ⟨(hclosed b hb).1.sortLabels (hclosed b hb).2, fun n hn => ?_⟩
  obtain ⟨m, hm, ns, -, rfl⟩ := exists_of_mem_sortLabels hn
  rw [isCase_withConsequent]
  exact (hclosed b hb).2 m hm

/-- Closed blocks are sorted by their first labels. -/
theorem sortedCases_flatten :
    sortedCases blocks.flatten = (SortKey.sortBy blockKey (blocks.map sortLabels)).flatten := by
  have hsorted := fun block hblock => (forall_mem_map_sortLabels hclosed block hblock).1
  simp only [sortedCases, fallthroughBlocks_flatten fun block hblock => (hclosed block hblock).1]
  cases blocks with
  | nil => rw [List.map_nil, SortKey.sortBy_eq_self .nil, ite_self]
  | cons block blocks => rw [if_pos (lastIsTerminated_of_closed hsorted (List.cons_ne_nil _ _))]

/-- Blocks stay where they are if one is open. -/
theorem sortedCases_flatten_append {block : List Node} (hopen : IsOpen block) (h : ∀ n ∈ block, n.isCase) :
    sortedCases (blocks.flatten ++ block) = (blocks.map sortLabels).flatten ++ sortLabels block := by
  simp only [sortedCases, fallthroughBlocks_flatten_append_open (fun b hb => (hclosed b hb).1) hopen, List.map_append,
    List.map_singleton, lastIsTerminated_of_open (hopen.sortLabels h), Bool.false_eq_true, if_false,
    List.flatten_append, List.flatten_singleton]

end Blocks

/-! ## Sorting twice -/

/-- The cases of a list can be sorted: they are cases, and no label is a NaN. -/
def Sortable (ns : List Node) : Prop := ∀ n ∈ ns, n.isCase ∧ n.caseKey.isPlaced

theorem Sortable.isCase {ns : List Node} (h : Sortable ns) : ∀ n ∈ ns, n.isCase := fun n hn => (h n hn).1

theorem Sortable.exists_blocks {ns : List Node} (h : Sortable ns) : ∃ (blocks : List (List Node)) (rest : List Node),
    (∀ block ∈ blocks, IsClosed block ∧ Sortable block) ∧ (rest = [] ∨ IsOpen rest ∧ Sortable rest) ∧
      ns = blocks.flatten ++ rest := by
  obtain ⟨blocks, rest, hclosed, hrest, rfl⟩ := Node.exists_blocks ns
  obtain ⟨hblocks, hsortable⟩ := List.forall_mem_append.1 h
  refine ⟨blocks, rest, fun block hblock => ⟨hclosed block hblock, fun n hn => ?_⟩, hrest.imp id (⟨·, hsortable⟩), rfl⟩
  exact hblocks n (List.mem_flatten_of_mem hblock hn)

theorem Sortable.sortLabels {block : List Node} (h : Sortable block) : Sortable (Node.sortLabels block) := by
  intro n hn
  obtain ⟨m, hm, ns, -, rfl⟩ := exists_of_mem_sortLabels hn
  rw [isCase_withConsequent, caseKey_withConsequent]
  exact h m hm

/-- Sorting a block is done once. -/
theorem Sortable.sortLabels_idem {block : List Node} (h : Sortable block) :
    Node.sortLabels (Node.sortLabels block) = Node.sortLabels block := by
  rcases List.eq_nil_or_concat block with rfl | ⟨ms, n, rfl⟩
  · simp [Node.sortLabels, SortKey.sortBy, mapLast]
  rw [List.concat_eq_append] at h ⊢
  rcases sortLabels_cases h.isCase with heq | ⟨-, ls, l, hlabels, hbare, heq⟩
  · rw [heq, heq]
  · obtain ⟨hls, hl⟩ := List.forall_mem_append.1 hbare
    obtain ⟨hcase, hl⟩ := List.forall_mem_singleton.1 hl
    have hfront : ∀ m ∈ ls, m.consequent = [] := fun m hm => consequent_eq_nil (hls m hm).2
    have hmap : (ls ++ [l.withConsequent n.consequent]).map (·.withConsequent []) = ls ++ [l] := by
      rw [List.map_append, List.map_singleton, withConsequent_withConsequent, hl,
        List.map_congr_left fun m hm => (hls m hm).2, List.map_id']
    have hplaced : ∀ k ∈ (ms ++ [n]).map (·.withConsequent []), k.caseKey.isPlaced := by
      intro k hk
      obtain ⟨m, hm, rfl⟩ := List.mem_map.1 hk
      rw [caseKey_withConsequent]
      exact (h m hm).2
    rw [heq, sortLabels_append_singleton (List.all_eq_true.2 fun m hm => List.isEmpty_iff.2 (hfront m hm)), hmap,
      consequent_withConsequent hcase, ← hlabels, SortKey.sortBy_eq_self (SortKey.inOrder_sortBy hplaced), hlabels,
      mapLast_append_singleton]

theorem isPlaced_blockKey {block : List Node} (h : Sortable block) : (blockKey block).isPlaced := by
  cases block with
  | nil => rfl
  | cons n ns => exact (h n (List.mem_cons_self ..)).2

/-- Cases that are sorted are not sorted again. -/
theorem sortedCases_idem {ns : List Node} (h : Sortable ns) : sortedCases (sortedCases ns) = sortedCases ns := by
  obtain ⟨blocks, rest, hclosed, hrest, rfl⟩ := h.exists_blocks
  have hcases : ∀ block ∈ blocks, IsClosed block ∧ ∀ n ∈ block, n.isCase := fun block hblock =>
    (hclosed block hblock).imp_right Sortable.isCase
  have hsorted := forall_mem_map_sortLabels hcases
  have hagain : ∀ block ∈ blocks.map sortLabels, (blockKey block).isPlaced ∧ sortLabels block = block := by
    intro block hblock
    obtain ⟨b, hb, rfl⟩ := List.mem_map.1 hblock
    exact ⟨isPlaced_blockKey (hclosed b hb).2.sortLabels, (hclosed b hb).2.sortLabels_idem⟩
  -- blocks are moved only when all of them are closed, and then they are found again
  rcases hrest with rfl | ⟨hopen, hsortable⟩
  · rw [List.append_nil]
    have hperm := SortKey.sortBy_perm blockKey (blocks.map sortLabels)
    rw [sortedCases_flatten hcases, sortedCases_flatten fun block hblock => hsorted block (hperm.mem_iff.1 hblock),
      List.map_congr_left fun block hblock => (hagain block (hperm.mem_iff.1 hblock)).2, List.map_id',
      SortKey.sortBy_eq_self (SortKey.inOrder_sortBy fun block hblock => (hagain block hblock).1)]
  · rw [sortedCases_flatten_append hcases hopen hsortable.isCase,
      sortedCases_flatten_append hsorted (hopen.sortLabels hsortable.isCase) hsortable.sortLabels.isCase,
      hsortable.sortLabels_idem, List.map_congr_left fun block hblock => (hagain block hblock).2, List.map_id']

/-! ## Terminating after sorting -/

theorem mapLast_eq_self {f : Node → Node} {ns : List Node} (h : ∀ n ∈ ns.getLast?, f n = n) : mapLast f ns = ns := by
  rcases List.eq_nil_or_concat ns with rfl | ⟨ms, n, rfl⟩
  · rfl
  · rw [List.concat_eq_append] at h ⊢
    rw [mapLast_append_singleton, h n List.getLast?_concat]

theorem terminated_eq_self {n : Node} (h : n.isTerminated) : n.terminated = n := by rw [terminated, if_pos h]

@[simp] theorem isCase_terminated (n : Node) : n.terminated.isCase = n.isCase := by
  unfold terminated
  split
  · rfl
  · exact isCase_withConsequent ..

@[simp] theorem caseKey_terminated (n : Node) : n.terminated.caseKey = n.caseKey := by
  unfold terminated
  split
  · rfl
  · exact caseKey_withConsequent ..

theorem isTerminated_terminated {n : Node} (h : n.isCase) : n.terminated.isTerminated := by
  unfold terminated
  split
  case isTrue hn => exact hn
  case isFalse =>
    rw [isTerminated, consequent_withConsequent h, List.getLast?_concat]
    rfl

/-- The last of the cases is terminated once that has been seen to. -/
theorem isTerminated_of_mapLast {ns : List Node} (h : ∀ n ∈ ns, n.isCase) :
    ∀ n ∈ (mapLast terminated ns).getLast?, n.isTerminated := by
  intro n hn
  rcases List.eq_nil_or_concat ns with rfl | ⟨ms, k, rfl⟩
  · cases hn
  · rw [List.concat_eq_append] at h hn
    rw [mapLast_append_singleton, List.getLast?_concat, Option.mem_some_iff] at hn
    rw [← hn]
    exact isTerminated_terminated (h k (List.mem_append_right _ (List.mem_singleton_self k)))

theorem mapLast_terminated_idem {ns : List Node} (h : ∀ n ∈ ns, n.isCase) :
    mapLast terminated (mapLast terminated ns) = mapLast terminated ns :=
  mapLast_eq_self fun n hn => terminated_eq_self (isTerminated_of_mapLast h n hn)

theorem Sortable.mapLast_terminated {ns : List Node} (h : Sortable ns) : Sortable (mapLast terminated ns) := by
  intro n hn
  rcases exists_of_mem_mapLast hn with hn | ⟨m, hm, rfl⟩
  · exact h n hn
  · rw [isCase_terminated, caseKey_terminated]
    exact h m hm

/-- If the last of the cases is terminated, so is the last of the sorted cases. -/
theorem isTerminated_of_sortedCases {ns : List Node} (h : Sortable ns) (hlast : ∀ n ∈ ns.getLast?, n.isTerminated) :
    ∀ n ∈ (sortedCases ns).getLast?, n.isTerminated := by
  obtain ⟨blocks, rest, hclosed, hrest, rfl⟩ := h.exists_blocks
  have hcases : ∀ block ∈ blocks, IsClosed block ∧ ∀ n ∈ block, n.isCase := fun block hblock =>
    (hclosed block hblock).imp_right Sortable.isCase
  rcases hrest with rfl | ⟨⟨hne, hopen⟩, -⟩
  · rw [List.append_nil, sortedCases_flatten hcases]
    have hperm := SortKey.sortBy_perm blockKey (blocks.map sortLabels)
    rcases List.eq_nil_or_concat (SortKey.sortBy blockKey (blocks.map sortLabels)) with hnil | ⟨front, block, hconcat⟩
    · rw [hnil]
      exact nofun
    · obtain ⟨ms, n, rfl, -, hn⟩ :=
        (forall_mem_map_sortLabels hcases block (hperm.mem_iff.1 (by rw [hconcat]; simp))).1
      intro k hk
      rw [hconcat, List.concat_eq_append, List.flatten_append, List.flatten_singleton, ← List.append_assoc,
        List.getLast?_concat, Option.mem_some_iff] at hk
      rwa [← hk]
  · obtain ⟨n, hn⟩ := Option.ne_none_iff_exists'.1 (mt List.getLast?_eq_none_iff.1 hne)
    have hn' := hlast n (by rw [List.getLast?_append, hn]; rfl)
    rw [hopen n (List.mem_of_getLast? hn)] at hn'
    cases hn'

/-! ## Sorting changed cases -/

/-- A change of nodes that keeps what sorting looks at in a case: its key, whether it has statements and
whether they end in a terminator. The statements themselves are changed by `g`. -/
structure KeepsCases (F : Node → Node) (g : List Node → List Node) : Prop where
  withConsequent : ∀ n ns, F (n.withConsequent ns) = (F n).withConsequent (g ns)
  consequent : ∀ n, (F n).consequent = g n.consequent
  isEmpty : ∀ ns, (g ns).isEmpty = ns.isEmpty
  isTerminated : ∀ n, (F n).isTerminated = n.isTerminated
  caseKey : ∀ n, (F n).caseKey = n.caseKey

section Changed

variable {F : Node → Node} {g : List Node → List Node}

theorem KeepsCases.nil (h : KeepsCases F g) : g [] = [] := List.isEmpty_iff.1 (h.isEmpty [])

theorem fallthroughBlocks_map (h : KeepsCases F g) (ns : List Node) :
    fallthroughBlocks (ns.map F) = (fallthroughBlocks ns).map (List.map F) := by
  induction ns with
  | nil => rfl
  | cons n ns ih =>
    rw [List.map_cons, fallthroughBlocks, fallthroughBlocks, h.isTerminated, ih]
    split
    · rfl
    · cases fallthroughBlocks ns <;> rfl

theorem all_isEmpty_map (h : KeepsCases F g) (ns : List Node) :
    ((ns.map F).all (·.consequent.isEmpty)) = ns.all (·.consequent.isEmpty) := by
  rw [List.all_map]
  congr 1
  funext n
  rw [Function.comp, h.consequent, h.isEmpty]

theorem sortLabels_map (h : KeepsCases F g) (block : List Node) :
    sortLabels (block.map F) = (sortLabels block).map F := by
  unfold sortLabels
  rw [← List.map_dropLast, all_isEmpty_map h]
  split
  · have hlabels : SortKey.sortBy Node.caseKey ((block.map F).map (·.withConsequent [])) =
        (SortKey.sortBy Node.caseKey (block.map (·.withConsequent []))).map F := by
      rw [← SortKey.sortBy_map h.caseKey, List.map_map, List.map_map]
      congr 1
      refine List.map_congr_left fun n _ => ?_
      rw [Function.comp, Function.comp, h.withConsequent, h.nil]
    have hstatements : ((block.map F).getLast?.map Node.consequent).getD [] =
        g ((block.getLast?.map Node.consequent).getD []) := by
      rw [List.getLast?_map]
      cases block.getLast? with
      | none => exact h.nil.symm
      | some n => exact h.consequent n
    simp only [hlabels, hstatements]
    exact mapLast_map (fun n => (h.withConsequent n _).symm) _
  · rfl

theorem lastIsTerminated_map (h : KeepsCases F g) (blocks : List (List Node)) :
    lastIsTerminated (blocks.map (List.map F)) = lastIsTerminated blocks := by
  unfold lastIsTerminated
  rw [List.getLast?_map]
  cases blocks.getLast? with
  | none => rfl
  | some block =>
    rw [Option.map_some, Option.bind_some, Option.bind_some, List.getLast?_map]
    cases block.getLast? with
    | none => rfl
    | some n => exact h.isTerminated n

theorem blockKey_map (h : KeepsCases F g) (block : List Node) : blockKey (block.map F) = blockKey block := by
  cases block with
  | nil => rfl
  | cons n block => exact h.caseKey n

/-- Sorting does the same to changed cases. -/
theorem sortedCases_map (h : KeepsCases F g) (ns : List Node) : sortedCases (ns.map F) = (sortedCases ns).map F := by
  have hblocks : (fallthroughBlocks (ns.map F)).map sortLabels =
      ((fallthroughBlocks ns).map sortLabels).map (List.map F) := by
    rw [fallthroughBlocks_map h, List.map_map, List.map_map]
    exact List.map_congr_left fun block _ => sortLabels_map h block
  unfold sortedCases
  rw [hblocks]
  simp only [lastIsTerminated_map h]
  split
  · rw [SortKey.sortBy_map (blockKey_map h), List.map_flatten]
  · rw [List.map_flatten]

end Changed

end Node

namespace Restyling

open Node

/-- The restyling changes nothing that a switch needs to know of the statements of a case: whether
there are any, and whether they end in a terminator. -/
structure SparesCases (r : Restyling) : Prop where
  isEmpty : ∀ ns, (r.caseStatements ns).isEmpty = ns.isEmpty
  terminates : ∀ ns, (r.caseStatements ns).getLast?.any isTerminator = ns.getLast?.any isTerminator
  /-- A break is left alone. -/
  concat_break : ∀ ns span, r.caseStatements (ns ++ [plain span (.breakStatement none)]) =
    r.caseStatements ns ++ [plain span (.breakStatement none)]

variable {r : Restyling}

theorem SparesCases.nil (h : r.SparesCases) : r.caseStatements [] = [] :=
  List.isEmpty_iff.1 (h.isEmpty [])

theorem run_withConsequent (r : Restyling) (n : Node) (ns : List Node) :
    r.run (n.withConsequent ns) = (r.run n).withConsequent (r.caseStatements (ns.map r.run)) := by
  obtain ⟨info, form⟩ := n
  cases form <;> simp only [withConsequent, withForm, Node.form, Node.info, run_mk, Form.map, Restyling.form]

theorem consequent_run (h : r.SparesCases) (n : Node) :
    (r.run n).consequent = r.caseStatements (n.consequent.map r.run) := by
  obtain ⟨info, form⟩ := n
  rw [run_mk]
  cases form <;> first | exact h.nil.symm | rfl

theorem isTerminated_run (h : r.SparesCases) (n : Node) : (r.run n).isTerminated = n.isTerminated := by
  unfold isTerminated
  rw [consequent_run h, h.terminates, List.getLast?_map, Option.any_map]
  congr 1
  funext m
  exact r.isTerminator_run m

/-! ## Terminating the last case -/

theorem terminated_run (h : r.SparesCases) (n : Node) : (r.run n).terminated = r.run n.terminated := by
  unfold terminated
  rw [isTerminated_run h]
  split
  · rfl
  · rw [run_withConsequent, List.map_append, List.map_singleton, consequent_run h, run_span]
    congr 1
    show _ = r.caseStatements (_ ++ [r.run (.mk _ _)])
    rw [run_mk]
    exact (h.concat_break _ _).symm

/-! ## Sorting -/

theorem SparesCases.keepsCases (h : r.SparesCases) : KeepsCases r.run fun ns => r.caseStatements (ns.map r.run) where
  withConsequent := r.run_withConsequent
  consequent := consequent_run h
  isEmpty ns := by rw [h.isEmpty, List.isEmpty_map]
  isTerminated := isTerminated_run h
  caseKey := r.caseKey_run

theorem sortedCases_run (h : r.SparesCases) (ns : List Node) :
    sortedCases (ns.map r.run) = (sortedCases ns).map r.run :=
  sortedCases_map h.keepsCases ns

end Restyling

end ScriptTidy
