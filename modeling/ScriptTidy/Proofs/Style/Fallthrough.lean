/-
Fallthrough blocks before and after sorting. Labels, statements and blocks are moved by three sorts
that are nested in one another, and the blocks are not stored: they are found again by the
terminators, which go with the statements. So what is shown of sorted cases speaks of the blocks
that are found in them. The labels of a block are in order, with its statements on the last one; a
block with code before its last case is what it was; the blocks themselves are in order as long as
no case runs past the end of the switch, and otherwise where they were.
-/
import Mathlib
import ScriptTidy.Proofs.Style.Again
import ScriptTidy.Proofs.Style.Dispatch

namespace ScriptTidy

namespace Node

/-! ## Labels and statements -/

/-- The label of a case: its test and its comments, without statements. -/
def bareLabel (n : Node) : Node := n.withConsequent []

/-- All statements of a block belong to its last case. -/
def isBare (block : List Node) : Bool := block.dropLast.all (·.consequent.isEmpty)

/-- What sorting makes of a block. -/
structure SortsBlock (block sorted : List Node) : Prop where
  /-- The labels of a bare block are sorted, and its statements belong to the last label again. -/
  bare : isBare block → SortKey.Sorts caseKey (block.map bareLabel) (sorted.map bareLabel) ∧
    isBare sorted ∧ sorted.getLast?.map consequent = block.getLast?.map consequent
  /-- Any other block stays as it is. -/
  other : isBare block = false → sorted = block

/-- What sorting makes of the cases of a switch. The blocks are those that are found in the cases. -/
structure SortsCases (cases sorted : List Node) : Prop where
  labels : (sorted.map bareLabel).Perm (cases.map bareLabel)
  statements : (sorted.flatMap consequent).Perm (cases.flatMap consequent)
  blocks : ∃ blocks, List.Forall₂ SortsBlock (fallthroughBlocks cases) blocks ∧
    (cases.getLast?.any isTerminated → SortKey.Sorts blockKey blocks (fallthroughBlocks sorted)) ∧
    (cases.getLast?.any isTerminated = false → fallthroughBlocks sorted = blocks)

/-! ## One block -/

theorem isBare_append_singleton (ms : List Node) (n : Node) :
    isBare (ms ++ [n]) = ms.all (·.consequent.isEmpty) := by
  rw [isBare, List.dropLast_concat]

theorem flatMap_consequent_of_isBare {block : List Node} (h : isBare block) :
    block.flatMap consequent = (block.getLast?.map consequent).getD [] := by
  rcases List.eq_nil_or_concat block with rfl | ⟨ms, n, rfl⟩
  · rfl
  rw [List.concat_eq_append] at h ⊢
  rw [isBare_append_singleton, List.all_eq_true] at h
  have hms : ms.flatMap consequent = [] := List.flatMap_eq_nil_iff.2 fun m hm => List.isEmpty_iff.1 (h m hm)
  rw [List.flatMap_append, hms, List.getLast?_concat]
  exact List.flatMap_singleton ..

theorem sortsBlock_sortLabels {block : List Node} (h : Sortable block) : SortsBlock block (sortLabels block) := by
  have hplaced : ∀ l ∈ block.map bareLabel, l.caseKey.isPlaced := by
    intro l hl
    obtain ⟨n, hn, rfl⟩ := List.mem_map.1 hl
    rw [bareLabel, caseKey_withConsequent]
    exact (h n hn).2
  rcases List.eq_nil_or_concat block with rfl | ⟨ms, n, rfl⟩
  · have hnil : sortLabels [] = [] := by simp [sortLabels, SortKey.sortBy, mapLast]
    have hsorts : SortKey.Sorts caseKey ([] : List Node) [] := by
      simpa [SortKey.sortBy] using SortKey.sorts_sortBy hplaced
    rw [hnil]
    exact ⟨fun hbare => ⟨hsorts, hbare, rfl⟩, fun _ => rfl⟩
  rw [List.concat_eq_append] at h hplaced ⊢
  refine ⟨fun hbare => ?bare, fun hother => ?other⟩
  case other => exact sortLabels_of_not hother
  case bare =>
    obtain ⟨ls, l, hlabels, hbareLabels⟩ := exists_labels (by simp) h.isCase
    obtain ⟨hls, hl⟩ := List.forall_mem_append.1 hbareLabels
    have heq : sortLabels (ms ++ [n]) = ls ++ [l.withConsequent n.consequent] := by
      rw [isBare_append_singleton] at hbare
      rw [sortLabels_append_singleton hbare, hlabels, mapLast_append_singleton]
    have hsorted : (ls ++ [l.withConsequent n.consequent]).map bareLabel = ls ++ [l] := by
      have hfront : ls.map bareLabel = ls.map id := List.map_congr_left fun m hm => (hls m hm).2
      have hback : bareLabel (l.withConsequent n.consequent) = l :=
        (withConsequent_withConsequent ..).trans (List.forall_mem_singleton.1 hl).2
      rw [List.map_append, hfront, List.map_id, List.map_singleton, hback]
    rw [heq]
    refine ⟨?_, ?_, ?_⟩
    · rw [hsorted, ← hlabels]
      exact SortKey.sorts_sortBy hplaced
    · rw [isBare_append_singleton, List.all_eq_true]
      exact fun m hm => List.isEmpty_iff.2 (consequent_eq_nil (hls m hm).2)
    · rw [List.getLast?_concat, List.getLast?_concat, Option.map_some, Option.map_some,
        consequent_withConsequent (List.forall_mem_singleton.1 hl).1]

namespace SortsBlock

variable {block sorted : List Node}

theorem labels (h : SortsBlock block sorted) : (sorted.map bareLabel).Perm (block.map bareLabel) := by
  cases hbare : isBare block with
  | true => exact (h.bare hbare).1.perm
  | false => rw [h.other hbare]

/-- The statements of a block keep their order. -/
theorem statements (h : SortsBlock block sorted) : sorted.flatMap consequent = block.flatMap consequent := by
  cases hbare : isBare block with
  | true =>
    obtain ⟨-, hsorted, hlast⟩ := h.bare hbare
    rw [flatMap_consequent_of_isBare hsorted, flatMap_consequent_of_isBare hbare, hlast]
  | false => rw [h.other hbare]

end SortsBlock

/-! ## All blocks -/

theorem labels_of_forall₂ {blocks sorted : List (List Node)} (h : List.Forall₂ SortsBlock blocks sorted) :
    (sorted.flatten.map bareLabel).Perm (blocks.flatten.map bareLabel) := by
  induction h with
  | nil => exact .refl _
  | cons hblock _ ih =>
    rw [List.flatten_cons, List.map_append, List.flatten_cons, List.map_append]
    exact hblock.labels.append ih

theorem statements_of_forall₂ {blocks sorted : List (List Node)} (h : List.Forall₂ SortsBlock blocks sorted) :
    sorted.flatten.flatMap consequent = blocks.flatten.flatMap consequent := by
  induction h with
  | nil => rfl
  | cons hblock _ ih =>
    rw [List.flatten_cons, List.flatMap_append, List.flatten_cons, List.flatMap_append, hblock.statements, ih]

theorem forall₂_map_sortLabels {blocks : List (List Node)} (h : ∀ block ∈ blocks, Sortable block) :
    List.Forall₂ SortsBlock blocks (blocks.map sortLabels) := by
  rw [List.forall₂_map_right_iff]
  exact List.forall₂_same.2 fun block hblock => sortsBlock_sortLabels (h block hblock)

theorem sortable_of_mem_fallthroughBlocks {cases : List Node} (h : Sortable cases) :
    ∀ block ∈ fallthroughBlocks cases, Sortable block := by
  intro block hblock n hn
  refine h n ?_
  rw [← flatten_fallthroughBlocks cases]
  exact List.mem_flatten_of_mem hblock hn

/-- The last of all cases stands at the end of the last block. -/
theorem lastIsTerminated_append_singleton {block : List Node} (h : block ≠ []) (blocks : List (List Node)) :
    lastIsTerminated (blocks ++ [block]) = (blocks.flatten ++ block).getLast?.any isTerminated := by
  obtain ⟨n, hn⟩ := Option.ne_none_iff_exists'.1 (mt List.getLast?_eq_none_iff.1 h)
  rw [lastIsTerminated, List.getLast?_concat, Option.bind_some, List.getLast?_append, hn]
  rfl

/-- The blocks of sorted cases are the sorted blocks, in order or in their places. -/
theorem fallthroughBlocks_sortedCases {cases : List Node} (h : ∀ n ∈ cases, n.isCase) :
    fallthroughBlocks (sortedCases cases) =
      if cases.getLast?.any isTerminated then SortKey.sortBy blockKey ((fallthroughBlocks cases).map sortLabels)
      else (fallthroughBlocks cases).map sortLabels := by
  obtain ⟨blocks, rest, hclosed, hrest, rfl⟩ := exists_blocks cases
  obtain ⟨hblocks, hcases⟩ := List.forall_mem_append.1 h
  have hboth : ∀ block ∈ blocks, IsClosed block ∧ ∀ n ∈ block, n.isCase := fun block hblock =>
    ⟨hclosed block hblock, fun n hn => hblocks n (List.mem_flatten_of_mem hblock hn)⟩
  have hsorted := fun block hblock => (forall_mem_map_sortLabels hboth block hblock).1
  -- closed blocks are found again in any order; with an open one behind them they are left where they are
  rcases hrest with rfl | hopen
  · have hperm := SortKey.sortBy_perm blockKey (blocks.map sortLabels)
    have hfound : fallthroughBlocks (sortedCases blocks.flatten) = SortKey.sortBy blockKey (blocks.map sortLabels) := by
      rw [sortedCases_flatten hboth]
      exact fallthroughBlocks_flatten fun block hblock => hsorted block (hperm.mem_iff.1 hblock)
    rw [List.append_nil, hfound, fallthroughBlocks_flatten hclosed]
    rcases List.eq_nil_or_concat blocks with rfl | ⟨front, block, rfl⟩
    · exact SortKey.sortBy_eq_self .nil
    · rw [List.concat_eq_append] at hclosed ⊢
      obtain ⟨ms, n, hblock, -⟩ := hclosed block (by simp)
      have hlast := lastIsTerminated_of_closed hclosed (by simp)
      rw [lastIsTerminated_append_singleton (by simp [hblock])] at hlast
      rw [List.flatten_append, List.flatten_singleton, if_pos hlast]
  · have hlast := lastIsTerminated_of_open hopen blocks
    rw [lastIsTerminated_append_singleton hopen.1] at hlast
    rw [hlast, sortedCases_flatten_append hboth hopen hcases, fallthroughBlocks_flatten_append_open hsorted
      (hopen.sortLabels hcases), fallthroughBlocks_flatten_append_open hclosed hopen, List.map_append]
    rfl

theorem sortsCases_sortedCases {cases : List Node} (h : Sortable cases) : SortsCases cases (sortedCases cases) := by
  have hsortable := sortable_of_mem_fallthroughBlocks h
  have hblocks := forall₂_map_sortLabels hsortable
  have hlabels := labels_of_forall₂ hblocks
  have hstatements := statements_of_forall₂ hblocks
  rw [flatten_fallthroughBlocks] at hlabels hstatements
  refine ⟨?labels, ?statements, _, hblocks, fun hlast => ?closed, fun hlast => ?running⟩
  case labels => exact ((sortedCases_perm cases).map _).trans hlabels
  case statements =>
    rw [← hstatements]
    exact (sortedCases_perm cases).flatMap_right _
  case closed =>
    rw [fallthroughBlocks_sortedCases h.isCase, if_pos hlast]
    refine SortKey.sorts_sortBy fun block hblock => ?_
    obtain ⟨b, hb, rfl⟩ := List.mem_map.1 hblock
    exact isPlaced_blockKey (hsortable b hb).sortLabels
  case running => rw [fallthroughBlocks_sortedCases h.isCase, hlast, if_neg Bool.false_ne_true]

/-! ## Every switch of a tree -/

theorem info_sortCases (n : Node) : n.sortCases.info = n.info := by
  obtain ⟨info, form⟩ := n
  rw [sortCases_eq, Restyling.run_mk]
  simp [Rule.restyling, Node.info]

theorem keepsCases_sortCases : KeepsCases sortCases (List.map sortCases) := by
  rw [funext sortCases_eq]
  exact (Rule.sparesCases .sortCases).keepsCases

theorem test?_sortCases (n : Node) : n.sortCases.test? = n.test?.map sortCases := by
  simp only [funext sortCases_eq]
  exact Restyling.test?_run _ n

theorem isPlaced_caseKey {n : Node} (h : ∀ test ∈ n.test?, test.isNaN = false) : n.caseKey.isPlaced := by
  obtain ⟨info, form⟩ := n
  cases form with
  | switchCase test consequent =>
    cases test with
    | none => rfl
    | some test => exact isPlaced_sortKey (h test rfl)
  | _ => rfl

/-- The cases of every switch are sorted, with what is nested in them, as long as no label is a NaN. A
case keeps its comments, its test and its statements apart from that, and the blocks are made of the
same cases. -/
theorem sortCases_sortsCases {root n discriminant : Node} {cases : List Node} (hcases : root.HasCases)
    (hn : n ∈ root.preorder) (hform : n.form = .switchStatement discriminant cases)
    (hnumbers : ∀ m ∈ cases, ∀ test ∈ m.test?, test.isNaN = false) :
    (∀ m ∈ cases, m.sortCases.info = m.info ∧ m.sortCases.test? = m.test?.map sortCases ∧
      m.sortCases.consequent = m.consequent.map sortCases) ∧
    fallthroughBlocks (cases.map sortCases) = (fallthroughBlocks cases).map (List.map sortCases) ∧
    ∃ sorted,
      (∃ m ∈ root.sortCases.preorder, m.span = n.span ∧
        m.form = .switchStatement discriminant.sortCases sorted) ∧
      SortsCases (cases.map sortCases) sorted := by
  have hsortable : Sortable (cases.map sortCases) := by
    intro m hm
    obtain ⟨k, hk, rfl⟩ := List.mem_map.1 hm
    rw [keepsCases_sortCases.caseKey, sortCases_eq, Restyling.isCase_run]
    exact ⟨hcases n hn k (by rw [hform]; exact hk), isPlaced_caseKey (hnumbers k hk)⟩
  refine ⟨fun m _ => ⟨info_sortCases m, test?_sortCases m, keepsCases_sortCases.consequent m⟩,
    fallthroughBlocks_map keepsCases_sortCases cases, _, ?switch, sortsCases_sortedCases hsortable⟩
  case switch =>
    rw [sortedCases_map keepsCases_sortCases]
    exact hcases.exists_switch hn hform

/-- The blocks of the default and of the two labels after it are sorted. -/
theorem sortCases_sortsCases_defaultFirst : ∃ sorted, SortsCases (defaultFirst.map sortCases) sorted := by
  have hcases : (plain ⟨0, 0, 1⟩ (.switchStatement (plain ⟨0, 0, 1⟩ .thisExpression) defaultFirst)).HasCases := by
    decide +kernel
  have hnumbers : ∀ m ∈ defaultFirst, ∀ test ∈ m.test?, test.isNaN = false := by decide +kernel
  obtain ⟨-, -, sorted, -, hsorted⟩ := sortCases_sortsCases hcases (mem_preorder_self _) rfl hnumbers
  exact ⟨sorted, hsorted⟩

end Node

end ScriptTidy
