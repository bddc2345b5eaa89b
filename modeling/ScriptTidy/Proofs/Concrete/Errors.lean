/-
Texts that hold an error. The search for the error leaves out nodes that are not marked as holding
one; where every node above an error is marked, it finds the first node in error, parents before
children. The place that is reported is the place of that node: its line is counted by line feeds and
its column by bytes. What is said of the error can always be said: a quoted text that is not blank has
a first line, and that line has a character that is not blank.
-/
import ScriptTidy.Proofs.Concrete.Literals
import ScriptTidy.Proofs.Concrete.Walks

namespace ScriptTidy

/-! ## The first error -/

namespace Cst

/-- All nodes of a tree, every node before its children. -/
def preorder (c : Cst) : List Cst := c :: c.children.attach.flatMap fun d => preorder d.val
termination_by sizeOf c
decreasing_by exact sizeOf_lt_of_mem d.property

theorem preorder_eq (c : Cst) : c.preorder = c :: c.children.flatMap preorder := by
  conv_rhs => rw [← List.attach_map_subtype_val c.children, List.flatMap_map]
  rw [preorder]

theorem preorder_node (mark : Mark) (children : List Cst) :
    (node mark children).preorder = node mark children :: children.flatMap preorder := preorder_eq _

/-- Every node above a node in error is marked as holding an error. -/
def IsMarked (root : Cst) : Prop :=
  ∀ c ∈ root.preorder, ∀ d ∈ c.children.flatMap preorder, d.isFaulty → c.mark.hasError

theorem IsMarked.child {c d : Cst} (h : c.IsMarked) (hd : d ∈ c.children) : d.IsMarked := by
  intro k hk
  refine h k ?_
  rw [preorder_eq]
  exact List.mem_cons_of_mem _ (List.mem_flatMap.2 ⟨d, hd, hk⟩)

/-- The search for an error finds the first node in error, parents before children. -/
theorem IsMarked.firstError?_eq {root : Cst} (h : root.IsMarked) : root.firstError? = root.preorder.find? isFaulty := by
  induction root using byChildren with
  | node c ih =>
    rw [Cst.firstError?_eq, preorder_eq, List.find?_cons]
    cases hself : c.isFaulty with
    | true => rfl
    | false =>
      rw [if_neg Bool.false_ne_true, List.find?_flatMap]
      split
      case isTrue =>
        rw [← List.head?_filterMap, ← List.head?_filterMap, List.filterMap_congr fun d hd => ih d hd (h.child hd)]
      case isFalse hmark =>
        -- nothing below an unmarked node is in error
        refine (List.findSome?_eq_none_iff.2 fun d hd => List.find?_eq_none.2 fun k hk hfaulty => ?_).symm
        have hc : c ∈ c.preorder := by
          rw [preorder_eq]
          exact List.mem_cons_self ..
        exact hmark (h c hc k (List.mem_flatMap.2 ⟨d, hd, hk⟩) hfaulty)

end Cst

/-! ## Places -/

namespace Source

/-- The place of an offset: its line, one more than the line feeds before it, and its column, one more
than the bytes between the start of its line and it. -/
structure Locates (bytes : List UInt8) (offset : Nat) (p : Position) : Prop where
  line : p.line = (bytes.take offset).count 10 + 1
  column : ∃ start ≤ offset, p.column = offset - start + 1 ∧ (start = 0 ∨ bytes[start - 1]? = some 10) ∧
    ∀ i, start ≤ i → i < offset → bytes[i]? ≠ some 10

theorem breaksOf_cons (b : UInt8) (bytes : List UInt8) :
    breaksOf (b :: bytes) = (if b = 10 then [0] else []) ++ (breaksOf bytes).map (· + 1) := by
  unfold breaksOf
  rw [List.zipIdx_cons, List.zipIdx_succ]
  by_cases h : b = 10 <;> simp [h, List.filter_map, Function.comp_def]

theorem mem_breaksOf {bytes : List UInt8} {i : Nat} : i ∈ breaksOf bytes ↔ bytes[i]? = some 10 := by
  simp [breaksOf, List.mem_zipIdx_iff_getElem?]

theorem length_breaksOf (bytes : List UInt8) : (breaksOf bytes).length = bytes.count 10 := by
  induction bytes with
  | nil => rfl
  | cons b bytes ih =>
    rw [breaksOf_cons, List.length_append, List.length_map, ih, List.count_cons]
    by_cases h : b = 10 <;> simp [h, Nat.add_comm]

theorem pairwise_breaksOf (bytes : List UInt8) : (breaksOf bytes).Pairwise (· < ·) := by
  induction bytes with
  | nil => exact .nil
  | cons b bytes ih =>
    have hrest : ((breaksOf bytes).map (· + 1)).Pairwise (· < ·) :=
      List.pairwise_map.2 (ih.imp fun h => Nat.add_lt_add_right h 1)
    rw [breaksOf_cons]
    split
    · exact List.pairwise_cons.2 ⟨by simp, hrest⟩
    · exact hrest

/-- The line feeds before an offset are those of the text before it. -/
theorem takeWhile_breaksOf (bytes : List UInt8) (offset : Nat) :
    (breaksOf bytes).takeWhile (· < offset) = breaksOf (bytes.take offset) := by
  induction bytes generalizing offset with
  | nil => rw [List.take_nil]; rfl
  | cons b bytes ih =>
    cases offset with
    | zero => cases h : breaksOf (b :: bytes) <;> simp [List.take_zero, breaksOf]
    | succ offset =>
      rw [breaksOf_cons, List.take_succ_cons, breaksOf_cons, ← ih, ← Nat.succ_eq_add_one]
      by_cases h : b = 10 <;> simp [h, List.takeWhile_map, Function.comp_def]

theorem locates_position (bytes : ByteArray) (offset : Nat) :
    Locates bytes.toList offset ((ofBytes bytes).position offset) := by
  have hbreaks := takeWhile_breaksOf bytes.toList offset
  have hmem (i : Nat) : i ∈ breaksOf (bytes.toList.take offset) ↔ i < offset ∧ bytes.toList[i]? = some 10 := by
    rw [mem_breaksOf, List.getElem?_take]
    split <;> simp [*]
  constructor
  case line => simp only [position, ofBytes, hbreaks, length_breaksOf]
  case column =>
    simp only [position, ofBytes, hbreaks]
    rcases List.eq_nil_or_concat (breaksOf (bytes.toList.take offset)) with hnil | ⟨front, last, hlast⟩
    · refine ⟨0, Nat.zero_le _, by simp [hnil], .inl rfl, fun i _ hi hbreak => ?_⟩
      have : i ∈ breaksOf (bytes.toList.take offset) := (hmem i).2 ⟨hi, hbreak⟩
      rw [hnil] at this
      cases this
    · rw [List.concat_eq_append] at hlast
      have hsorted := pairwise_breaksOf (bytes.toList.take offset)
      obtain ⟨hlt, hbreak⟩ := (hmem last).1 (by simp [hlast])
      rw [hlast] at hsorted hmem
      refine ⟨last + 1, hlt, by simp [hlast], .inr hbreak, fun i hi hoffset hfeed => ?_⟩
      -- the last line feed before the offset is behind all others
      rcases List.mem_append.1 ((hmem i).2 ⟨hoffset, hfeed⟩) with hfront | hend
      · exact absurd ((List.pairwise_append.1 hsorted).2.2 i hfront last (List.mem_singleton_self _)) (by omega)
      · exact absurd (List.mem_singleton.1 hend) (by omega)

end Source

/-! ## What is quoted -/

namespace Text

theorem isBlank_of_isLineBreak {c : Char} (h : isLineBreak c) : isBlank c := by
  unfold isLineBreak at h
  unfold isBlank
  simp at h ⊢
  omega

/-- A text that is not empty has a first line, which ends at the first break. -/
theorem head?_lines {s : List Char} (h : s ≠ []) : (lines s).head? = some (s.takeWhile (!isLineBreak ·)) := by
  fun_induction lines s with
  | case1 => exact absurd rfl h
  | case2 rest ih => rfl
  | case3 c rest hcrlf hbreak ih => rw [List.head?_cons, List.takeWhile_cons_of_neg (by simp [hbreak])]
  | case4 c rest hcrlf hbreak hnil ih =>
    rw [List.takeWhile_cons_of_pos (by simp [hbreak]), List.head?_cons]
    cases rest with
    | nil => rfl
    | cons d rest =>
      rw [hnil] at ih
      cases ih (by simp)
  | case5 c rest hcrlf hbreak line more hlines ih =>
    rw [List.takeWhile_cons_of_pos (by simp [hbreak]), List.head?_cons]
    cases rest with
    | nil => cases hlines
    | cons d rest =>
      rw [hlines] at ih
      rw [Option.some.inj (ih (by simp))]

/-- What is left of a text without the blanks at its ends does not begin with a line break. -/
theorem head_trim {s rest : List Char} {c : Char} (h : trim s = c :: rest) : isLineBreak c = false := by
  have hprefix : trim s <+: trimStart s := by
    have hsuffix := List.dropWhile_suffix isBlank (l := (trimStart s).reverse)
    rwa [← List.reverse_prefix, List.reverse_reverse] at hsuffix
  obtain ⟨blanks, hblanks⟩ := hprefix
  rw [h, List.cons_append] at hblanks
  have hblank := List.head?_dropWhile_not isBlank s
  rw [← trimStart, ← hblanks] at hblank
  cases hbreak : isLineBreak c with
  | false => rfl
  | true => simp [isBlank_of_isLineBreak hbreak] at hblank

end Text

/-! ## Errors -/

namespace Source

/-- What is said of a node in error. Of its text the first line is quoted, up to thirty characters. -/
def complaint (s : Source) (c : Cst) : String :=
  if c.mark.isMissing then "missing " ++ Text.shown c.kind
  else
    match Text.trim (Text.decodeLossy (s.slice c.mark.start c.mark.stop)) with
    | [] => "unexpected end of input"
    | text => "unexpected " ++ Text.shown (String.ofList ((text.takeWhile (!Text.isLineBreak ·)).take maxQuoted))

/-- Of a text without blanks at its ends something can be quoted. -/
theorem quoted_trim {text s : List Char} (h : Text.trim text = s) :
    quoted s = .ok ((s.takeWhile (!Text.isLineBreak ·)).take maxQuoted) := by
  cases s with
  | nil => rfl
  | cons c rest =>
    obtain ⟨more, hlines⟩ := List.head?_eq_some_iff.1 (Text.head?_lines (List.cons_ne_nil c rest))
    rw [quoted, hlines]
    rfl

/-- Something can be said of every node, whatever the bytes are. -/
theorem problemAt_eq (s : Source) (c : Cst) : s.problemAt c = .ok (s.complaint c) := by
  unfold problemAt complaint
  split
  · rfl
  · generalize htext : Text.trim (Text.decodeLossy (s.slice c.mark.start c.mark.stop)) = text
    rw [quoted_trim htext]
    cases text with
    | nil => rfl
    | cons d rest =>
      have hquoted : (((d :: rest).takeWhile (!Text.isLineBreak ·)).take maxQuoted).isEmpty = false := by
        rw [List.takeWhile_cons_of_pos (by simp [Text.head_trim htext])]
        rfl
      exact if_neg (ne_true_of_eq_false hquoted)

/-- A tree that holds an error is refused, and the fault names the first node in error, parents before
children, or the root if there is none. This needs no valid text. -/
theorem readTree_of_hasError (bytes : ByteArray) (root : Cst) (herror : root.mark.hasError) (hmarked : root.IsMarked) :
    ∃ position, Locates bytes.toList ((root.preorder.find? Cst.isFaulty).getD root).mark.start position ∧
      (ofBytes bytes).readTree root =
        .error (.malformed position
          ((ofBytes bytes).complaint ((root.preorder.find? Cst.isFaulty).getD root))) := by
  refine ⟨_, locates_position bytes _, ?_⟩
  rw [readTree, if_pos herror, refuse, hmarked.firstError?_eq, problemAt_eq]
  rfl

/-- Three lines; the last one is a byte with which no character starts. -/
def invalidBytes : ByteArray := ⟨#[0x61, 0x0a, 0x62, 0x20, 0x29, 0x0a, 0xff]⟩

/-- A parenthesis and the invalid byte on the line below. -/
def invalidPart : Cst := .node ⟨"ERROR", true, false, true, 4, 7, none⟩ []

/-- A tree of these lines, with a token missing at the end. -/
def invalidTree : Cst :=
  .node ⟨"program", true, false, true, 0, 7, none⟩
    [.node ⟨"identifier", true, false, false, 0, 1, none⟩ [],
      .node ⟨"expression_statement", true, false, true, 2, 7, none⟩
        [.node ⟨"identifier", true, false, false, 2, 3, none⟩ [], invalidPart,
          .node ⟨";", false, true, false, 7, 7, none⟩ []]]

theorem readTree_of_hasError_invalid : invalidTree.mark.hasError ∧ invalidTree.IsMarked ∧
    ∃ position, Locates invalidBytes.toList 4 position ∧
      (ofBytes invalidBytes).readTree invalidTree = .error (.malformed position "unexpected ')'") := by
  have hmarked : invalidTree.IsMarked := by
    simp [Cst.IsMarked, invalidTree, invalidPart, Cst.preorder_node, Cst.children, Cst.isFaulty, Cst.mark, Cst.kind]
  have hfirst : invalidTree.preorder.find? Cst.isFaulty = some invalidPart := by
    simp [invalidTree, invalidPart, Cst.preorder_node, Cst.isFaulty, Cst.mark, Cst.kind]
  have hcomplaint : (ofBytes invalidBytes).complaint invalidPart = "unexpected ')'" := by decide +kernel
  obtain ⟨position, hlocates, hread⟩ := readTree_of_hasError invalidBytes invalidTree rfl hmarked
  rw [hfirst, Option.getD_some] at hlocates hread
  rw [hcomplaint] at hread
  exact ⟨rfl, hmarked, position, hlocates, hread⟩

end Source

end ScriptTidy
