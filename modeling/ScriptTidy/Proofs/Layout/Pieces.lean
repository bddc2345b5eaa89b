/-
The text of pieces. The pieces are written one after another, and what the spacing does to them is
known: it deletes newlines where lines begin. So a comment that was given a line of its own among
the pieces has one in the text, whatever stands around it.
-/
import ScriptTidy.Layout.Piece
import ScriptTidy.Proofs.Layout.Spacing

namespace ScriptTidy

open Spacing

namespace Comment

variable {c : Comment}

theorem newline_notMem_text (hkind : c.kind = .line) (hvalue : '\n' ∉ c.value.toList) : '\n' ∉ c.text.toList := by
  unfold text
  rw [hkind]
  dsimp only
  split
  · rw [String.toList_append, List.mem_append]
    exact not_or.2 ⟨by decide, hvalue⟩
  · rw [String.toList_append, List.mem_append]
    exact not_or.2 ⟨by decide, hvalue⟩

theorem text_ne_nil (c : Comment) : c.text.toList ≠ [] := by
  intro h
  unfold text at h
  split at h
  · split at h
    · rw [String.toList_append] at h
      exact absurd (List.append_eq_nil_iff.1 h).1 (by decide)
    · rw [String.toList_append] at h
      exact absurd (List.append_eq_nil_iff.1 h).1 (by decide)
  · rw [String.toList_append] at h
    exact absurd (List.append_eq_nil_iff.1 h).2 (by decide)

theorem head?_text (c : Comment) : c.text.toList.head? = some '/' := by
  unfold text
  split
  · split
    · rw [String.toList_append]
      rfl
    · rw [String.toList_append]
      rfl
  · rw [String.toList_append, String.toList_append]
    rfl

/-- No comment ends in a newline. -/
theorem exists_getLast?_text (h : c.kind = .line → '\n' ∉ c.value.toList) :
    ∃ last, c.text.toList.getLast? = some last ∧ last ≠ '\n' := by
  cases hkind : c.kind with
  | line =>
    refine ⟨_, List.getLast?_eq_getLast_of_ne_nil c.text_ne_nil, fun hlast => ?_⟩
    exact newline_notMem_text hkind (h hkind) (hlast ▸ List.getLast_mem c.text_ne_nil)
  | block =>
    refine ⟨'/', ?_, by decide⟩
    rw [text, hkind]
    dsimp only
    rw [String.toList_append, List.getLast?_append]
    rfl

end Comment

namespace Piece

variable {unit : String}

/-! ## Segments -/

/-- The characters of the pieces, in order. -/
def written (unit : String) (pieces : List Piece) : List Char := pieces.flatMap fun p => (p.segment unit).text

theorem written_append (a b : List Piece) : written unit (a ++ b) = written unit a ++ written unit b :=
  List.flatMap_append ..

theorem written_cons (p : Piece) (ps : List Piece) :
    written unit (p :: ps) = (p.segment unit).text ++ written unit ps :=
  List.flatMap_cons ..

theorem flatMap_text_join (s : Segment) (rest : List Segment) :
    (join s rest).flatMap Segment.text = s.text ++ rest.flatMap Segment.text := by
  unfold join
  split
  case isTrue =>
    split
    case isTrue hempty => rw [List.isEmpty_iff.1 hempty, List.nil_append]
    case isFalse => rfl
  case isFalse =>
    split
    · exact List.append_assoc ..
    · rfl

theorem flatMap_text_segments (pieces : List Piece) :
    (segments unit pieces).flatMap Segment.text = written unit pieces := by
  induction pieces with
  | nil => rfl
  | cons p pieces ih => rw [segments, List.foldr_cons, flatMap_text_join, ← segments, ih, written_cons]

theorem join_verbatim {v : Segment} (hv : v.isVerbatim = true) (hne : v.text ≠ []) (rest : List Segment) :
    join v rest = v :: rest := by
  unfold join
  rw [if_pos hv, if_neg (mt List.isEmpty_iff.1 hne)]

/-- Nothing is joined over a verbatim segment. -/
theorem join_append {v : Segment} (hv : v.isVerbatim = true) (s : Segment) (rest more : List Segment) :
    join s (rest ++ v :: more) = join s rest ++ v :: more := by
  obtain ⟨text, isVerbatim⟩ := v
  cases hv
  unfold join
  split
  case isTrue =>
    split
    · rfl
    · rfl
  case isFalse =>
    rcases rest with _ | ⟨⟨next, _ | _⟩, rest⟩
    · rfl
    · rfl
    · rfl

theorem segments_append_cons {p : Piece} (hp : (p.segment unit).isVerbatim = true) (hne : (p.segment unit).text ≠ [])
    (before after : List Piece) :
    segments unit (before ++ p :: after) = segments unit before ++ p.segment unit :: segments unit after := by
  induction before with
  | nil =>
    unfold segments
    rw [List.nil_append, List.foldr_cons, join_verbatim hp hne]
    rfl
  | cons q before ih =>
    rw [List.cons_append, segments, List.foldr_cons, ← segments, ih, join_append hp]
    rfl

theorem newline_notMem_indentText (h : '\n' ∉ unit.toList) (depth : Nat) : '\n' ∉ indentText unit depth := by
  unfold indentText
  rw [List.mem_flatten]
  rintro ⟨text, htext, hmem⟩
  rw [List.eq_of_mem_replicate htext] at hmem
  exact h hmem

/-! ## Comments on lines of their own -/

/-- Every comment is given a line of its own: an indent at the start of a line stands before it, and a newline
after it. -/
def Lined (pieces : List Piece) : Prop :=
  ∀ before c after, pieces = before ++ comment c :: after →
    (∃ front depth, before = front ++ [newline, indent depth]) ∧ ∃ rest, after = newline :: rest

/-- In the text the comment stands between the pieces on a line of its own: only an indent stands before it on its
line, and a newline follows. -/
def OnOwnLine (unit : String) (before : List Piece) (c : Comment) (after : List Piece) (text : List Char) : Prop :=
  ∃ front depth rest, text = front ++ (indentText unit depth ++ c.text.toList) ++ '\n' :: rest ∧
    (front = [] ∨ front.getLast? = some '\n') ∧
    inked (front ++ indentText unit depth) = inked (written unit before) ∧ inked rest = inked (written unit after)

section Text

variable {c : Comment}

/-- What the spacing leaves of a comment on a line of its own and of its surroundings. -/
theorem spaced_comment (hunit : '\n' ∉ unit.toList) (hc : c.kind = .line → '\n' ∉ c.value.toList)
    (front rest : List Piece) (depth : Nat) :
    ∃ before after, spaced (segments unit (front ++ [newline, indent depth] ++ comment c :: newline :: rest)) =
        before ++ (indentText unit depth ++ c.text.toList) ++ '\n' :: after ∧
      (before = [] ∨ before.getLast? = some '\n') ∧ inked before = inked (written unit front) ∧
      inked after = inked (written unit rest) := by
  have hindent := newline_notMem_indentText hunit depth
  cases hkind : c.kind with
  | line =>
    -- a line comment is part of the text around it, and no newline is deleted next to it
    have hline : '\n' ∉ indentText unit depth ++ c.text.toList := by
      rw [List.mem_append]
      exact not_or.2 ⟨hindent, Comment.newline_notMem_text hkind (hc hkind)⟩
    have hthin := thinned_spaced (segments unit (front ++ [newline, indent depth] ++ comment c :: newline :: rest))
    have hwritten : written unit (front ++ [newline, indent depth] ++ comment c :: newline :: rest) =
        written unit front ++ '\n' :: ((indentText unit depth ++ c.text.toList) ++ '\n' :: written unit rest) := by
      simp [written, segment]
    rw [flatMap_text_segments, hwritten] at hthin
    obtain ⟨before, more, hspaced, hbefore, hfront, hmore⟩ := hthin.after_newline
    obtain ⟨after, rfl, hafter⟩ := hmore.unbroken hline
    rw [List.isEmpty_eq_false_iff.2 fun h => c.text_ne_nil (List.append_eq_nil_iff.1 h).2] at hafter
    cases hafter with
    | keep hafter =>
      refine ⟨before, _, ?_, hbefore.imp And.left id, hfront, hafter.inked_eq⟩
      rw [hspaced, ← List.append_assoc]
  | block =>
    -- a block comment is a segment of its own, and the text is spaced before and after it
    have hverbatim : ((comment c).segment unit).isVerbatim = true := by rw [segment, hkind]; rfl
    rw [segments_append_cons hverbatim c.text_ne_nil, spaced_append_cons hverbatim]
    have hbefore := thinned_spaced (segments unit (front ++ [newline, indent depth]))
    have hafter := thinned_seam (segments unit (newline :: rest))
    have hwritten : written unit (front ++ [newline, indent depth]) =
        written unit front ++ '\n' :: (indentText unit depth ++ []) := by
      simp [written, segment]
    rw [flatMap_text_segments, hwritten] at hbefore
    rw [flatMap_text_segments, written_cons] at hafter
    obtain ⟨before, more, hspaced, hbegins, hfront, hmore⟩ := hbefore.after_newline
    obtain ⟨more, rfl, hnone⟩ := hmore.unbroken hindent
    obtain rfl := hnone.eq_nil
    generalize (segments unit (newline :: rest)).flatMap (normalizeSegment .seam) = tail at hafter ⊢
    cases hafter with
    | keep hafter =>
      refine ⟨before, _, ?_, hbegins.imp And.left id, hfront, hafter.inked_eq⟩
      rw [hspaced]
      simp [segment]

/-- A comment that is given a line of its own among the pieces stands on one in the text. -/
theorem Lined.onOwnLine (hunit : '\n' ∉ unit.toList) {pieces before after : List Piece} (h : Lined pieces)
    (hc : c.kind = .line → '\n' ∉ c.value.toList) (hpieces : pieces = before ++ comment c :: after) :
    OnOwnLine unit before c after (normalizeLayout (segments unit pieces)) := by
  obtain ⟨⟨front, depth, rfl⟩, rest, rfl⟩ := h before c after hpieces
  obtain ⟨textBefore, textAfter, hspaced, hbegins, hfront, hrest⟩ := spaced_comment hunit hc front rest depth
  obtain ⟨last, hlast, hne⟩ := Comment.exists_getLast?_text hc
  have hline : (textBefore ++ (indentText unit depth ++ c.text.toList)).getLast? = some last := by
    rw [← List.append_assoc, List.getLast?_append, hlast]
    rfl
  obtain ⟨textRest, htext, hink⟩ := exists_dropFinalBreaks hline hne textAfter
  refine ⟨textBefore, depth, textRest, ?_, hbegins, ?_, ?_⟩
  · rw [hpieces, normalizeLayout_eq, hspaced, htext]
  · rw [inked_append, hfront, written_append, inked_append]
    simp [written, segment]
  · rw [hink, hrest, written_cons]
    rfl

end Text

end Piece

end ScriptTidy
