/-
Gaps between pieces. Where newlines are written between pieces, the text before them and the text after
them are spaced each for itself, and how many of the newlines stay depends on two lines only: the one
that ends before the gap and the one that begins after it. At most two stay, which is one blank line,
and one alone stays after an opener and before a closing bracket.
-/
import ScriptTidy.Proofs.Layout.Segments

namespace ScriptTidy

open Spacing

namespace Spacing

namespace Thinned

variable {begins : Bool} {text out : List Char} {c : Char}

/-- A character that is no newline stays in front. -/
theorem head?_eq (h : Thinned begins text out) (hhead : text.head? = some c) (hc : c ≠ '\n') : out.head? = some c := by
  cases h with
  | nil => cases hhead
  | keep _ => exact hhead
  | drop _ => exact absurd (Option.some.inj hhead).symm hc

/-- A character that is no newline stays at the end. -/
theorem getLast?_eq (h : Thinned begins text out) (hlast : text.getLast? = some c) (hc : c ≠ '\n') :
    out.getLast? = some c := by
  induction h with
  | nil => cases hlast
  | @keep _ d text out h ih =>
    rcases text with _ | ⟨e, text⟩
    · rw [h.eq_nil]
      exact hlast
    · rw [List.getLast?_cons_cons] at hlast
      rw [List.getLast?_cons, ih hlast]
      rfl
  | @drop text out _ ih =>
    rcases text with _ | ⟨e, text⟩
    · exact absurd (Option.some.inj hlast).symm hc
    · rw [List.getLast?_cons_cons] at hlast
      exact ih hlast

end Thinned

theorem thinned_spacedAfter (before : Before) (segments : List Segment) :
    Thinned before.isStart (segments.flatMap Segment.text) (spacedAfter before segments) := by
  cases segments with
  | nil => exact .nil
  | cons first rest => exact (thinned_normalizeSegment before first).append (thinned_seam rest)

theorem isStart_after {before : Before} (h : before.isStart = false) (rs : List Run) :
    (before.after rs).isStart = false := by
  induction rs generalizing before with
  | nil => exact h
  | cons r rs ih =>
    cases r with
    | line text => exact ih rfl
    | breaks count => exact ih rfl

theorem isStart_after_of_ne_nil (before : Before) {rs : List Run} (h : rs ≠ []) :
    (before.after rs).isStart = false := by
  obtain ⟨r, rs, rfl⟩ := List.exists_cons_of_ne_nil h
  cases r with
  | line text => exact isStart_after rfl rs
  | breaks count => exact isStart_after rfl rs

/-- Behind an opener stands a bracket or a colon. -/
theorem getLast?_of_isOpener {line : List Char} (h : isOpener line = true) :
    ∃ c ∈ line.getLast?, c = '{' ∨ c = '[' ∨ c = ':' := by
  rw [isOpener, Bool.or_eq_true, Bool.or_eq_true, isLabel, Bool.and_eq_true, beq_iff_eq, beq_iff_eq, beq_iff_eq] at h
  rcases h with (h | h) | h
  · exact ⟨_, h, .inl rfl⟩
  · exact ⟨_, h, .inr (.inl rfl)⟩
  · exact ⟨_, h.1, .inr (.inr rfl)⟩

theorem isOpener_of_getLast? {line : List Char} {c : Char} (hlast : line.getLast? = some c) (hc : c = '{' ∨ c = '[') :
    isOpener line = true := by
  rcases hc with rfl | rfl
  · simp [isOpener, hlast]
  · simp [isOpener, hlast]

theorem getLast?_lastLine {text : List Char} (h : text.getLast? ≠ some '\n') :
    (lastLine text).getLast? = text.getLast? := by
  rcases List.eq_nil_or_concat text with rfl | ⟨text, c, rfl⟩
  · rfl
  · rw [List.concat_eq_append] at h ⊢
    rw [lastLine, List.rtakeWhile_concat_pos _ _ _ (by simpa using h), List.getLast?_append, List.getLast?_append]
    rfl

/-- The first character that is no space or tab decides. -/
theorem isCloser_of_isCloser_append {front back : List Char} (h : isCloser front = true) :
    isCloser (front ++ back) = true := by
  unfold isCloser at h ⊢
  rw [List.dropWhile_append]
  cases hfront : front.dropWhile isSpace with
  | nil =>
    rw [hfront] at h
    cases h
  | cons c rest =>
    rw [hfront] at h
    exact h

end Spacing

theorem List.rtakeWhile_append_cons {α : Type} {p : α → Bool} {a : α} (h : p a = false) (front back : List α) :
    (front ++ a :: back).rtakeWhile p = back.rtakeWhile p := by
  simp only [List.rtakeWhile, List.reverse_append, List.reverse_cons, List.append_assoc, List.singleton_append]
  rw [List.takeWhile_append, List.takeWhile_cons_of_neg (by rw [h]; exact Bool.false_ne_true)]
  split
  case isTrue hall =>
    rw [List.append_nil, List.Sublist.eq_of_length (List.takeWhile_sublist p) hall]
  case isFalse => rfl

namespace Piece

variable {unit : String} {p : Piece} {before after : List Piece} {count : Nat}

/-- The plain text at the end of the pieces. -/
def tailText (unit : String) (ps : List Piece) : List Char := written unit (ps.rtakeWhile isPlain)

/-- The plain text at the start of the pieces. -/
def headText (unit : String) (ps : List Piece) : List Char := written unit (ps.takeWhile isPlain)

/-- How many newlines may stay between the pieces. -/
def room (unit : String) (before after : List Piece) : Nat :=
  if isCloser (headText unit after) || isOpener (lastLine (tailText unit before)) then 1 else 2

theorem written_replicate_newline (unit : String) (count : Nat) :
    written unit (List.replicate count newline) = List.replicate count '\n' := by
  induction count with
  | zero => rfl
  | succ count ih => rw [List.replicate_succ, written_cons, ih]; rfl

theorem isPlain_newlines (count : Nat) : ∀ p ∈ List.replicate count newline, p.isPlain := by
  intro p hp
  rw [List.eq_of_mem_replicate hp]
  rfl

theorem rtakeWhile_of_isPlain (h : ∀ p ∈ before, p.isPlain) : before.rtakeWhile isPlain = before :=
  List.rtakeWhile_eq_self_iff.2 h

theorem takeWhile_of_isPlain (h : ∀ p ∈ after, p.isPlain) : after.takeWhile isPlain = after :=
  List.takeWhile_eq_self_iff.2 h

/-- Plain pieces, newlines and plain pieces are one text. -/
theorem spacedAfter_gap_plain (hbefore : ∀ p ∈ before, p.isPlain) (hafter : ∀ p ∈ after, p.isPlain) (b : Before)
    (hstart : b.isStart = true → written unit before ≠ []) (hopens : b.opens = false)
    (hlast : (written unit before).getLast? ≠ some '\n') (hhead : (written unit after).head? ≠ some '\n')
    (hcount : 0 < count) :
    spacedAfter b (segments unit (before ++ (List.replicate count newline ++ after))) =
      spacedAfter b (segments unit before) ++
        (List.replicate (min count (room unit before after)) '\n' ++ spacedAfter .seam (segments unit after)) := by
  have hplain : ∀ p ∈ before ++ (List.replicate count newline ++ after), p.isPlain :=
    List.forall_mem_append.2 ⟨hbefore, List.forall_mem_append.2 ⟨isPlain_newlines count, hafter⟩⟩
  have hnext : (b.after (runs (written unit before))).isStart = false := by
    cases hstarts : b.isStart with
    | true =>
      refine isStart_after_of_ne_nil b fun hnil => hstart hstarts ?_
      rw [← flatMap_text_runs (written unit before), hnil]
      rfl
    | false => exact isStart_after hstarts _
  have hkept : kept (b.after (runs (written unit before))) count (runs (written unit after)) =
      min count (room unit before after) := by
    rw [kept_eq hnext, limit, closes_runs hhead, opens_after_runs hlast hopens, room, headText, tailText,
      takeWhile_of_isPlain hafter, rtakeWhile_of_isPlain hbefore]
  rw [spacedAfter_of_isPlain hplain, spacedAfter_of_isPlain hbefore, spacedAfter_of_isPlain hafter, written_append,
    written_append, written_replicate_newline, normalizeSegment_append_breaks hlast hcount hhead, hkept]

theorem written_append_verbatim {v : Segment} (hp : p.verbatim? = some v) (front back : List Piece) :
    written unit (front ++ p :: back) = written unit front ++ (v.text ++ written unit back) := by
  rw [written_append, written_cons, (segment_of_verbatim? unit hp).1]

theorem isPlain_eq_false {v : Segment} (hp : p.verbatim? = some v) : p.isPlain = false := by
  rw [isPlain, hp]
  rfl

theorem room_append_left {v : Segment} (hp : p.verbatim? = some v) (front back after : List Piece) :
    room unit (front ++ p :: back) after = room unit back after := by
  rw [room, tailText, List.rtakeWhile_append_cons (isPlain_eq_false hp), room, tailText]

theorem head?_written_front {front back : List Piece} (h : (written unit (front ++ p :: back)).head? ≠ some '\n') :
    (written unit front).head? ≠ some '\n' := by
  intro hfront
  rw [written_append, List.head?_append, hfront] at h
  exact h rfl

/-- What stands before newlines and what stands after them is spaced each for itself. -/
theorem spacedAfter_gap (before : List Piece) (hhead : (written unit after).head? ≠ some '\n') (hcount : 0 < count) :
    ∀ b : Before, (b.isStart = true → written unit before ≠ []) → b.opens = false →
      (written unit before).getLast? ≠ some '\n' →
        spacedAfter b (segments unit (before ++ (List.replicate count newline ++ after))) =
          spacedAfter b (segments unit before) ++
            (List.replicate (min count (room unit before after)) '\n' ++ spacedAfter .seam (segments unit after)) := by
  induction before using induction_verbatim with
  | cut front p v back _ hp ih =>
    intro b _ _ hlast
    -- the newlines stand behind the last verbatim piece
    have hback : (written unit back).getLast? ≠ some '\n' := by
      intro h
      rw [written_append_verbatim hp, List.getLast?_append, List.getLast?_append, h] at hlast
      exact hlast rfl
    rw [List.append_assoc, List.cons_append, spacedAfter_cut hp, spacedAfter_cut hp,
      ih .seam (fun h => nomatch h) rfl hback, room_append_left hp]
    simp only [List.append_assoc]
  | plain before hbefore =>
    intro b hstart hopens hlast
    rcases isPlain_or_exists_cut after with hafter | ⟨front, p, v, back, rfl, hfront, hp⟩
    · exact spacedAfter_gap_plain hbefore hafter b hstart hopens hlast hhead hcount
    · -- and in front of the first one after them
      have hfronthead := head?_written_front hhead
      have hroom : room unit before (front ++ p :: back) = room unit before front := by
        rw [room, headText, List.takeWhile_append_of_pos hfront,
          List.takeWhile_cons_of_neg (by rw [isPlain_eq_false hp]; exact Bool.false_ne_true), List.append_nil, room,
          headText, takeWhile_of_isPlain hfront]
      rw [← List.append_assoc (List.replicate count newline), ← List.append_assoc before, spacedAfter_cut hp,
        spacedAfter_gap_plain hbefore hfront b hstart hopens hlast hfronthead hcount, spacedAfter_cut hp, hroom]
      simp only [List.append_assoc]

/-- In the text so many newlines stand between the pieces, and none next to them. -/
def Parted (unit : String) (count : Nat) (before after : List Piece) (text : List Char) : Prop :=
  ∃ above below, text = above ++ (List.replicate count '\n' ++ below) ∧
    (∃ c ∈ above.getLast?, c ≠ '\n') ∧ (∃ c ∈ below.head?, c ≠ '\n') ∧
    inked above = inked (written unit before) ∧ inked below = inked (written unit after)

/-- The text of the pieces begins with something else than a newline. -/
def BeginsInked (unit : String) (ps : List Piece) : Prop := ∃ c ∈ (written unit ps).head?, c ≠ '\n'

/-- The text of the pieces ends with something else than a newline. -/
def EndsInked (unit : String) (ps : List Piece) : Prop := ∃ c ∈ (written unit ps).getLast?, c ≠ '\n'

theorem BeginsInked.append (h : BeginsInked unit before) (after : List Piece) : BeginsInked unit (before ++ after) := by
  obtain ⟨c, hc, hne⟩ := h
  refine ⟨c, ?_, hne⟩
  rw [written_append, List.head?_append, Option.mem_def.1 hc]
  rfl

theorem EndsInked.append (h : EndsInked unit after) (before : List Piece) : EndsInked unit (before ++ after) := by
  obtain ⟨c, hc, hne⟩ := h
  refine ⟨c, ?_, hne⟩
  rw [written_append, List.getLast?_append, Option.mem_def.1 hc]
  rfl

/-- Of the newlines between pieces as many stay as there is room for. -/
theorem parted_normalizeLayout (hbefore : EndsInked unit before) (hafter : BeginsInked unit after)
    (hcount : 0 < count) :
    Parted unit (min count (room unit before after)) before after
      (normalizeLayout (segments unit (before ++ (List.replicate count newline ++ after)))) := by
  obtain ⟨last, hlast, hlastne⟩ := hbefore
  obtain ⟨head, hhead, hheadne⟩ := hafter
  have hgap := @spacedAfter_gap unit after count before
    (fun h => hheadne (Option.some.inj (hhead.symm.trans h))) hcount .start
    (fun _ hnil => by rw [hnil] at hlast; cases hlast) rfl
    fun h => hlastne (Option.some.inj (hlast.symm.trans h))
  have habove := thinned_spacedAfter .start (segments unit before)
  have hbelow := thinned_spacedAfter .seam (segments unit after)
  rw [flatMap_text_segments] at habove hbelow
  have hbelowhead := hbelow.head?_eq hhead hheadne
  obtain ⟨rest, hrest⟩ : ∃ rest, spacedAfter .seam (segments unit after) = head :: rest :=
    List.head?_eq_some_iff.1 hbelowhead
  have hkeeps : dropFinalBreaks (spacedAfter .seam (segments unit after)) ≠ [] := by
    intro hnil
    have hink := inked_dropFinalBreaks (spacedAfter .seam (segments unit after))
    have hmem : head ∈ inked (head :: rest) := List.mem_filter.2 ⟨List.mem_cons_self, by simpa using hheadne⟩
    rw [← hrest, ← hink, hnil] at hmem
    cases hmem
  refine ⟨spacedAfter .start (segments unit before),
    dropFinalBreaks (spacedAfter .seam (segments unit after)) ++ ['\n'], ?_, ?_, ?_, habove.inked_eq, ?_⟩
  · rw [normalizeLayout_eq, spaced_eq, hgap, dropFinalBreaks_append_breaks_append hkeeps]
    simp only [List.append_assoc]
  · exact ⟨last, habove.getLast?_eq hlast hlastne, hlastne⟩
  · refine ⟨head, ?_, hheadne⟩
    obtain ⟨front, k, hfront, hfrontlast⟩ := exists_append_breaks (spacedAfter .seam (segments unit after))
    rw [hfront, dropFinalBreaks_append_breaks hfrontlast] at hkeeps ⊢
    obtain ⟨c, front, rfl⟩ := List.exists_cons_of_ne_nil hkeeps
    rw [hfront] at hbelowhead
    exact hbelowhead
  · rw [inked_append, inked_dropFinalBreaks, hbelow.inked_eq]
    exact List.append_nil _

end Piece

end ScriptTidy
