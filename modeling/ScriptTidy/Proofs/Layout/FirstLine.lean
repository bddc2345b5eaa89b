/-
A line above a text. A line that is written above a text, with a blank line between, leaves the text as
it is without it: the blank line goes only if the line opens something or the text begins with the end
of something, and if the text is empty the line stands alone. Raw text at the start of the text would
be kept with its newlines; but it stands behind a mark of its template.
-/
import ScriptTidy.Proofs.Layout.Gaps
import ScriptTidy.Proofs.Layout.Lines
import ScriptTidy.Proofs.Layout.Normal

namespace ScriptTidy

open Spacing

namespace Spacing

variable {text more : List Char}

/-! ## Closing brackets in front -/

/-- What follows a text does not decide whether a closing bracket is in front, unless the text is blank and it does
so itself. -/
theorem isCloser_append_of (h : (∃ c ∈ text, isSpace c = false) ∨ isCloser more = false) :
    isCloser (text ++ more) = isCloser text := by
  induction text with
  | nil =>
    rcases h with ⟨c, hc, -⟩ | hmore
    · cases hc
    · exact hmore
  | cons c text ih =>
    rw [List.cons_append, isCloser_cons, isCloser_cons]
    cases hc : isSpace c with
    | false => rfl
    | true =>
      refine ih (h.imp_left ?_)
      rintro ⟨d, hd, hspace⟩
      obtain rfl | hd := List.mem_cons.1 hd
      · rw [hc] at hspace
        cases hspace
      · exact ⟨d, hd, hspace⟩

theorem isCloser_replicate (count : Nat) : isCloser (List.replicate count '\n') = false := by
  cases count with
  | zero => rfl
  | succ count => exact isCloser_newline _

theorem isCloser_append_breaks (text : List Char) (count : Nat) :
    isCloser (text ++ List.replicate count '\n') = isCloser text :=
  isCloser_append_of (.inr (isCloser_replicate count))

theorem isCloser_dropFinalBreaks (text : List Char) : isCloser (dropFinalBreaks text ++ ['\n']) = isCloser text := by
  obtain ⟨front, count, rfl, hfront⟩ := exists_append_breaks text
  rw [dropFinalBreaks_append_breaks hfront, isCloser_append_breaks]
  exact isCloser_append_breaks front 1

theorem dropFinalBreaks_replicate (count : Nat) : dropFinalBreaks (List.replicate count '\n') = [] :=
  @dropFinalBreaks_append_breaks [] (by simp) count

/-- A line with nothing below it ends the text. -/
theorem dropFinalBreaks_below {line : List Char} (hline : line.getLast? ≠ some '\n') (count : Nat)
    (text : List Char) : dropFinalBreaks (line ++ (List.replicate count '\n' ++ text)) ++ ['\n'] =
      if dropFinalBreaks text ++ ['\n'] = ['\n'] then line ++ (dropFinalBreaks text ++ ['\n'])
      else line ++ (List.replicate count '\n' ++ (dropFinalBreaks text ++ ['\n'])) := by
  by_cases hempty : dropFinalBreaks text = []
  · rw [hempty, List.nil_append, if_pos rfl, dropFinalBreaks_append, dropFinalBreaks_append, if_pos hempty,
      if_pos (dropFinalBreaks_replicate count), dropFinalBreaks_eq_self hline]
  · rw [if_neg (by simpa using hempty), dropFinalBreaks_append_breaks_append hempty]
    simp only [List.append_assoc]

theorem isCloser_normalizeSegment (h : text.head? ≠ some '\n') :
    isCloser (normalizeSegment .seam ⟨text, false⟩) = isCloser text := by
  rw [← closes_runs (head?_normalizeSegment_seam h), runs_normalizeSegment rfl, closes_tighten, closes_runs h]

theorem normalizeSegment_of_notMem {line : List Char} (hline : '\n' ∉ line) (before : Before) :
    normalizeSegment before ⟨line, false⟩ = line := by
  have hthin : Thinned before.isStart (line ++ []) (normalizeSegment before ⟨line, false⟩) := by
    rw [List.append_nil]
    exact thinned_normalizeSegment before ⟨line, false⟩
  obtain ⟨rest, hrest, hnil⟩ := hthin.unbroken hline
  rw [hrest, hnil.eq_nil, List.append_nil]

end Spacing

namespace Piece

variable {unit : String} {ps front back : List Piece} {p : Piece} {v : Segment}

/-! ## Raw text -/

/-- Raw text stands behind a mark of its template. -/
def Quoted (ps : List Piece) : Prop :=
  ∀ before s after, ps = before ++ verbatim s :: after →
    ∃ front, ∃ mark ∈ ["\x60", "\x7d"], before = front ++ [text mark]

theorem quoted_nil : Quoted [] := fun before s after h => by simp at h

theorem quoted_singleton (h : ∀ s, p ≠ verbatim s) : Quoted [p] := by
  intro before s after hp
  rcases before with _ | ⟨q, before⟩
  · exact absurd (List.cons.inj hp).1 (h s)
  · simp at hp

theorem quoted_raw {mark : String} (hmark : mark ∈ ["\x60", "\x7d"]) (s : String) : Quoted [text mark, verbatim s] := by
  intro before s' after hp
  rcases before with _ | ⟨q, _ | ⟨r, before⟩⟩
  · cases hp
  · cases hp
    exact ⟨[], mark, hmark, rfl⟩
  · simp at hp

theorem Quoted.append {a b : List Piece} (ha : Quoted a) (hb : Quoted b) : Quoted (a ++ b) := by
  intro before s after h
  -- the raw text stands in one of the two lists; were it the first of the second, nothing would stand before it
  rcases List.append_eq_append_iff.1 h with ⟨more, rfl, rfl⟩ | ⟨more, rfl, hmore⟩
  · obtain ⟨front, mark, hmark, rfl⟩ := hb more s after rfl
    exact ⟨a ++ front, mark, hmark, (List.append_assoc ..).symm⟩
  · rcases more with _ | ⟨p, more⟩
    · obtain ⟨front, mark, -, hfront⟩ := hb [] s after hmore.symm
      simp at hfront
    · obtain ⟨rfl, rfl⟩ := List.cons.inj hmore
      exact ha before s more rfl

end Piece

namespace Layout

variable {F : PrintFault → Prop} {l : Layout} {ls : List Layout}

theorem quoted_commentLines (comments : List Comment) (depth : Nat) :
    Piece.Quoted (commentLines comments depth) := by
  intro before s after h
  have hmem : Piece.verbatim s ∈ commentLines comments depth := by
    rw [h]
    exact List.mem_append_right _ List.mem_cons_self
  unfold commentLines at hmem
  split at hmem
  · cases hmem
  · simp [seq, pad, newline, comment] at hmem

theorem quoted_seq {depth : Nat} (h : ∀ l ∈ ls, Piece.Quoted (l depth)) : Piece.Quoted (seq ls depth) := by
  induction ls with
  | nil => exact Piece.quoted_nil
  | cons l ls ih => exact (h l (List.mem_cons_self ..)).append (ih fun m hm => h m (List.mem_cons_of_mem _ hm))

theorem Built.quoted (h : Built F l) : ∀ depth, Piece.Quoted (l depth) := by
  induction h with
  | text | newline | pad | fault _ => exact fun _ => Piece.quoted_singleton fun _ h => nomatch h
  | nothing => exact fun _ => Piece.quoted_nil
  | raw hmark s => exact fun _ => Piece.quoted_raw hmark s
  | commentLines comments => exact quoted_commentLines comments
  | seq _ ih => exact fun depth => quoted_seq fun l hl => ih l hl depth
  | deeper _ ih => exact fun depth => ih (depth + 1)

end Layout

/-- In what a tree is printed as, raw text stands behind a mark of its template. -/
theorem Node.quoted_pieces (semicolons : Bool) (root : Node) : Piece.Quoted (root.pieces semicolons) := by
  obtain ⟨l, hl, hpieces⟩ := exists_built_pieces semicolons root
  rw [hpieces]
  exact hl.quoted 0

namespace Piece

variable {unit : String} {ps rest front back : List Piece} {p : Piece} {v : Segment}

/-- A text ends in a mark of a template, or a comment follows it. -/
def Fenced (text : List Char) (v : Segment) : Prop :=
  (∃ c ∈ text.getLast?, c = '\x60' ∨ c = '\x7d') ∨ v.text.head? = some '/'

/-- The plain text in front of a verbatim piece is of this kind. -/
theorem Quoted.fenced (unit : String) (h : Quoted (front ++ p :: back)) (hp : p.verbatim? = some v) :
    Fenced (written unit front) v := by
  cases p with
  | verbatim s =>
    obtain ⟨front, mark, hmark, rfl⟩ := h front s back rfl
    refine .inl ?_
    rw [written_append, List.getLast?_append]
    simp only [List.mem_cons, List.not_mem_nil, or_false] at hmark
    rcases hmark with rfl | rfl
    · exact ⟨'\x60', rfl, .inl rfl⟩
    · exact ⟨'\x7d', rfl, .inr rfl⟩
  | comment c =>
    obtain ⟨-, hv⟩ := Option.ite_none_right_eq_some.1 hp
    rw [← Option.some.inj hv]
    exact .inr c.head?_text
  | _ => cases hp

section Fenced

variable {line : List Char}

theorem Fenced.of_breaks {count : Nat} (h : Fenced (List.replicate count '\n' ++ line) v) : Fenced line v := by
  refine h.imp_left ?_
  rintro ⟨c, hc, hmark⟩
  rw [List.getLast?_append] at hc
  cases hlast : line.getLast? with
  | some d =>
    rw [hlast] at hc
    exact ⟨c, hc, hmark⟩
  | none =>
    rw [hlast] at hc
    obtain rfl := List.eq_of_mem_replicate (List.mem_of_getLast? hc)
    revert hmark
    decide

theorem Fenced.head?_ne (h : Fenced line v) (hhead : line.head? ≠ some '\n') (more : List Char) :
    (line ++ (v.text ++ more)).head? ≠ some '\n' := by
  cases line with
  | cons c line => exact hhead
  | nil =>
    rcases h with ⟨c, hc, -⟩ | hv
    · cases hc
    · rw [List.nil_append, List.head?_append, hv, Option.some_or]
      decide

/-- Whether a closing bracket is in front does not depend on what follows. -/
theorem Fenced.isCloser (h : Fenced line v) (hhead : line.head? ≠ some '\n') (more : List Char) :
    isCloser (normalizeSegment .seam ⟨line, false⟩ ++ (v.text ++ more)) = isCloser line := by
  rw [isCloser_append_of, isCloser_normalizeSegment hhead]
  refine h.imp ?_ ?_
  · rintro ⟨c, hc, hmark⟩
    have hne : c ≠ '\n' := by rcases hmark with rfl | rfl <;> decide
    have hlast := (thinned_normalizeSegment .seam ⟨line, false⟩).getLast?_eq hc hne
    exact ⟨c, List.mem_of_getLast? hlast, by rcases hmark with rfl | rfl <;> decide⟩
  · intro hv
    obtain ⟨rest, hrest⟩ := List.head?_eq_some_iff.1 hv
    rw [hrest]
    rfl

end Fenced

/-! ## The start of the pieces -/

/-- Of plain pieces in front only the text that they write matters. -/
theorem spacedAfter_congr (unit : String) {more : List Piece} (hfront : ∀ q ∈ front, q.isPlain)
    (hmore : ∀ q ∈ more, q.isPlain) (hwritten : written unit front = written unit more) (before : Before)
    (rest : List Piece) :
    spacedAfter before (segments unit (front ++ rest)) = spacedAfter before (segments unit (more ++ rest)) := by
  rcases isPlain_or_exists_cut rest with hrest | ⟨ahead, p, v, back, rfl, hahead, hp⟩
  · rw [spacedAfter_of_isPlain (List.forall_mem_append.2 ⟨hfront, hrest⟩),
      spacedAfter_of_isPlain (List.forall_mem_append.2 ⟨hmore, hrest⟩), written_append, hwritten, ← written_append]
  · rw [← List.append_assoc, ← List.append_assoc, spacedAfter_cut hp, spacedAfter_cut hp,
      spacedAfter_of_isPlain (List.forall_mem_append.2 ⟨hfront, hahead⟩),
      spacedAfter_of_isPlain (List.forall_mem_append.2 ⟨hmore, hahead⟩), written_append, hwritten, ← written_append]

/-- At the start of the text newlines are deleted. -/
theorem spacedAfter_start_breaks (hhead : (written unit rest).head? ≠ some '\n') (count : Nat) :
    spacedAfter .start (segments unit (List.replicate count newline ++ rest)) =
      spacedAfter .seam (segments unit rest) := by
  have hplain {ahead : List Piece} (hahead : ∀ q ∈ ahead, q.isPlain)
      (hhead : (written unit ahead).head? ≠ some '\n') :
      spacedAfter .start (segments unit (List.replicate count newline ++ ahead)) =
        spacedAfter .seam (segments unit ahead) := by
    rw [spacedAfter_of_isPlain (List.forall_mem_append.2 ⟨isPlain_newlines count, hahead⟩),
      spacedAfter_of_isPlain hahead, normalizeSegment_start, written_append, written_replicate_newline,
      dropWhile_breaks hhead]
  rcases isPlain_or_exists_cut rest with hrest | ⟨ahead, p, v, back, rfl, hahead, hp⟩
  · exact hplain hrest hhead
  · rw [← List.append_assoc, spacedAfter_cut hp, spacedAfter_cut hp, hplain hahead (head?_written_front hhead)]

/-- The pieces are spaced like so many newlines and pieces that do not begin with one, and whether the text of these
begins with a closing bracket can be seen in their plain text. -/
structure Trims (unit : String) (ps : List Piece) (count : Nat) (rest : List Piece) : Prop where
  spaced : ∀ before more, (∀ q ∈ more, q.isPlain) → spacedAfter before (segments unit (more ++ ps)) =
    spacedAfter before (segments unit (more ++ (List.replicate count newline ++ rest)))
  head : (written unit rest).head? ≠ some '\n'
  closes : isCloser (headText unit rest) = isCloser (spacedAfter .seam (segments unit rest))

theorem written_ofList (line : List Char) : written unit [text (.ofList line)] = line :=
  (List.append_nil _).trans String.toList_ofList

theorem isPlain_text (s : String) : ∀ q ∈ [text s], q.isPlain := List.forall_mem_singleton.2 rfl

/-- Plain pieces in front are replaced by newlines and one text. -/
theorem spacedAfter_replace_front {count : Nat} {line : List Char} (hfront : ∀ q ∈ front, q.isPlain)
    (hwritten : written unit front = List.replicate count '\n' ++ line) (before : Before) {more : List Piece}
    (hmore : ∀ q ∈ more, q.isPlain) (back : List Piece) :
    spacedAfter before (segments unit (more ++ (front ++ back))) =
      spacedAfter before (segments unit (more ++ (List.replicate count newline ++ text (.ofList line) :: back))) := by
  have hline : ∀ q ∈ List.replicate count newline ++ [text (.ofList line)], q.isPlain :=
    List.forall_mem_append.2 ⟨isPlain_newlines count, isPlain_text _⟩
  have hsame : written unit (more ++ front) =
      written unit (more ++ (List.replicate count newline ++ [text (.ofList line)])) := by
    rw [written_append, hwritten, written_append, written_append, written_replicate_newline, written_ofList]
  have hcongr := spacedAfter_congr unit (List.forall_mem_append.2 ⟨hmore, hfront⟩)
    (List.forall_mem_append.2 ⟨hmore, hline⟩) hsame before back
  simpa only [List.append_assoc, List.singleton_append] using hcongr

theorem Quoted.exists_trims (unit : String) (h : Quoted ps) : ∃ count rest, Trims unit ps count rest := by
  -- the newlines in front can be part of a longer text, so the plain pieces are written anew behind them
  rcases isPlain_or_exists_cut ps with hps | ⟨front, p, v, back, rfl, hfront, hp⟩
  · obtain ⟨count, line, hwritten, hhead⟩ := exists_breaks_append (written unit ps)
    refine ⟨count, [text (.ofList line)], fun before more hmore => ?_, ?_, ?_⟩
    · simpa using spacedAfter_replace_front hps hwritten before hmore []
    · rwa [written_ofList]
    · rw [headText, takeWhile_of_isPlain (isPlain_text _), spacedAfter_of_isPlain (isPlain_text _), written_ofList,
        isCloser_normalizeSegment hhead]
  · obtain ⟨count, line, hwritten, hhead⟩ := exists_breaks_append (written unit front)
    have hfence : Fenced line v := (hwritten ▸ h.fenced unit hp).of_breaks
    refine ⟨count, text (.ofList line) :: p :: back, fun before more hmore => ?_, ?_, ?_⟩
    · exact spacedAfter_replace_front hfront hwritten before hmore (p :: back)
    · rw [← List.singleton_append, written_append_verbatim hp, written_ofList]
      exact hfence.head?_ne hhead _
    · rw [headText, List.takeWhile_cons_of_pos rfl,
        List.takeWhile_cons_of_neg (by rw [isPlain_eq_false hp]; exact Bool.false_ne_true), written_ofList,
        ← List.singleton_append, spacedAfter_cut hp, spacedAfter_of_isPlain (isPlain_text _), written_ofList,
        hfence.isCloser hhead]

/-! ## A line above the pieces -/

/-- The text below a line: a blank line is between them if there may be one, and of an empty text nothing is below. -/
def belowLine (line text : List Char) : List Char :=
  if text = ['\n'] then line ++ text
  else line ++ (List.replicate (if isCloser text || isOpener line then 1 else 2) '\n' ++ text)

/-- A line above the pieces leaves their text as it is. -/
theorem Quoted.normalizeLayout_belowLine (h : Quoted ps) (unit : String) {line : List Char} (hne : line ≠ [])
    (hline : '\n' ∉ line) :
    normalizeLayout (segments unit (text (.ofList line) :: newline :: newline :: ps)) =
      belowLine line (normalizeLayout (segments unit ps)) := by
  obtain ⟨count, rest, htrims⟩ := h.exists_trims unit
  generalize hbody : spacedAfter .seam (segments unit rest) = body
  have halone : spacedAfter .start (segments unit ps) = body := by
    have hspaced := htrims.spaced .start [] fun q hq => nomatch hq
    rwa [List.nil_append, List.nil_append, spacedAfter_start_breaks htrims.head, hbody] at hspaced
  have hlast : line.getLast? ≠ some '\n' := fun h => hline (List.mem_of_getLast? h)
  have hroom : room unit [text (.ofList line)] rest = if isCloser body || isOpener line then 1 else 2 := by
    rw [room, htrims.closes, hbody, tailText, rtakeWhile_of_isPlain (isPlain_text _), written_ofList,
      lastLine_of_notMem hline]
  -- the newlines that the pieces begin with are in one run with the two below the line, and all are cut to the room
  have hbelow : spacedAfter .start (segments unit (text (.ofList line) :: newline :: newline :: ps)) =
      line ++ (List.replicate (room unit [text (.ofList line)] rest) '\n' ++ body) := by
    have hmore : ∀ q ∈ [text (.ofList line), newline, newline], q.isPlain := by
      simp [isPlain, verbatim?]
    have hspaced := htrims.spaced .start _ hmore
    have hgap := spacedAfter_gap [text (.ofList line)] htrims.head (Nat.succ_pos (count + 1)) .start
      (fun _ => by rwa [written_ofList]) rfl (by rwa [written_ofList])
    have hmin : min (count + 2) (room unit [text (.ofList line)] rest) = room unit [text (.ofList line)] rest := by
      rw [hroom]
      split <;> omega
    rw [hmin, spacedAfter_of_isPlain (isPlain_text _), written_ofList, normalizeSegment_of_notMem hline, hbody] at hgap
    rw [← hgap]
    exact hspaced
  rw [normalizeLayout_eq, normalizeLayout_eq, spaced_eq, spaced_eq, halone, hbelow, hroom, belowLine,
    isCloser_dropFinalBreaks]
  exact dropFinalBreaks_below hlast _ body

end Piece

end ScriptTidy
