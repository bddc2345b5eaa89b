/-
The rows of a printed text. What an indent looks like is decided after everything else: a tree has rows,
each with its depth and the parts of its line, and the printed text is these rows with the indent written
so many times in front of each. Lines are told from blank lines, from labels and from closing brackets
alike for all indents, because these are found behind the spaces and tabs of a line.
-/
import ScriptTidy.Proofs.Layout.Faults
import ScriptTidy.Proofs.Layout.Hanging
import ScriptTidy.Proofs.Layout.Rendering
import ScriptTidy.Proofs.Layout.Segments

namespace ScriptTidy

open Spacing
open Piece (indentText newline_notMem_indentText written)

/-! ## Indents -/

section Indent

variable {unit : String} {line text : List Char}

theorem isSpace_of_isIndent (h : isIndent unit = true) : ∀ c ∈ unit.toList, isSpace c := fun c hc =>
  List.all_eq_true.1 (Bool.and_eq_true_iff.1 h).2 c hc

theorem newline_notMem_of_isIndent (h : isIndent unit = true) : '\n' ∉ unit.toList := fun hmem => by
  cases isSpace_of_isIndent h _ hmem

theorem toList_ne_nil_of_isIndent (h : isIndent unit = true) : unit.toList ≠ [] := by
  intro hnil
  rw [isIndent, String.toList_eq_nil_iff.1 hnil] at h
  cases h

theorem isSpace_of_mem_indentText (h : isIndent unit = true) (depth : Nat) :
    ∀ c ∈ indentText unit depth, isSpace c := by
  intro c hc
  obtain ⟨copy, hcopy, hmem⟩ := List.mem_flatten.1 hc
  rw [List.eq_of_mem_replicate hcopy] at hmem
  exact isSpace_of_isIndent h c hmem

theorem indentText_ne_nil (h : isIndent unit = true) {depth : Nat} (hdepth : 0 < depth) :
    indentText unit depth ≠ [] := by
  obtain ⟨depth, rfl⟩ := Nat.exists_eq_add_of_lt hdepth
  rw [Nat.zero_add, indentText, List.replicate_succ, List.flatten_cons]
  exact fun hnil => toList_ne_nil_of_isIndent h (List.append_eq_nil_iff.1 hnil).1

namespace Spacing

theorem isCloser_append {blank : List Char} (h : ∀ c ∈ blank, isSpace c) (text : List Char) :
    isCloser (blank ++ text) = isCloser text := by
  unfold isCloser
  rw [List.dropWhile_append_of_pos h]

/-- A line is an opener whatever the spaces and tabs in front of it are. -/
theorem isOpener_append {blank : List Char} (h : ∀ c ∈ blank, isSpace c) (text : List Char) :
    isOpener (blank ++ text) = isOpener text := by
  cases text with
  | nil =>
    rcases List.eq_nil_or_concat blank with rfl | ⟨blank, c, rfl⟩
    · rfl
    · have hother (d : Char) (hd : isSpace d = false) : ((blank.concat c ++ []).getLast? == some d) = false := by
        rw [List.append_nil, List.concat_eq_append, List.getLast?_append, List.getLast?_singleton]
        refine beq_false_of_ne fun heq => ?_
        rw [← Option.some.inj heq, h c (by simp)] at hd
        cases hd
      simp only [isOpener, isLabel, hother '{' (by decide), hother '[' (by decide), hother ':' (by decide)]
      rfl
  | cons c text =>
    have hlast : (blank ++ c :: text).getLast? = (c :: text).getLast? := by
      rw [List.getLast?_append, List.getLast?_eq_getLast_of_ne_nil (List.cons_ne_nil _ _)]
      rfl
    rw [isOpener, isLabel, hlast, List.dropWhile_append_of_pos h]
    rfl

theorem foldr_line_line (hline : '\n' ∉ line) (rs : List Run) :
    line.foldr Run.cons (.line text :: rs) = .line (line ++ text) :: rs := by
  induction line with
  | nil => rfl
  | cons c line ih =>
    obtain ⟨hc, hline⟩ := not_or.1 (mt List.mem_cons.2 hline)
    rw [List.foldr_cons, ih hline, Run.cons, if_neg (Ne.symm hc)]
    rfl

end Spacing

end Indent

/-! ## Strips -/

/-- A run of a text, with the indent of a line told by its depth. -/
inductive Strip where
  | line (depth : Nat) (text : List Char)
  | breaks (count : Nat)

namespace Strip

/-- The run, with an indent of the given unit. -/
def run (unit : String) : Strip → Run
  | line depth text => .line (indentText unit depth ++ text)
  | breaks count => .breaks count

/-- No indent stands in front of the strips. -/
def Flush : List Strip → Prop
  | line depth _ :: _ => depth = 0
  | _ => True

variable {unit : String} {strips : List Strip}

theorem exists_cons {c : Char} (h : c = '\n' ∨ Flush strips) : ∃ more : List Strip, Flush more ∧
    ∀ unit, Run.cons c (strips.map (run unit)) = more.map (run unit) := by
  by_cases hc : c = '\n'
  · subst hc
    rcases strips with _ | ⟨_ | count, rest⟩
    · exact ⟨[breaks 1], trivial, fun _ => rfl⟩
    · exact ⟨breaks 1 :: _, trivial, fun _ => rfl⟩
    · exact ⟨breaks (count + 1) :: rest, trivial, fun _ => rfl⟩
  · have hflush := h.resolve_left hc
    unfold Run.cons
    simp only [if_neg hc]
    rcases strips with _ | ⟨⟨depth, text⟩ | count, rest⟩
    · exact ⟨[line 0 [c]], rfl, fun _ => rfl⟩
    · cases hflush
      exact ⟨line 0 (c :: text) :: rest, rfl, fun _ => rfl⟩
    · exact ⟨line 0 [c] :: breaks count :: rest, rfl, fun _ => rfl⟩

theorem exists_text (text : List Char) (h : Flush strips) : ∃ more : List Strip, Flush more ∧
    ∀ unit, text.foldr Run.cons (strips.map (run unit)) = more.map (run unit) := by
  induction text with
  | nil => exact ⟨strips, h, fun _ => rfl⟩
  | cons c text ih =>
    obtain ⟨more, hmore, hruns⟩ := ih
    obtain ⟨most, hmost, hcons⟩ := exists_cons (c := c) (.inr hmore)
    exact ⟨most, hmost, fun unit => by rw [List.foldr_cons, hruns, hcons]⟩

theorem exists_indent (depth : Nat) (h : Flush strips) : ∃ more : List Strip, ∀ unit, isIndent unit →
    (indentText unit depth).foldr Run.cons (strips.map (run unit)) = more.map (run unit) := by
  cases depth with
  | zero => exact ⟨strips, fun _ _ => rfl⟩
  | succ depth =>
    rcases strips with _ | ⟨⟨flush, text⟩ | count, rest⟩
    · refine ⟨[line (depth + 1) []], fun unit hunit => ?_⟩
      rw [List.map_nil, foldr_line (indentText_ne_nil hunit (Nat.succ_pos _))
        (newline_notMem_indentText (newline_notMem_of_isIndent hunit) _) (by simp)]
      simp [run]
    · cases h
      refine ⟨line (depth + 1) text :: rest, fun unit hunit => ?_⟩
      exact foldr_line_line (newline_notMem_indentText (newline_notMem_of_isIndent hunit) _) _
    · refine ⟨line (depth + 1) [] :: breaks count :: rest, fun unit hunit => ?_⟩
      rw [foldr_line (indentText_ne_nil hunit (Nat.succ_pos _))
        (newline_notMem_indentText (newline_notMem_of_isIndent hunit) _) (by simp [run, Run.isLine])]
      simp [run]

/-! ### Spacing -/

/-- Deletes the newlines that may not stay. -/
def tighten : Before → List Strip → List Strip
  | _, [] => []
  | _, line depth text :: rest => line depth text :: tighten (.line text) rest
  | before, breaks count :: rest => breaks (kept before count (rest.map (run ""))) :: tighten .seam rest

theorem kept_map_run (hunit : isIndent unit = true) (before : Before) (count : Nat) (rest : List Strip) :
    kept before count (rest.map (run unit)) = kept before count (rest.map (run "")) := by
  rcases rest with _ | ⟨⟨depth, text⟩ | _, rest⟩
  · rfl
  · have hcloser (unit : String) (h : ∀ c ∈ indentText unit depth, isSpace c) :
        isCloser (indentText unit depth ++ text) = isCloser text := isCloser_append h text
    have hnone : ∀ c ∈ indentText "" depth, isSpace c := by simp [indentText]
    cases before with
    | start => rfl
    | seam | line =>
      simp only [kept, List.map_cons, run, hcloser unit (isSpace_of_mem_indentText hunit depth), hcloser "" hnone]
  · rfl

/-- How many newlines stay does not depend on the indent. -/
theorem tighten_map_run (hunit : isIndent unit = true) (strips : List Strip) : ∀ before before' : Before,
    (∀ count after, kept before' count after = kept before count after) →
      Spacing.tighten before' (strips.map (run unit)) = (tighten before strips).map (run unit) := by
  induction strips with
  | nil => exact fun _ _ _ => rfl
  | cons s strips ih =>
    intro before before' hkept
    cases s with
    | line depth text =>
      have hopener : isOpener (indentText unit depth ++ text) = isOpener text :=
        isOpener_append (isSpace_of_mem_indentText hunit depth) text
      have hbelow := ih (.line text) (.line (indentText unit depth ++ text))
        fun count after => by simp only [kept, hopener]
      exact congrArg (Run.line _ :: ·) hbelow
    | breaks count =>
      have hbelow := ih .seam .seam fun _ _ => rfl
      have hcount := (hkept count (strips.map (run unit))).trans (kept_map_run hunit before count strips)
      exact congrArg₂ (fun count rs => Run.breaks count :: rs) hcount hbelow

/-! ### Pieces -/

/-- Plain pieces write strips. -/
theorem exists_of_hangs (plain rest : List Piece) : ∀ {here : Bool}, (∀ p ∈ plain, p.isPlain) →
    Piece.Hangs here (plain ++ rest) → ∃ strips, (here = false → Flush strips) ∧
      (∀ unit, isIndent unit → runs (written unit plain) = strips.map (run unit)) ∧
      Piece.Hangs (Piece.begins here plain) rest := by
  induction plain with
  | nil => exact fun _ h => ⟨[], fun _ => trivial, fun _ _ => rfl, h⟩
  | cons p plain ih =>
    intro here hplain h
    replace hplain := (List.forall_mem_cons.1 hplain).2
    have hwritten (unit : String) : runs (written unit (p :: plain)) =
        (p.segment unit).text.foldr Run.cons (runs (written unit plain)) := by
      rw [Piece.written_cons, runs, List.foldr_append, ← runs]
    -- most pieces stand in the middle of a line and do not depend on the unit
    have hinline (text : List Char) (htext : ∀ unit, (p.segment unit).text = text)
        (h : Piece.Hangs false (plain ++ rest)) : ∃ strips, (here = false → Flush strips) ∧
          (∀ unit, isIndent unit → runs (written unit (p :: plain)) = strips.map (run unit)) ∧
          Piece.Hangs (Piece.begins false plain) rest := by
      obtain ⟨strips, hflush, hruns, hrest⟩ := ih hplain h
      obtain ⟨more, hmore, htexts⟩ := exists_text text (hflush rfl)
      refine ⟨more, fun _ => hmore, fun unit hunit => ?_, hrest⟩
      rw [hwritten, hruns unit hunit, htext, htexts]
    cases h with
    | newline h =>
      obtain ⟨strips, -, hruns, hrest⟩ := ih hplain h
      obtain ⟨more, hmore, hcons⟩ := @exists_cons strips '\n' (.inl rfl)
      refine ⟨more, fun _ => hmore, fun unit hunit => ?_, hrest⟩
      rw [hwritten, hruns unit hunit]
      exact hcons unit
    | @indent depth _ h =>
      obtain ⟨strips, hflush, hruns, hrest⟩ := ih hplain h
      obtain ⟨more, hmore⟩ := exists_indent depth (hflush rfl)
      refine ⟨more, by simp, fun unit hunit => ?_, hrest⟩
      rw [hwritten, hruns unit hunit]
      exact hmore unit hunit
    | text h => exact hinline _ (fun _ => rfl) h
    | comment h => exact hinline _ (fun _ => rfl) h
    | fault h => exact hinline _ (fun _ => rfl) h
    | verbatim _ h => exact hinline _ (fun _ => rfl) h

end Strip

/-! ## Rows -/

/-- A line of a text: how deep it is indented, and what stands on it. A verbatim part can go on over several lines. -/
structure Row where
  depth : Nat
  parts : List Segment

namespace Row

/-- The text of a row, with an indent of the given unit. -/
def text (unit : String) (row : Row) : List Char :=
  indentText unit row.depth ++ (row.parts.flatMap Segment.text ++ ['\n'])

/-- Only what is verbatim goes on over several lines. -/
def IsLine (row : Row) : Prop := ∀ part ∈ row.parts, part.isVerbatim = false → '\n' ∉ part.text

/-- An empty line. -/
def blank : Row := ⟨0, []⟩

/-- The row with more text in front. -/
def cons (depth : Nat) (part : Segment) (row : Row) : Row := ⟨depth, part :: row.parts⟩

/-- The verbatim parts of rows. -/
def verbatims (rows : List Row) : List Segment := (rows.flatMap parts).filter Segment.isVerbatim

variable {row : Row} {part : Segment}

theorem isLine_blank : blank.IsLine := fun _ h => nomatch h

theorem IsLine.cons (h : row.IsLine) (hpart : part.isVerbatim = false → '\n' ∉ part.text) (depth : Nat) :
    (row.cons depth part).IsLine :=
  List.forall_mem_cons.2 ⟨hpart, h⟩

theorem text_cons (unit : String) (h : row.depth = 0) (depth : Nat) :
    (row.cons depth part).text unit = indentText unit depth ++ (part.text ++ row.text unit) := by
  obtain ⟨_, parts⟩ := row
  cases h
  simp [text, cons, indentText]

end Row

/-- Whatever the unit of an indent is, the text is rows with these verbatim parts, apart from newlines at its end.
Whether a line begins in front of it has to be told: otherwise the first row is not indented. -/
inductive Laid (here : Bool) (verbatims : List Segment) (text : String → List Char) : Prop
  | nothing : verbatims = [] → (∀ unit, isIndent unit → dropFinalBreaks (text unit) = []) → Laid here verbatims text
  | rows (row : Row) (rows : List Row) : (here = false → row.depth = 0) → (∀ r ∈ row :: rows, r.IsLine) →
      Row.verbatims (row :: rows) = verbatims →
      (∀ unit, isIndent unit → dropFinalBreaks (text unit) ≠ [] ∧
        dropFinalBreaks (text unit) ++ ['\n'] = (row :: rows).flatMap (Row.text unit)) → Laid here verbatims text

namespace Laid

variable {here : Bool} {verbatims : List Segment} {text : String → List Char}

theorem nil (here : Bool) : Laid here [] fun _ => [] := .nothing rfl fun _ _ => rfl

theorem of_false (h : Laid false verbatims text) : Laid here verbatims text := by
  cases h with
  | nothing hverbatims hnil => exact .nothing hverbatims hnil
  | rows row rows hrow hlines hverbatims hrows => exact .rows row rows (fun _ => hrow rfl) hlines hverbatims hrows

theorem congr {text' : String → List Char} (h : Laid here verbatims text)
    (heq : ∀ unit, isIndent unit → text' unit = text unit) : Laid here verbatims text' := by
  cases h with
  | nothing hverbatims hnil => exact .nothing hverbatims fun unit hunit => by rw [heq unit hunit, hnil unit hunit]
  | rows row rows hrow hlines hverbatims hrows =>
    exact .rows row rows hrow hlines hverbatims fun unit hunit => by rw [heq unit hunit]; exact hrows unit hunit

/-- Text in front of a row becomes part of the row. -/
theorem cons (h : Laid false verbatims text) (part : Segment) (depth : Nat) (hdepth : here = false → depth = 0)
    (hpart : part.isVerbatim = false → '\n' ∉ part.text)
    (hends : ∀ unit, isIndent unit → dropFinalBreaks (text unit) = [] →
      dropFinalBreaks (indentText unit depth ++ part.text) = indentText unit depth ++ part.text)
    (hne : ∀ unit, isIndent unit → indentText unit depth ++ part.text ≠ []) :
    Laid here ([part].filter Segment.isVerbatim ++ verbatims)
      fun unit => indentText unit depth ++ (part.text ++ text unit) := by
  have hkeeps (unit : String) (hunit : isIndent unit) :
      dropFinalBreaks (indentText unit depth ++ (part.text ++ text unit)) =
        indentText unit depth ++ part.text ++ dropFinalBreaks (text unit) := by
    rw [← List.append_assoc, dropFinalBreaks_append]
    split
    case isTrue hnil => rw [hends unit hunit hnil, hnil, List.append_nil]
    case isFalse => rfl
  cases h with
  | nothing hverbatims hnil =>
    refine .rows (Row.blank.cons depth part) [] hdepth ?_ ?_ fun unit hunit => ⟨?_, ?_⟩
    · exact List.forall_mem_singleton.2 (Row.isLine_blank.cons hpart depth)
    · rw [hverbatims, List.append_nil]
      rfl
    · rw [hkeeps unit hunit, hnil unit hunit, List.append_nil]
      exact hne unit hunit
    · rw [hkeeps unit hunit, hnil unit hunit, List.append_nil, List.flatMap_singleton, Row.text_cons unit rfl]
      rw [List.append_assoc]
      rfl
  | rows row rows hrow hlines hverbatims hrows =>
    refine .rows (row.cons depth part) rows hdepth ?_ ?_ fun unit hunit => ⟨?_, ?_⟩
    · obtain ⟨hline, hlines⟩ := List.forall_mem_cons.1 hlines
      exact List.forall_mem_cons.2 ⟨hline.cons hpart depth, hlines⟩
    · rw [← hverbatims, Row.verbatims, Row.verbatims, ← List.filter_append]
      rfl
    · rw [hkeeps unit hunit]
      exact fun hnil => (hrows unit hunit).1 (List.append_eq_nil_iff.1 hnil).2
    · rw [hkeeps unit hunit, List.append_assoc, (hrows unit hunit).2, List.flatMap_cons, List.flatMap_cons,
        Row.text_cons unit (hrow rfl)]
      simp only [List.append_assoc]

theorem newline (h : Laid true verbatims text) (here : Bool) : Laid here verbatims fun unit => '\n' :: text unit := by
  have hdrop (unit : String) : dropFinalBreaks ('\n' :: text unit) =
      if dropFinalBreaks (text unit) = [] then [] else '\n' :: dropFinalBreaks (text unit) :=
    dropFinalBreaks_append ['\n'] (text unit)
  cases h with
  | nothing hverbatims hnil => exact .nothing hverbatims fun unit hunit => by rw [hdrop, if_pos (hnil unit hunit)]
  | rows row rows _ hlines hverbatims hrows =>
    refine .rows .blank (row :: rows) (fun _ => rfl) ?_ hverbatims fun unit hunit => ?_
    · exact List.forall_mem_cons.2 ⟨Row.isLine_blank, hlines⟩
    · obtain ⟨hne, heq⟩ := hrows unit hunit
      rw [hdrop, if_neg hne, List.cons_append, heq]
      exact ⟨List.cons_ne_nil _ _, rfl⟩

theorem breaks {count : Nat} (h : Laid true verbatims text) (hcount : here = false → 0 < count) :
    Laid here verbatims fun unit => List.replicate count '\n' ++ text unit := by
  induction count generalizing here with
  | zero =>
    cases here with
    | true => exact h
    | false => exact absurd (hcount rfl) (Nat.lt_irrefl 0)
  | succ count ih =>
    have hmore : Laid true verbatims fun unit => List.replicate count '\n' ++ text unit := ih (by simp)
    exact hmore.newline here

/-- A line in front of a text that does not begin with an indent. -/
theorem line (h : Laid false verbatims text) (depth : Nat) (line : List Char) (hdepth : here = false → depth = 0)
    (hline : ∀ unit, isIndent unit → indentText unit depth ++ line ≠ [] ∧ '\n' ∉ indentText unit depth ++ line) :
    Laid here verbatims fun unit => indentText unit depth ++ (line ++ text unit) := by
  refine h.cons ⟨line, false⟩ depth hdepth (fun _ hmem => ?_) (fun unit hunit _ => ?_) fun unit hunit => ?_
  · exact (hline "\t" rfl).2 (List.mem_append_right _ hmem)
  · exact dropFinalBreaks_eq_self fun hlast => (hline unit hunit).2 (List.mem_of_getLast? hlast)
  · exact (hline unit hunit).1

/-- Something verbatim in front of a text. Newlines at its end stay because something else follows. -/
theorem verbatim {v : Segment} (h : Laid false verbatims text) (hv : v.isVerbatim = true) (hne : v.text ≠ [])
    (hends : v.text.getLast? ≠ some '\n' ∨ ∀ unit, dropFinalBreaks (text unit) ≠ []) :
    Laid here (v :: verbatims) fun unit => v.text ++ text unit := by
  have hfront : Laid here ([v].filter Segment.isVerbatim ++ verbatims)
      fun unit => indentText unit 0 ++ (v.text ++ text unit) := by
    refine h.cons v 0 (fun _ => rfl) (by simp [hv]) (fun unit _ hnil => ?_) fun _ _ => hne
    have hlast := hends.resolve_right fun h => h unit hnil
    exact dropFinalBreaks_eq_self hlast
  simpa [hv, indentText] using hfront

/-- Spaced strips in front of a text that does not begin with an indent. -/
theorem strips (h : Laid false verbatims text) (strips : List Strip) : ∀ (here : Bool) (before : Before),
    (∀ unit, isIndent unit → Alternate (strips.map (Strip.run unit))) → (here = false → Strip.Flush strips) →
      (here = false → before.isStart = false) → Laid here verbatims
        fun unit => ((Strip.tighten before strips).map (Strip.run unit)).flatMap Run.text ++ text unit := by
  induction strips with
  | nil => exact fun _ _ _ _ _ => h.of_false
  | cons s strips ih =>
    intro here before halternate hflush hbefore
    have hbelow : ∀ unit, isIndent unit → Alternate (strips.map (Strip.run unit)) := by
      intro unit hunit
      cases s with
      | line => cases halternate unit hunit with | line _ _ _ h => exact h
      | breaks => cases halternate unit hunit with | breaks _ _ h => exact h
    cases s with
    | line depth text =>
      have hnext : Strip.Flush strips := by
        cases halternate "\t" rfl with
        | line _ _ hhead =>
          rcases strips with _ | ⟨⟨_, _⟩ | _, rest⟩
          · trivial
          · cases hhead _ rfl
          · trivial
      have hrest := ih false (.line text) hbelow (fun _ => hnext) fun _ => rfl
      have hline := hrest.line depth text hflush fun unit hunit => by
        cases halternate unit hunit with | line hne hline => exact ⟨hne, hline⟩
      simpa [Strip.tighten, Strip.run, Run.text] using hline
    | breaks count =>
      have hcount : 0 < count := by cases halternate "\t" rfl with | breaks hcount => exact hcount
      have hrest := ih true .seam hbelow (by simp) (by simp)
      have hbreaks := hrest.breaks fun hhere : here = false =>
        kept_pos (hbefore hhere) hcount (strips.map (Strip.run ""))
      simpa [Strip.tighten, Strip.run, Run.text] using hbreaks

end Laid

/-! ## Pieces -/

namespace Piece

variable {ps : List Piece}

theorem filterMap_verbatim?_of_isPlain (h : ∀ p ∈ ps, p.isPlain) : ps.filterMap verbatim? = [] :=
  List.filterMap_eq_nil_iff.2 fun p hp => isPlain_iff.1 (h p hp)

/-- What goes on is seen in the text behind it. -/
theorem dropFinalBreaks_ne_nil_of_goesOn (hgoes : ps.head?.any goesOn) (hfault : ∀ f, Piece.fault f ∉ ps)
    (unit : String) : dropFinalBreaks (spacedAfter .seam (segments unit ps)) ≠ [] := by
  intro hnil
  have hink : inked (written unit ps) = [] := by
    rw [← flatMap_text_segments, ← (thinned_seam (segments unit ps)).inked_eq, flatMap_normalizeSegment,
      ← inked_dropFinalBreaks, hnil]
    rfl
  rcases ps with _ | ⟨p, ps⟩
  · cases hgoes
  cases p with
  | text s =>
    have hgoes : s.toList.head?.any (· != '\n') := hgoes
    obtain ⟨c, hc, hne⟩ := (Option.any_eq_true _ _).1 hgoes
    have hmem : c ∈ inked (written unit (Piece.text s :: ps)) :=
      List.mem_filter.2 ⟨List.mem_append_left _ (List.mem_of_head? hc), hne⟩
    rw [hink] at hmem
    cases hmem
  | fault f => exact hfault f List.mem_cons_self
  | _ => cases hgoes

/-- Plain pieces in front of what does not begin with an indent. -/
theorem Hangs.laid_plain {here : Bool} {front rest : List Piece} (h : Hangs here (front ++ rest))
    (hfront : ∀ p ∈ front, p.isPlain) {before : Before} (hbefore : here = false → before.isStart = false) :
    (∃ here, Hangs here rest) ∧ ∀ {verbatims : List Segment} {text : String → List Char}, Laid false verbatims text →
      Laid here verbatims fun unit => normalizeSegment before ⟨written unit front, false⟩ ++ text unit := by
  obtain ⟨strips, hflush, hruns, hrest⟩ := Strip.exists_of_hangs front rest hfront h
  refine ⟨⟨_, hrest⟩, fun htext => (htext.strips strips here before ?_ hflush hbefore).congr fun unit hunit => ?_⟩
  · exact fun unit hunit => hruns unit hunit ▸ alternate_runs _
  · rw [normalizeSegment_plain, hruns unit hunit, Strip.tighten_map_run hunit strips before before fun _ _ => rfl]

/-- Pieces in which every indent stands where a line begins are printed as rows. -/
theorem Hangs.laid (ps : List Piece) : ∀ {here : Bool} (before : Before), Hangs here ps →
    (∀ f, Piece.fault f ∉ ps) → (here = false → before.isStart = false) →
      Laid here (ps.filterMap verbatim?) fun unit => spacedAfter before (segments unit ps) := by
  induction ps using induction_verbatim with
  | plain ps hps =>
    intro here before h _ hbefore
    rw [filterMap_verbatim?_of_isPlain hps]
    simp only [spacedAfter_of_isPlain hps]
    rw [← List.append_nil ps] at h
    simpa using (h.laid_plain hps hbefore).2 (.nil false)
  | cut front p v back hfront hp ih =>
    intro here before h hfault hbefore
    simp only [spacedAfter_cut hp]
    rw [List.filterMap_append, filterMap_verbatim?_of_isPlain hfront, List.filterMap_cons_some hp, List.nil_append]
    obtain ⟨⟨here', hcut⟩, hlaid⟩ := h.laid_plain hfront hbefore
    have hfaultless : ∀ f, Piece.fault f ∉ back := fun f hf => hfault f (by simp [hf])
    obtain ⟨-, hverbatim, hne⟩ := segment_of_verbatim? "" hp
    simp only [spacedAfter_of_isPlain hfront]
    refine hlaid ?_
    cases hcut with
    | verbatim hgoes hback =>
      exact (ih .seam hback hfaultless fun _ => rfl).verbatim hverbatim hne
        (.inr (dropFinalBreaks_ne_nil_of_goesOn hgoes hfaultless))
    | @comment _ c _ hback =>
      refine (ih .seam hback hfaultless fun _ => rfl).verbatim hverbatim hne (.inl ?_)
      obtain ⟨hkind, hv⟩ := Option.ite_none_right_eq_some.1 hp
      cases hv
      obtain ⟨last, hlast, hbreak⟩ := c.exists_getLast?_text fun hline => by rw [hline] at hkind; cases hkind
      rw [hlast]
      exact fun h => hbreak (Option.some.inj h)
    | newline | indent | text | fault => cases hp

end Piece

/-! ## Trees -/

namespace Node

variable {root : Node}

/-- The indent is pure layout. What is printed of a tree are rows that do not depend on the indent, each with the
indent in front of it as often as its depth says. Only what is verbatim goes on over several lines, and it is what the
tree has of block comments and texts of templates, in order. If a tree cannot be printed, this does not depend on the
indent either; one of the shape that is read can be. -/
theorem print_rows (hcases : root.HasCases) (semicolons : Bool) : ∃ printed : Except PrintFault (List Row),
    (root.Shaped → ∃ rows, printed = .ok rows) ∧
    (∀ rows, printed = .ok rows → (∀ row ∈ rows, row.IsLine) ∧
      Row.verbatims rows = (root.pieces semicolons).filterMap Piece.verbatim?) ∧
    ∀ options : Options, options.semicolons = semicolons →
      root.print options = printed.map fun rows => String.ofList (rows.flatMap (Row.text options.indent)) := by
  cases hfault : Piece.fault? (root.pieces semicolons) with
  | some fault =>
    refine ⟨.error fault, fun hshaped => ?_, by simp, fun options hoptions => ?_⟩
    · obtain ⟨text, htext⟩ := hshaped.printable.exists_print { Options.standard with semicolons }
      rw [print, Piece.render, hfault] at htext
      cases htext
    · rw [print, Piece.render, hoptions, hfault]
      rfl
  | none =>
    have hfaultless : ∀ f, Piece.fault f ∉ root.pieces semicolons := fun f hf => by
      cases List.findSome?_eq_none_iff.1 hfault _ hf
    have hlaid := Piece.Hangs.laid _ .start (hangs_pieces hcases semicolons) hfaultless (by simp)
    have hprint (options : Options) (hoptions : options.semicolons = semicolons) : root.print options =
        .ok (String.ofList (dropFinalBreaks (spacedAfter .start
          (Piece.segments options.indent (root.pieces semicolons))) ++ ['\n'])) := by
      rw [print, Piece.render, hoptions, hfault, normalizeLayout_eq, spaced_eq]
    cases hlaid with
    | nothing hverbatims hnil =>
      refine ⟨.ok [.blank], fun _ => ⟨_, rfl⟩, fun rows hrows => ?_, fun options hoptions => ?_⟩
      · cases hrows
        exact ⟨List.forall_mem_singleton.2 Row.isLine_blank, hverbatims.symm⟩
      · rw [hprint options hoptions, hnil _ options.indent_valid]
        rfl
    | rows row rows _ hlines hverbatims hrows =>
      refine ⟨.ok (row :: rows), fun _ => ⟨_, rfl⟩, fun rows hrows => ?_, fun options hoptions => ?_⟩
      · cases hrows
        exact ⟨hlines, hverbatims⟩
      · rw [hprint options hoptions, (hrows _ options.indent_valid).2]
        rfl

theorem print_rows_labeledLoop : ∃ rows : List Row, ∀ options : Options, options.semicolons = true →
    (labeledLoop ⟨.block, " c ", 0, 7, 1⟩).print options =
      .ok (String.ofList (rows.flatMap (Row.text options.indent))) := by
  have hshaped : (labeledLoop ⟨.block, " c ", 0, 7, 1⟩).Shaped := {
    program := ⟨_, _, rfl⟩
    roles := by decide +kernel
    coherent := by decide +kernel
    lines := by decide +kernel }
  have hcases : (labeledLoop ⟨.block, " c ", 0, 7, 1⟩).HasCases := by decide +kernel
  obtain ⟨printed, hok, -, hprint⟩ := print_rows hcases true
  obtain ⟨rows, rfl⟩ := hok hshaped
  exact ⟨rows, hprint⟩

end Node

end ScriptTidy
