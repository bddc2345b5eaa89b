/-
Texts with a line comment left open. The rules for blank lines see of a line only its ends. A line
comment stands on a line of its own and begins it with its mark, so that the line is neither a closing
bracket nor a label, and nothing above it depends on what the comment says. What follows it depends on
the last character alone: after an opening brace or bracket no blank line stays, be it code or the end
of a comment.
-/
import ScriptTidy.Proofs.Layout.Respelling
import ScriptTidy.Proofs.Layout.Runs

namespace ScriptTidy

/-! ## Templates -/

/-- A text in which some places are left open. -/
abbrev Template := List (Option Char)

namespace Template

/-- The text with the same text in every open place. -/
def fill (text : List Char) (t : Template) : List Char := t.flatMap fun c => c.elim text List.singleton

/-- A text without open places. -/
def ofText (text : List Char) : Template := text.map some

/-- The second template is the first one, but for a newline that may be missing where two of them follow directly on
an open place. Whether such a place stands in front has to be told. -/
inductive Tightened : Bool → Template → Template → Prop
  | nil {open? : Bool} : Tightened open? [] []
  | char {open? : Bool} {c : Char} {t u : Template} : Tightened false t u → Tightened open? (some c :: t) (some c :: u)
  | place {open? : Bool} {t u : Template} : Tightened true t u → Tightened open? (none :: t) (none :: u)
  | lose {t u : Template} : Tightened false t u → Tightened true (some '\n' :: some '\n' :: t) (some '\n' :: u)

variable {text : List Char} {open? : Bool} {t u : Template}

theorem fill_append (t u : Template) : fill text (t ++ u) = fill text t ++ fill text u := List.flatMap_append ..

theorem fill_none (t : Template) : fill text (none :: t) = text ++ fill text t := rfl

theorem fill_ofText (chars : List Char) : fill text (ofText chars) = chars := by
  induction chars with
  | nil => rfl
  | cons c chars ih => exact congrArg (c :: ·) ih

theorem count_newline_fill (h : '\n' ∉ text) (t : Template) : (fill text t).count '\n' = t.count (some '\n') := by
  induction t with
  | nil => rfl
  | cons c t ih =>
    cases c with
    | none =>
      rw [fill_none, List.count_append, List.count_eq_zero_of_not_mem h, ih, Nat.zero_add]
      rfl
    | some c =>
      have hfill : fill text (some c :: t) = c :: fill text t := rfl
      rw [hfill, List.count_cons, List.count_cons, ih]
      simp

namespace Tightened

theorem refl (open? : Bool) (t : Template) : Tightened open? t t := by
  induction t generalizing open? with
  | nil => exact .nil
  | cons c t ih =>
    cases c with
    | none => exact .place (ih true)
    | some c => exact .char (ih false)

theorem of_false (h : Tightened false t u) : Tightened open? t u := by
  cases h with
  | nil => exact .nil
  | char h => exact .char h
  | place h => exact .place h

theorem append {t' u' : Template} (h : Tightened open? t u) (h' : Tightened false t' u') :
    Tightened open? (t ++ t') (u ++ u') := by
  induction h with
  | nil => exact h'.of_false
  | char _ ih => exact .char ih
  | place _ ih => exact .place ih
  | lose _ ih => exact .lose ih

/-- A text put in front of an open place. -/
theorem place_after (h : Tightened true t u) (chars : List Char) :
    Tightened false (ofText chars ++ none :: t) (ofText chars ++ none :: u) := by
  induction chars with
  | nil => exact .place h
  | cons c chars ih => exact .char ih

theorem eq_nil_iff (h : Tightened open? t u) : t = [] ↔ u = [] := by
  cases h <;> simp

end Tightened

/-! ### The end of a template -/

/-- The template without the newlines at its end. -/
def dropFinalBreaks (t : Template) : Template := t.rdropWhile (· == some '\n')

theorem dropFinalBreaks_cons (c : Option Char) (t : Template) : dropFinalBreaks (c :: t) =
    if t.dropFinalBreaks = [] then (if c = some '\n' then [] else [c]) else c :: t.dropFinalBreaks := by
  simp only [dropFinalBreaks, List.rdropWhile, List.reverse_cons, List.dropWhile_append, List.isEmpty_iff,
    List.reverse_eq_nil_iff, List.dropWhile_cons, List.dropWhile_nil, beq_iff_eq]
  split
  · split <;> rfl
  · rw [List.reverse_append]
    rfl

theorem fill_dropFinalBreaks {last : Char} (hlast : text.getLast? = some last) (hne : last ≠ '\n') (t : Template) :
    fill text t.dropFinalBreaks = Spacing.dropFinalBreaks (fill text t) := by
  induction t using List.reverseRecOn with
  | nil => rfl
  | append_singleton t c ih =>
    rw [dropFinalBreaks, List.rdropWhile_concat, ← dropFinalBreaks, fill_append]
    cases c with
    | none =>
      -- the text in the place does not end in a newline
      obtain ⟨front, rfl⟩ := List.getLast?_eq_some_iff.1 hlast
      have hplace : fill (front ++ [last]) [none] = front ++ [last] := List.append_nil _
      rw [hplace, ← List.append_assoc, Spacing.dropFinalBreaks_concat, if_neg (by simp), if_neg (by simp [hne]),
        fill_append, hplace, List.append_assoc]
    | some c =>
      have hchar : fill text [some c] = [c] := rfl
      rw [hchar, Spacing.dropFinalBreaks_concat]
      by_cases hc : c = '\n'
      · rw [if_pos (by simp [hc]), if_pos (by simp [hc]), ih]
      · rw [if_neg (by simp [hc]), if_neg (by simp [hc]), fill_append, hchar]

theorem Tightened.dropFinalBreaks (h : Tightened open? t u) : Tightened open? t.dropFinalBreaks u.dropFinalBreaks := by
  induction h with
  | nil => exact .nil
  | @char _ c t u _ ih =>
    rw [dropFinalBreaks_cons, dropFinalBreaks_cons]
    simp only [← ih.eq_nil_iff]
    split
    · exact .refl ..
    · exact .char ih
  | @place _ t u _ ih =>
    rw [dropFinalBreaks_cons, dropFinalBreaks_cons]
    simp only [← ih.eq_nil_iff]
    split
    · exact .refl ..
    · exact .place ih
  | @lose t u _ ih =>
    rw [dropFinalBreaks_cons, dropFinalBreaks_cons _ t, dropFinalBreaks_cons _ u]
    simp only [← ih.eq_nil_iff]
    by_cases ht : t.dropFinalBreaks = []
    · simpa [ht] using .nil
    · simpa [ht] using .lose ih

end Template

open Template

/-! ## Spacing around a line -/

namespace Spacing

variable {line text : List Char} {rs more : List Run}

theorem runs_line_newline (hne : line ≠ []) (hline : '\n' ∉ line) (text : List Char) :
    runs (line ++ '\n' :: text) = .line line :: runs ('\n' :: text) := by
  rw [runs, List.foldr_append, ← runs]
  exact foldr_line hne hline (isLine_head_runs_newline text)

/-- A line in the middle of a text is a run. -/
theorem runs_append_line (hne : line ≠ []) (hline : '\n' ∉ line) (front text : List Char) :
    runs (front ++ '\n' :: (line ++ '\n' :: text)) = runs (front ++ ['\n']) ++ .line line :: runs ('\n' :: text) := by
  have hbreak : Run.cons '\n' (.line line :: runs ('\n' :: text)) =
      [.breaks 1] ++ .line line :: runs ('\n' :: text) := rfl
  have hruns := runs_line_newline hne hline text
  have hfront : runs (front ++ ['\n']) = front.foldr Run.cons [.breaks 1] := List.foldr_append ..
  rw [hfront, runs, List.foldr_append, List.foldr_cons, ← runs, hruns, hbreak,
    foldr_cons_append (List.cons_ne_nil _ _)]

/-- What stands before a line that is no closing bracket is spaced as if it were the end of the text. -/
theorem tighten_append_line (hline : isCloser line = false) (before : Before) (rs : List Run) :
    tighten before (rs ++ .line line :: more) = tighten before rs ++ .line line :: tighten (.line line) more := by
  induction rs generalizing before with
  | nil => rfl
  | cons r rs ih =>
    cases r with
    | line text => rw [List.cons_append, tighten, ih, tighten, List.cons_append]
    | breaks count =>
      have hkept : kept before count (rs ++ .line line :: more) = kept before count rs := by
        cases rs with
        | nil => simp only [kept, List.nil_append, hline]
        | cons r rs => cases r <;> rfl
      rw [List.cons_append, tighten, ih, hkept, tighten, List.cons_append]

/-- A segment is spaced above a line and below it. -/
theorem normalizeSegment_line (hne : line ≠ []) (hbreak : '\n' ∉ line) (hline : isCloser line = false)
    (before : Before) (front text : List Char) :
    normalizeSegment before ⟨front ++ '\n' :: (line ++ '\n' :: text), false⟩ =
      normalizeSegment before ⟨front ++ ['\n'], false⟩ ++
        (line ++ normalizeSegment (.line line) ⟨'\n' :: text, false⟩) := by
  simp only [normalizeSegment, Bool.false_eq_true, if_false]
  rw [runs_append_line hne hbreak, tighten_append_line hline, List.flatMap_append, List.flatMap_cons]
  rfl

/-- Below a line the text depends on that line only in so far as it is an opener: then a blank line is missing. -/
theorem exists_normalizeSegment_newline (text : List Char) : ∃ below : Bool → List Char,
    Tightened true (ofText (below false)) (ofText (below true)) ∧
      ∀ line, normalizeSegment (.line line) ⟨'\n' :: text, false⟩ = below (isOpener line) := by
  obtain ⟨count, rest, hruns⟩ := exists_runs_newline text
  obtain ⟨closes, hkept⟩ : ∃ closes : Bool, ∀ line, kept (.line line) (count + 1) rest =
      min (count + 1) (if closes || isOpener line then 1 else 2) := ⟨_, fun _ => rfl⟩
  refine ⟨fun opens => List.replicate (min (count + 1) (if closes || opens then 1 else 2)) '\n' ++
    (tighten .seam rest).flatMap Run.text, ?_, fun line => ?_⟩
  · cases closes with
    | true => exact .refl ..
    | false =>
      cases count with
      | zero => exact .refl ..
      | succ count =>
        have htwo : min (count + 1 + 1) 2 = 2 := by omega
        have hone : min (count + 1 + 1) 1 = 1 := by omega
        simp only [Bool.false_or, Bool.false_eq_true, if_false, if_true, htwo, hone]
        exact .lose (.refl ..)
  · simp only [normalizeSegment, Bool.false_eq_true, if_false]
    rw [hruns, tighten, List.flatMap_cons, hkept]
    rfl

/-- What stands before a segment matters to it only in whether there is anything. -/
theorem exists_spaced_append (front : List Segment) : ∃ before, ∀ s more,
    spaced (front ++ s :: more) =
      spaced front ++ (normalizeSegment before s ++ more.flatMap (normalizeSegment .seam)) := by
  cases front with
  | nil => exact ⟨.start, fun _ _ => rfl⟩
  | cons first front => exact ⟨.seam, fun s more => by simp [spaced, List.append_assoc]⟩

end Spacing

open Spacing

/-! ## Lines of comments -/

namespace Comment

variable {c : Comment}

/-- A comment with this value ends like a line of code after which something is open. -/
def opens (value : String) : Bool := value.toList.getLast? == some '{' || value.toList.getLast? == some '['

/-- The text of a line comment with this value. -/
def lineText (value : String) : List Char := (text ⟨.line, value, 0, 0, 0⟩).toList

/-- The comment with another value, if it is a line comment. -/
def reworded (value : String) (c : Comment) : Comment :=
  match c.kind with
  | .line => { c with value }
  | .block => c

theorem reworded_line (hkind : c.kind = .line) (value : String) : c.reworded value = { c with value } := by
  rw [reworded, hkind]

theorem toList_text_line (hkind : c.kind = .line) : c.text.toList = lineText c.value := by
  rw [lineText, text, text, hkind]

/-- A line comment is its mark and its value. A mark without a space is followed by something. -/
theorem exists_text_line (hkind : c.kind = .line) : ∃ mark, c.text.toList = '/' :: '/' :: (mark ++ c.value.toList) ∧
    (mark = [] ∧ c.value.toList ≠ [] ∨ mark = [' ']) := by
  unfold text
  rw [hkind]
  dsimp only
  split
  case isTrue hspace =>
    refine ⟨[], String.toList_append .., .inl ⟨rfl, fun hempty => ?_⟩⟩
    rw [String.toList_eq_nil_iff.1 hempty] at hspace
    exact absurd hspace (by decide)
  case isFalse => exact ⟨[' '], String.toList_append .., .inr rfl⟩

end Comment

namespace Piece

variable {unit : String} {c : Comment}

/-! ### Segments around a newline -/

theorem segments_cons (piece : Piece) (pieces : List Piece) :
    segments unit (piece :: pieces) = join (piece.segment unit) (segments unit pieces) := rfl

theorem exists_segments_newline (unit : String) (pieces : List Piece) :
    ∃ text more, segments unit (newline :: pieces) = ⟨'\n' :: text, false⟩ :: more := by
  rw [segments_cons]
  rcases segments unit pieces with _ | ⟨⟨text, _ | _⟩, more⟩
  · exact ⟨[], [], rfl⟩
  · exact ⟨text, more, rfl⟩
  · exact ⟨[], _, rfl⟩

/-- Pieces that begin with plain text are joined to the last segment of what stands before them. -/
theorem exists_segments_append (unit : String) (before : List Piece) : ∃ front text, ∀ pieces next more,
    segments unit pieces = ⟨next, false⟩ :: more →
      segments unit (before ++ pieces) = front ++ ⟨text ++ next, false⟩ :: more := by
  induction before with
  | nil => exact ⟨[], [], fun _ _ _ h => h⟩
  | cons piece before ih =>
    obtain ⟨front, text, ih⟩ := ih
    -- the piece is a segment of its own, or joined to the one after it, or empty
    have hjoin : ∃ front' text', ∀ next more, join (piece.segment unit) (front ++ ⟨text ++ next, false⟩ :: more) =
        front' ++ ⟨text' ++ next, false⟩ :: more := by
      generalize piece.segment unit = s
      obtain ⟨chars, _ | _⟩ := s
      · rcases front with _ | ⟨⟨first, _ | _⟩, front⟩
        · exact ⟨[], chars ++ text, fun next more => by simp [join]⟩
        · exact ⟨⟨chars ++ first, false⟩ :: front, text, fun _ _ => rfl⟩
        · exact ⟨⟨chars, false⟩ :: ⟨first, true⟩ :: front, text, fun _ _ => rfl⟩
      · rcases chars with _ | ⟨a, chars⟩
        · exact ⟨front, text, fun _ _ => rfl⟩
        · exact ⟨⟨a :: chars, true⟩ :: front, text, fun _ _ => rfl⟩
    obtain ⟨front', text', hjoin⟩ := hjoin
    refine ⟨front', text', fun pieces next more h => ?_⟩
    rw [List.cons_append, segments_cons, ih pieces next more h, hjoin]

theorem segments_comment {rest : List Piece} {after : List Char} {more : List Segment} (hkind : c.kind = .line)
    (hrest : segments unit (newline :: rest) = ⟨'\n' :: after, false⟩ :: more) (depth : Nat) :
    segments unit (newline :: indent depth :: comment c :: newline :: rest) =
      ⟨'\n' :: (indentText unit depth ++ c.text.toList ++ '\n' :: after), false⟩ :: more := by
  rw [segments_cons, segments_cons, segments_cons, hrest]
  simp [join, segment, hkind]

/-! ### The line of a comment -/

section Line

variable (hunit : ∀ a ∈ unit.toList, isSpace a) (hkind : c.kind = .line)
include hunit

theorem dropWhile_indentText (depth : Nat) (text : List Char) :
    (indentText unit depth ++ text).dropWhile isSpace = text.dropWhile isSpace := by
  refine List.dropWhile_append_of_pos fun a ha => ?_
  obtain ⟨indent, hindent, hmem⟩ := List.mem_flatten.1 ha
  rw [List.eq_of_mem_replicate hindent] at hmem
  exact hunit a hmem

include hkind

theorem isCloser_comment (depth : Nat) : isCloser (indentText unit depth ++ c.text.toList) = false := by
  obtain ⟨mark, htext, -⟩ := Comment.exists_text_line hkind
  rw [isCloser, dropWhile_indentText hunit, htext]
  rfl

theorem isLabel_comment (depth : Nat) : isLabel (indentText unit depth ++ c.text.toList) = false := by
  obtain ⟨mark, htext, -⟩ := Comment.exists_text_line hkind
  have hname : ('/' :: '/' :: (mark ++ c.value.toList)).dropWhile isSpace =
      '/' :: '/' :: (mark ++ c.value.toList) := rfl
  have hslash : isLabelChar '/' = false := by decide
  rw [isLabel, dropWhile_indentText hunit, htext, hname]
  simp [startsWithCase, hslash]

theorem isOpener_comment (depth : Nat) :
    isOpener (indentText unit depth ++ c.text.toList) = Comment.opens c.value := by
  obtain ⟨mark, htext, hmark⟩ := Comment.exists_text_line hkind
  -- the line ends in the last character of the value; without a value it ends in the space of the mark
  have hlast : (indentText unit depth ++ c.text.toList).getLast? = some ((c.value.toList.getLast?).getD ' ') := by
    rw [htext]
    cases hvalue : c.value.toList.getLast? with
    | none =>
      have hempty := List.getLast?_eq_none_iff.1 hvalue
      obtain rfl := hmark.resolve_left fun h => h.2 hempty
      rw [hempty, List.getLast?_append]
      rfl
    | some last => simp [List.getLast?_append, List.getLast?_cons, hvalue]
  rw [isOpener, isLabel_comment hunit hkind, Bool.or_false, hlast, Comment.opens]
  cases c.value.toList.getLast? with
  | none => rfl
  | some last => rfl

theorem newline_notMem_comment (hvalue : '\n' ∉ c.value.toList) (depth : Nat) :
    '\n' ∉ indentText unit depth ++ c.text.toList := by
  have hindent : '\n' ∉ unit.toList := fun h => absurd (hunit _ h) (by decide)
  rw [List.mem_append]
  exact not_or.2 ⟨newline_notMem_indentText hindent depth, Comment.newline_notMem_text hkind hvalue⟩

end Line

/-- The text is spaced above and below a line comment. Above it, nothing depends on what it says; below it, only
whether it opens something matters. -/
theorem exists_spaced_comment (hunit : ∀ a ∈ unit.toList, isSpace a) (rest : List Piece) :
    ∃ below : Bool → List Char, Tightened true (ofText (below false)) (ofText (below true)) ∧
      ∀ front depth c, c.kind = .line → '\n' ∉ c.value.toList →
        spaced (segments unit (front ++ newline :: indent depth :: comment c :: newline :: rest)) =
          spaced (segments unit (front ++ [newline])) ++ (indentText unit depth ++ Comment.lineText c.value) ++
            below (Comment.opens c.value) := by
  obtain ⟨after, more, hafter⟩ := exists_segments_newline unit rest
  obtain ⟨below, hbelow, hnewline⟩ := exists_normalizeSegment_newline after
  refine ⟨fun opens => below opens ++ more.flatMap (normalizeSegment .seam), ?_, fun front depth c hkind hvalue => ?_⟩
  · rw [ofText, List.map_append, ofText, List.map_append]
    exact hbelow.append (.refl ..)
  · obtain ⟨first, text, happend⟩ := exists_segments_append unit front
    obtain ⟨before, hspaced⟩ := exists_spaced_append first
    have hne : indentText unit depth ++ c.text.toList ≠ [] := fun h => c.text_ne_nil (List.append_eq_nil_iff.1 h).2
    have hline := normalizeSegment_line hne (newline_notMem_comment hunit hkind hvalue depth)
      (isCloser_comment hunit hkind depth) before text after
    rw [happend _ _ _ (segments_comment hkind hafter depth), happend [newline] ['\n'] [] rfl, hspaced, hspaced, hline,
      hnewline, isOpener_comment hunit hkind, ← Comment.toList_text_line hkind]
    simp only [List.append_assoc, List.flatMap_nil, List.nil_append]

/-! ### Rewording -/

/-- The line comments that are chosen get another value. -/
def rewording (chosen : Comment → Bool) (value : String) : Relabeling :=
  ⟨id, fun c => if chosen c then c.reworded value else c⟩

/-- The piece is a line comment that is chosen. -/
def isChosen (chosen : Comment → Bool) : Piece → Bool
  | comment c => chosen c && c.kind == .line
  | _ => false

variable {chosen : Comment → Bool} {value : String}

theorem rewording_of_not_isChosen {piece : Piece} (h : piece.isChosen chosen = false) :
    (rewording chosen value).piece piece = piece := by
  cases piece with
  | comment c =>
    have hcomment : (if chosen c then c.reworded value else c) = c := by
      split
      case isTrue hchosen =>
        rw [isChosen, hchosen, Bool.true_and] at h
        rw [Comment.reworded]
        cases hkind : c.kind with
        | line => simp [hkind] at h
        | block => rfl
      case isFalse => rfl
    exact congrArg comment hcomment
  | _ => rfl

theorem map_rewording_of_not_isChosen {pieces : List Piece} (h : ∀ piece ∈ pieces, piece.isChosen chosen = false) :
    pieces.map (rewording chosen value).piece = pieces :=
  (List.map_congr_left fun piece hpiece => rewording_of_not_isChosen (h piece hpiece)).trans (List.map_id _)

theorem Lined.front {front rest : List Piece} (h : Lined (front ++ newline :: rest)) : Lined (front ++ [newline]) := by
  intro before c after hsplit
  have hwhole : front ++ newline :: rest = before ++ comment c :: (after ++ rest) := by
    rw [← List.singleton_append, ← List.append_assoc, hsplit, List.append_assoc, List.cons_append]
  obtain ⟨hbefore, more, hmore⟩ := h before c (after ++ rest) hwhole
  refine ⟨hbefore, ?_⟩
  cases after with
  | nil => cases (List.append_inj' hsplit rfl).2
  | cons piece after =>
    obtain ⟨rfl, -⟩ := List.cons.inj hmore
    exact ⟨after, rfl⟩

/-- The texts with open places that are written of the pieces when the chosen comments get another value: the first for
values that open nothing, the second for values that do. -/
structure Outlined (unit : String) (chosen : Comment → Bool) (pieces : List Piece) (t u : Template) : Prop where
  tightened : Tightened false t u
  spaced_eq : ∀ value, '\n' ∉ value.toList →
    spaced (segments unit (pieces.map (rewording chosen value).piece)) =
      fill (Comment.lineText value) (if Comment.opens value then u else t)

namespace Outlined

variable {t u : Template} {front rest : List Piece}

theorem of_none_chosen {pieces : List Piece} (h : ∀ piece ∈ pieces, piece.isChosen chosen = false) :
    Outlined unit chosen pieces (ofText (spaced (segments unit pieces))) (ofText (spaced (segments unit pieces))) where
  tightened := .refl ..
  spaced_eq value _ := by rw [map_rewording_of_not_isChosen h, ite_self, fill_ofText]

/-- A chosen comment leaves one more place open, below all others. -/
theorem append_comment (hunit : ∀ a ∈ unit.toList, isSpace a) (h : Outlined unit chosen (front ++ [newline]) t u)
    (hchosen : (comment c).isChosen chosen) (hrest : ∀ piece ∈ newline :: rest, piece.isChosen chosen = false)
    (depth : Nat) :
    ∃ t u, Outlined unit chosen (front ++ newline :: indent depth :: comment c :: newline :: rest) t u := by
  obtain ⟨hchosen, hkind⟩ := Bool.and_eq_true_iff.1 hchosen
  have hkind := beq_iff_eq.1 hkind
  obtain ⟨below, hbelow, hspaced⟩ := exists_spaced_comment hunit rest
  have hopened (t : Template) (text chars : List Char) :
      fill text (t ++ (ofText (indentText unit depth) ++ none :: ofText chars)) =
        fill text t ++ (indentText unit depth ++ text) ++ chars := by
    simp only [fill_append, fill_none, fill_ofText, List.append_assoc]
  refine ⟨t ++ (ofText (indentText unit depth) ++ none :: ofText (below false)),
    u ++ (ofText (indentText unit depth) ++ none :: ofText (below true)),
    h.tightened.append (hbelow.place_after _), fun value hvalue => ?_⟩
  have hmap : (front ++ newline :: indent depth :: comment c :: newline :: rest).map (rewording chosen value).piece =
      front.map (rewording chosen value).piece ++
        newline :: indent depth :: comment { c with value } :: newline :: rest := by
    rw [List.map_append, List.map_cons, List.map_cons, List.map_cons, map_rewording_of_not_isChosen hrest]
    simp only [rewording, Relabeling.piece, hchosen, if_true, Comment.reworded_line hkind]
  have habove : spaced (segments unit (front.map (rewording chosen value).piece ++ [newline])) =
      fill (Comment.lineText value) (if Comment.opens value then u else t) := by
    rw [← h.spaced_eq value hvalue, List.map_append]
    rfl
  have hspaced : spaced (segments unit (front.map (rewording chosen value).piece ++
        newline :: indent depth :: comment { c with value } :: newline :: rest)) =
      spaced (segments unit (front.map (rewording chosen value).piece ++ [newline])) ++
        (indentText unit depth ++ Comment.lineText value) ++ below (Comment.opens value) :=
    hspaced _ depth { c with value } hkind hvalue
  rw [hmap, hspaced, habove]
  cases Comment.opens value with
  | true => exact (hopened u _ _).symm
  | false => exact (hopened t _ _).symm

end Outlined

/-- What is written depends on the value in whether it opens something, and in nothing else. -/
theorem Lined.exists_outlined (hunit : ∀ a ∈ unit.toList, isSpace a) (chosen : Comment → Bool) {pieces : List Piece}
    (h : Lined pieces) : ∃ t u, Outlined unit chosen pieces t u := by
  -- by induction from the last chosen comment upwards: no text above a comment depends on it
  induction hlength : pieces.length using Nat.strong_induction_on generalizing pieces with
  | _ n ih =>
    rcases exists_last_or_forall (isChosen chosen) pieces with ⟨before, piece, after, rfl, hpiece, hafter⟩ | hnone
    · cases piece with
      | comment c =>
        obtain ⟨⟨front, depth, rfl⟩, rest, rfl⟩ := h before c after rfl
        have hsplit : front ++ [newline, indent depth] ++ comment c :: newline :: rest =
            front ++ newline :: indent depth :: comment c :: newline :: rest := by
          rw [List.append_assoc]
          rfl
        rw [hsplit] at h hlength ⊢
        have hshorter : (front ++ [newline]).length < n := by
          simp [← hlength]
        obtain ⟨t, u, habove⟩ := ih _ hshorter h.front rfl
        exact habove.append_comment hunit hpiece hafter depth
      | _ => cases hpiece
    · exact ⟨_, _, .of_none_chosen hnone⟩

/-- So does the whole text. -/
theorem Lined.exists_normalizeLayout_rewording (hunit : ∀ a ∈ unit.toList, isSpace a) (chosen : Comment → Bool)
    {pieces : List Piece} (h : Lined pieces) : ∃ t u, Tightened false t u ∧ ∀ value, '\n' ∉ value.toList →
      normalizeLayout (segments unit (pieces.map (rewording chosen value).piece)) =
        fill (Comment.lineText value) (if Comment.opens value then u else t) := by
  obtain ⟨t, u, htight, hspaced⟩ := h.exists_outlined hunit chosen
  refine ⟨t.dropFinalBreaks ++ ofText ['\n'], u.dropFinalBreaks ++ ofText ['\n'],
    htight.dropFinalBreaks.append (.refl ..), fun value hvalue => ?_⟩
  obtain ⟨last, hlast, hne⟩ := Comment.exists_getLast?_text (c := ⟨.line, value, 0, 0, 0⟩) fun _ => hvalue
  have hdrop (t : Template) : fill (Comment.lineText value) t.dropFinalBreaks =
      Spacing.dropFinalBreaks (fill (Comment.lineText value) t) :=
    fill_dropFinalBreaks hlast hne t
  rw [normalizeLayout_eq, hspaced value hvalue]
  split
  · rw [fill_append, fill_ofText, hdrop]
  · rw [fill_append, fill_ofText, hdrop]

end Piece

end ScriptTidy
