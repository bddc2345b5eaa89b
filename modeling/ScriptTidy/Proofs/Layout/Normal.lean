/-
The normal form of a text. Spacing a segment is the same as four substitutions one after another: at most
two newlines in a row stay, none at the start of the whole text, one after an opener and one before a
closing bracket. No substitution brings back what an earlier one has removed, and so the segment has none
of the blank lines that any of them removes; a text in one piece is not changed by spacing it again.
-/
import ScriptTidy.Proofs.Layout.Runs

namespace ScriptTidy

namespace Spacing

variable {line text front back : List Char} {rs : List Run} {before : Before} {count : Nat}

/-! ## The substitutions -/

/-- The text with two newlines for every three or more. -/
def collapse : List Char → List Char
  | [] => []
  | c :: text =>
    if c == '\n' then
      let count := (text.takeWhile (· == '\n')).length + 1
      List.replicate (if 3 ≤ count then 2 else count) '\n' ++ collapse (text.dropWhile (· == '\n'))
    else c :: collapse text
termination_by text => text.length
decreasing_by
  · exact Nat.lt_succ_of_le (List.dropWhile_sublist _).length_le
  · exact Nat.lt_succ_self _

/-- The text without the blank lines after an opener. What stands on the line so far has to be told. -/
def joinOpeners : List Char → List Char → List Char
  | _, [] => []
  | line, c :: text =>
    if c == '\n' then '\n' :: joinOpeners [] (if isOpener line then text.dropWhile (· == '\n') else text)
    else c :: joinOpeners (line ++ [c]) text
termination_by _ text => text.length
decreasing_by
  · split
    · exact Nat.lt_succ_of_le (List.dropWhile_sublist _).length_le
    · exact Nat.lt_succ_self _
  · exact Nat.lt_succ_self _

/-- The text without the blank lines before a line that starts with a closing bracket. -/
def joinClosers : List Char → List Char
  | [] => []
  | c :: text =>
    if c == '\n' && text.head? == some '\n' && isCloser (text.dropWhile (· == '\n')) then
      '\n' :: joinClosers (text.dropWhile (· == '\n'))
    else c :: joinClosers text
termination_by text => text.length
decreasing_by
  · exact Nat.lt_succ_of_le (List.dropWhile_sublist _).length_le
  · exact Nat.lt_succ_self _

/-! ### Lines -/

theorem collapse_line (hline : '\n' ∉ line) (text : List Char) : collapse (line ++ text) = line ++ collapse text := by
  induction line with
  | nil => rfl
  | cons c line ih =>
    obtain ⟨hc, hline⟩ := not_or.1 (mt List.mem_cons.2 hline)
    rw [List.cons_append, collapse, if_neg (by simpa using Ne.symm hc), ih hline, List.cons_append]

theorem joinOpeners_line (hline : '\n' ∉ line) (front text : List Char) :
    joinOpeners front (line ++ text) = line ++ joinOpeners (front ++ line) text := by
  induction line generalizing front with
  | nil => rw [List.nil_append, List.append_nil, List.nil_append]
  | cons c line ih =>
    obtain ⟨hc, hline⟩ := not_or.1 (mt List.mem_cons.2 hline)
    rw [List.cons_append, joinOpeners, if_neg (by simpa using Ne.symm hc), ih hline, List.append_assoc,
      List.singleton_append, List.cons_append]

theorem joinClosers_line (hline : '\n' ∉ line) (text : List Char) :
    joinClosers (line ++ text) = line ++ joinClosers text := by
  induction line with
  | nil => rfl
  | cons c line ih =>
    obtain ⟨hc, hline⟩ := not_or.1 (mt List.mem_cons.2 hline)
    have hkeep : (c == '\n') = false := by simpa using Ne.symm hc
    rw [List.cons_append, joinClosers, hkeep, if_neg (by simp), ih hline, List.cons_append]

/-! ### Newlines -/

theorem collapse_breaks (hback : back.head? ≠ some '\n') (hcount : 0 < count) :
    collapse (List.replicate count '\n' ++ back) = List.replicate (min count 2) '\n' ++ collapse back := by
  cases count with
  | zero => omega
  | succ count =>
    have hkept : (if 3 ≤ count + 1 then 2 else count + 1) = min (count + 1) 2 := by split <;> omega
    rw [List.replicate_succ, List.cons_append, collapse, if_pos (by rfl), takeWhile_breaks hback,
      dropWhile_breaks hback, List.length_replicate]
    dsimp only
    rw [hkept]

theorem joinOpeners_breaks (hback : back.head? ≠ some '\n') (hcount : 0 < count) (line : List Char) :
    joinOpeners line (List.replicate count '\n' ++ back) =
      List.replicate (if isOpener line then 1 else count) '\n' ++ joinOpeners [] back := by
  induction count generalizing line with
  | zero => omega
  | succ count ih =>
    rw [List.replicate_succ, List.cons_append, joinOpeners, if_pos (by rfl)]
    cases hopener : isOpener line with
    | true =>
      rw [if_pos rfl, if_pos rfl, dropWhile_breaks hback]
      rfl
    | false =>
      rw [if_neg Bool.false_ne_true, if_neg Bool.false_ne_true]
      cases count with
      | zero => rfl
      | succ count =>
        rw [ih (Nat.succ_pos count), if_neg (by decide)]
        rfl

theorem joinClosers_breaks (hback : back.head? ≠ some '\n') (hcount : 0 < count) :
    joinClosers (List.replicate count '\n' ++ back) =
      List.replicate (if isCloser back then 1 else count) '\n' ++ joinClosers back := by
  induction count with
  | zero => omega
  | succ count ih =>
    rw [List.replicate_succ, List.cons_append, joinClosers, dropWhile_breaks hback]
    cases count with
    | zero =>
      have hsingle : (back.head? == some '\n') = false := by simpa using hback
      rw [List.replicate_zero, List.nil_append, hsingle, if_neg (by simp), ite_self]
      rfl
    | succ count =>
      cases hcloser : isCloser back with
      | true => simp [List.replicate_succ]
      | false =>
        rw [hcloser] at ih
        rw [if_neg (by simp), ih (Nat.succ_pos count)]
        rfl

/-! ### What stays in front -/

theorem isCloser_cons (c : Char) (text : List Char) :
    isCloser (c :: text) = if isSpace c then isCloser text else c == '}' || c == ']' := by
  unfold isCloser
  rw [List.dropWhile_cons]
  cases isSpace c with
  | true => rfl
  | false => rfl

theorem isCloser_newline (text : List Char) : isCloser ('\n' :: text) = false := rfl

theorem isCloser_collapse (text : List Char) : isCloser (collapse text) = isCloser text := by
  induction text with
  | nil => rw [collapse]
  | cons c text ih =>
    rw [collapse]
    by_cases hc : (c == '\n') = true
    · rw [if_pos hc, beq_iff_eq.1 hc, isCloser_newline]
      dsimp only
      split
      · rfl
      · rw [List.replicate_succ, List.cons_append, isCloser_newline]
    · rw [if_neg hc, isCloser_cons, ih, isCloser_cons]

theorem isCloser_joinOpeners (line text : List Char) : isCloser (joinOpeners line text) = isCloser text := by
  induction text generalizing line with
  | nil => rw [joinOpeners]
  | cons c text ih =>
    rw [joinOpeners]
    split
    · next hc => rw [beq_iff_eq.1 hc, isCloser_newline, isCloser_newline]
    · rw [isCloser_cons, ih, isCloser_cons]

theorem head?_collapse (text : List Char) : (collapse text).head? = text.head? := by
  cases text with
  | nil => rw [collapse]
  | cons c text =>
    rw [collapse]
    by_cases hc : (c == '\n') = true
    · rw [if_pos hc, beq_iff_eq.1 hc]
      dsimp only
      split
      · rfl
      · rfl
    · rw [if_neg hc]
      rfl

theorem head?_joinOpeners (line text : List Char) : (joinOpeners line text).head? = text.head? := by
  cases text with
  | nil => rw [joinOpeners]
  | cons c text =>
    rw [joinOpeners]
    split
    · next hc => rw [beq_iff_eq.1 hc]; rfl
    · rfl

theorem Alternate.head?_ne (h : Alternate rs) (hhead : ∀ r ∈ rs.head?, r.isLine = true) :
    (rs.flatMap Run.text).head? ≠ some '\n' := by
  cases h with
  | nil => exact Option.some_ne_none _ ∘ Eq.symm
  | breaks => cases hhead _ rfl
  | @line text rs hne hline =>
    obtain ⟨c, text, rfl⟩ := List.exists_cons_of_ne_nil hne
    rintro h
    exact hline (Option.some.inj h ▸ List.mem_cons_self)

/-! ### One after another -/

/-- The rule for newlines between two lines does what the three substitutions do to them. -/
theorem Alternate.substitutions (h : Alternate rs) : ∀ {before : Before} {line : List Char},
    before.isStart = false → before.opens = isOpener line → (line ≠ [] → ∀ r ∈ rs.head?, r.isLine = false) →
      (Spacing.tighten before rs).flatMap Run.text =
        joinClosers (joinOpeners line (collapse (rs.flatMap Run.text))) := by
  induction h with
  | nil =>
    intros
    rw [List.flatMap_nil, collapse, joinOpeners, joinClosers]
    rfl
  | @line text rs hne hline hhead _ ih =>
    intro before line _ _ hbelow
    obtain rfl : line = [] := by
      by_contra hne
      cases hbelow hne _ rfl
    rw [Spacing.tighten, List.flatMap_cons, List.flatMap_cons, Run.text, collapse_line hline, joinOpeners_line hline,
      joinClosers_line hline, ih rfl rfl fun _ => hhead, List.nil_append]
  | @breaks count rs hcount hhead h ih =>
    intro before line hbefore hopens _
    have hback := h.head?_ne hhead
    have hcloses : closes rs = isCloser (rs.flatMap Run.text) := by rw [← closes_runs hback, h.runs_eq]
    have hkept : kept before count rs =
        if isCloser (rs.flatMap Run.text) then 1 else if isOpener line then 1 else min count 2 := by
      rw [kept_eq hbefore, limit, hcloses, hopens]
      cases isCloser (rs.flatMap Run.text) <;> cases isOpener line <;> simp <;> omega
    rw [Spacing.tighten, List.flatMap_cons, List.flatMap_cons, Run.text, Run.text, ih rfl rfl fun hne => absurd rfl hne,
      collapse_breaks hback hcount, joinOpeners_breaks (by rwa [head?_collapse]) (by omega),
      joinClosers_breaks (by rwa [head?_joinOpeners, head?_collapse]) (by split <;> omega), isCloser_joinOpeners,
      isCloser_collapse, hkept]

/-- A segment is spaced by substitutions one after another. -/
theorem normalizeSegment_substitutions (text : List Char) :
    normalizeSegment .seam ⟨text, false⟩ = joinClosers (joinOpeners [] (collapse text)) := by
  rw [normalizeSegment_plain, (alternate_runs text).substitutions rfl rfl fun hne => absurd rfl hne,
    flatMap_text_runs]

/-- In the first segment the newlines at the start are deleted after the first substitution. -/
theorem normalizeSegment_start_substitutions (text : List Char) :
    normalizeSegment .start ⟨text, false⟩ =
      joinClosers (joinOpeners [] ((collapse text).dropWhile (· == '\n'))) := by
  obtain ⟨count, back, rfl, hback⟩ := exists_breaks_append text
  rw [normalizeSegment_start, normalizeSegment_substitutions, dropWhile_breaks hback]
  cases count with
  | zero =>
    have hcollapse : (collapse back).head? ≠ some '\n' := by rwa [head?_collapse]
    rw [List.replicate_zero, List.nil_append]
    exact congrArg (joinClosers ∘ joinOpeners []) (dropWhile_breaks hcollapse 0).symm
  | succ count =>
    rw [collapse_breaks hback (Nat.succ_pos count), dropWhile_breaks (by rwa [head?_collapse])]

/-! ## Tidy texts -/

/-- A text without needless blank lines. -/
structure IsTidy (text : List Char) : Prop where
  /-- No two blank lines follow one another. -/
  single : ∀ front back, text ≠ front ++ '\n' :: '\n' :: '\n' :: back
  /-- No blank line follows a line that is an opener. -/
  afterOpener : ∀ front line back, (front = [] ∨ front.getLast? = some '\n') → '\n' ∉ line →
    text = front ++ (line ++ '\n' :: '\n' :: back) → isOpener line = false
  /-- No blank line precedes a line that starts with a closing bracket. -/
  beforeCloser : ∀ front back, text = front ++ '\n' :: '\n' :: back → isCloser back = false

/-- Where a blank line stays it may. -/
theorem blank_line_of_normalizeSegment
    (h : normalizeSegment .seam ⟨text, false⟩ = front ++ '\n' :: '\n' :: back) :
    back.head? ≠ some '\n' ∧ isOpener (lastLine front) = false ∧ isCloser back = false := by
  obtain ⟨above, n, rfl, habove⟩ := exists_append_breaks front
  obtain ⟨m, below, rfl, hbelow⟩ := exists_breaks_append back
  have htext : above ++ List.replicate n '\n' ++ '\n' :: '\n' :: (List.replicate m '\n' ++ below) =
      above ++ (List.replicate (n + 2 + m) '\n' ++ below) := by
    simp [List.replicate_add, List.append_assoc]
  have hruns := congrArg runs h
  rw [htext, runs_normalizeSegment rfl, runs_append_breaks habove (by omega) hbelow] at hruns
  have hlimit := le_limit_of_tighten_eq .seam rfl hruns
  rw [limit, closes_runs hbelow, opens_after_runs habove rfl] at hlimit
  -- more than one newline stays only where two may
  split at hlimit
  · omega
  · next hkeeps =>
    obtain ⟨hcloser, hopener⟩ := Bool.or_eq_false_iff.1 (Bool.not_eq_true _ ▸ hkeeps)
    obtain rfl : n = 0 := by omega
    obtain rfl : m = 0 := by omega
    rw [List.replicate_zero, List.append_nil]
    exact ⟨hbelow, hopener, hcloser⟩

theorem isTidy_normalizeSegment_seam (text : List Char) : IsTidy (normalizeSegment .seam ⟨text, false⟩) where
  single _ _ h := (blank_line_of_normalizeSegment h).1 rfl
  beforeCloser _ _ h := (blank_line_of_normalizeSegment h).2.2
  afterOpener front line back hfront hline h := by
    rw [← List.append_assoc] at h
    have hopener := (blank_line_of_normalizeSegment h).2.1
    rcases hfront with rfl | hfront
    · rwa [List.nil_append, lastLine_of_notMem hline] at hopener
    · obtain ⟨front, rfl⟩ := List.getLast?_eq_some_iff.1 hfront
      rwa [List.append_assoc, List.singleton_append, lastLine_append _ hline] at hopener

theorem isTidy_normalizeSegment_start (text : List Char) : IsTidy (normalizeSegment .start ⟨text, false⟩) := by
  rw [normalizeSegment_start]
  exact isTidy_normalizeSegment_seam _

theorem head?_normalizeSegment_seam (h : text.head? ≠ some '\n') :
    (normalizeSegment .seam ⟨text, false⟩).head? ≠ some '\n' := by
  rw [normalizeSegment_plain]
  exact ((alternate_runs text).tighten .seam rfl).head?_ne (isLine_head_tighten (isLine_head_runs h) .seam)

theorem head?_normalizeSegment_start (text : List Char) :
    (normalizeSegment .start ⟨text, false⟩).head? ≠ some '\n' := by
  obtain ⟨count, back, rfl, hback⟩ := exists_breaks_append text
  rw [normalizeSegment_start, dropWhile_breaks hback]
  exact head?_normalizeSegment_seam hback

/-! ### Spacing a text again -/

/-- Nothing is deleted of a spaced segment. -/
theorem normalizeSegment_seam_idem (text : List Char) :
    normalizeSegment .seam ⟨normalizeSegment .seam ⟨text, false⟩, false⟩ = normalizeSegment .seam ⟨text, false⟩ := by
  rw [normalizeSegment_plain, runs_normalizeSegment rfl, tighten_tighten _ _ rfl, ← normalizeSegment_plain]

/-- If nothing is deleted of a text, nothing is deleted of it without the newlines at its end. -/
theorem normalizeSegment_of_append_breaks (hfront : front.getLast? ≠ some '\n')
    (h : normalizeSegment .seam ⟨front ++ List.replicate count '\n', false⟩ = front ++ List.replicate count '\n') :
    normalizeSegment .seam ⟨front, false⟩ = front := by
  cases count with
  | zero => simpa using h
  | succ count =>
    have hruns : runs (front ++ List.replicate (count + 1) '\n') = runs front ++ .breaks (count + 1) :: runs [] := by
      simpa only [List.append_nil] using @runs_append_breaks front [] _ hfront (Nat.succ_pos count) (by simp)
    have hkeeps := congrArg runs h
    rw [runs_normalizeSegment rfl, hruns, tighten_append_breaks] at hkeeps
    rw [normalizeSegment_plain, List.append_inj_left' hkeeps rfl, flatMap_text_runs]

theorem normalizeLayout_plain_idem (text : List Char) :
    normalizeLayout [⟨normalizeLayout [⟨text, false⟩], false⟩] = normalizeLayout [⟨text, false⟩] := by
  have hspaced (text : List Char) : spaced [⟨text, false⟩] = normalizeSegment .start ⟨text, false⟩ := List.append_nil _
  obtain ⟨core, count, hcore, hlast⟩ := exists_append_breaks (normalizeSegment .start ⟨text, false⟩)
  have hout : normalizeLayout [⟨text, false⟩] = core ++ ['\n'] := by
    rw [normalizeLayout_eq, hspaced, hcore, dropFinalBreaks_append_breaks hlast]
  have hhead : core.head? ≠ some '\n' := by
    have hstart := head?_normalizeSegment_start text
    rw [hcore] at hstart
    cases core with
    | nil => simp
    | cons c core => exact hstart
  have hkeeps : normalizeSegment .seam ⟨core, false⟩ = core := by
    rw [normalizeSegment_start] at hcore
    have hidem := normalizeSegment_seam_idem (text.dropWhile (· == '\n'))
    rw [hcore] at hidem
    exact normalizeSegment_of_append_breaks hlast hidem
  obtain ⟨kept, hkept⟩ : ∃ kept, normalizeSegment .start ⟨core ++ ['\n'], false⟩ =
      core ++ List.replicate kept '\n' := by
    have hcut := @normalizeSegment_append_breaks core [] 1 hlast Nat.one_pos (by simp) .start
    rw [normalizeSegment_plain .start core, tighten_eq_of_head (isLine_head_runs hhead) .start .seam,
      ← normalizeSegment_plain, hkeeps] at hcut
    exact ⟨_, by simpa [normalizeSegment_plain, runs, tighten] using hcut⟩
  rw [hout, normalizeLayout_eq, hspaced, hkept, dropFinalBreaks_append_breaks hlast]

/-! ## Whole texts -/

/-- What becomes of a segment. -/
inductive Normalizes (isFirst : Bool) : Segment → List Char → Prop
  /-- A verbatim segment is not changed. -/
  | verbatim (text : List Char) : Normalizes isFirst ⟨text, true⟩ text
  /-- Of any other segment newlines are deleted, so that it is tidy. -/
  | plain {text out : List Char} : Thinned isFirst text out → IsTidy out →
      (isFirst = true → out.head? ≠ some '\n') → Normalizes isFirst ⟨text, false⟩ out

theorem normalizes_start (s : Segment) : Normalizes true s (normalizeSegment .start s) := by
  obtain ⟨text, _ | _⟩ := s
  · exact .plain (thinned_normalizeSegment .start ⟨text, false⟩) (isTidy_normalizeSegment_start text)
      fun _ => head?_normalizeSegment_start text
  · exact .verbatim text

theorem normalizes_seam (s : Segment) : Normalizes false s (normalizeSegment .seam s) := by
  obtain ⟨text, _ | _⟩ := s
  · exact .plain (thinned_normalizeSegment .seam ⟨text, false⟩) (isTidy_normalizeSegment_seam text) fun h => nomatch h
  · exact .verbatim text

theorem forall₂_normalizes_seam (segments : List Segment) : ∀ first, 0 < first →
    List.Forall₂ (fun s text => Normalizes (s.2 == 0) s.1 text) (segments.zipIdx first)
      (segments.map (normalizeSegment .seam)) := by
  induction segments with
  | nil => exact fun _ _ => .nil
  | cons s segments ih =>
    intro first hfirst
    have hlater : (first == 0) = false := beq_false_of_ne (Nat.ne_of_gt hfirst)
    exact .cons (by rw [hlater]; exact normalizes_seam s) (ih _ (Nat.succ_pos first))

/-- The text of a list of segments is made of their texts in order: of the verbatim ones as they are, and of
the others without some of their newlines, so that none of them has a blank line where none may be. The
newlines at the very end are made one. A single segment of plain text is changed only once. -/
theorem normalizeLayout_normalizes (segments : List Segment) :
    (∃ texts core count,
      List.Forall₂ (fun s text => Normalizes (s.2 == 0) s.1 text) segments.zipIdx texts ∧
      texts.flatten = core ++ List.replicate count '\n' ∧ core.getLast? ≠ some '\n' ∧
      normalizeLayout segments = core ++ ['\n']) ∧
    ∀ text, normalizeLayout [⟨normalizeLayout [⟨text, false⟩], false⟩] = normalizeLayout [⟨text, false⟩] := by
  refine ⟨?_, normalizeLayout_plain_idem⟩
  obtain ⟨texts, hspaced, hnormalizes⟩ : ∃ texts : List (List Char), spaced segments = texts.flatten ∧
      List.Forall₂ (fun s text => Normalizes (s.2 == 0) s.1 text) segments.zipIdx texts := by
    cases segments with
    | nil => exact ⟨[], rfl, .nil⟩
    | cons first rest =>
      exact ⟨normalizeSegment .start first :: rest.map (normalizeSegment .seam), by rw [spaced, List.flatten_cons,
        List.flatMap_def], .cons (normalizes_start first) (forall₂_normalizes_seam rest _ Nat.one_pos)⟩
  obtain ⟨core, count, hcore, hlast⟩ := exists_append_breaks texts.flatten
  exact ⟨texts, core, count, hnormalizes, hcore, hlast, by
    rw [normalizeLayout_eq, hspaced, hcore, dropFinalBreaks_append_breaks hlast]⟩

end Spacing

end ScriptTidy
