/-
Texts as runs. The lines of a text and the newlines between them take turns, and only one list of runs
that take turns makes up a text. So what the rules for blank lines leave of a text can be read off its
runs, and a text can be cut at newlines: what stands before them and what stands after them is spaced
for itself, and how many of them stay depends on the line before and the line after.
-/
import ScriptTidy.Proofs.Layout.Spacing

namespace ScriptTidy

namespace Spacing

variable {line text front back : List Char} {rs more : List Run} {before : Before} {count : Nat}

/-! ## Taking turns -/

/-- The run is a line. -/
def Run.isLine : Run → Bool
  | .line _ => true
  | .breaks _ => false

/-- Lines and newlines take turns, and none of them is empty. -/
inductive Alternate : List Run → Prop
  | nil : Alternate []
  | line {text : List Char} {rs : List Run} :
      text ≠ [] → '\n' ∉ text → (∀ r ∈ rs.head?, r.isLine = false) → Alternate rs → Alternate (.line text :: rs)
  | breaks {count : Nat} {rs : List Run} :
      0 < count → (∀ r ∈ rs.head?, r.isLine = true) → Alternate rs → Alternate (.breaks count :: rs)

theorem foldr_line (hne : line ≠ []) (hline : '\n' ∉ line) (hrs : ∀ r ∈ rs.head?, r.isLine = false) :
    line.foldr Run.cons rs = .line line :: rs := by
  induction line with
  | nil => exact absurd rfl hne
  | cons c line ih =>
    obtain ⟨hc, hline⟩ := not_or.1 (mt List.mem_cons.2 hline)
    have hcons (more : List Run) (h : ∀ r ∈ more.head?, r.isLine = false) : Run.cons c more = .line [c] :: more := by
      unfold Run.cons
      rw [if_neg (Ne.symm hc)]
      split
      · next text more => cases h (.line text) rfl
      · rfl
    cases line with
    | nil => exact hcons rs hrs
    | cons d line =>
      rw [List.foldr_cons, ih (List.cons_ne_nil _ _) hline, Run.cons, if_neg (Ne.symm hc)]

theorem foldr_breaks (hcount : 0 < count) (hrs : ∀ r ∈ rs.head?, r.isLine = true) :
    (List.replicate count '\n').foldr Run.cons rs = .breaks count :: rs := by
  induction count with
  | zero => omega
  | succ count ih =>
    rw [List.replicate_succ, List.foldr_cons]
    cases count with
    | zero =>
      unfold Run.cons
      rw [if_pos rfl, List.replicate_zero, List.foldr_nil]
      split
      · next count more => cases hrs (.breaks count) rfl
      · rfl
    | succ count =>
      rw [ih (by omega)]
      rfl

/-- Runs that take turns are the runs of their text. -/
theorem Alternate.runs_eq (h : Alternate rs) : runs (rs.flatMap Run.text) = rs := by
  induction h with
  | nil => rfl
  | line hne hline hhead _ ih =>
    rw [List.flatMap_cons, Run.text, runs, List.foldr_append, ← runs, ih]
    exact foldr_line hne hline hhead
  | breaks hcount hhead _ ih =>
    rw [List.flatMap_cons, Run.text, runs, List.foldr_append, ← runs, ih]
    exact foldr_breaks hcount hhead

theorem Alternate.cons (h : Alternate rs) (c : Char) : Alternate (Run.cons c rs) := by
  unfold Run.cons
  split
  case isTrue =>
    cases h with
    | nil => exact .breaks (by omega) (by simp) .nil
    | line hne hline hhead h => exact .breaks (by omega) (by simp [Run.isLine]) (.line hne hline hhead h)
    | breaks hcount hhead h => exact .breaks (by omega) hhead h
  case isFalse hc =>
    have hsingle : '\n' ∉ [c] := by simpa using Ne.symm hc
    cases h with
    | nil => exact .line (List.cons_ne_nil _ _) hsingle (by simp) .nil
    | line hne hline hhead h =>
      exact .line (List.cons_ne_nil _ _) (by simpa using not_or.2 ⟨Ne.symm hc, hline⟩) hhead h
    | breaks hcount hhead h =>
      exact .line (List.cons_ne_nil _ _) hsingle (by simp [Run.isLine]) (.breaks hcount hhead h)

/-- The runs of a text take turns. -/
theorem alternate_runs (text : List Char) : Alternate (runs text) := by
  induction text with
  | nil => exact .nil
  | cons c text ih => exact ih.cons c

/-! ## Cutting a text -/

theorem Run.cons_ne_nil (c : Char) (rs : List Run) : Run.cons c rs ≠ [] := by
  intro h
  have htext := flatMap_text_cons c rs
  rw [h] at htext
  cases htext

theorem Run.cons_append (c : Char) (h : rs ≠ []) : Run.cons c (rs ++ more) = Run.cons c rs ++ more := by
  obtain ⟨r, rs, rfl⟩ := List.exists_cons_of_ne_nil h
  unfold Run.cons
  split
  · cases r <;> rfl
  · cases r <;> rfl

theorem foldr_cons_append (h : rs ≠ []) (text : List Char) :
    text.foldr Run.cons (rs ++ more) = text.foldr Run.cons rs ++ more := by
  induction text with
  | nil => rfl
  | cons c text ih =>
    have hne : text.foldr Run.cons rs ≠ [] := by
      cases text with
      | nil => exact h
      | cons c text => exact Run.cons_ne_nil _ _
    rw [List.foldr_cons, List.foldr_cons, ih, Run.cons_append c hne]

theorem isLine_head_runs (hback : back.head? ≠ some '\n') : ∀ r ∈ (runs back).head?, r.isLine = true := by
  cases back with
  | nil => exact fun r hr => nomatch hr
  | cons c back =>
    have hc : c ≠ '\n' := fun h => hback (congrArg some h)
    rw [runs, List.foldr_cons, ← runs]
    unfold Run.cons
    rw [if_neg hc]
    split
    · exact fun r hr => Option.some.inj hr ▸ rfl
    · exact fun r hr => Option.some.inj hr ▸ rfl

theorem exists_runs_newline (text : List Char) : ∃ count rest, runs ('\n' :: text) = .breaks (count + 1) :: rest := by
  rw [runs, List.foldr_cons, ← runs]
  rcases runs text with _ | ⟨_ | _, rest⟩
  · exact ⟨0, [], rfl⟩
  · exact ⟨0, _, rfl⟩
  · exact ⟨_, rest, rfl⟩

theorem isLine_head_runs_newline (text : List Char) : ∀ r ∈ (runs ('\n' :: text)).head?, r.isLine = false := by
  obtain ⟨count, rest, hruns⟩ := exists_runs_newline text
  rw [hruns]
  exact fun r hr => Option.some.inj hr ▸ rfl

/-- Newlines between a text that does not end in one and a text that does not begin with one are a run. -/
theorem runs_append_breaks (hfront : front.getLast? ≠ some '\n') (hcount : 0 < count)
    (hback : back.head? ≠ some '\n') :
    runs (front ++ (List.replicate count '\n' ++ back)) = runs front ++ .breaks count :: runs back := by
  rw [runs, List.foldr_append, List.foldr_append, ← runs, foldr_breaks hcount (isLine_head_runs hback)]
  rcases List.eq_nil_or_concat front with rfl | ⟨front, c, rfl⟩
  · rfl
  · rw [List.concat_eq_append] at hfront ⊢
    have hc : c ≠ '\n' := fun h => hfront (by rw [h, List.getLast?_append]; rfl)
    have hline : Run.cons c (.breaks count :: runs back) = [.line [c]] ++ .breaks count :: runs back := if_neg hc
    have hlast : Run.cons c [] = [.line [c]] := if_neg hc
    have hfront : runs (front ++ [c]) = front.foldr Run.cons [.line [c]] := by
      rw [runs, List.foldr_append, List.foldr_cons, List.foldr_nil, hlast]
    rw [hfront, List.foldr_append, List.foldr_cons, List.foldr_nil, hline, foldr_cons_append (List.cons_ne_nil _ _)]

theorem runs_line (hne : line ≠ []) (hline : '\n' ∉ line) : runs line = [.line line] :=
  foldr_line hne hline (by simp)

/-- Every text is one that does not end in a newline, and newlines. -/
theorem exists_append_breaks (text : List Char) :
    ∃ front count, text = front ++ List.replicate count '\n' ∧ front.getLast? ≠ some '\n' := by
  induction text using List.reverseRecOn with
  | nil => exact ⟨[], 0, rfl, by simp⟩
  | append_singleton text c ih =>
    by_cases hc : c = '\n'
    · obtain ⟨front, count, rfl, hfront⟩ := ih
      exact ⟨front, count + 1, by rw [hc, List.append_assoc, List.replicate_succ'], hfront⟩
    · exact ⟨text ++ [c], 0, by simp, by simpa using hc⟩

/-- Every text is newlines, and a text that does not begin with one. -/
theorem exists_breaks_append (text : List Char) :
    ∃ count back, text = List.replicate count '\n' ++ back ∧ back.head? ≠ some '\n' := by
  induction text with
  | nil => exact ⟨0, [], rfl, by simp⟩
  | cons c text ih =>
    by_cases hc : c = '\n'
    · obtain ⟨count, back, rfl, hback⟩ := ih
      exact ⟨count + 1, back, by rw [hc, List.replicate_succ, List.cons_append], hback⟩
    · exact ⟨0, c :: text, rfl, by simpa using hc⟩

theorem takeWhile_breaks (hback : back.head? ≠ some '\n') (count : Nat) :
    (List.replicate count '\n' ++ back).takeWhile (· == '\n') = List.replicate count '\n' := by
  rw [List.takeWhile_append_of_pos fun c hc => by simp [List.eq_of_mem_replicate hc]]
  cases back with
  | nil => simp
  | cons c back => rw [List.takeWhile_cons_of_neg (by simpa using hback), List.append_nil]

theorem dropWhile_breaks (hback : back.head? ≠ some '\n') (count : Nat) :
    (List.replicate count '\n' ++ back).dropWhile (· == '\n') = back := by
  rw [List.dropWhile_append_of_pos fun c hc => by simp [List.eq_of_mem_replicate hc]]
  cases back with
  | nil => rfl
  | cons c back => exact List.dropWhile_cons_of_neg (by simpa using hback)

/-! ### The end of a text -/

theorem dropFinalBreaks_append_breaks (hfront : front.getLast? ≠ some '\n') (count : Nat) :
    dropFinalBreaks (front ++ List.replicate count '\n') = front := by
  induction count with
  | zero =>
    rcases List.eq_nil_or_concat front with rfl | ⟨front, c, rfl⟩
    · rfl
    · rw [List.concat_eq_append] at hfront ⊢
      rw [List.replicate_zero, List.append_nil, dropFinalBreaks_concat, if_neg (by simpa using hfront)]
  | succ count ih => rw [List.replicate_succ', ← List.append_assoc, dropFinalBreaks_concat, if_pos (by rfl), ih]

theorem dropFinalBreaks_eq_self (h : text.getLast? ≠ some '\n') : dropFinalBreaks text = text := by
  simpa using dropFinalBreaks_append_breaks h 0

theorem dropFinalBreaks_append (front back : List Char) : dropFinalBreaks (front ++ back) =
    if dropFinalBreaks back = [] then dropFinalBreaks front else front ++ dropFinalBreaks back := by
  unfold dropFinalBreaks
  rw [List.reverse_append, List.dropWhile_append]
  simp only [List.isEmpty_iff, List.reverse_eq_nil_iff]
  split
  · rfl
  · rw [List.reverse_append, List.reverse_reverse]

/-- Of newlines that something follows none is dropped. -/
theorem dropFinalBreaks_append_breaks_append (h : dropFinalBreaks back ≠ []) (front : List Char) (count : Nat) :
    dropFinalBreaks (front ++ (List.replicate count '\n' ++ back)) =
      front ++ (List.replicate count '\n' ++ dropFinalBreaks back) := by
  have hbreaks : dropFinalBreaks (List.replicate count '\n' ++ back) =
      List.replicate count '\n' ++ dropFinalBreaks back := by
    rw [dropFinalBreaks_append, if_neg h]
  rw [dropFinalBreaks_append, hbreaks, if_neg fun hnil => h (List.append_eq_nil_iff.1 hnil).2]

theorem inked_dropFinalBreaks (text : List Char) : inked (dropFinalBreaks text) = inked text := by
  obtain ⟨front, count, rfl, hfront⟩ := exists_append_breaks text
  have hbreaks : inked (List.replicate count '\n') = [] :=
    List.filter_eq_nil_iff.2 fun c hc => by simp [List.eq_of_mem_replicate hc]
  rw [dropFinalBreaks_append_breaks hfront, inked_append, hbreaks, List.append_nil]

/-! ## How many newlines stay -/

/-- The runs begin with a line that starts with a closing bracket. -/
def closes : List Run → Bool
  | .line text :: _ => isCloser text
  | _ => false

/-- What stands before the text is a line that is an opener. -/
def Before.opens : Before → Bool
  | .line text => isOpener text
  | _ => false

/-- What stands before a text that follows the runs. -/
def Before.after : Before → List Run → Before
  | before, [] => before
  | _, .line text :: rs => (Before.line text).after rs
  | _, .breaks _ :: rs => Before.seam.after rs

/-- The number of newlines that may stay between two lines. -/
def limit (before : Before) (after : List Run) : Nat := if closes after || before.opens then 1 else 2

theorem kept_eq (h : before.isStart = false) (count : Nat) (after : List Run) :
    kept before count after = min count (limit before after) := by
  cases before with
  | start => cases h
  | seam =>
    unfold limit Before.opens
    rw [Bool.or_false]
    rfl
  | line text => rfl

theorem Before.after_append (before : Before) (rs more : List Run) :
    before.after (rs ++ more) = (before.after rs).after more := by
  induction rs generalizing before with
  | nil => rfl
  | cons r rs ih => cases r <;> exact ih _

theorem closes_tighten (before : Before) (rs : List Run) : closes (tighten before rs) = closes rs := by
  rcases rs with _ | ⟨_ | _, rs⟩ <;> rfl

theorem limit_tighten (before before' : Before) (rs : List Run) :
    limit before (tighten before' rs) = limit before rs := by
  rw [limit, closes_tighten, limit]

theorem isLine_head_tighten {b : Bool} (h : ∀ r ∈ rs.head?, r.isLine = b) (before : Before) :
    ∀ r ∈ (tighten before rs).head?, r.isLine = b := by
  rcases rs with _ | ⟨_ | count, rs⟩
  · exact h
  · exact h
  · intro r hr
    rw [← Option.some.inj hr]
    exact h (.breaks count) rfl

/-- What follows a line or another segment loses no run of newlines as a whole. -/
theorem Alternate.tighten (h : Alternate rs) : ∀ before : Before, before.isStart = false →
    Alternate (tighten before rs) := by
  induction h with
  | nil => exact fun _ _ => .nil
  | line hne hline hhead _ ih => exact fun _ _ => .line hne hline (isLine_head_tighten hhead _) (ih _ rfl)
  | breaks hcount hhead _ ih =>
    exact fun _ hbefore => .breaks (kept_pos hbefore hcount _) (isLine_head_tighten hhead _) (ih _ rfl)

/-- Of tightened runs nothing is deleted. -/
theorem tighten_tighten (rs : List Run) : ∀ before : Before, before.isStart = false →
    tighten before (tighten before rs) = tighten before rs := by
  induction rs with
  | nil => exact fun _ _ => rfl
  | cons r rs ih =>
    intro before hbefore
    cases r with
    | line text => exact congrArg (.line text :: ·) (ih (.line text) rfl)
    | breaks count =>
      have hkept : kept before (kept before count rs) (tighten .seam rs) = kept before count rs := by
        rw [kept_eq hbefore, kept_eq hbefore, limit_tighten, Nat.min_assoc, Nat.min_self]
      rw [tighten, tighten, hkept, ih .seam rfl]

/-- In tightened runs no more newlines stand than may. -/
theorem le_limit_of_tighten_eq : ∀ {rs xs ys : List Run} (before : Before), before.isStart = false →
    tighten before rs = xs ++ .breaks count :: ys → count ≤ limit (before.after xs) ys
  | [], xs, ys, before, _, h => by
    simp [tighten] at h
  | .line text :: rs, xs, ys, before, hbefore, h => by
    rw [tighten] at h
    rcases xs with _ | ⟨r, xs⟩
    · cases h
    · obtain ⟨rfl, hrest⟩ := List.cons.inj h
      exact le_limit_of_tighten_eq (.line text) rfl hrest
  | .breaks n :: rs, xs, ys, before, hbefore, h => by
    rw [tighten] at h
    rcases xs with _ | ⟨r, xs⟩
    · obtain ⟨hcount, rfl⟩ := List.cons.inj h
      obtain rfl := Run.breaks.inj hcount
      rw [limit_tighten, kept_eq hbefore]
      exact Nat.min_le_right ..
    · obtain ⟨rfl, hrest⟩ := List.cons.inj h
      exact le_limit_of_tighten_eq .seam rfl hrest

/-- Newlines are spaced for themselves, and so is what stands before them and what stands after them. -/
theorem tighten_append_breaks (rs : List Run) (before : Before) (count : Nat) (more : List Run) :
    tighten before (rs ++ .breaks count :: more) =
      tighten before rs ++ .breaks (kept (before.after rs) count more) :: tighten .seam more := by
  induction rs generalizing before with
  | nil => rfl
  | cons r rs ih =>
    cases r with
    | line text => rw [List.cons_append, tighten, ih, tighten, List.cons_append, Before.after]
    | breaks n =>
      have hkept : kept before n (rs ++ .breaks count :: more) = kept before n rs := by
        rcases rs with _ | ⟨_ | _, rs⟩ <;> rfl
      rw [List.cons_append, tighten, ih, hkept, tighten, List.cons_append, Before.after]

/-- What stands before a text only matters to newlines at its start. -/
theorem tighten_eq_of_head (h : ∀ r ∈ rs.head?, r.isLine = true) (before before' : Before) :
    tighten before rs = tighten before' rs := by
  rcases rs with _ | ⟨_ | count, rs⟩
  · rfl
  · rfl
  · cases h (.breaks count) rfl

/-! ## Segments -/

theorem normalizeSegment_plain (before : Before) (text : List Char) :
    normalizeSegment before ⟨text, false⟩ = (tighten before (runs text)).flatMap Run.text := rfl

theorem runs_normalizeSegment (hbefore : before.isStart = false) (text : List Char) :
    runs (normalizeSegment before ⟨text, false⟩) = tighten before (runs text) :=
  ((alternate_runs text).tighten _ hbefore).runs_eq

/-- At the start of the whole text the newlines are deleted. -/
theorem normalizeSegment_start (text : List Char) :
    normalizeSegment .start ⟨text, false⟩ = normalizeSegment .seam ⟨text.dropWhile (· == '\n'), false⟩ := by
  obtain ⟨count, back, rfl, hback⟩ := exists_breaks_append text
  rw [dropWhile_breaks hback, normalizeSegment_plain, normalizeSegment_plain]
  cases count with
  | zero => rw [List.replicate_zero, List.nil_append, tighten_eq_of_head (isLine_head_runs hback) .start .seam]
  | succ count =>
    have hruns : runs (List.replicate (count + 1) '\n' ++ back) = .breaks (count + 1) :: runs back :=
      @runs_append_breaks [] back (count + 1) (by simp) (by omega) hback
    rw [hruns]
    rfl

/-- A segment is cut at newlines between two lines. -/
theorem normalizeSegment_append_breaks (hfront : front.getLast? ≠ some '\n') (hcount : 0 < count)
    (hback : back.head? ≠ some '\n') (before : Before) :
    normalizeSegment before ⟨front ++ (List.replicate count '\n' ++ back), false⟩ =
      normalizeSegment before ⟨front, false⟩ ++
        (List.replicate (kept (before.after (runs front)) count (runs back)) '\n' ++
          normalizeSegment .seam ⟨back, false⟩) := by
  simp only [normalizeSegment_plain]
  rw [runs_append_breaks hfront hcount hback, tighten_append_breaks, List.flatMap_append, List.flatMap_cons]
  rfl

/-! ### The lines around newlines -/

/-- What stands on the last line of a text. -/
def lastLine (text : List Char) : List Char := text.rtakeWhile (· != '\n')

theorem lastLine_append (front : List Char) (hline : '\n' ∉ line) :
    lastLine (front ++ '\n' :: line) = line := by
  induction line using List.reverseRecOn with
  | nil => exact List.rtakeWhile_concat_neg _ _ _ (by decide)
  | append_singleton line c ih =>
    obtain ⟨hline, hc⟩ := not_or.1 (mt List.mem_append.2 hline)
    have hc : c ≠ '\n' := fun h => hc (by simp [h])
    rw [← List.cons_append, ← List.append_assoc, lastLine, List.rtakeWhile_concat_pos _ _ _ (by simpa using hc),
      ← lastLine, ih hline]

theorem lastLine_of_notMem (hline : '\n' ∉ line) : lastLine line = line := by
  refine List.rtakeWhile_eq_self_iff.2 fun c hc => ?_
  have hne : c ≠ '\n' := fun h => hline (h ▸ hc)
  simpa using hne

/-- Every text is its first line, and what follows it. -/
theorem exists_line_append (text : List Char) :
    ∃ line rest, text = line ++ rest ∧ '\n' ∉ line ∧ ∀ c ∈ rest.head?, c = '\n' := by
  induction text with
  | nil => exact ⟨[], [], rfl, List.not_mem_nil, by simp⟩
  | cons c text ih =>
    by_cases hc : c = '\n'
    · exact ⟨[], c :: text, rfl, List.not_mem_nil, by simpa using hc⟩
    · obtain ⟨line, rest, rfl, hline, hrest⟩ := ih
      exact ⟨c :: line, rest, rfl, by simpa using not_or.2 ⟨Ne.symm hc, hline⟩, hrest⟩

theorem closes_runs (hback : back.head? ≠ some '\n') : closes (runs back) = isCloser back := by
  obtain ⟨line, rest, rfl, hline, hrest⟩ := exists_line_append back
  cases line with
  | nil =>
    cases rest with
    | nil => rfl
    | cons c rest => exact absurd (congrArg some (hrest c rfl)) hback
  | cons d line =>
    have hruns : ∀ r ∈ (runs rest).head?, r.isLine = false := by
      cases rest with
      | nil => simp [runs]
      | cons c rest =>
        obtain rfl := hrest c rfl
        exact isLine_head_runs_newline rest
    rw [runs, List.foldr_append, ← runs, foldr_line (List.cons_ne_nil _ _) hline hruns]
    -- what follows the line is not looked at, even if the line is blank
    unfold closes isCloser
    dsimp only
    rw [List.dropWhile_append]
    cases hblank : (d :: line).dropWhile isSpace with
    | nil =>
      cases rest with
      | nil => rfl
      | cons c rest =>
        obtain rfl := hrest c rfl
        rfl
    | cons c blank => rfl

/-- A text with a newline is what stands above its last newlines, and a line after them. -/
theorem exists_last_line (h : '\n' ∈ text) : ∃ above count line,
    text = above ++ (List.replicate (count + 1) '\n' ++ line) ∧ above.getLast? ≠ some '\n' ∧ '\n' ∉ line := by
  induction text using List.reverseRecOn with
  | nil => cases h
  | append_singleton text c ih =>
    by_cases hc : c = '\n'
    · obtain ⟨above, count, rfl, habove⟩ := exists_append_breaks text
      exact ⟨above, count, [], by rw [hc, List.append_assoc, List.replicate_succ', List.append_nil], habove, by simp⟩
    · have htext : '\n' ∈ text := (List.mem_append.1 h).resolve_right (by simpa using Ne.symm hc)
      obtain ⟨above, count, line, rfl, habove, hline⟩ := ih htext
      refine ⟨above, count, line ++ [c], by simp only [List.append_assoc], habove, ?_⟩
      simpa [hline] using Ne.symm hc

/-- Of a text before newlines only the last line matters to them. -/
theorem opens_after_runs (hfront : front.getLast? ≠ some '\n') (hbefore : before.opens = false) :
    (before.after (runs front)).opens = isOpener (lastLine front) := by
  by_cases hmem : '\n' ∈ front
  · obtain ⟨above, count, line, rfl, habove, hline⟩ := exists_last_line hmem
    have hne : line ≠ [] := by
      rintro rfl
      refine hfront ?_
      rw [List.append_nil, List.replicate_succ', ← List.append_assoc, List.getLast?_append]
      rfl
    have hhead : line.head? ≠ some '\n' := fun h => hline (List.mem_of_head? h)
    rw [runs_append_breaks habove (Nat.succ_pos count) hhead, runs_line hne hline, Before.after_append,
      List.replicate_succ', List.append_assoc, List.singleton_append, ← List.append_assoc, lastLine_append _ hline]
    rfl
  · rw [lastLine_of_notMem hmem]
    cases front with
    | nil => exact hbefore
    | cons c front =>
      rw [runs_line (List.cons_ne_nil _ _) hmem]
      rfl

end Spacing

end ScriptTidy
