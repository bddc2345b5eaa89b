/-
What the rules for blank lines do to a text. They delete newlines and nothing else, and a newline
goes only where a line begins: at the start of the text or after another newline. So a line that is
followed by a newline keeps one, and what stands on a line begins a line also afterwards.
-/
import ScriptTidy.Layout.Spacing
import Mathlib.Data.List.DropRight

namespace ScriptTidy

namespace Spacing

/-! ## Deleting newlines -/

/-- The second text is the first one without some of its newlines, each of which stands where a line
begins. Whether a line begins in front of the text has to be told. -/
inductive Thinned : Bool → List Char → List Char → Prop
  | nil {begins : Bool} : Thinned begins [] []
  | keep {begins : Bool} {c : Char} {text out : List Char} :
      Thinned (c == '\n') text out → Thinned begins (c :: text) (c :: out)
  | drop {text out : List Char} : Thinned true text out → Thinned true ('\n' :: text) out

/-- The characters of a text apart from its newlines. -/
def inked (text : List Char) : List Char := text.filter (· != '\n')

@[simp] theorem inked_append (a b : List Char) : inked (a ++ b) = inked a ++ inked b := List.filter_append ..

@[simp] theorem inked_newline (a : List Char) : inked ('\n' :: a) = inked a := rfl

namespace Thinned

variable {begins : Bool} {text out : List Char}

theorem refl (begins : Bool) (text : List Char) : Thinned begins text text := by
  induction text generalizing begins with
  | nil => exact .nil
  | cons c text ih => exact .keep (ih _)

/-- Where a line begins more may be deleted. -/
theorem of_false (h : Thinned false text out) : Thinned begins text out := by
  cases h with
  | nil => exact .nil
  | keep h => exact .keep h

theorem append {more rest : List Char} (h : Thinned begins text out) (hmore : Thinned false more rest) :
    Thinned begins (text ++ more) (out ++ rest) := by
  induction h with
  | nil => exact hmore.of_false
  | keep _ ih => exact .keep ih
  | drop _ ih => exact .drop ih

theorem eq_nil (h : Thinned begins [] out) : out = [] := by
  cases h
  rfl

theorem inked_eq (h : Thinned begins text out) : inked out = inked text := by
  induction h with
  | nil => rfl
  | keep _ ih => rw [inked, inked, List.filter_cons, List.filter_cons, ← inked, ← inked, ih]
  | drop _ ih => exact ih

/-- Some newlines are left of a run of newlines after a line. -/
theorem replicate {kept count : Nat} (hle : kept ≤ count) (hkept : begins = false → 0 < count → 0 < kept)
    (h : Thinned false text out) :
    Thinned begins (List.replicate count '\n' ++ text) (List.replicate kept '\n' ++ out) := by
  induction count generalizing begins kept with
  | zero =>
    obtain rfl : kept = 0 := by omega
    exact h.of_false
  | succ count ih =>
    cases kept with
    | zero =>
      cases begins with
      | false => exact absurd (hkept rfl (Nat.succ_pos _)) (Nat.lt_irrefl 0)
      | true => exact .drop (ih (Nat.zero_le _) (fun hf => nomatch hf))
    | succ kept => exact .keep (ih (by omega) (fun hf => nomatch hf))

/-! ### Taking a text apart -/

/-- What stands after a newline begins a line. -/
theorem after_newline {before after : List Char} : ∀ {begins : Bool} {out : List Char},
    Thinned begins (before ++ '\n' :: after) out → ∃ front rest, out = front ++ rest ∧
      (front = [] ∧ begins = true ∨ front.getLast? = some '\n') ∧ inked front = inked before ∧
      Thinned true after rest := by
  induction before with
  | nil =>
    intro begins out h
    cases h with
    | keep h => exact ⟨['\n'], _, rfl, .inr rfl, rfl, h⟩
    | drop h => exact ⟨[], out, rfl, .inl ⟨rfl, rfl⟩, rfl, h⟩
  | cons c before ih =>
    intro begins out h
    cases h with
    | keep h =>
      obtain ⟨front, rest, rfl, hfront, hink, hrest⟩ := ih h
      refine ⟨c :: front, rest, rfl, .inr ?_, ?_, hrest⟩
      · rcases hfront with ⟨rfl, hc⟩ | hlast
        · rw [List.getLast?_singleton, beq_iff_eq.1 hc]
        · rw [List.getLast?_cons, hlast]
          rfl
      · rw [inked, inked, List.filter_cons, List.filter_cons, ← inked, ← inked, hink]
    | drop h => exact ih h

/-- A text without newlines stays as it is. -/
theorem unbroken {line after : List Char} (hline : '\n' ∉ line) : ∀ {begins : Bool} {out : List Char},
    Thinned begins (line ++ after) out → ∃ rest, out = line ++ rest ∧ Thinned (line.isEmpty && begins) after rest := by
  induction line with
  | nil => exact fun h => ⟨_, rfl, h⟩
  | cons c line ih =>
    intro begins out h
    obtain ⟨hc, hline⟩ := not_or.1 (mt List.mem_cons.2 hline)
    cases h with
    | drop _ => exact absurd rfl hc
    | keep h =>
      rw [beq_false_of_ne (Ne.symm hc)] at h
      obtain ⟨rest, rfl, hrest⟩ := ih hline h
      refine ⟨rest, rfl, ?_⟩
      rwa [Bool.and_false] at hrest

end Thinned

/-! ## Segments -/

theorem flatMap_text_cons (c : Char) (rest : List Run) :
    (Run.cons c rest).flatMap Run.text = c :: rest.flatMap Run.text := by
  unfold Run.cons
  split
  case isTrue hc =>
    subst hc
    split
    · rfl
    · rfl
  case isFalse =>
    split
    · rfl
    · rfl

/-- The runs of a text make up the text. -/
theorem flatMap_text_runs (text : List Char) : (runs text).flatMap Run.text = text := by
  induction text with
  | nil => rfl
  | cons c text ih => rw [runs, List.foldr_cons, flatMap_text_cons, ← runs, ih]

/-- Nothing of the text stands before its runs. -/
def Before.isStart : Before → Bool
  | start => true
  | _ => false

theorem kept_le (before : Before) (count : Nat) (after : List Run) : kept before count after ≤ count := by
  cases before with
  | start => exact Nat.zero_le _
  | seam => exact Nat.min_le_left ..
  | line text => exact Nat.min_le_left ..

theorem kept_pos {before : Before} {count : Nat} (hbefore : before.isStart = false) (hcount : 0 < count)
    (after : List Run) : 0 < kept before count after := by
  have hmost (tight : Bool) : 0 < if tight then 1 else 2 := by cases tight <;> decide
  cases before with
  | start => cases hbefore
  | seam => exact Nat.lt_min.2 ⟨hcount, hmost _⟩
  | line text => exact Nat.lt_min.2 ⟨hcount, hmost _⟩

theorem thinned_tighten (rs : List Run) : ∀ before : Before,
    Thinned before.isStart (rs.flatMap Run.text) ((tighten before rs).flatMap Run.text) := by
  induction rs with
  | nil => exact fun _ => .nil
  | cons r rs ih =>
    intro before
    cases r with
    | line text =>
      simp only [tighten, List.flatMap_cons, Run.text]
      exact (Thinned.refl _ text).append (ih (.line text))
    | breaks count =>
      simp only [tighten, List.flatMap_cons, Run.text]
      exact .replicate (kept_le ..) (fun hbefore hcount => kept_pos hbefore hcount rs) (ih .seam)

theorem thinned_normalizeSegment (before : Before) (s : Segment) :
    Thinned before.isStart s.text (normalizeSegment before s) := by
  unfold normalizeSegment
  split
  · exact .refl ..
  · have h := thinned_tighten (runs s.text) before
    rwa [flatMap_text_runs] at h

/-! ## Whole texts -/

/-- The text of segments, before its end is made a single newline. -/
def spaced : List Segment → List Char
  | [] => []
  | first :: rest => normalizeSegment .start first ++ rest.flatMap (normalizeSegment .seam)

theorem normalizeLayout_eq (segments : List Segment) :
    normalizeLayout segments = dropFinalBreaks (spaced segments) ++ ['\n'] := by
  cases segments <;> rfl

/-- A verbatim segment is kept as it is, wherever it stands. -/
theorem spaced_append_cons {v : Segment} (hv : v.isVerbatim = true) (a b : List Segment) :
    spaced (a ++ v :: b) = spaced a ++ (v.text ++ b.flatMap (normalizeSegment .seam)) := by
  have hkept (before : Before) : normalizeSegment before v = v.text := if_pos hv
  cases a with
  | nil => exact congrArg (· ++ _) (hkept .start)
  | cons first rest =>
    rw [List.cons_append, spaced, spaced, List.flatMap_append, List.flatMap_cons, hkept, List.append_assoc]

theorem thinned_seam (segments : List Segment) :
    Thinned false (segments.flatMap Segment.text) (segments.flatMap (normalizeSegment .seam)) := by
  induction segments with
  | nil => exact .nil
  | cons s segments ih => exact (thinned_normalizeSegment .seam s).append ih

theorem thinned_spaced (segments : List Segment) :
    Thinned true (segments.flatMap Segment.text) (spaced segments) := by
  cases segments with
  | nil => exact .nil
  | cons first rest => exact (thinned_normalizeSegment .start first).append (thinned_seam rest)

/-! ## The end of the text -/

theorem dropFinalBreaks_concat (text : List Char) (c : Char) :
    dropFinalBreaks (text ++ [c]) = if c == '\n' then dropFinalBreaks text else text ++ [c] :=
  List.rdropWhile_concat ..

/-- A line stays in front of a newline at the end of the text. -/
theorem exists_dropFinalBreaks {line : List Char} {c : Char} (hline : line.getLast? = some c) (hc : c ≠ '\n')
    (after : List Char) :
    ∃ rest, dropFinalBreaks (line ++ '\n' :: after) ++ ['\n'] = line ++ '\n' :: rest ∧ inked rest = inked after := by
  -- newlines are dropped from the end, and the line ends in something else
  induction after using List.reverseRecOn with
  | nil =>
    obtain ⟨front, rfl⟩ := List.getLast?_eq_some_iff.1 hline
    refine ⟨[], ?_, rfl⟩
    rw [dropFinalBreaks_concat, if_pos (beq_self_eq_true _), dropFinalBreaks_concat, if_neg (by simpa using hc)]
  | append_singleton after last ih =>
    rw [← List.cons_append, ← List.append_assoc, dropFinalBreaks_concat]
    split
    case isTrue hlast =>
      obtain ⟨rest, hrest, hink⟩ := ih
      refine ⟨rest, hrest, ?_⟩
      rw [hink, inked_append, beq_iff_eq.1 hlast]
      exact (List.append_nil _).symm
    case isFalse =>
      refine ⟨after ++ [last] ++ ['\n'], ?_, ?_⟩
      · simp only [List.append_assoc, List.cons_append]
      · rw [inked_append]
        exact List.append_nil _

end Spacing

end ScriptTidy
