/-
Texts of digits. A text that consists of ASCII digits reads as the integer that they spell, unless
there are too many of them, and that is the only way in which finding the number of a standard form
can fail. A number that is found is never a NaN.
-/
import Mathlib.Data.List.Basic
import ScriptTidy.Number.Canonical
import ScriptTidy.Proofs.Lists

namespace ScriptTidy

namespace Numeral

/-- An ASCII digit. -/
def IsAsciiDigit (c : Char) : Prop := '0' ≤ c ∧ c ≤ '9'

theorem IsAsciiDigit.toNat {c : Char} (h : IsAsciiDigit c) : 48 ≤ c.toNat ∧ c.toNat ≤ 57 := h

variable {s : List Char}

/-! ## Reading digits -/

theorem normalize_eq_self (h : ∀ c ∈ s, c.toNat < 0x80) : normalize s = s := by
  unfold normalize
  rw [List.map_congr_left fun c hc => if_pos (h c hc), List.map_id']

theorem isSpace_eq_false {c : Char} (h : 0x20 < c.toNat) : isSpace c = false := by
  have hspace : c ≠ ' ' := by
    rintro rfl
    exact absurd h (by decide)
  simp only [isSpace, Bool.or_eq_false_iff, Bool.and_eq_false_iff, decide_eq_false_iff_not, beq_eq_false_iff_ne]
  exact ⟨.inr (by omega), hspace⟩

theorem dropWhile_isSpace (h : ∀ c ∈ s, isSpace c = false) : s.dropWhile isSpace = s := by
  cases s with
  | nil => rfl
  | cons c s => exact List.dropWhile_cons_of_neg (by rw [h c (List.mem_cons_self ..)]; decide)

/-- A text in ASCII without blanks is read as it is. -/
theorem bare_eq_self (h : ∀ c ∈ s, c.toNat < 0x80 ∧ isSpace c = false) : bare s = s := by
  have hreverse : ∀ c ∈ s.reverse, isSpace c = false := fun c hc => (h c (List.mem_reverse.1 hc)).2
  rw [bare, normalize_eq_self fun c hc => (h c hc).1, dropWhile_isSpace fun c hc => (h c hc).2,
    dropWhile_isSpace hreverse, List.reverse_reverse]

theorem IsAsciiDigit.plain {c : Char} (h : IsAsciiDigit c) : c.toNat < 0x80 ∧ isSpace c = false :=
  ⟨Nat.lt_of_le_of_lt h.toNat.2 (by decide), isSpace_eq_false (Nat.lt_of_lt_of_le (by decide) h.toNat.1)⟩

/-- A text that starts with a digit has no sign. -/
theorem sign_cons {c : Char} (h : IsAsciiDigit c) : sign (c :: s) = (false, c :: s) := by
  unfold sign
  split
  · next hcons => exact absurd ((List.cons.inj hcons).1 ▸ h).1 (by decide)
  · next hcons => exact absurd ((List.cons.inj hcons).1 ▸ h).1 (by decide)
  · rfl

theorem digitValue?_eq {c : Char} (h : IsAsciiDigit c) : digitValue? c = some (c.toNat - 48) := by
  have hn := h.toNat
  simp [digitValue?, hn.1, hn.2]

theorem digits?_cons {base d : Nat} {c : Char} {after : Bool} (hc : digitValue? c = some d) (hd : d < base) :
    digits? base after (c :: s) = (digits? base true s).map (d :: ·) := by
  rw [digits?]
  · simp only [hc, if_pos hd]
  · rintro rfl
    cases hc

theorem digits?_eq {after : Bool} (h : ∀ c ∈ s, IsAsciiDigit c) (hafter : after ∨ s ≠ []) :
    digits? 10 after s = some (s.map fun c => c.toNat - 48) := by
  induction s generalizing after with
  | nil =>
    rcases hafter with rfl | hne
    · rfl
    · exact absurd rfl hne
  | cons c s ih =>
    have hc := h c (List.mem_cons_self ..)
    have hlt : c.toNat - 48 < 10 := by
      have := hc.toNat
      omega
    rw [digits?_cons (digitValue?_eq hc) hlt, ih (fun d hd => h d (List.mem_cons_of_mem _ hd)) (.inl rfl),
      Option.map_some, List.map_cons]

theorem ofDigits_map (s : List Char) : ofDigits 10 (s.map fun c => c.toNat - 48) = ofRun s := List.foldl_map ..

/-- Digits read as the integer that they spell, unless there are too many of them. -/
theorem integer_eq (h : ∀ c ∈ s, IsAsciiDigit c) (hne : s ≠ []) :
    integer s = if s.length ≤ maxDecimalDigits then .ok (ofRun s : Int) else .error (.tooManyDigits s.length) := by
  obtain ⟨c, rest, rfl⟩ := List.exists_cons_of_ne_nil hne
  unfold integer
  rw [bare_eq_self fun c hc => (h c hc).plain, sign_cons (h c (List.mem_cons_self ..))]
  simp only [decimal, digits?_eq h (.inr hne), List.length_map, ofDigits_map]
  split <;> rfl

theorem integer_eq_error_iff (h : ∀ c ∈ s, IsAsciiDigit c) (hne : s ≠ []) {fault : NumeralFault} :
    integer s = .error fault ↔ maxDecimalDigits < s.length ∧ fault = .tooManyDigits s.length := by
  rw [integer_eq h hne]
  split
  case isTrue hle => simp [Nat.not_lt.2 hle]
  case isFalse hlt => simp [Nat.lt_of_not_le hlt, eq_comm]

end Numeral

open Numeral Canonical

/-! ## Standard forms -/

theorem isAsciiDigit_of_isWhole {s : List Char} (h : isWhole s) : s ≠ [] ∧ ∀ c ∈ s, IsAsciiDigit c := by
  unfold isWhole at h
  split at h
  · exact ⟨by simp, by simp [IsAsciiDigit]⟩
  · simp only [Bool.and_eq_true, decide_eq_true_eq, List.all_eq_true] at h
    obtain ⟨⟨hlow, hhigh⟩, hrest⟩ := h
    refine ⟨by simp, fun d hd => ?_⟩
    rcases List.mem_cons.1 hd with rfl | hd
    · exact ⟨Char.le_trans (by decide) hlow, hhigh⟩
    · exact hrest d hd
  · cases h

theorem takeWhile_eq_self_of_dropWhile_eq_nil {text : List Char} {p : Char → Bool} (h : text.dropWhile p = []) :
    text.takeWhile p = text := by
  conv_rhs => rw [← List.takeWhile_append_dropWhile (p := p) (l := text), h, List.append_nil]

/-- Whether a text is the standard form of a number cannot be told when it is an integer of too many
digits, and can be told otherwise. -/
theorem canonicalNumber_eq_error_iff {text : List Char} {fault : NumeralFault} :
    canonicalNumber text = .error fault ↔
      isWhole text ∧ maxDecimalDigits < text.length ∧ fault = .tooManyDigits text.length := by
  unfold canonicalNumber
  cases hdrop : text.dropWhile (· != '.') with
  | nil =>
    simp only [takeWhile_eq_self_of_dropWhile_eq_nil hdrop]
    by_cases hwhole : isWhole text
    · obtain ⟨hne, hdigits⟩ := isAsciiDigit_of_isWhole hwhole
      rw [if_pos hwhole, and_iff_right hwhole, ← integer_eq_error_iff hdigits hne]
      cases integer text with
      | error e => exact ⟨fun h => congrArg _ (Except.error.inj h), fun h => congrArg _ (Except.error.inj h)⟩
      | ok n => exact iff_of_false nofun nofun
    · rw [if_neg hwhole]
      exact iff_of_false nofun fun h => hwhole h.1
  | cons point part =>
    have hpoint : isWhole text = false := by
      rw [← Bool.not_eq_true]
      intro hwhole
      have hmem : point ∈ text := (List.dropWhile_sublist _).subset (by rw [hdrop]; exact List.mem_cons_self ..)
      have hdot := List.head?_dropWhile_not (fun c => c != '.') text
      rw [hdrop] at hdot
      have hdigit := (isAsciiDigit_of_isWhole hwhole).2 point hmem
      rw [bne_eq_false_iff_eq.1 hdot] at hdigit
      exact absurd hdigit.1 (by decide)
    rw [hpoint]
    refine iff_of_false ?_ fun h => nomatch h.1
    simp only
    split <;> exact nofun

/-- No standard form is that of a NaN. -/
theorem place?_of_canonicalNumber {text : List Char} {number : Number} (h : canonicalNumber text = .ok (some number)) :
    number.place?.isSome := by
  unfold canonicalNumber at h
  simp only at h
  split at h
  · split at h
    · obtain ⟨n, -, h⟩ := exists_of_bind_ok h
      split at h <;> cases h
      rfl
    · cases h
  case h_2 point part hdrop =>
    split at h
    · obtain ⟨x, -, h⟩ := Option.bind_eq_some_iff.1 (Except.ok.inj h)
      split at h
      case isFalse => cases h
      case isTrue hdisplay =>
        cases h
        cases hnan : x.isNaN with
        | true =>
          have hnone : ("nan".toList).dropWhile (· != '.') = [] := by decide
          rw [← hdisplay, Double.display, if_pos hnan, hnone] at hdrop
          cases hdrop
        | false =>
          simp only [Number.place?, hnan, Bool.false_eq_true, if_false]
          split <;> rfl
    · cases h

end ScriptTidy
