/-
The digits of natural numbers. They spell the number, do not start with a zero unless the number is
zero, and end in a zero only if the number does. Digits read as the integer they spell, and digits
around a point as the double nearest to the decimal they spell; an integer that is not too large is
the number of the standard form that consists of its digits.
-/
import Mathlib.Data.List.TakeWhile
import ScriptTidy.Proofs.Number.Canonical
import ScriptTidy.Proofs.Number.Shortest

namespace ScriptTidy

open Numeral Canonical Shortest

/-! ## Digits -/

section Digits

variable {n : ℕ}

theorem isAsciiDigit_of_mem_digits {c : Char} (h : c ∈ decimalDigitsOf n) : IsAsciiDigit c := by
  have hdigit := Nat.isDigit_of_mem_toDigits (by decide) le_rfl h
  simp only [Char.isDigit, Bool.and_eq_true, decide_eq_true_iff] at hdigit
  exact hdigit

theorem ofRun_digits (n : ℕ) : ofRun (decimalDigitsOf n) = n := by
  have hread := Nat.ofDigitChars_toDigits (b := 10) (n := n) (by decide) le_rfl
  simp only [Nat.ofDigitChars_eq_foldl, mul_comm 10] at hread
  exact hread

theorem digits_of_lt (h : n < 10) : decimalDigitsOf n = [n.digitChar] := Nat.toDigits_of_lt_base h

theorem digits_of_ge (h : 10 ≤ n) : decimalDigitsOf n = decimalDigitsOf (n / 10) ++ [(n % 10).digitChar] :=
  Nat.toDigits_of_base_le (by decide) h

theorem digitChar_bounds : ∀ d < 10, 0 < d → '1' ≤ d.digitChar ∧ d.digitChar ≤ '9' := by decide

/-- The digits of a positive number do not start with a zero. -/
theorem exists_digits_eq_cons (hn : 0 < n) : ∃ c rest, decimalDigitsOf n = c :: rest ∧ '1' ≤ c ∧ c ≤ '9' := by
  induction n using Nat.strong_induction_on with
  | _ n ih =>
    rcases Nat.lt_or_ge n 10 with hlt | hge
    · exact ⟨_, [], digits_of_lt hlt, digitChar_bounds n hlt hn⟩
    · obtain ⟨c, rest, hdigits, hc⟩ := ih (n / 10) (by omega) (by omega)
      exact ⟨c, rest ++ [(n % 10).digitChar], by rw [digits_of_ge hge, hdigits, List.cons_append], hc⟩

theorem getLast?_digits (n : ℕ) : (decimalDigitsOf n).getLast? = some (n % 10).digitChar := by
  rcases Nat.lt_or_ge n 10 with hlt | hge
  · rw [digits_of_lt hlt, Nat.mod_eq_of_lt hlt]
    rfl
  · rw [digits_of_ge hge, List.getLast?_concat]

theorem digits_mul_pow (hn : 0 < n) (z : ℕ) :
    decimalDigitsOf (n * 10 ^ z) = decimalDigitsOf n ++ List.replicate z '0' := by
  induction z with
  | zero => simp
  | succ z ih =>
    have hpos : 0 < n * 10 ^ z := by positivity
    rw [pow_succ, ← mul_assoc, digits_of_ge (by omega), Nat.mul_div_cancel _ (by decide), Nat.mul_mod_left, ih,
      List.append_assoc, List.replicate_succ']
    rfl

theorem isWhole_cons {c : Char} {rest : List Char} (hlow : '1' ≤ c) (hhigh : c ≤ '9')
    (hrest : ∀ d ∈ rest, IsAsciiDigit d) : isWhole (c :: rest) := by
  unfold isWhole
  split
  · rfl
  · next hcons =>
    obtain ⟨rfl, rfl⟩ := List.cons.inj hcons
    simp only [hlow, hhigh, decide_true, Bool.true_and, List.all_eq_true, Bool.and_eq_true, decide_eq_true_iff]
    exact hrest
  · next hnil => cases hnil

theorem isWhole_digits (n : ℕ) : isWhole (decimalDigitsOf n) := by
  rcases Nat.eq_zero_or_pos n with rfl | hn
  · decide
  · obtain ⟨c, rest, hdigits, hlow, hhigh⟩ := exists_digits_eq_cons hn
    rw [hdigits]
    refine isWhole_cons hlow hhigh fun d hd => isAsciiDigit_of_mem_digits (n := n) ?_
    rw [hdigits]
    exact List.mem_cons_of_mem _ hd

end Digits

/-! ## Reading -/

section Reading

variable {whole part : List Char}

theorem plain_of_parts (hwhole : ∀ c ∈ whole, IsAsciiDigit c) (hpart : ∀ c ∈ part, IsAsciiDigit c) :
    ∀ c ∈ whole ++ '.' :: part, c.toNat < 0x80 ∧ isSpace c = false := by
  intro c hc
  rcases List.mem_append.1 hc with hc | hc
  · exact (hwhole c hc).plain
  · rcases List.mem_cons.1 hc with rfl | hc
    · decide
    · exact (hpart c hc).plain

theorem digitRun_append {rest : List Char} (hdigits : ∀ c ∈ whole, IsAsciiDigit c)
    (hrest : rest.takeWhile (fun c => '0' ≤ c && c ≤ '9') = []) : digitRun (whole ++ rest) = (whole, rest) := by
  have hwhole : ∀ c ∈ whole, (decide ('0' ≤ c) && decide (c ≤ '9')) = true := fun c hc => by
    rw [Bool.and_eq_true, decide_eq_true_iff, decide_eq_true_iff]
    exact hdigits c hc
  have hdrop : rest.dropWhile (fun c => '0' ≤ c && c ≤ '9') = rest := by
    conv_rhs =>
      rw [← List.takeWhile_append_dropWhile (p := fun c => '0' ≤ c && c ≤ '9') (l := rest), hrest, List.nil_append]
  unfold digitRun
  simp only
  rw [List.takeWhile_append_of_pos hwhole, List.dropWhile_append_of_pos hwhole, hrest, hdrop, List.append_nil]

theorem toLower_digit {c : Char} (h : IsAsciiDigit c) : c.toLower = c := by
  have hn := h.toNat
  unfold Char.toLower
  rw [dif_neg]
  rintro ⟨hle, -⟩
  have : 65 ≤ c.toNat := hle
  omega

/-- A decimal fraction reads as the double nearest to it. -/
theorem double?_parts (hne : whole ≠ []) (hwhole : ∀ c ∈ whole, IsAsciiDigit c) (hpart : ∀ c ∈ part, IsAsciiDigit c) :
    double? (whole ++ '.' :: part) = some (.ofDecimal false (ofRun ((whole ++ part).dropWhile (· == '0')))
      ((whole ++ part).dropWhile (· == '0')).length (-part.length)) := by
  obtain ⟨c, rest, rfl⟩ := List.exists_cons_of_ne_nil hne
  have hc := hwhole c (List.mem_cons_self ..)
  have hsign : sign (c :: rest ++ '.' :: part) = (false, c :: rest ++ '.' :: part) := sign_cons hc
  have hlowered {d : Char} {ds : List Char} (hd : ¬ IsAsciiDigit d) : lowered (c :: rest ++ '.' :: part) ≠ d :: ds := by
    intro h
    have hhead := (List.cons.inj h).1
    rw [toLower_digit hc] at hhead
    exact hd (hhead ▸ hc)
  have hi : ¬ IsAsciiDigit 'i' := fun h => absurd h.2 (by decide)
  have hn : ¬ IsAsciiDigit 'n' := fun h => absurd h.2 (by decide)
  have hdot : ('.' :: part).takeWhile (fun c => '0' ≤ c && c ≤ '9') = [] := rfl
  have hrun : digitRun part = (part, []) := by
    have hnil : ([] : List Char).takeWhile (fun c => '0' ≤ c && c ≤ '9') = [] := rfl
    have happend := digitRun_append hpart hnil
    rwa [List.append_nil] at happend
  unfold double?
  rw [bare_eq_self (plain_of_parts hwhole hpart), hsign]
  simp only
  rw [if_neg (not_or.2 ⟨hlowered hi, hlowered hi⟩), if_neg (hlowered hn), digitRun_append hwhole hdot]
  simp only [hrun, exponent?, List.isEmpty_cons, Bool.false_and, Bool.false_eq_true, if_false, Option.map_some,
    zero_sub]

theorem isAsciiDigit_of_isPart (h : isPart part) : ∀ c ∈ part, IsAsciiDigit c := by
  unfold isPart at h
  split at h
  · simp only [Bool.and_eq_true, List.all_eq_true, decide_eq_true_iff] at h
    exact h.2
  · cases h

/-- Digits around a point are a standard form if the double that they spell has them as its text. -/
theorem canonicalNumber_parts (hwhole : isWhole whole) (hpart : isPart part) :
    canonicalNumber (whole ++ '.' :: part) =
      .ok ((double? (whole ++ '.' :: part)).bind fun x =>
        if x.display.toList = whole ++ '.' :: part then some (.double x) else none) := by
  have hdigits : ∀ c ∈ whole, (c != '.') = true := by
    intro c hc
    rw [bne_iff_ne]
    rintro rfl
    exact absurd ((isAsciiDigit_of_isWhole hwhole).2 _ hc).1 (by decide)
  have htake : (whole ++ '.' :: part).takeWhile (· != '.') = whole := by
    rw [List.takeWhile_append_of_pos hdigits, List.takeWhile_cons_of_neg (by decide), List.append_nil]
  have hdrop : (whole ++ '.' :: part).dropWhile (· != '.') = '.' :: part := by
    rw [List.dropWhile_append_of_pos hdigits, List.dropWhile_cons_of_neg (by decide)]
  unfold canonicalNumber
  simp only [htake, hdrop, hwhole, hpart, Bool.and_self, if_true]

/-- The digits of an integer are the standard form of the integer, unless it is too large. -/
theorem canonicalNumber_digits (n : ℕ) :
    canonicalNumber (decimalDigitsOf n) =
      if digitCount n ≤ maxDecimalDigits then .ok (if n ≤ maxInteger then some (.integer n) else none)
      else .error (.tooManyDigits (digitCount n)) := by
  have hdrop : (decimalDigitsOf n).dropWhile (· != '.') = [] := by
    rw [List.dropWhile_eq_nil_iff]
    intro c hc
    rw [bne_iff_ne]
    rintro rfl
    exact absurd (isAsciiDigit_of_mem_digits hc).1 (by decide)
  have hread : integer (decimalDigitsOf n) =
      if digitCount n ≤ maxDecimalDigits then .ok (n : Int) else .error (.tooManyDigits (digitCount n)) := by
    rw [integer_eq (fun _ => isAsciiDigit_of_mem_digits) Nat.toDigits_ne_nil, ofRun_digits]
    rfl
  unfold canonicalNumber
  simp only [hdrop, takeWhile_eq_self_of_dropWhile_eq_nil hdrop, isWhole_digits, if_true, hread]
  split
  case isTrue =>
    refine congrArg Except.ok ?_
    simp only [Nat.cast_le]
  case isFalse => rfl

theorem canonicalNumber_digits_eq_ok {n : ℕ} (h : n ≤ maxInteger) :
    canonicalNumber (decimalDigitsOf n) = .ok (some (.integer n)) := by
  have hcount : digitCount n ≤ 16 := (digitCount_le_iff (by decide)).2 (h.trans_lt (by decide))
  rw [canonicalNumber_digits, if_pos (hcount.trans (by decide)), if_pos h]

theorem le_of_canonicalNumber_digits {n : ℕ} {u : Number} (h : canonicalNumber (decimalDigitsOf n) = .ok (some u)) :
    n ≤ maxInteger := by
  rw [canonicalNumber_digits] at h
  split at h
  case isTrue =>
    by_contra hlt
    rw [if_neg hlt] at h
    cases h
  case isFalse => cases h

end Reading

end ScriptTidy
