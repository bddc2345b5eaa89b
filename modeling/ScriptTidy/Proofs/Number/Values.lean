/-
Values of number literals. Only a word is read as a NaN; what starts with a digit or a point is read as a
number, which has its place among the others.
-/
import Mathlib.Tactic.IntervalCases
import ScriptTidy.Number.Numeral
import ScriptTidy.Proofs.Lists
import ScriptTidy.Proofs.Number.Rounding

namespace ScriptTidy

/-! ## Rounded values -/

namespace Double

/-- The bits up to those of an infinity are no NaN. -/
theorem isNaN_ofMagnitudeBits (negative : Bool) {n : ℕ} (hn : n ≤ 0x7ff0000000000000) :
    (ofMagnitudeBits negative n).isNaN = false := by
  have hbits : (ofMagnitudeBits negative n).bits.toNat = n + if negative then 2 ^ 63 else 0 :=
    toNat_ofMagnitudeBits negative (by omega)
  rw [isNaN, exponentField, fraction, hbits, Bool.and_eq_false_iff, beq_eq_false_iff_ne, bne_eq_false_iff_eq]
  cases negative <;> simp only [Bool.false_eq_true, if_true, if_false] <;> omega

theorem isNaN_zero (negative : Bool) : (zero negative).isNaN = false := isNaN_ofMagnitudeBits negative (Nat.zero_le _)

theorem isNaN_infinity (negative : Bool) : (infinity negative).isNaN = false :=
  isNaN_ofMagnitudeBits negative (by norm_num)

theorem isNaN_ofRatio (negative : Bool) (num den : ℕ) : (ofRatio negative num den).isNaN = false := by
  rw [ofRatio]
  split
  · exact isNaN_zero negative
  · dsimp only
    generalize (_ : ℤ).toNat * _ + _ = magnitude
    split
    · exact isNaN_infinity negative
    · next hlt => exact isNaN_ofMagnitudeBits negative (by omega)

theorem isNaN_ofDecimal (negative : Bool) (digits width : ℕ) (exponent : ℤ) :
    (ofDecimal negative digits width exponent).isNaN = false := by
  rw [ofDecimal]
  split_ifs
  · exact isNaN_zero negative
  · exact isNaN_infinity negative
  · exact isNaN_zero negative
  · exact isNaN_ofRatio ..
  · exact isNaN_ofRatio ..

end Double

theorem Number.place?_isSome_of_isNaN {x : Double} (h : x.isNaN = false) : (Number.double x).place?.isSome := by
  simp only [place?, h, Bool.false_eq_true, if_false]
  split <;> rfl

/-! ## Literals -/

namespace Numeral

/-- What a number can start with is kept, and is no sign, blank or letter. -/
theorem of_startsNumber {c : Char} (h : (c.isDigit || c == '.') = true) :
    c.toNat < 0x80 ∧ isSpace c = false ∧ c ≠ '-' ∧ c ≠ '+' ∧ c.toLower ≠ 'n' := by
  have hmem : c ∈ ['0', '1', '2', '3', '4', '5', '6', '7', '8', '9', '.'] := by
    rcases Bool.or_eq_true_iff.1 h with hdigit | hpoint
    · obtain ⟨hlow, hhigh⟩ := Bool.and_eq_true_iff.1 hdigit
      have hlow : 48 ≤ c.toNat := of_decide_eq_true hlow
      have hhigh : c.toNat ≤ 57 := of_decide_eq_true hhigh
      rw [← Char.ofNat_toNat c]
      interval_cases c.toNat <;> decide
    · rw [beq_iff_eq.1 hpoint]
      decide
  have hall : ['0', '1', '2', '3', '4', '5', '6', '7', '8', '9', '.'].all fun c =>
      decide (c.toNat < 0x80 ∧ isSpace c = false ∧ c ≠ '-' ∧ c ≠ '+' ∧ c.toLower ≠ 'n') := by decide
  exact of_decide_eq_true (List.all_eq_true.1 hall c hmem)

theorem exists_bare {c : Char} (h : (c.isDigit || c == '.') = true) (s : List Char) :
    ∃ rest, bare (c :: s) = c :: rest := by
  obtain ⟨hascii, hspace, -⟩ := of_startsNumber h
  have hnormal : normalize (c :: s) = c :: normalize s := by rw [normalize, List.map_cons, if_pos hascii, normalize]
  rw [bare, hnormal, List.dropWhile_cons, if_neg (by rw [hspace]; exact Bool.false_ne_true)]
  exact exists_cons_of_trimmed hspace _

theorem isNaN_of_double? {c : Char} (h : (c.isDigit || c == '.') = true) {s : List Char} {x : Double}
    (hx : double? (c :: s) = some x) : x.isNaN = false := by
  obtain ⟨rest, hrest⟩ := exists_bare h s
  obtain ⟨-, -, hminus, hplus, hlower⟩ := of_startsNumber h
  have hsign : sign (c :: rest) = (false, c :: rest) := by
    unfold sign
    split
    · next heq => exact absurd (List.cons.inj heq).1 hminus
    · next heq => exact absurd (List.cons.inj heq).1 hplus
    · rfl
  rw [double?, hrest, hsign] at hx
  dsimp only at hx
  split at hx
  · cases hx
    exact Double.isNaN_infinity false
  · split at hx
    · next hnan => exact absurd (List.cons.inj hnan).1 hlower
    · -- with a point and without one
      split at hx
      all_goals
        split at hx
        · cases hx
        · obtain ⟨e, -, rfl⟩ := Option.map_eq_some_iff.1 hx
          exact Double.isNaN_ofDecimal ..

end Numeral

/-- The value of a literal that starts with a digit or a point has a place among the numbers. -/
theorem place?_of_numberValue {raw : String} {value : Number} (h : numberValue raw = .ok value)
    (hstarts : raw.toList.head?.any fun c => c.isDigit || c == '.') : value.place?.isSome := by
  have hinteger {e : Except NumeralFault Int} (h : e.map .integer = .ok value) : value.place?.isSome := by
    cases e with
    | error _ => cases h
    | ok n =>
      cases h
      rfl
  obtain ⟨c, hc, hstarts⟩ := (Option.any_eq_true _ _).1 hstarts
  obtain ⟨rest, hraw⟩ := List.head?_eq_some_iff.1 hc
  have hkept : c ≠ '_' := by
    rintro rfl
    cases hstarts
  unfold numberValue at h
  rw [hraw, List.filter_cons_of_pos (by simpa using hkept)] at h
  dsimp only at h
  split at h
  · exact hinteger h
  · split at h
    · exact hinteger h
    · split at h
      · split at h
        · exact hinteger h
        · exact hinteger h
      · split at h
        · cases h
          rfl
        · split at h
          · next x hx =>
            cases h
            exact Number.place?_isSome_of_isNaN (Numeral.isNaN_of_double? hstarts hx)
          · cases h

end ScriptTidy
