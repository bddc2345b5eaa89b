/-
The names that numbers spell. A number literal as a key names what is printed for the double nearest
to it, or its digits if it is marked as an integer. The text is the standard form of a number exactly
if the number is plain, and then it is the standard form of that number; a large integer, a small
fraction or an infinity spells a text that is read as no number at all.
-/
import ScriptTidy.Proofs.Number.Printed

namespace ScriptTidy

open Numeral Canonical Shortest

/-! ## Printed texts -/

namespace Shortest

variable {x : Double} {s : ℕ} {e : ℤ}

/-- A shortest decimal with a fraction is that of a double whose unit is at most one. -/
theorem IsShortest.scale_le (h : IsShortest x s e) (he : e < 0) : x.scale ≤ 0 := by
  by_contra hpos
  obtain ⟨hunit, hvalue⟩ := Double.le_value_of_scale_pos (not_le.1 hpos)
  -- the double is an integer, which has as many digits as the decimal at least
  obtain ⟨n, hn⟩ : ∃ n : ℕ, x.value = n := by
    refine ⟨x.significand * 2 ^ x.scale.toNat, ?_⟩
    push_cast
    rw [Double.value, Double.pow_toNat 2 (by omega)]
  have hself : x.Covers ((n : ℕ) * 10 ^ (0 : ℤ)) := by
    rw [zpow_zero, mul_one, ← hn]
    exact x.covers_value
  have hfewest := h.fewest n 0 hself
  -- so a power of ten lies between the two, and the decimal has a single digit
  have hlow : (10 : ℚ) ^ (digitCount n - 1 : ℕ) ≤ n := by
    have hpos : 0 < n := by
      have hcast : (0 : ℚ) < n := by rw [← hn]; linarith
      exact_mod_cast hcast
    exact_mod_cast pow_pred_le hpos
  have hhigh : (s : ℚ) * 10 ^ e < 10 ^ (digitCount n - 1 : ℕ) := by
    rw [← zpow_natCast]
    exact (decimal_lt (lt_pow_digitCount s) e).trans_le (zpow_le_zpow_right₀ (by decide) (by omega))
  have hpower : x.Covers ((1 : ℕ) * 10 ^ ((digitCount n - 1 : ℕ) : ℤ)) := by
    rw [Nat.cast_one, one_mul, zpow_natCast]
    exact h.rounds.between x.covers_value hhigh.le (hn ▸ hlow)
  have hone : digitCount s ≤ 1 := h.fewest _ _ hpower
  have hlt : (s : ℚ) * 10 ^ e < 10 ^ (0 : ℤ) :=
    (decimal_lt (lt_pow_digitCount s) e).trans_le (zpow_le_zpow_right₀ (by decide) (by omega))
  have hdist := (abs_le.1 h.rounds.abs_sub_value_le).1
  rw [zpow_zero] at hlt
  linarith

end Shortest

/-- A standard form has digits and a point only. -/
theorem canonicalNumber_ne_of_mem {text : List Char} {c : Char} (hc : c ∈ text) (hdigit : ¬ IsAsciiDigit c)
    (hpoint : c ≠ '.') (u : Number) : canonicalNumber text ≠ .ok (some u) := by
  intro h
  rw [← List.takeWhile_append_dropWhile (p := (· != '.')) (l := text), List.mem_append] at hc
  unfold canonicalNumber at h
  simp only at h
  split at h
  case h_1 hdrop =>
    rw [hdrop, or_iff_left List.not_mem_nil] at hc
    split at h
    case isTrue hwhole => exact hdigit ((isAsciiDigit_of_isWhole hwhole).2 c hc)
    case isFalse => cases h
  case h_2 point part hdrop =>
    have hhead := List.head?_dropWhile_not (fun c => c != '.') text
    rw [hdrop] at hc hhead
    obtain rfl : point = '.' := bne_eq_false_iff_eq.1 hhead
    split at h
    case isTrue hparts =>
      rw [Bool.and_eq_true] at hparts
      rcases hc with hc | hc
      · exact hdigit ((isAsciiDigit_of_isWhole hparts.1).2 c hc)
      · rcases List.mem_cons.1 hc with rfl | hc
        · exact hpoint rfl
        · exact hdigit (isAsciiDigit_of_isPart hparts.2 c hc)
    case isFalse => cases h

section Exponents

variable {x : Double} {s : ℕ} {e : ℤ}

/-- Very small and very large doubles are printed with an exponent. -/
theorem e_mem_layout (h : ¬ (-6 < digitCount s + e ∧ digitCount s + e ≤ 21)) : 'e' ∈ layout s e := by
  have hlength : (decimalDigitsOf s).length = digitCount s := rfl
  have hpos := digitCount_pos s
  unfold layout
  simp only [hlength]
  rw [if_neg (by omega), if_neg (by omega), if_neg (by omega)]
  split <;> simp

/-- The text of a small or large double has an exponent. -/
theorem e_mem_display (hx : x.IsPositive) (hshortest : x.shortest = (s, e))
    (h : ¬ (-4 < digitCount s + e ∧ digitCount s + e ≤ 16)) : 'e' ∈ x.display.toList := by
  have hlength : (decimalDigitsOf s).length = digitCount s := rfl
  unfold Double.display
  simp only [hx.isNaN_eq, hx.isInfinite_eq, hx.sign, hx.pos.ne', hshortest, Bool.false_eq_true, if_false,
    List.nil_append, hlength, String.toList_ofList]
  rw [if_pos (by omega)]
  split
  · simp
  · simp
  · exact absurd ‹_› Nat.toDigits_ne_nil

/-- A double whose printed text is a standard form is neither too small nor too large. -/
theorem bounds_of_canonicalNumber_layout (hx : x.IsPositive) (h : IsShortest x s e) {u : Number}
    (hu : canonicalNumber (layout s e) = .ok (some u)) : 1 / 10000 ≤ x.value ∧ x.value ≤ 2 ^ 53 - 1 := by
  have he : ¬ IsAsciiDigit 'e' := fun h => absurd h.2 (by decide)
  have hpoint : -6 < digitCount s + e ∧ digitCount s + e ≤ 21 :=
    not_not.1 fun hpoint => canonicalNumber_ne_of_mem (e_mem_layout hpoint) he (by decide) u hu
  rcases lt_or_ge e 0 with hneg | hnonneg
  · have hdisplay : x.display.toList = layout s e := by
      rw [canonicalNumber_layout_of_neg hx h hneg hpoint.1 hpoint.2] at hu
      by_contra hne
      rw [if_neg hne] at hu
      cases hu
    have hpoint' : -4 < digitCount s + e ∧ digitCount s + e ≤ 16 := not_not.1 fun hpoint' =>
      canonicalNumber_ne_of_mem (hdisplay ▸ e_mem_display hx ((isShortest_iff hx).1 h) hpoint') he (by decide) u hu
    refine ⟨?_, Double.value_le (h.scale_le hneg)⟩
    by_contra hlt
    rw [not_le] at hlt
    -- otherwise the double is the one nearest to 1 / 10000, which is larger
    have hten : (1 : ℚ) / 10000 ≤ s * 10 ^ e := calc
      (1 : ℚ) / 10000 = 10 ^ (-4 : ℤ) := by norm_num
      _ ≤ 10 ^ ((digitCount s - 1 : ℕ) + e) := zpow_le_zpow_right₀ (by decide) (by omega)
      _ ≤ s * 10 ^ e := le_decimal (pow_pred_le (h.pos hx)) e
    have hcovers := x.covers_value.between h.rounds hlt.le hten
    have hnearest : Double.ofRatio false 1 10000 = x := by
      rw [Double.ofRatio_eq_iff hx Nat.one_pos (by decide)]
      exact_mod_cast hcovers
    have hvalue : 1 / 10000 ≤ (Double.ofRatio false 1 10000).toRat := by decide +kernel
    rw [hnearest, Double.toRat_eq_value hx.sign] at hvalue
    exact absurd hlt (not_lt.2 hvalue)
  · rw [layout_of_nonneg (h.pos hx) hnonneg hpoint.2] at hu
    have hle := le_of_canonicalNumber_digits hu
    have hpos : 0 < s * 10 ^ e.toNat := Nat.mul_pos (h.pos hx) (by positivity)
    obtain ⟨-, hvalue⟩ := Double.ofRatio_natCast hpos (hle.trans_lt (by decide))
    have hnearest : Double.ofRatio false (s * 10 ^ e.toNat) 1 = x := by
      rw [Double.ofRatio_eq_iff hx hpos Nat.one_pos]
      push_cast
      rw [div_one, Double.pow_toNat 10 hnonneg]
      exact h.rounds
    rw [hnearest] at hvalue
    rw [hvalue]
    have hone : (1 : ℚ) ≤ (s * 10 ^ e.toNat : ℕ) := by exact_mod_cast hpos
    have hcast : ((s * 10 ^ e.toNat : ℕ) : ℚ) + 1 ≤ 2 ^ 53 := by exact_mod_cast Nat.lt_of_le_pred (by decide) hle
    constructor <;> linarith

end Exponents

theorem Double.value_magnitude (x : Double) : x.magnitude.value = x.value := by
  have hscale : x.magnitude.scale = x.scale := by rw [scale, scale, exponentField_magnitude]
  rw [value, value, significand_magnitude, hscale]

/-! ## Names of numbers -/

/-- The text that a number literal spells as a name: the digits of an integer that is marked as one by a last letter n,
and what is printed for the nearest double otherwise. -/
def Number.Spells (v : Number) (raw : String) (text : List Char) : Prop :=
  if raw.toList.getLast? = some 'n' then ∃ n : ℤ, v = .integer n ∧ text = (toString n).toList
  else v.nearest.Prints text

theorem toList_toString (n : ℕ) : (toString (n : ℤ)).toList = decimalDigitsOf n := String.toList_ofList

theorem Number.isPlain_natCast {n : ℕ} (h : n ≤ maxInteger) : (Number.integer n).IsPlain := by
  have hcast : (n : ℚ) + 1 ≤ 2 ^ 53 := by exact_mod_cast Nat.lt_of_le_pred (by decide) h
  refine ⟨n, rfl, ?_, by linarith⟩
  rcases Nat.eq_zero_or_pos n with rfl | hpos
  · exact .inl Nat.cast_zero
  · have hone : (1 : ℚ) ≤ n := by exact_mod_cast hpos
    right
    linarith

/-- A double whose printed text is a standard form is plain. -/
theorem Double.isPlain_of_prints {x : Double} {text : List Char} {u : Number} (h : x.Prints text)
    (hu : canonicalNumber text = .ok (some u)) : (Number.double x).IsPlain := by
  have hmem {c : Char} (hc : c ∈ text) (hdigit : ¬ IsAsciiDigit c) (hpoint : c ≠ '.') : False :=
    canonicalNumber_ne_of_mem hc hdigit hpoint u hu
  unfold Double.Prints at h
  cases hnan : x.isNaN with
  | true =>
    simp only [hnan, if_true] at h
    exact (hmem (c := 'N') (by simp [h]) (fun h => absurd h.2 (by decide)) (by decide)).elim
  | false =>
    cases hinfinite : x.isInfinite with
    | true =>
      simp only [hnan, hinfinite, Bool.false_eq_true, if_false, if_true] at h
      exact (hmem (c := 'I') (by simp [h]) (fun h => absurd h.2 (by decide)) (by decide)).elim
    | false =>
      have hplace : (Number.double x).place? = some (.rational x.toRat) := by simp [Number.place?, hnan, hinfinite]
      simp only [hnan, hinfinite, Bool.false_eq_true, if_false] at h
      split at h
      case isTrue hzero =>
        refine ⟨_, hplace, .inl ?_, ?_⟩ <;> rw [toRat_eq, value_eq_zero_iff.2 hzero, neg_zero, ite_self]
        norm_num
      case isFalse hpos =>
        obtain ⟨s, e, hshortest, rfl⟩ := h
        have hsign : x.negative = false := by
          rw [← Bool.not_eq_true]
          intro hsign
          exact hmem (c := '-') (by simp [hsign]) (fun h => absurd h.1 (by decide)) (by decide)
        have hx : x.IsPositive := ⟨hsign, exponentField_ne hnan hinfinite, Nat.pos_of_ne_zero hpos⟩
        rw [magnitude_eq_self hsign] at hshortest
        rw [hsign, if_neg Bool.false_ne_true, List.nil_append] at hu
        rw [toRat_eq_value hsign] at hplace
        obtain ⟨hlow, hhigh⟩ := bounds_of_canonicalNumber_layout hx hshortest hu
        exact ⟨_, hplace, .inr hlow, hhigh⟩

/-- A number is plain if the double nearest to it is. -/
theorem Number.isPlain_of_nearest {v : Number} (h : (Number.double v.nearest).IsPlain) : v.IsPlain := by
  cases v with
  | double x => exact h
  | integer n =>
    rcases eq_or_ne n 0 with rfl | hne
    · exact isPlain_natCast (Nat.zero_le _)
    obtain ⟨q, hq, hlow, hhigh⟩ := h
    obtain ⟨hnan, hinfinite, hvalue⟩ := Double.of_place? hq
    have hx : (Double.ofRatio false n.natAbs 1).IsPositive := by
      refine Double.isPositive_ofRatio (Int.natAbs_pos.2 hne) ?_
      rw [← Double.magnitude_ofRatio (n < 0), Double.exponentField_magnitude]
      exact Double.exponentField_ne hnan hinfinite
    have hpos := hx.value_pos
    rw [nearest, Double.toRat_eq, Double.negative_ofRatio, ← Double.value_magnitude, Double.magnitude_ofRatio] at hvalue
    rcases lt_or_ge n 0 with hneg | hnonneg
    · rw [decide_eq_true hneg, if_pos rfl] at hvalue
      rcases hlow with hlow | hlow <;> linarith
    · rw [decide_eq_false (not_lt.2 hnonneg), if_neg Bool.false_ne_true] at hvalue
      obtain ⟨k, rfl⟩ := Int.eq_ofNat_of_zero_le hnonneg
      have hcovers := (Double.ofRatio_eq_iff hx (Int.natAbs_pos.2 hne) Nat.one_pos).1 rfl
      rw [Nat.cast_one, div_one] at hcovers
      exact isPlain_natCast (Nat.le_pred_of_lt (hcovers.natCast_lt (by linarith)))

/-- A plain number is the number of the standard form that it spells. -/
theorem Number.Spells.canonicalNumber_of_plain {v : Number} {raw : String} {text : List Char} (h : v.Spells raw text)
    (hplain : v.IsPlain) : ∃ u : Number, canonicalNumber text = .ok (some u) ∧ u.place? = v.place? := by
  unfold Number.Spells at h
  split at h
  case isTrue =>
    obtain ⟨n, rfl, rfl⟩ := h
    obtain ⟨k, rfl, hk⟩ := hplain.exists_nat
    exact ⟨_, (toList_toString k).symm ▸ canonicalNumber_digits_eq_ok hk, rfl⟩
  case isFalse => exact canonicalNumber_of_prints hplain h

/-- What a number spells is a standard form exactly if the number is plain. -/
theorem Number.Spells.canonicalNumber_iff {v : Number} {raw : String} {text : List Char} (h : v.Spells raw text) :
    (∃ u, canonicalNumber text = .ok (some u)) ↔ v.IsPlain := by
  refine ⟨?_, fun hplain => (h.canonicalNumber_of_plain hplain).imp fun u hu => hu.1⟩
  rintro ⟨u, hu⟩
  unfold Number.Spells at h
  split at h
  case isTrue =>
    obtain ⟨n, rfl, rfl⟩ := h
    cases n with
    | ofNat k => exact isPlain_natCast (le_of_canonicalNumber_digits (toList_toString k ▸ hu))
    | negSucc k =>
      have hminus : '-' ∈ (toString (Int.negSucc k)).toList := by
        change '-' ∈ ("-" ++ toString (k + 1)).toList
        rw [String.toList_append]
        exact List.mem_append_left _ (by decide)
      exact absurd hu (canonicalNumber_ne_of_mem hminus (fun h => absurd h.1 (by decide)) (by decide) u)
  case isFalse => exact isPlain_of_nearest (Double.isPlain_of_prints h hu)

/-! ## Printing -/

/-- The text that ECMAScript prints for the double. -/
def Double.printed (x : Double) : List Char :=
  let sign := if x.negative then ['-'] else []
  if x.isNaN then ['N', 'a', 'N']
  else if x.isInfinite then sign ++ ['I', 'n', 'f', 'i', 'n', 'i', 't', 'y']
  else if x.significand = 0 then ['0']
  else sign ++ layout x.magnitude.shortest.1 x.magnitude.shortest.2

/-- Every double is printed in one way. -/
theorem Double.prints_iff {x : Double} {text : List Char} : x.Prints text ↔ text = x.printed := by
  unfold Prints printed
  simp only
  generalize (if x.negative then ['-'] else []) = sign
  split_ifs with hnan hinfinite hzero
  · rfl
  · rfl
  · rfl
  · have hfinite := exponentField_ne (Bool.eq_false_of_not_eq_true hnan) (Bool.eq_false_of_not_eq_true hinfinite)
    have hx := isPositive_magnitude hfinite (Nat.pos_of_ne_zero hzero)
    constructor
    · rintro ⟨s, e, hshortest, rfl⟩
      rw [(isShortest_iff hx).1 hshortest]
    · exact fun h => ⟨_, _, isShortest_shortest hx, h⟩

instance (x : Double) (text : List Char) : Decidable (x.Prints text) := decidable_of_iff _ Double.prints_iff.symm

example : (Double.ofDecimal false 1 1 21).Prints ['1', 'e', '+', '2', '1'] := by decide +kernel

end ScriptTidy
