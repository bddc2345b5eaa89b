/-
Rounding to doubles. A quotient is rounded in units that its magnitude sets, a half to the even
neighbour, and a carry out of the significand gives the double that starts the next binade. All of
this comes to one condition: a quotient rounds to a positive double if, and only if, it lies no
further away than half way to the neighbours of the double, where half way itself counts for the
even one. The quotients that round to a double therefore lie around it without a gap.
-/
import Mathlib.Data.Rat.Cast.Order
import Mathlib.Algebra.Order.Field.Power
import Mathlib.Algebra.Order.Field.Rat
import Mathlib.Tactic.Linarith
import Mathlib.Tactic.Ring
import Mathlib.Tactic.FieldSimp
import Mathlib.Tactic.NormNum
import Mathlib.Tactic.Positivity
import ScriptTidy.Number.Shortest

namespace ScriptTidy

namespace Double

/-! ## Rounding to a natural number -/

/-- The natural number nearest to a rational number, a half rounded to the even neighbour. -/
def RoundsTo (q : ℚ) (m : ℕ) : Prop :=
  m - 1 / 2 ≤ q ∧ q ≤ m + 1 / 2 ∧ (q = m - 1 / 2 ∨ q = m + 1 / 2 → m % 2 = 0)

theorem RoundsTo.le {q : ℚ} {m k : ℕ} (hm : RoundsTo q m) (hk : RoundsTo q k) : m ≤ k := by
  by_contra h
  have hlt : (k : ℚ) + 1 ≤ m := by exact_mod_cast Nat.lt_of_not_le h
  have hm1 : q = m - 1 / 2 := le_antisymm (by linarith [hk.2.1]) hm.1
  have hk1 : q = k + 1 / 2 := le_antisymm hk.2.1 (by linarith [hm.1])
  have hmk : (m : ℚ) = (k + 1 : ℕ) := by push_cast; linarith
  have := hm.2.2 (.inl hm1)
  have := hk.2.2 (.inr hk1)
  have : m = k + 1 := by exact_mod_cast hmk
  omega

theorem RoundsTo.unique {q : ℚ} {m k : ℕ} (hm : RoundsTo q m) (hk : RoundsTo q k) : m = k :=
  le_antisymm (hm.le hk) (hk.le hm)

theorem roundsTo_roundedDiv (num : ℕ) {den : ℕ} (hden : 0 < den) : RoundsTo (num / den) (roundedDiv num den) := by
  have hd : (0 : ℚ) < den := by exact_mod_cast hden
  obtain ⟨q, hq⟩ : ∃ q, q = num / den := ⟨_, rfl⟩
  obtain ⟨r, hr⟩ : ∃ r, r = num % den := ⟨_, rfl⟩
  have hnum : (num : ℚ) / den = q + r / den := by
    have hcast : (num : ℚ) = q * den + r := by exact_mod_cast hq ▸ hr ▸ (Nat.div_add_mod' num den).symm
    rw [hcast, add_div, mul_div_cancel_right₀ _ hd.ne']
  have hlt : (r : ℚ) / den < 1 := (div_lt_one hd).2 (by exact_mod_cast hr ▸ Nat.mod_lt num hden)
  have hnonneg : (0 : ℚ) ≤ r / den := by positivity
  have hhalf : 2 * r > den ↔ 1 / 2 < (r : ℚ) / den := by
    rw [lt_div_iff₀ hd, one_div, inv_mul_lt_iff₀ two_pos]
    exact_mod_cast Iff.rfl
  have htie : 2 * r = den ↔ (r : ℚ) / den = 1 / 2 := by
    rw [div_eq_div_iff hd.ne' two_ne_zero, one_mul, mul_comm]
    exact_mod_cast Iff.rfl
  unfold roundedDiv
  simp only [← hq, ← hr]
  rw [hnum]
  split
  case isTrue h =>
    rw [hhalf, htie] at h
    refine ⟨?_, ?_, ?_⟩
    · push_cast
      rcases h with h | ⟨h, -⟩ <;> linarith
    · push_cast
      linarith
    · push_cast
      rintro (h' | h')
      · rcases h with h | ⟨-, h⟩
        · linarith
        · omega
      · linarith
  case isFalse h =>
    rw [hhalf, htie, not_or, not_lt] at h
    refine ⟨by linarith, by linarith [h.1], ?_⟩
    rintro (h' | h')
    · linarith
    · have heven : ¬ q % 2 = 1 := fun hodd => h.2 ⟨by linarith, hodd⟩
      omega

/-! ## Powers -/

theorem pow_toNat (b : ℚ) {e : ℤ} (h : 0 ≤ e) : b ^ e.toNat = b ^ e := by
  rw [← zpow_natCast, Int.toNat_of_nonneg h]

theorem pow_toNat_neg (b : ℚ) {e : ℤ} (h : e ≤ 0) : b ^ (-e).toNat = (b ^ e)⁻¹ := by
  rw [pow_toNat b (by omega), zpow_neg]

/-- The magnitude of a quotient of natural numbers, as the exponent of a power of two. -/
theorem binade_spec {num den : ℕ} (hnum : 0 < num) (hden : 0 < den) :
    (2 : ℚ) ^ binade num den ≤ num / den ∧ (num : ℚ) / den < 2 ^ (binade num den + 1) := by
  have hd : (0 : ℚ) < den := by exact_mod_cast hden
  have hnumLow : (2 : ℚ) ^ num.log2 ≤ num := by exact_mod_cast Nat.log2_self_le hnum.ne'
  have hnumHigh : (num : ℚ) < 2 ^ (num.log2 + 1) := by exact_mod_cast Nat.lt_log2_self
  have hdenLow : (2 : ℚ) ^ den.log2 ≤ den := by exact_mod_cast Nat.log2_self_le hden.ne'
  have hdenHigh : (den : ℚ) < 2 ^ (den.log2 + 1) := by exact_mod_cast Nat.lt_log2_self
  obtain ⟨guess, hguess⟩ : ∃ guess : ℤ, guess = (num.log2 : ℤ) - den.log2 := ⟨_, rfl⟩
  have hlow : (2 : ℚ) ^ (guess - 1) ≤ num / den := by
    have hexp : guess - 1 = (num.log2 : ℤ) - (den.log2 + 1 : ℕ) := by omega
    rw [hexp, zpow_sub₀ two_ne_zero, zpow_natCast, zpow_natCast]
    gcongr
  have hhigh : (num : ℚ) / den < 2 ^ (guess + 1) := by
    have hexp : guess + 1 = (num.log2 + 1 : ℕ) - (den.log2 : ℤ) := by omega
    rw [hexp, zpow_sub₀ two_ne_zero, zpow_natCast, zpow_natCast]
    exact div_lt_div₀ hnumHigh hdenLow (by positivity) (by positivity)
  have hfits : (if 0 ≤ guess then den * 2 ^ guess.toNat ≤ num else den ≤ num * 2 ^ (-guess).toNat) ↔
      (2 : ℚ) ^ guess ≤ num / den := by
    rw [le_div_iff₀ hd]
    split
    case isTrue h =>
      rw [← pow_toNat 2 h, mul_comm]
      exact_mod_cast Iff.rfl
    case isFalse h =>
      have hmul : (2 : ℚ) ^ guess * den ≤ num ↔ den ≤ num * (2 : ℚ) ^ (-guess).toNat := by
        rw [pow_toNat_neg 2 (by omega), le_mul_inv_iff₀ (by positivity), mul_comm]
      rw [hmul]
      exact_mod_cast Iff.rfl
  unfold binade
  simp only [← hguess, hfits]
  split
  case isTrue h => exact ⟨h, hhigh⟩
  case isFalse h => 
    rw [sub_add_cancel]
    exact ⟨hlow, not_le.1 h⟩

/-- The quotient in units of a power of two, rounded. -/
theorem roundsTo_scaled (num : ℕ) {den : ℕ} (hden : 0 < den) (e : ℤ) :
    RoundsTo ((num : ℚ) / den / 2 ^ e)
      (if 0 ≤ e then roundedDiv num (den * 2 ^ e.toNat) else roundedDiv (num * 2 ^ (-e).toNat) den) := by
  split
  case isTrue h =>
    have hround := roundsTo_roundedDiv num (Nat.mul_pos hden (Nat.two_pow_pos e.toNat))
    rwa [Nat.cast_mul, Nat.cast_pow, Nat.cast_ofNat, pow_toNat 2 h, ← div_div] at hround
  case isFalse h =>
    have hround := roundsTo_roundedDiv (num * 2 ^ (-e).toNat) hden
    rwa [Nat.cast_mul, Nat.cast_pow, Nat.cast_ofNat, pow_toNat_neg 2 (by omega), mul_div_right_comm, ← div_eq_mul_inv]
      at hround

/-- A quotient is rounded in units that are set by its magnitude, but are not smaller than the least double. -/
theorem ofRatio_eq {num den k m : ℕ} (negative : Bool) (hnum : 0 < num) (hden : 0 < den)
    (hlow : k = 0 ∨ (2 : ℚ) ^ 52 ≤ num / den / 2 ^ (k - 1074 : ℤ))
    (hhigh : (num : ℚ) / den / 2 ^ (k - 1074 : ℤ) < 2 ^ 53)
    (hround : RoundsTo ((num : ℚ) / den / 2 ^ (k - 1074 : ℤ)) m) :
    ofRatio negative num den =
      if 0x7ff * 2 ^ 52 ≤ k * 2 ^ 52 + m then infinity negative else ofMagnitudeBits negative (k * 2 ^ 52 + m) := by
  have hexp : max (binade num den) (-1022) - 52 = (k - 1074 : ℤ) := by
    obtain ⟨hbinade, hbinade'⟩ := binade_spec hnum hden
    have hpos : (0 : ℚ) < 2 ^ (k - 1074 : ℤ) := by positivity
    have hunit (j : ℕ) : (2 : ℚ) ^ j * 2 ^ (k - 1074 : ℤ) = 2 ^ (j + (k - 1074) : ℤ) := by
      rw [zpow_add₀ two_ne_zero, zpow_natCast]
    rw [div_lt_iff₀ hpos, hunit] at hhigh
    have hlt := (zpow_lt_zpow_iff_right₀ one_lt_two).1 (hbinade.trans_lt hhigh)
    push_cast at hlt
    rcases hlow with rfl | hlow
    · omega
    · rw [le_div_iff₀ hpos, hunit] at hlow
      have hgt := (zpow_lt_zpow_iff_right₀ one_lt_two).1 (hlow.trans_lt hbinade')
      push_cast at hgt
      omega
  have hm := hround.unique (roundsTo_scaled num hden (k - 1074 : ℤ))
  unfold ofRatio
  rw [if_neg hnum.ne']
  simp only [hexp, ← hm, sub_add_cancel, Int.toNat_natCast]

/-! ## Positive doubles -/

/-- The double is positive and finite. -/
structure IsPositive (x : Double) : Prop where
  sign : x.negative = false
  finite : x.exponentField ≠ 0x7ff
  pos : 0 < x.significand

instance (x : Double) : Decidable x.IsPositive :=
  decidable_of_iff (x.negative = false ∧ x.exponentField ≠ 0x7ff ∧ 0 < x.significand)
    ⟨fun ⟨h, h', h''⟩ => ⟨h, h', h''⟩, fun ⟨h, h', h''⟩ => ⟨h, h', h''⟩⟩

theorem exponentField_ne {x : Double} (hnan : x.isNaN = false) (hinfinite : x.isInfinite = false) :
    x.exponentField ≠ 0x7ff := by
  intro hfield
  simp [isNaN, isInfinite, hfield] at hnan hinfinite
  exact hinfinite hnan

theorem IsPositive.isNaN_eq {x : Double} (hx : x.IsPositive) : x.isNaN = false := by simp [isNaN, hx.finite]

theorem IsPositive.isInfinite_eq {x : Double} (hx : x.IsPositive) : x.isInfinite = false := by
  simp [isInfinite, hx.finite]

/-- The number of steps from the exponent of the least double to that of the double. -/
def steps (x : Double) : ℕ := x.exponentField - 1

theorem scale_eq (x : Double) : x.scale = x.steps - 1074 := by
  unfold scale steps
  split <;> omega

theorem significand_lt (x : Double) : x.significand < 2 ^ 53 := by
  unfold significand fraction
  split <;> omega

theorem steps_eq_zero_or (x : Double) : x.steps = 0 ∨ 2 ^ 52 ≤ x.significand := by
  unfold significand steps
  split <;> omega

variable {x : Double}

theorem toNat_bits (hsign : x.negative = false) : x.bits.toNat = x.steps * 2 ^ 52 + x.significand := by
  have hlt : x.bits.toNat / 2 ^ 63 ≠ 1 := by simpa [negative] using hsign
  have h64 := x.bits.toNat_lt
  unfold steps significand exponentField fraction
  split <;> omega

theorem steps_lt (hfinite : x.exponentField ≠ 0x7ff) : x.steps < 2046 := by
  unfold steps
  have : x.exponentField < 2 ^ 11 := Nat.mod_lt _ (by decide)
  omega

/-- The double lies at the lower end of a binade, with its lower neighbour half as far away as the upper one. -/
def isNarrow (x : Double) : Bool := x.fraction = 0 ∧ 1 < x.exponentField

theorem isNarrow_iff : x.isNarrow ↔ x.significand = 2 ^ 52 ∧ 0 < x.steps := by
  unfold isNarrow significand steps
  rw [decide_eq_true_iff]
  split <;> omega

/-- The quotient rounds to the double: it lies no further away than half way to the neighbours. -/
def Covers (x : Double) (q : ℚ) : Prop :=
  RoundsTo (q / 2 ^ x.scale) x.significand ∧ (x.isNarrow → (x.significand : ℚ) - 1 / 4 ≤ q / 2 ^ x.scale)

theorem toNat_ofMagnitudeBits (negative : Bool) {n : ℕ} (hn : n < 2 ^ 63) :
    (ofMagnitudeBits negative n).bits.toNat = n + if negative then 2 ^ 63 else 0 := by
  refine UInt64.toNat_ofNat_of_lt' ?_
  simp only [UInt64.size]
  split <;> omega

theorem ofMagnitudeBits_eq_iff (hsign : x.negative = false) {n : ℕ} (hn : n < 2 ^ 63) :
    ofMagnitudeBits false n = x ↔ n = x.steps * 2 ^ 52 + x.significand := by
  have hbits : ofMagnitudeBits false n = x ↔ (ofMagnitudeBits false n).bits.toNat = x.bits.toNat := by
    cases x
    rw [UInt64.toNat_inj, mk.injEq]
  rw [hbits, toNat_ofMagnitudeBits false hn, toNat_bits hsign]
  rfl

/-- Every quotient has a unit in which it is rounded. -/
theorem exists_unit {num den : ℕ} (hnum : 0 < num) (hden : 0 < den) :
    ∃ k : ℕ, (k = 0 ∨ (2 : ℚ) ^ 52 ≤ num / den / 2 ^ (k - 1074 : ℤ)) ∧
      (num : ℚ) / den / 2 ^ (k - 1074 : ℤ) < 2 ^ 53 := by
  obtain ⟨hlow, hhigh⟩ := binade_spec hnum hden
  obtain ⟨k, hk⟩ : ∃ k : ℕ, k = (binade num den + 1022).toNat := ⟨_, rfl⟩
  have hpos : (0 : ℚ) < 2 ^ (k - 1074 : ℤ) := by positivity
  have hunit (j : ℕ) : (2 : ℚ) ^ j * 2 ^ (k - 1074 : ℤ) = 2 ^ (j + (k - 1074) : ℤ) := by
    rw [zpow_add₀ two_ne_zero, zpow_natCast]
  refine ⟨k, ?_, ?_⟩
  · rcases Nat.eq_zero_or_pos k with h | h
    · exact .inl h
    · right
      rw [le_div_iff₀ hpos, hunit]
      have hexp : ((52 : ℕ) + (k - 1074) : ℤ) = binade num den := by push_cast; omega
      rwa [hexp]
  · rw [div_lt_iff₀ hpos, hunit]
    refine hhigh.trans_le (zpow_le_zpow_right₀ one_le_two ?_)
    push_cast
    omega

theorem infinity_ne (hfinite : x.exponentField ≠ 0x7ff) : infinity false ≠ x := by
  rintro rfl
  exact hfinite (by decide)

theorem div_unit_succ (q : ℚ) (k : ℕ) : q / 2 ^ ((k + 1 : ℕ) - 1074 : ℤ) = q / 2 ^ (k - 1074 : ℤ) / 2 := by
  have hexp : ((k + 1 : ℕ) - 1074 : ℤ) = k - 1074 + 1 := by push_cast; ring
  rw [hexp, zpow_add_one₀ two_ne_zero, div_div]

theorem RoundsTo.two_pow_le {q : ℚ} {m : ℕ} (h : RoundsTo q m) {j : ℕ} (hq : (2 : ℚ) ^ j ≤ q) : 2 ^ j ≤ m := by
  by_contra hlt
  have hcast : (m : ℚ) + 1 ≤ 2 ^ j := by exact_mod_cast Nat.lt_of_not_le hlt
  linarith [h.2.1]

theorem RoundsTo.le_two_pow {q : ℚ} {m : ℕ} (h : RoundsTo q m) {j : ℕ} (hq : q < 2 ^ j) : m ≤ 2 ^ j := by
  by_contra hlt
  have hcast : (2 : ℚ) ^ j + 1 ≤ m := by exact_mod_cast Nat.lt_of_not_le hlt
  linarith [h.1]

/-- What rounds to a double in its own unit or, just below a power of two, in the unit below it is covered by it. -/
theorem covers_of_ofRatio (hx : x.IsPositive) {num den : ℕ} (hnum : 0 < num) (hden : 0 < den)
    (h : ofRatio false num den = x) : x.Covers (num / den) := by
  have hsteps := steps_lt hx.finite
  have hbound := x.significand_lt
  have hnormal := x.steps_eq_zero_or
  obtain ⟨k, hlow, hhigh⟩ := exists_unit hnum hden
  obtain ⟨m, hround⟩ : ∃ m, RoundsTo ((num : ℚ) / den / 2 ^ (k - 1074 : ℤ)) m := ⟨_, roundsTo_scaled num hden _⟩
  have hmlow : k = 0 ∨ 2 ^ 52 ≤ m := hlow.imp_right hround.two_pow_le
  have hmhigh : m ≤ 2 ^ 53 := hround.le_two_pow hhigh
  unfold Covers
  rw [scale_eq, isNarrow_iff]
  rw [ofRatio_eq false hnum hden hlow hhigh hround] at h
  split at h
  case isTrue => exact absurd h (infinity_ne hx.finite)
  case isFalse hfinite =>
    rw [ofMagnitudeBits_eq_iff hx.sign (by omega)] at h
    -- the unit is that of the double, unless rounding has carried into the next binade
    have hunit : (k = x.steps ∧ m = x.significand) ∨ (k + 1 = x.steps ∧ m = 2 ^ 53 ∧ x.significand = 2 ^ 52) := by
      omega
    rcases hunit with ⟨rfl, rfl⟩ | ⟨hk, rfl, hsignificand⟩
    · refine ⟨hround, fun ⟨hsignificand, hpos⟩ => ?_⟩
      rw [hsignificand]
      push_cast
      linarith [hlow.resolve_left hpos.ne']
    · obtain ⟨hround, -, -⟩ := hround
      push_cast at hround
      rw [← hk, div_unit_succ, hsignificand]
      refine ⟨⟨?_, ?_, fun _ => rfl⟩, fun _ => ?_⟩
      all_goals
        push_cast
        linarith

/-- A quotient rounds to a positive double if, and only if, the double covers it. -/
theorem ofRatio_eq_iff (hx : x.IsPositive) {num den : ℕ} (hnum : 0 < num) (hden : 0 < den) :
    ofRatio false num den = x ↔ x.Covers (num / den) := by
  refine ⟨covers_of_ofRatio hx hnum hden, fun ⟨hround, hnarrow⟩ => ?_⟩
  have hsteps := steps_lt hx.finite
  have hbound := x.significand_lt
  have hboundCast : (x.significand : ℚ) + 1 ≤ 2 ^ 53 := by exact_mod_cast hbound
  rw [scale_eq] at hround hnarrow
  rw [isNarrow_iff] at hnarrow
  by_cases hbelow : (x.significand = 2 ^ 52 ∧ 0 < x.steps) ∧
      (num : ℚ) / den / 2 ^ (x.steps - 1074 : ℤ) < x.significand
  · -- below a power of two the unit is half as large
    obtain ⟨⟨hsignificand, hpos⟩, hlt⟩ := hbelow
    obtain ⟨k, hk⟩ : ∃ k, x.steps = k + 1 := ⟨x.steps - 1, by omega⟩
    have hclose := hnarrow ⟨hsignificand, hpos⟩
    rw [hk, div_unit_succ, hsignificand] at hclose hlt
    push_cast at hclose hlt
    have hround' : RoundsTo ((num : ℚ) / den / 2 ^ (k - 1074 : ℤ)) (2 ^ 53) := by
      refine ⟨?_, ?_, fun _ => rfl⟩
      all_goals
        push_cast
        linarith
    rw [ofRatio_eq false hnum hden (.inr (by linarith)) (by linarith) hround', if_neg (by omega),
      ofMagnitudeBits_eq_iff hx.sign (by omega)]
    omega
  · have hlow : x.steps = 0 ∨ (2 : ℚ) ^ 52 ≤ num / den / 2 ^ (x.steps - 1074 : ℤ) := by
      rcases Nat.eq_zero_or_pos x.steps with hzero | hpos
      · exact .inl hzero
      · right
        have hnormal := x.steps_eq_zero_or.resolve_left hpos.ne'
        rcases hnormal.eq_or_lt with heq | hlt
        · have hge := not_lt.1 fun hlt => hbelow ⟨⟨heq.symm, hpos⟩, hlt⟩
          rw [← heq] at hge
          exact_mod_cast hge
        · have hcast : (2 : ℚ) ^ 52 + 1 ≤ x.significand := by exact_mod_cast hlt
          linarith [hround.1]
    have hhigh : (num : ℚ) / den / 2 ^ (x.steps - 1074 : ℤ) < 2 ^ 53 := by linarith [hround.2.1]
    rw [ofRatio_eq false hnum hden hlow hhigh hround, if_neg (by omega), ofMagnitudeBits_eq_iff hx.sign (by omega)]

/-! ## What a double covers -/

/-- The value of a double as it is covered by it. -/
def value (x : Double) : ℚ := x.significand * 2 ^ x.scale

theorem toRat_eq (x : Double) : x.toRat = if x.negative then -x.value else x.value := by
  have hsigned (m : ℤ) : (if 0 ≤ x.scale then mkRat (m * 2 ^ x.scale.toNat) 1 else mkRat m (2 ^ (-x.scale).toNat)) =
      (m : ℚ) * 2 ^ x.scale := by
    split
    case isTrue h =>
      rw [← pow_toNat 2 h, Rat.mkRat_eq_div]
      push_cast
      rw [div_one]
    case isFalse h =>
      rw [Rat.mkRat_eq_div]
      push_cast
      rw [pow_toNat_neg 2 (by omega), div_inv_eq_mul]
  unfold toRat value
  simp only [hsigned]
  cases x.negative <;> simp

theorem toRat_eq_value (hsign : x.negative = false) : x.toRat = x.value := by
  rw [toRat_eq, hsign, if_neg Bool.false_ne_true]

theorem IsPositive.value_pos (hx : x.IsPositive) : 0 < x.value := by
  have : (0 : ℚ) < x.significand := by exact_mod_cast hx.pos
  unfold value
  positivity

theorem covers_value (x : Double) : x.Covers x.value := by
  have hvalue : x.value / 2 ^ x.scale = x.significand := by
    rw [value, mul_div_cancel_right₀ _ (by positivity)]
  unfold Covers RoundsTo
  rw [hvalue]
  refine ⟨⟨by linarith, by linarith, ?_⟩, fun _ => by linarith⟩
  rintro (h | h) <;> linarith

theorem Covers.abs_sub_value_le {q : ℚ} (h : x.Covers q) : |q - x.value| ≤ 2 ^ x.scale / 2 := by
  have hunit : (0 : ℚ) < 2 ^ x.scale := by positivity
  obtain ⟨⟨hlow, hhigh, -⟩, -⟩ := h
  rw [le_div_iff₀ hunit] at hlow
  rw [div_le_iff₀ hunit] at hhigh
  rw [value, abs_le]
  constructor <;> linarith

/-- What lies between two quotients that a double covers is covered as well. -/
theorem Covers.between {p q r : ℚ} (hp : x.Covers p) (hr : x.Covers r) (hpq : p ≤ q) (hqr : q ≤ r) : x.Covers q := by
  have hpos : (0 : ℚ) < 2 ^ x.scale := by positivity
  obtain ⟨⟨hp1, hp2, hp3⟩, hp4⟩ := hp
  obtain ⟨⟨hr1, hr2, hr3⟩, hr4⟩ := hr
  have hpq' : p / 2 ^ x.scale ≤ q / 2 ^ x.scale := by gcongr
  have hqr' : q / 2 ^ x.scale ≤ r / 2 ^ x.scale := by gcongr
  refine ⟨⟨hp1.trans hpq', hqr'.trans hr2, ?_⟩, fun h => (hp4 h).trans hpq'⟩
  rintro (h | h)
  · exact hp3 (.inl (le_antisymm (hpq'.trans h.le) hp1))
  · exact hr3 (.inr (le_antisymm hr2 (h.symm.le.trans hqr')))

theorem Covers.pos (hx : x.IsPositive) {q : ℚ} (h : x.Covers q) : 0 < q := by
  have hpos : (0 : ℚ) < 2 ^ x.scale := by positivity
  have hsig : (1 : ℚ) ≤ x.significand := by exact_mod_cast hx.pos
  have hq : 0 < q / 2 ^ x.scale := by linarith [h.1.1]
  exact (div_pos_iff_of_pos_right hpos).1 hq

/-! ## Signs -/

/-- The double without its sign. -/
def magnitude (x : Double) : Double := ofMagnitudeBits false (x.bits.toNat % 2 ^ 63)

theorem negative_ofMagnitudeBits (negative : Bool) {n : ℕ} (hn : n < 2 ^ 63) :
    (ofMagnitudeBits negative n).negative = negative := by
  rw [Double.negative, toNat_ofMagnitudeBits negative hn]
  cases negative
  · rw [beq_eq_false_iff_ne, if_neg Bool.false_ne_true]
    omega
  · rw [beq_iff_eq, if_pos rfl]
    omega

theorem magnitude_ofMagnitudeBits (negative : Bool) {n : ℕ} (hn : n < 2 ^ 63) :
    (ofMagnitudeBits negative n).magnitude = ofMagnitudeBits false n := by
  rw [magnitude, toNat_ofMagnitudeBits negative hn]
  congr 1
  split <;> omega

theorem toNat_magnitude (x : Double) : x.magnitude.bits.toNat = x.bits.toNat % 2 ^ 63 :=
  toNat_ofMagnitudeBits false (Nat.mod_lt _ (by decide))

theorem magnitude_eq_self (hsign : x.negative = false) : x.magnitude = x := by
  have hmod : x.bits.toNat % 2 ^ 63 = x.bits.toNat := by
    have hlt : x.bits.toNat / 2 ^ 63 ≠ 1 := by simpa [negative] using hsign
    have h64 := x.bits.toNat_lt
    omega
  rw [magnitude, ofMagnitudeBits_eq_iff hsign (Nat.mod_lt _ (by decide)), hmod, toNat_bits hsign]

theorem exponentField_magnitude (x : Double) : x.magnitude.exponentField = x.exponentField := by
  unfold exponentField
  rw [toNat_magnitude]
  omega

theorem significand_magnitude (x : Double) : x.magnitude.significand = x.significand := by
  have hfraction : x.magnitude.fraction = x.fraction := by
    unfold fraction
    rw [toNat_magnitude]
    omega
  unfold significand
  rw [exponentField_magnitude, hfraction]

theorem isPositive_magnitude (hfinite : x.exponentField ≠ 0x7ff) (hpos : 0 < x.significand) :
    x.magnitude.IsPositive where
  sign := negative_ofMagnitudeBits false (Nat.mod_lt _ (by decide))
  finite := by rwa [exponentField_magnitude]
  pos := by rwa [significand_magnitude]

/-- The sign of a rounded quotient is only a sign. -/
theorem exists_ofRatio_eq (num den : ℕ) :
    ∃ n < 2 ^ 63, ∀ negative : Bool, ofRatio negative num den = ofMagnitudeBits negative n := by
  rcases Nat.eq_zero_or_pos num with hzero | hpos
  · exact ⟨0, by norm_num, fun negative => if_pos hzero⟩
  · unfold ofRatio
    simp only [if_neg hpos.ne']
    generalize max (binade num den) (-1022) - 52 = e
    generalize (if 0 ≤ e then roundedDiv num (den * 2 ^ e.toNat) else roundedDiv (num * 2 ^ (-e).toNat) den) = m
    have hinfinity : 0x7ff * 2 ^ 52 < 2 ^ 63 := by norm_num
    by_cases h : 0x7ff * 2 ^ 52 ≤ (e + 1074).toNat * 2 ^ 52 + m
    · exact ⟨_, hinfinity, fun negative => if_pos h⟩
    · exact ⟨_, (Nat.lt_of_not_le h).trans hinfinity, fun negative => if_neg h⟩

theorem negative_ofRatio (negative : Bool) (num den : ℕ) : (ofRatio negative num den).negative = negative := by
  obtain ⟨n, hn, h⟩ := exists_ofRatio_eq num den
  rw [h, negative_ofMagnitudeBits negative hn]

theorem magnitude_ofRatio (negative : Bool) (num den : ℕ) :
    (ofRatio negative num den).magnitude = ofRatio false num den := by
  obtain ⟨n, hn, h⟩ := exists_ofRatio_eq num den
  rw [h, h, magnitude_ofMagnitudeBits negative hn]

/-! ## Integers -/

/-- The fields of a double made of its fields. -/
theorem fields_ofMagnitudeBits {k m : ℕ} (hk : k < 2046) (hm : m < 2 ^ 53) (hnormal : k = 0 ∨ 2 ^ 52 ≤ m) :
    (ofMagnitudeBits false (k * 2 ^ 52 + m)).negative = false ∧
      (ofMagnitudeBits false (k * 2 ^ 52 + m)).exponentField ≠ 0x7ff ∧
      (ofMagnitudeBits false (k * 2 ^ 52 + m)).significand = m ∧
      (ofMagnitudeBits false (k * 2 ^ 52 + m)).steps = k := by
  have hbits : (ofMagnitudeBits false (k * 2 ^ 52 + m)).bits.toNat = k * 2 ^ 52 + m := by
    rw [toNat_ofMagnitudeBits false (by omega), if_neg Bool.false_ne_true, Nat.add_zero]
  have hfield : (ofMagnitudeBits false (k * 2 ^ 52 + m)).exponentField = if m < 2 ^ 52 then 0 else k + 1 := by
    unfold exponentField
    rw [hbits]
    split <;> omega
  have hfraction : (ofMagnitudeBits false (k * 2 ^ 52 + m)).fraction = m % 2 ^ 52 := by
    unfold fraction
    rw [hbits]
    omega
  refine ⟨?_, ?_, ?_, ?_⟩
  · simp only [negative, hbits, beq_eq_false_iff_ne]
    omega
  · rw [hfield]
    split <;> omega
  · unfold significand
    rw [hfield, hfraction]
    split <;> split <;> omega
  · unfold steps
    rw [hfield]
    split <;> omega

/-- An integer below 2^53 is a double. -/
theorem ofRatio_natCast {n : ℕ} (hpos : 0 < n) (hn : n < 2 ^ 53) :
    (ofRatio false n 1).IsPositive ∧ (ofRatio false n 1).value = n := by
  obtain ⟨k, hlow, hhigh⟩ := exists_unit hpos Nat.one_pos
  rw [Nat.cast_one, div_one] at hlow hhigh
  have hunit : (0 : ℚ) < 2 ^ (k - 1074 : ℤ) := by positivity
  have hone : (1 : ℚ) ≤ n := by exact_mod_cast hpos
  have hcast : (n : ℚ) < 2 ^ 53 := by exact_mod_cast hn
  have hk : k ≤ 1074 := by
    by_contra hgt
    have hge : (2 : ℚ) ^ (1 : ℤ) ≤ 2 ^ (k - 1074 : ℤ) := zpow_le_zpow_right₀ (by decide) (by omega)
    rw [zpow_one] at hge
    rcases hlow with rfl | hlow
    · omega
    · rw [le_div_iff₀ hunit] at hlow
      linarith
  have hm : (n : ℚ) / 2 ^ (k - 1074 : ℤ) = (n * 2 ^ (1074 - k) : ℕ) := by
    push_cast
    rw [← zpow_natCast, Nat.cast_sub hk, div_eq_mul_inv, ← zpow_neg, neg_sub]
    rfl
  have hlow' : k = 0 ∨ 2 ^ 52 ≤ n * 2 ^ (1074 - k) := by
    rw [hm] at hlow
    exact_mod_cast hlow
  have hhigh' : n * 2 ^ (1074 - k) < 2 ^ 53 := by
    rw [hm] at hhigh
    exact_mod_cast hhigh
  have hround : RoundsTo (n / 2 ^ (k - 1074 : ℤ)) (n * 2 ^ (1074 - k)) := by
    rw [hm]
    refine ⟨by linarith, by linarith, ?_⟩
    rintro (h | h) <;> linarith
  obtain ⟨hsign, hfinite, hsignificand, hsteps⟩ := fields_ofMagnitudeBits (k := k) (by omega) hhigh' hlow'
  have heq : ofRatio false n 1 = ofMagnitudeBits false (k * 2 ^ 52 + n * 2 ^ (1074 - k)) := by
    have h := ofRatio_eq (k := k) (m := n * 2 ^ (1074 - k)) false hpos Nat.one_pos (by rwa [Nat.cast_one, div_one])
      (by rwa [Nat.cast_one, div_one]) (by rwa [Nat.cast_one, div_one])
    rw [h, if_neg (by omega)]
  rw [heq]
  refine ⟨⟨hsign, hfinite, by rw [hsignificand]; positivity⟩, ?_⟩
  rw [value, hsignificand, scale_eq, hsteps, ← hm, div_mul_cancel₀ _ hunit.ne']

/-- A positive integer rounds to a positive double or to infinity. -/
theorem isPositive_ofRatio {n : ℕ} (hpos : 0 < n) (hfinite : (ofRatio false n 1).exponentField ≠ 0x7ff) :
    (ofRatio false n 1).IsPositive := by
  have hsign := negative_ofRatio false n 1
  have hbits : 0 < (ofRatio false n 1).bits.toNat := by
    obtain ⟨k, hlow, hhigh⟩ := exists_unit hpos Nat.one_pos
    obtain ⟨m, hround⟩ : ∃ m, RoundsTo ((n : ℚ) / (1 : ℕ) / 2 ^ (k - 1074 : ℤ)) m :=
      ⟨_, roundsTo_scaled n Nat.one_pos _⟩
    have hm : 2 ^ 0 ≤ m := by
      refine hround.two_pow_le ?_
      rcases hlow with rfl | hlow
      · rw [Nat.cast_one, div_one, pow_zero, one_le_div (by positivity)]
        have hone : (1 : ℚ) ≤ n := by exact_mod_cast hpos
        exact (zpow_le_one_of_nonpos₀ one_le_two (by decide)).trans hone
      · exact le_trans (by norm_num) hlow
    rw [ofRatio_eq false hpos Nat.one_pos hlow hhigh hround] at hfinite ⊢
    split at hfinite
    case isTrue => exact absurd (by decide) hfinite
    case isFalse h =>
      rw [if_neg h, toNat_ofMagnitudeBits false (by omega)]
      omega
  refine ⟨hsign, hfinite, ?_⟩
  rw [toNat_bits hsign] at hbits
  have := steps_eq_zero_or (ofRatio false n 1)
  omega

/-- A double whose unit is more than one is at least 2^53. -/
theorem le_value_of_scale_pos (h : 0 < x.scale) : (2 : ℚ) ≤ 2 ^ x.scale ∧ 2 ^ 52 * 2 ^ x.scale ≤ x.value := by
  have hnormal := x.steps_eq_zero_or.resolve_left (by have := x.scale_eq; omega)
  have hcast : (2 : ℚ) ^ 52 ≤ x.significand := by exact_mod_cast hnormal
  have hunit : (2 : ℚ) ^ (1 : ℤ) ≤ 2 ^ x.scale := zpow_le_zpow_right₀ (by decide) (by omega)
  rw [zpow_one] at hunit
  exact ⟨hunit, mul_le_mul_of_nonneg_right hcast (by positivity)⟩

theorem scale_le (hlt : x.value < 2 ^ 53) : x.scale ≤ 0 := by
  by_contra hpos
  obtain ⟨hunit, hvalue⟩ := le_value_of_scale_pos (not_le.1 hpos)
  linarith

/-- A double whose unit is at most one is at most 2^53 - 1. -/
theorem value_le (hscale : x.scale ≤ 0) : x.value ≤ 2 ^ 53 - 1 := by
  have hunit : (2 : ℚ) ^ x.scale ≤ 1 := zpow_le_one_of_nonpos₀ one_le_two hscale
  have hsignificand : (x.significand : ℚ) + 1 ≤ 2 ^ 53 := by exact_mod_cast x.significand_lt
  have hvalue : x.value ≤ x.significand * 1 := mul_le_mul_of_nonneg_left hunit (Nat.cast_nonneg _)
  linarith

/-- An integer that rounds to a double below 2^53 is below 2^53 as well. -/
theorem Covers.natCast_lt {n : ℕ} (h : x.Covers n) (hlt : x.value < 2 ^ 53) : n < 2 ^ 53 := by
  have hscale := scale_le hlt
  have hunit : (2 : ℚ) ^ x.scale ≤ 1 := zpow_le_one_of_nonpos₀ one_le_two hscale
  have hdist := (abs_le.1 h.abs_sub_value_le).2
  have hcast : (n : ℚ) < 2 ^ 53 := by
    have hvalue := value_le hscale
    linarith
  exact_mod_cast hcast

end Double
end ScriptTidy
