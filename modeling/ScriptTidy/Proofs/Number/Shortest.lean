/-
The shortest decimal of a double. The search goes from the grid of one digit to finer ones. It starts
at the right power of ten, since the logarithm of two is known well enough, and ends after seventeen
digits at the latest, since the points of that grid lie closer together than the doubles. What it
finds first has the fewest digits of all decimals that round to the double, no decimal of so many
digits is nearer to it, and of two that are as near the even one is found. There is only one such
decimal.
-/
import ScriptTidy.Proofs.Number.Grid

namespace ScriptTidy

namespace Shortest

open Double (RoundsTo pow_toNat)

variable {x : Double} {e : ℤ}

/-! ## From grid to grid -/

/-- The search stops at the first grid on which something is found. -/
theorem search_spec {i : Interval} {top : ℤ} : ∀ fuel count : ℕ,
    (∃ j, count ≤ j ∧ j ≤ count + fuel ∧ (onGrid? i (top - j)).isSome) →
    ∃ j n, count ≤ j ∧ j ≤ count + fuel ∧ search i top count fuel = (n, top - j) ∧ onGrid? i (top - j) = some n ∧
      ∀ j', count ≤ j' → j' < j → onGrid? i (top - j') = none
  | 0, count, h => by
    obtain ⟨j, hle, hge, hsome⟩ := h
    obtain rfl : j = count := le_antisymm hge hle
    obtain ⟨n, hn⟩ := Option.isSome_iff_exists.1 hsome
    refine ⟨j, n, le_rfl, le_rfl, ?_, hn, fun j' hle hlt => absurd hlt (Nat.not_lt.2 hle)⟩
    rw [search, hn]
    rfl
  | fuel + 1, count, h => by
    rw [search]
    cases hcount : onGrid? i (top - count) with
    | some n =>
      exact ⟨count, n, le_rfl, Nat.le_add_right .., rfl, hcount, fun j' hle hlt => absurd hlt (Nat.not_lt.2 hle)⟩
    | none =>
      obtain ⟨j, hle, hge, hsome⟩ := h
      have hne : j ≠ count := by
        rintro rfl
        rw [hcount] at hsome
        cases hsome
      obtain ⟨k, n, hk, hk', hsearch, hfound, hfirst⟩ :=
        search_spec fuel (count + 1) ⟨j, by omega, by omega, hsome⟩
      refine ⟨k, n, by omega, by omega, hsearch, hfound, fun j' hle' hlt => ?_⟩
      rcases Nat.eq_or_lt_of_le hle' with rfl | hlt'
      · exact hcount
      · exact hfirst j' hlt' hlt

/-- On a grid of seventeen digits some point is covered. -/
theorem exists_covers_of_fine (hfine : (10 : ℚ) ^ 16 * 10 ^ e ≤ x.value) :
    ∃ k : ℕ, x.Covers (k * 10 ^ e) := by
  have hden : 0 < (interval x).value.den := den_dyadic_pos ..
  have hunit : (0 : ℚ) < 2 ^ x.scale := by positivity
  obtain ⟨hq, hq'⟩ := below_spec hden e
  rw [show (interval x).value.toRat = x.value from toRat_dyadic ..] at hq hq'
  generalize below (interval x).value e = q at hq hq'
  by_contra hnone
  rw [not_exists] at hnone
  have hlow := hnone q
  have hhigh := hnone (q + 1)
  have hbound : (x.significand : ℚ) + 1 ≤ 2 ^ 53 := by exact_mod_cast x.significand_lt
  -- everything in units of the last place
  rw [Double.value] at hq hq' hfine
  rw [← div_le_iff₀ hunit] at hq hfine
  rw [← lt_div_iff₀ hunit] at hq'
  unfold Double.Covers at hlow hhigh
  rw [mul_div_assoc] at hlow hhigh hq hq' hfine
  generalize (10 : ℚ) ^ e / 2 ^ x.scale = g at hlow hhigh hq hq' hfine
  have hnear {t : ℚ} (h : (x.significand : ℚ) - 1 / 2 < t) (h' : t < x.significand + 1 / 2) :
      RoundsTo t x.significand := by
    refine ⟨h.le, h'.le, ?_⟩
    rintro (h | h) <;> linarith
  have hup : (x.significand : ℚ) + 1 / 2 ≤ (q + 1) * g := by
    by_contra hlt
    refine hhigh ⟨hnear ?_ ?_, fun _ => ?_⟩ <;> push_cast <;> linarith
  cases hnarrow : x.isNarrow with
  | true =>
    have hdown : q * g ≤ (x.significand : ℚ) - 1 / 4 := by
      by_contra hlt
      exact hlow ⟨hnear (by linarith) (by linarith), fun _ => by linarith⟩
    rw [(Double.isNarrow_iff.1 hnarrow).1] at hdown hup hfine
    push_cast at hdown hup hfine
    linarith
  | false =>
    have hdown : q * g ≤ (x.significand : ℚ) - 1 / 2 := by
      by_contra hlt
      exact hlow ⟨hnear (by linarith) (by linarith), fun h => by rw [hnarrow] at h; cases h⟩
    linarith

/-- The search for the magnitude ends at the power of ten above the value. -/
theorem magnitude_spec {r : Ratio} (hr : 0 < r.den) : ∀ (fuel : ℕ) {start : ℤ}, (10 : ℚ) ^ (start - 1) ≤ r.toRat →
    r.toRat < 10 ^ (start + fuel) →
    (10 : ℚ) ^ (magnitude r start fuel - 1) ≤ r.toRat ∧ r.toRat < 10 ^ magnitude r start fuel
  | 0, start, hlow, hhigh => by
    rw [magnitude]
    exact ⟨hlow, by simpa using hhigh⟩
  | fuel + 1, start, hlow, hhigh => by
    have hle : (decimal 1 start).le r ↔ (10 : ℚ) ^ start ≤ r.toRat := by
      rw [Ratio.le_iff (den_decimal_pos ..) hr, toRat_decimal, Nat.cast_one, one_mul]
    rw [magnitude]
    simp only [hle]
    split
    case isTrue h =>
      refine magnitude_spec hr fuel (by rwa [add_sub_cancel_right]) (hhigh.trans_eq ?_)
      congr 1
      push_cast
      ring
    case isFalse h => exact ⟨hlow, not_le.1 h⟩

/-- The logarithm of two in base ten is 30103 / 100000 to five digits. -/
theorem log_two : 2 ^ 100000 ≤ 10 ^ 30103 ∧ 10 ^ 30103 ≤ 2 * 2 ^ 100000 := by decide +kernel

/-- Powers of two and of ten whose exponents correspond differ by little. -/
theorem pow_ten_near {l : ℤ} (hl : -2000 ≤ l) (hl' : l ≤ 2000) :
    (2 : ℚ) ^ (100000 * l) ≤ 10 ^ (30103 * l + 2000) ∧ (10 : ℚ) ^ (30103 * l) ≤ 2 ^ (100000 * l) * 10 ^ (2000 : ℤ) := by
  obtain ⟨h, h'⟩ := log_two
  obtain ⟨a, ha⟩ : ∃ a : ℚ, a = 10 ^ 30103 := ⟨_, rfl⟩
  obtain ⟨b, hb⟩ : ∃ b : ℚ, b = 2 ^ 100000 := ⟨_, rfl⟩
  have hab : b ≤ a := by rw [ha, hb]; exact_mod_cast h
  have hab' : a ≤ 2 * b := by rw [ha, hb]; exact_mod_cast h'
  have hten : (10 : ℚ) ^ (30103 * l) = a ^ l := by rw [zpow_mul, ha]; rfl
  have htwo : (2 : ℚ) ^ (100000 * l) = b ^ l := by rw [zpow_mul, hb]; rfl
  have hbpos : 0 < b := by rw [hb]; positivity
  have hapos : 0 < a := hbpos.trans_le hab
  have hratio : 1 ≤ a / b := (one_le_div₀ hbpos).2 hab
  have hratio' : a / b ≤ 10 := (div_le_iff₀ hbpos).2 (by linarith only [hab', hbpos])
  have hbound {j : ℤ} (hj : j ≤ 2000) : (a / b) ^ j ≤ 10 ^ (2000 : ℤ) :=
    (zpow_le_zpow_right₀ hratio hj).trans (zpow_le_zpow_left₀ (by decide) (by positivity) hratio')
  rw [zpow_add₀ (by decide), hten, htwo]
  constructor
  · have hinv := hbound (j := -l) (by omega)
    rwa [zpow_neg, div_zpow, inv_div, div_le_iff₀ (by positivity), mul_comm] at hinv
  · have hpow := hbound hl'
    rwa [div_zpow, div_le_iff₀ (by positivity), mul_comm] at hpow

/-- The estimate of the magnitude from the exponent of the power of two is close enough. -/
theorem guess_close {l : ℤ} (hl : -2000 ≤ l) (hl' : l < 2000) :
    (10 : ℚ) ^ (l * 30103 / 100000 - 2 - 1) ≤ 2 ^ l ∧ (2 : ℚ) ^ (l + 1) ≤ 10 ^ (l * 30103 / 100000 - 2 + 6) := by
  obtain ⟨g, hg⟩ : ∃ g : ℤ, g = l * 30103 / 100000 := ⟨_, rfl⟩
  rw [← hg]
  have hroot {p q : ℚ} (hq : 0 ≤ q) (h : p ^ (100000 : ℤ) ≤ q ^ (100000 : ℤ)) : p ≤ q :=
    le_of_not_gt fun hlt => absurd h (not_le.2 (zpow_lt_zpow_left₀ (by decide) hq hlt))
  constructor
  · refine hroot (by positivity) ?_
    rw [← zpow_mul, ← zpow_mul, mul_comm l]
    obtain ⟨-, hnear⟩ := pow_ten_near hl hl'.le
    rw [← div_le_iff₀ (by positivity), ← zpow_sub₀ (by decide)] at hnear
    exact (zpow_le_zpow_right₀ (by decide) (by omega)).trans hnear
  · refine hroot (by positivity) ?_
    rw [← zpow_mul, ← zpow_mul, mul_comm (l + 1)]
    obtain ⟨hnear, -⟩ := pow_ten_near (l := l + 1) (by omega) (by omega)
    exact hnear.trans (zpow_le_zpow_right₀ (by decide) (by omega))

/-- The exponent of the power of two below a positive double. -/
theorem log_spec (hx : x.IsPositive) : ∃ l : ℤ, l = (x.significand.log2 : ℤ) + x.scale ∧ -2000 ≤ l ∧ l < 2000 ∧
    (2 : ℚ) ^ l ≤ x.value ∧ x.value < 2 ^ (l + 1) := by
  have hlow : (2 : ℚ) ^ x.significand.log2 ≤ x.significand := by exact_mod_cast Nat.log2_self_le hx.pos.ne'
  have hhigh : (x.significand : ℚ) < 2 ^ (x.significand.log2 + 1) := by exact_mod_cast Nat.lt_log2_self
  have hlog : x.significand.log2 < 53 := (Nat.log2_lt hx.pos.ne').2 x.significand_lt
  have hsteps := Double.steps_lt hx.finite
  have hscale := x.scale_eq
  refine ⟨_, rfl, by omega, by omega, ?_, ?_⟩
  · rw [Double.value, zpow_add₀ two_ne_zero, zpow_natCast]
    gcongr
  · rw [Double.value, add_right_comm, zpow_add₀ two_ne_zero]
    gcongr
    exact_mod_cast hhigh

/-- Where the search starts, and what it finds: the nearest point of the first grid with a point that is covered. -/
theorem exists_hit (hx : x.IsPositive) : ∃ (top : ℤ) (j n : ℕ), (10 : ℚ) ^ (top - 1) ≤ x.value ∧ x.value < 10 ^ top ∧
    1 ≤ j ∧ j ≤ 18 ∧ IsNearest x (top - j) n ∧
    (∀ j' : ℕ, 1 ≤ j' → j' < j → ∀ k : ℕ, ¬ x.Covers (k * 10 ^ (top - j' : ℤ))) ∧
    x.shortest = stripZeros 20 (n, top - j) := by
  have hden : 0 < (interval x).value.den := den_dyadic_pos ..
  have hvalue : (interval x).value.toRat = x.value := toRat_dyadic ..
  obtain ⟨l, hl, hmin, hmax, hlow, hhigh⟩ := log_spec hx
  obtain ⟨hguess, hguess'⟩ := guess_close hmin hmax
  obtain ⟨top, htop⟩ : ∃ top, top = magnitude (interval x).value (l * 30103 / 100000 - 2) 6 := ⟨_, rfl⟩
  obtain ⟨htopLow, htopHigh⟩ := magnitude_spec hden 6 (by rw [hvalue]; exact hguess.trans hlow)
    (by rw [hvalue]; exact hhigh.trans_le hguess')
  rw [← htop, hvalue] at htopLow htopHigh
  have hfine : (10 : ℚ) ^ 16 * 10 ^ (top - 17) ≤ x.value := by
    rwa [← zpow_natCast, ← zpow_add₀ (by decide), show ((16 : ℕ) : ℤ) + (top - 17) = top - 1 by push_cast; ring]
  have hsome : (onGrid? (interval x) (top - (17 : ℕ))).isSome := by
    have hspec := onGrid?_spec hx (top - 17)
    obtain ⟨k, hk⟩ := exists_covers_of_fine hfine
    split at hspec
    case h_1 hgrid => exact Option.isSome_iff_exists.2 ⟨_, hgrid⟩
    case h_2 => exact absurd hk (hspec k)
  obtain ⟨j, n, hj, hj', hsearch, hfound, hfirst⟩ := search_spec 17 1 ⟨17, by decide, by decide, hsome⟩
  refine ⟨top, j, n, htopLow, htopHigh, hj, hj', ?_, fun j' hone hlt => ?_, ?_⟩
  · have hspec := onGrid?_spec hx (top - j)
    rwa [hfound] at hspec
  · have hspec := onGrid?_spec hx (top - j')
    rwa [hfirst j' hone hlt] at hspec
  · rw [← hsearch, htop, hl]
    rfl

/-! ## The shortest decimal -/

/-- The number of decimal digits of a natural number. -/
def digitCount (n : ℕ) : ℕ := (decimalDigitsOf n).length

theorem digitCount_le_iff {n k : ℕ} (hk : 0 < k) : digitCount n ≤ k ↔ n < 10 ^ k :=
  Nat.length_toDigits_le_iff (by decide) hk

theorem digitCount_pos (n : ℕ) : 0 < digitCount n := Nat.length_toDigits_pos

theorem lt_pow_digitCount (n : ℕ) : n < 10 ^ digitCount n := (digitCount_le_iff (digitCount_pos n)).1 le_rfl

theorem pow_le_of_lt_digitCount {n k : ℕ} (hn : 0 < n) (h : k < digitCount n) : 10 ^ k ≤ n := by
  rcases Nat.eq_zero_or_pos k with rfl | hk
  · exact hn
  · exact Nat.le_of_not_lt fun hlt => absurd ((digitCount_le_iff hk).2 hlt) (Nat.not_le.2 h)

theorem pow_pred_le {n : ℕ} (hn : 0 < n) : 10 ^ (digitCount n - 1) ≤ n :=
  pow_le_of_lt_digitCount hn (Nat.sub_one_lt (digitCount_pos n).ne')

theorem digitCount_mono {m n : ℕ} (h : m ≤ n) : digitCount m ≤ digitCount n :=
  (digitCount_le_iff (digitCount_pos n)).2 (h.trans_lt (lt_pow_digitCount n))

theorem digitCount_mul_pow {n : ℕ} (hn : 0 < n) (z : ℕ) : digitCount (n * 10 ^ z) = digitCount n + z := by
  refine le_antisymm ?_ ?_
  · rw [digitCount_le_iff (Nat.add_pos_left (digitCount_pos n) z), pow_add]
    exact Nat.mul_lt_mul_of_pos_right (lt_pow_digitCount n) (by positivity)
  · obtain ⟨k, hk⟩ : ∃ k, digitCount n = k + 1 := ⟨digitCount n - 1, by have := digitCount_pos n; omega⟩
    have hlow : 10 ^ k ≤ n := pow_le_of_lt_digitCount hn (by omega)
    have hlow' : 10 ^ (k + z) ≤ n * 10 ^ z := by
      rw [pow_add]
      exact Nat.mul_le_mul_right _ hlow
    have hlt := (Nat.pow_lt_pow_iff_right (by decide)).1 (hlow'.trans_lt (lt_pow_digitCount (n * 10 ^ z)))
    omega

/-- Trailing zeros are dropped as long as there are any. -/
theorem stripZeros_spec : ∀ (fuel : ℕ) {n : ℕ} (e : ℤ), 0 < n → n < 10 ^ fuel →
    ∃ s z : ℕ, stripZeros fuel (n, e) = (s, e + z) ∧ n = s * 10 ^ z ∧ s % 10 ≠ 0
  | 0, n, e, hn, hlt => by omega
  | fuel + 1, n, e, hn, hlt => by
    rw [stripZeros]
    split
    case isTrue h =>
      obtain ⟨s, z, hstrip, hs, hne⟩ := stripZeros_spec fuel (n := n / 10) (e + 1) (by omega)
        (by rw [pow_succ] at hlt; omega)
      refine ⟨s, z + 1, ?_, ?_, hne⟩
      · rw [hstrip]
        congr 1
        push_cast
        ring
      · rw [pow_succ, ← mul_assoc, ← hs]
        omega
    case isFalse h => exact ⟨n, 0, by simp, by simp, fun h10 => h ⟨h10, hn.ne'⟩⟩

/-- A decimal that rounds to a double, of all such decimals one with the fewest digits, of those a nearest one, and of
two that are as near the one whose last digit is even. -/
structure IsShortest (x : Double) (s : ℕ) (e : ℤ) : Prop where
  rounds : x.Covers (s * 10 ^ e)
  fewest : ∀ (s' : ℕ) (e' : ℤ), x.Covers (s' * 10 ^ e') → digitCount s ≤ digitCount s'
  nearest : ∀ (s' : ℕ) (e' : ℤ), x.Covers (s' * 10 ^ e') → digitCount s' = digitCount s →
    |s * 10 ^ e - x.value| ≤ |s' * 10 ^ e' - x.value|
  even : ∀ (s' : ℕ) (e' : ℤ), x.Covers (s' * 10 ^ e') → digitCount s' = digitCount s →
    |s * 10 ^ e - x.value| = |s' * 10 ^ e' - x.value| → (s : ℚ) * 10 ^ e ≠ s' * 10 ^ e' →
      ∃ t : ℕ, (s : ℚ) * 10 ^ e = (2 * t : ℕ) * 10 ^ min e e'

/-! ### Decimals on a grid -/

/-- A decimal lies on every finer grid. -/
theorem exists_on_grid {e e' : ℤ} (h : e ≤ e') (s : ℕ) :
    ∃ k : ℕ, k = s * 10 ^ (e' - e).toNat ∧ (s : ℚ) * 10 ^ e' = k * 10 ^ e := by
  refine ⟨_, rfl, ?_⟩
  push_cast
  rw [pow_toNat 10 (by omega), mul_assoc, ← zpow_add₀ (by decide), sub_add_cancel]

theorem decimal_lt {s k : ℕ} (h : s < 10 ^ k) (e : ℤ) : (s : ℚ) * 10 ^ e < 10 ^ (k + e) := by
  rw [zpow_add₀ (by decide), zpow_natCast]
  gcongr
  exact_mod_cast h

theorem le_decimal {s k : ℕ} (h : 10 ^ k ≤ s) (e : ℤ) : (10 : ℚ) ^ (k + e) ≤ s * 10 ^ e := by
  rw [zpow_add₀ (by decide), zpow_natCast]
  gcongr
  exact_mod_cast h

/-! ### The first hit -/

/-- The nearest point `n` of the grid with `j` digits, which is the first with a point that is covered. -/
structure IsHit (x : Double) (top : ℤ) (j n : ℕ) : Prop where
  low : (10 : ℚ) ^ (top - 1) ≤ x.value
  high : x.value < 10 ^ top
  pos : 1 ≤ j
  nearest : IsNearest x (top - j) n
  first : ∀ j' : ℕ, 1 ≤ j' → j' < j → ∀ k : ℕ, ¬ x.Covers (k * 10 ^ (top - j' : ℤ))

namespace IsHit

variable {top : ℤ} {j n : ℕ} (h : IsHit x top j n)
include h

theorem le_pow : n ≤ 10 ^ j := by
  by_contra hlt
  have htop : ((10 ^ j : ℕ) : ℚ) * 10 ^ (top - j : ℤ) = 10 ^ top := by
    push_cast
    rw [← zpow_natCast, ← zpow_add₀ (by decide), add_sub_cancel]
  have hgt : (10 : ℚ) ^ top < n * 10 ^ (top - j : ℤ) := by
    rw [← htop]
    gcongr
    omega
  have hcovers : x.Covers ((10 ^ j : ℕ) * 10 ^ (top - j : ℤ)) := by
    rw [htop]
    exact x.covers_value.between h.nearest.1 h.high.le hgt.le
  have hdist := (h.nearest.2 _ hcovers).1
  rw [htop, abs_of_pos (by linarith [h.high]), abs_of_pos (by linarith [h.high])] at hdist
  linarith

/-- A decimal that is covered and lies on no grid of so many digits lies below the power of ten below the value, which
is covered as well. -/
theorem below_power {s' : ℕ} {e' : ℤ} {k : ℕ} (hs' : s' < 10 ^ k) (he' : e' < top - k)
    (hcovers : x.Covers (s' * 10 ^ e')) :
    (s' : ℚ) * 10 ^ e' < 10 ^ (top - 1) ∧ x.Covers ((1 : ℕ) * 10 ^ (top - 1)) := by
  have hlt : (s' : ℚ) * 10 ^ e' < 10 ^ (top - 1) :=
    (decimal_lt hs' e').trans_le (zpow_le_zpow_right₀ (by decide) (by omega))
  refine ⟨hlt, ?_⟩
  rw [Nat.cast_one, one_mul]
  exact hcovers.between x.covers_value hlt.le h.low

/-- No decimal that is covered has fewer digits. -/
theorem le_digitCount {s' : ℕ} {e' : ℤ} (hcovers : x.Covers (s' * 10 ^ e')) : j ≤ digitCount s' := by
  by_contra hlt
  rw [Nat.not_le] at hlt
  have hpos := digitCount_pos s'
  rcases lt_or_ge e' (top - digitCount s') with he' | he'
  · have hone := (h.below_power (lt_pow_digitCount s') he' hcovers).2
    exact h.first 1 le_rfl (by omega) 1 (by exact_mod_cast hone)
  · obtain ⟨k, -, hk⟩ := exists_on_grid he' s'
    exact h.first _ hpos hlt k (hk ▸ hcovers)

/-- No decimal of so many digits is nearer, and if one is as near the point is even. -/
theorem nearest_digits {s' : ℕ} {e' : ℤ} (hcovers : x.Covers (s' * 10 ^ e')) (hdigits : digitCount s' = j) :
    |n * 10 ^ (top - j : ℤ) - x.value| ≤ |s' * 10 ^ e' - x.value| ∧
      (|n * 10 ^ (top - j : ℤ) - x.value| = |s' * 10 ^ e' - x.value| → (n : ℚ) * 10 ^ (top - j : ℤ) ≠ s' * 10 ^ e' →
        top - j ≤ e' ∧ n % 2 = 0) := by
  have hlow := h.low
  rcases lt_or_ge e' (top - j) with he' | he'
  · obtain ⟨hlt, hone⟩ := h.below_power (hdigits ▸ lt_pow_digitCount s') he' hcovers
    obtain ⟨k, -, hk⟩ := exists_on_grid (show top - j ≤ top - 1 by have := h.pos; omega) 1
    have hdist := (h.nearest.2 k (hk ▸ hone)).1
    rw [← hk, Nat.cast_one, one_mul, abs_of_nonpos (by linarith : (10 : ℚ) ^ (top - 1) - x.value ≤ 0)] at hdist
    rw [abs_of_nonpos (by linarith : (s' : ℚ) * 10 ^ e' - x.value ≤ 0)]
    exact ⟨by linarith, fun heq _ => by linarith⟩
  · obtain ⟨k, -, hk⟩ := exists_on_grid he' s'
    obtain ⟨hdist, htie⟩ := h.nearest.2 k (hk ▸ hcovers)
    rw [hk]
    refine ⟨hdist, fun heq hne => ⟨he', htie heq ?_⟩⟩
    rintro rfl
    exact hne rfl

/-- Without its trailing zeros the point has as many digits as the grid, unless it is the power of ten above it. -/
theorem digitCount_eq {s z : ℕ} (hn : n = s * 10 ^ z) (hs : s % 10 ≠ 0) :
    digitCount s = j ∧ (z = 0 ∨ n = 10 ∧ j = 1 ∧ s = 1 ∧ z = 1) := by
  have hpos := h.pos
  have hge : j ≤ digitCount s := by
    have hcovers := h.nearest.1
    rw [hn, Nat.cast_mul, Nat.cast_pow, Nat.cast_ofNat, ← zpow_natCast, mul_assoc, ← zpow_add₀ (by decide)] at hcovers
    exact h.le_digitCount hcovers
  have hcount : digitCount n = digitCount s + z := by rw [hn, digitCount_mul_pow (by omega)]
  rcases Nat.lt_or_eq_of_le h.le_pow with hlt | heq
  · have hle := (digitCount_le_iff hpos).2 hlt
    exact ⟨by omega, .inl (by omega)⟩
  · obtain ⟨k, rfl⟩ : ∃ k, j = k + 1 := ⟨j - 1, by omega⟩
    have hle : digitCount n ≤ k + 1 + 1 := by
      rw [digitCount_le_iff (by omega), heq]
      exact Nat.pow_lt_pow_right (by decide) (by omega)
    rcases Nat.eq_zero_or_pos z with rfl | hz
    · exact ⟨by omega, .inl rfl⟩
    · obtain rfl : z = 1 := by omega
      have hk : s = 10 ^ k := by
        rw [heq, pow_succ, pow_one] at hn
        omega
      obtain rfl : k = 0 := by
        by_contra hne
        obtain ⟨i, rfl⟩ : ∃ i, k = i + 1 := ⟨k - 1, by omega⟩
        rw [hk, pow_succ] at hs
        omega
      exact ⟨by omega, .inr ⟨heq, rfl, hk, rfl⟩⟩

end IsHit

/-- The shortest decimal of a positive double is one. -/
theorem isShortest_shortest (hx : x.IsPositive) : IsShortest x x.shortest.1 x.shortest.2 := by
  obtain ⟨top, j, n, hlow, hhigh, hpos, hle, hnearest, hfirst, hshortest⟩ := exists_hit hx
  have h : IsHit x top j n := ⟨hlow, hhigh, hpos, hnearest, hfirst⟩
  have hn : 0 < n := by
    have hcovered := hnearest.1.pos hx
    rw [mul_pos_iff_of_pos_right (by positivity)] at hcovered
    exact_mod_cast hcovered
  have hbound : n < 10 ^ 20 := h.le_pow.trans_lt (Nat.pow_lt_pow_right (by decide) (by omega))
  obtain ⟨s, z, hstrip, hs, hne⟩ := stripZeros_spec 20 (top - j) hn hbound
  obtain ⟨hcount, hz⟩ := h.digitCount_eq hs hne
  have hvalue : (s : ℚ) * 10 ^ (top - j + z : ℤ) = n * 10 ^ (top - j : ℤ) := by
    rw [hs, Nat.cast_mul, Nat.cast_pow, Nat.cast_ofNat, ← zpow_natCast, mul_assoc, ← zpow_add₀ (by decide),
      add_comm (z : ℤ)]
  rw [hshortest, hstrip]
  refine ⟨?_, fun s' e' hcovers => ?_, fun s' e' hcovers hdigits => ?_, fun s' e' hcovers hdigits htie hdiffer => ?_⟩
  · rw [hvalue]
    exact hnearest.1
  · rw [hcount]
    exact h.le_digitCount hcovers
  · rw [hvalue]
    exact (h.nearest_digits hcovers (hdigits.trans hcount)).1
  · rw [hvalue] at htie hdiffer ⊢
    obtain ⟨he', heven⟩ := (h.nearest_digits hcovers (hdigits.trans hcount)).2 htie hdiffer
    have hmin : min (top - j + z) e' = top - j := by
      rcases hz with rfl | ⟨rfl, rfl, rfl, rfl⟩
      · omega
      · -- the power of ten above the value is not as far from it as any other decimal beyond it
        have hbelow : e' < top := by
          by_contra hge
          have hs' : 1 ≤ s' := by
            have hcovered := hcovers.pos hx
            rw [mul_pos_iff_of_pos_right (by positivity)] at hcovered
            exact_mod_cast hcovered
          have hpow : (10 : ℚ) ^ top ≤ s' * 10 ^ e' :=
            (zpow_le_zpow_right₀ (by decide) (by omega)).trans (le_decimal (k := 0) (by simpa using hs') e')
          have hten : ((10 : ℕ) : ℚ) * 10 ^ (top - (1 : ℕ) : ℤ) = 10 ^ top := by
            rw [Nat.cast_ofNat, ← zpow_one_add₀ (by decide)]
            congr 1
            push_cast
            ring
          rw [hten] at htie hdiffer
          rw [abs_of_pos (by linarith), abs_of_pos (by linarith)] at htie
          exact hdiffer (by linarith)
        push_cast at he' ⊢
        omega
    rw [hmin]
    exact ⟨n / 2, by rw [Nat.mul_div_cancel' (Nat.dvd_of_mod_eq_zero heven)]⟩

namespace IsShortest

variable {s s' : ℕ} {e e' : ℤ}

theorem pos (hx : x.IsPositive) (h : IsShortest x s e) : 0 < s := by
  have hcovered := h.rounds.pos hx
  rw [mul_pos_iff_of_pos_right (by positivity)] at hcovered
  exact_mod_cast hcovered

theorem digitCount_eq (h : IsShortest x s e) (h' : IsShortest x s' e') : digitCount s = digitCount s' :=
  le_antisymm (h.fewest s' e' h'.rounds) (h'.fewest s e h.rounds)

/-- What lies strictly between two decimals that are as near is nearer. -/
theorem not_between (h : IsShortest x s e) (h' : IsShortest x s' e') {t : ℕ} {i : ℤ}
    (hlt : (s : ℚ) * 10 ^ e < t * 10 ^ i) (hlt' : (t : ℚ) * 10 ^ i < s' * 10 ^ e') : digitCount t ≠ digitCount s := by
  intro hcount
  have hcovers := h.rounds.between h'.rounds hlt.le hlt'.le
  have hnear := h.nearest t i hcovers hcount
  have hnear' := h'.nearest t i hcovers (hcount.trans (h.digitCount_eq h'))
  have hsame := h'.nearest s e h.rounds (h.digitCount_eq h')
  have hsame' := h.nearest s' e' h'.rounds (h.digitCount_eq h').symm
  rcases le_total x.value (t * 10 ^ i) with hle | hle
  · rw [abs_of_nonneg (by linarith : (0 : ℚ) ≤ t * 10 ^ i - x.value),
      abs_of_nonneg (by linarith : (0 : ℚ) ≤ s' * 10 ^ e' - x.value)] at hnear'
    linarith
  · rw [abs_of_nonpos (by linarith : (t : ℚ) * 10 ^ i - x.value ≤ 0),
      abs_of_nonpos (by linarith : (s : ℚ) * 10 ^ e - x.value ≤ 0)] at hnear
    linarith

/-- Between decimals of so many digits with different exponents lies a power of ten. -/
theorem power_between (hcount : digitCount s = digitCount s') (hs' : 0 < s') (he : e < e') :
    (s : ℚ) * 10 ^ e < 10 ^ (digitCount s + e) ∧ (10 : ℚ) ^ (digitCount s + e) ≤ s' * 10 ^ e' := by
  refine ⟨decimal_lt (lt_pow_digitCount s) e, ?_⟩
  obtain ⟨k, hk⟩ : ∃ k, digitCount s' = k + 1 := ⟨digitCount s' - 1, by have := digitCount_pos s'; omega⟩
  have hpow := le_decimal (pow_le_of_lt_digitCount hs' (show k < digitCount s' by omega)) e'
  refine (zpow_le_zpow_right₀ (by decide) ?_).trans hpow
  rw [hcount, hk]
  push_cast
  omega

theorem not_lt (hx : x.IsPositive) (h : IsShortest x s e) (h' : IsShortest x s' e') :
    ¬ (s : ℚ) * 10 ^ e < s' * 10 ^ e' := by
  intro hlt
  have hcount := h.digitCount_eq h'
  have htie := le_antisymm (h.nearest s' e' h'.rounds hcount.symm) (h'.nearest s e h.rounds hcount)
  obtain ⟨t, ht⟩ := h.even s' e' h'.rounds hcount.symm htie hlt.ne
  obtain ⟨t', ht'⟩ := h'.even s e h.rounds hcount htie.symm hlt.ne'
  rcases lt_trichotomy e e' with he | rfl | he
  · -- only decimals of one digit have a power of ten between them, and nine is nearer than any even digit
    obtain ⟨hlow, hhigh⟩ := power_between hcount (h'.pos hx) he
    have hone : digitCount s ≤ 1 := by
      refine h.fewest 1 (digitCount s + e) ?_
      rw [Nat.cast_one, one_mul]
      exact h.rounds.between h'.rounds hlow.le hhigh
    have hdigit : digitCount s = 1 := le_antisymm hone (digitCount_pos s)
    rw [min_eq_left he.le] at ht
    have hs : s = 2 * t := by exact_mod_cast mul_right_cancel₀ (by positivity) ht
    have hten : s < 10 ^ 1 := hdigit ▸ lt_pow_digitCount s
    have hnext : s + 1 < 10 ^ 1 := by omega
    refine h.not_between h' (t := s + 1) (i := e) ?_ ?_ ?_
    · gcongr
      omega
    · refine (decimal_lt hnext e).trans_le ?_
      rwa [← hdigit]
    · rw [hdigit]
      exact le_antisymm ((digitCount_le_iff Nat.one_pos).2 hnext) (digitCount_pos _)
  · -- on one grid the value itself lies between them
    rw [min_self] at ht ht'
    have hs : s = 2 * t := by exact_mod_cast mul_right_cancel₀ (by positivity) ht
    have hs' : s' = 2 * t' := by exact_mod_cast mul_right_cancel₀ (by positivity) ht'
    have hless : s < s' := by exact_mod_cast lt_of_mul_lt_mul_right hlt (by positivity)
    refine h.not_between h' (t := t + t') (i := e) ?_ ?_ ?_
    · gcongr
      omega
    · gcongr
      omega
    · exact le_antisymm ((digitCount_mono (by omega)).trans hcount.ge) (digitCount_mono (by omega))
  · obtain ⟨hlow, hhigh⟩ := power_between hcount.symm (h.pos hx) he
    linarith

/-- A positive double has one shortest decimal. -/
theorem unique (hx : x.IsPositive) (h : IsShortest x s e) (h' : IsShortest x s' e') : s = s' ∧ e = e' := by
  have hvalue : (s : ℚ) * 10 ^ e = s' * 10 ^ e' :=
    le_antisymm (le_of_not_gt (h'.not_lt hx h)) (le_of_not_gt (h.not_lt hx h'))
  have hcount := h.digitCount_eq h'
  rcases lt_trichotomy e e' with he | rfl | he
  · obtain ⟨hlow, hhigh⟩ := power_between hcount (h'.pos hx) he
    linarith
  · exact ⟨by exact_mod_cast mul_right_cancel₀ (by positivity) hvalue, rfl⟩
  · obtain ⟨hlow, hhigh⟩ := power_between hcount.symm (h.pos hx) he
    linarith

end IsShortest

/-- The shortest decimal of a positive double is the only one. -/
theorem isShortest_iff (hx : x.IsPositive) {s : ℕ} {e : ℤ} : IsShortest x s e ↔ x.shortest = (s, e) := by
  constructor
  · intro h
    obtain ⟨hs, he⟩ := (isShortest_shortest hx).unique hx h
    exact Prod.ext hs he
  · intro h
    have hshortest := isShortest_shortest hx
    rwa [h] at hshortest

end Shortest

end ScriptTidy
