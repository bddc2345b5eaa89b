/-
Points of a decimal grid. The interval of a double holds exactly the decimals that round to it, and
they lie around it without a gap: if a grid has such a point at all, one of the two neighbours of
the double on the grid is one. The search for it therefore finds the point that is nearest to the
double, and of two that are as near the even one.
-/
import ScriptTidy.Proofs.Number.Rounding

namespace ScriptTidy

namespace Shortest

open Double (RoundsTo pow_toNat pow_toNat_neg)

/-! ## Fractions -/

/-- The fraction as a rational number. -/
def Ratio.toRat (r : Ratio) : ℚ := r.num / r.den

theorem Ratio.le_iff {a b : Ratio} (ha : 0 < a.den) (hb : 0 < b.den) : a.le b ↔ a.toRat ≤ b.toRat := by
  have ha : (0 : ℚ) < a.den := by exact_mod_cast ha
  have hb : (0 : ℚ) < b.den := by exact_mod_cast hb
  rw [Ratio.le, decide_eq_true_iff, toRat, toRat, div_le_div_iff₀ ha hb]
  exact_mod_cast Iff.rfl

theorem Ratio.lt_iff {a b : Ratio} (ha : 0 < a.den) (hb : 0 < b.den) : a.lt b ↔ a.toRat < b.toRat := by
  have ha : (0 : ℚ) < a.den := by exact_mod_cast ha
  have hb : (0 : ℚ) < b.den := by exact_mod_cast hb
  rw [Ratio.lt, decide_eq_true_iff, toRat, toRat, div_lt_div_iff₀ ha hb]
  exact_mod_cast Iff.rfl

theorem den_dyadic_pos (m : ℕ) (e : ℤ) : 0 < (dyadic m e).den := by
  unfold dyadic
  split
  · exact Nat.one_pos
  · exact Nat.two_pow_pos _

theorem den_decimal_pos (n : ℕ) (e : ℤ) : 0 < (decimal n e).den := by
  unfold decimal
  split
  · exact Nat.one_pos
  · exact Nat.pow_pos (by decide)

theorem toRat_dyadic (m : ℕ) (e : ℤ) : (dyadic m e).toRat = m * 2 ^ e := by
  unfold dyadic Ratio.toRat
  split
  case isTrue h =>
    rw [← pow_toNat 2 h]
    push_cast
    rw [div_one]
  case isFalse h =>
    push_cast
    rw [pow_toNat_neg 2 (by omega), div_inv_eq_mul]

theorem toRat_decimal (n : ℕ) (e : ℤ) : (decimal n e).toRat = n * 10 ^ e := by
  unfold decimal Ratio.toRat
  split
  case isTrue h =>
    rw [← pow_toNat 10 h]
    push_cast
    rw [div_one]
  case isFalse h =>
    push_cast
    rw [pow_toNat_neg 10 (by omega), div_inv_eq_mul]

/-! ## The interval of a double -/

theorem Interval.holds_iff {i : Interval} {d : Ratio} (hlow : 0 < i.low.den) (hhigh : 0 < i.high.den) (hd : 0 < d.den) :
    i.holds d ↔ i.low.toRat ≤ d.toRat ∧ d.toRat ≤ i.high.toRat ∧
      (d.toRat = i.low.toRat ∨ d.toRat = i.high.toRat → i.closed) := by
  unfold holds
  cases i.closed with
  | true => simp [Ratio.le_iff hlow hd, Ratio.le_iff hd hhigh]
  | false =>
    simp only [Bool.false_eq_true, if_false, Bool.and_eq_true, Ratio.lt_iff hlow hd, Ratio.lt_iff hd hhigh]
    constructor
    · rintro ⟨h, h'⟩
      refine ⟨h.le, h'.le, ?_⟩
      rintro (h | h) <;> linarith
    · rintro ⟨h, h', hends⟩
      exact ⟨lt_of_le_of_ne h fun heq => hends (.inl heq.symm), lt_of_le_of_ne h' fun heq => hends (.inr heq)⟩

/-- The interval holds the decimals that the double covers. -/
theorem holds_interval_iff {x : Double} (hpos : 0 < x.significand) {d : Ratio} (hd : 0 < d.den) :
    (interval x).holds d ↔ x.Covers d.toRat := by
  have hlowDen : 0 < (interval x).low.den := by
    unfold interval
    simp only
    split <;> exact den_dyadic_pos ..
  have hunit : (0 : ℚ) < 2 ^ x.scale := by positivity
  have hhigh : (interval x).high.toRat = (x.significand + 1 / 2) * 2 ^ x.scale := by
    refine (toRat_dyadic _ _).trans ?_
    rw [zpow_sub_one₀ two_ne_zero]
    push_cast
    ring
  have hlow : (interval x).low.toRat = (x.significand - if x.isNarrow then 1 / 4 else 1 / 2) * 2 ^ x.scale := by
    have hif : (interval x).low = if x.isNarrow then dyadic (4 * x.significand - 1) (x.scale - 2)
        else dyadic (2 * x.significand - 1) (x.scale - 1) := by
      simp [interval, Double.isNarrow]
    rw [hif]
    cases x.isNarrow with
    | true =>
      have hexp : (2 : ℚ) ^ (x.scale - 2) = 2 ^ x.scale / 4 := by
        rw [zpow_sub₀ two_ne_zero]
        norm_num
      rw [if_pos rfl, if_pos rfl, toRat_dyadic, Nat.cast_pred (by omega), hexp]
      push_cast
      ring
    | false =>
      rw [if_neg Bool.false_ne_true, if_neg Bool.false_ne_true, toRat_dyadic, Nat.cast_pred (by omega),
        zpow_sub_one₀ two_ne_zero]
      push_cast
      ring
  rw [Interval.holds_iff hlowDen (den_dyadic_pos ..) hd, hhigh, hlow]
  have hclosed : (interval x).closed ↔ x.significand % 2 = 0 := by simp [interval]
  rw [hclosed, ← le_div_iff₀ hunit, ← div_le_iff₀ hunit, ← div_eq_iff hunit.ne', ← div_eq_iff hunit.ne']
  unfold Double.Covers RoundsTo
  cases hnarrow : x.isNarrow with
  | false => simp
  | true =>
    have heven : x.significand % 2 = 0 := by
      rw [(Double.isNarrow_iff.1 hnarrow).1]
      decide
    simp only [if_true, heven, implies_true, and_true, forall_const]
    constructor
    · exact fun ⟨h, h'⟩ => ⟨⟨by linarith, h'⟩, h⟩
    · exact fun ⟨⟨_, h'⟩, h⟩ => ⟨h, h'⟩

/-! ## One grid -/

variable {x : Double} {e : ℤ}

/-- The neighbour of a value below it on a grid. -/
def below (r : Ratio) (e : ℤ) : ℕ :=
  if 0 ≤ e then r.num / (r.den * 10 ^ e.toNat) else r.num * 10 ^ (-e).toNat / r.den

theorem below_spec {r : Ratio} (hden : 0 < r.den) (e : ℤ) :
    (below r e : ℚ) * 10 ^ e ≤ r.toRat ∧ r.toRat < (below r e + 1) * 10 ^ e := by
  have hgrid : (0 : ℚ) < 10 ^ e := by positivity
  have hfloor {num den : ℕ} (h : 0 < den) (hq : (num : ℚ) / den = r.toRat / 10 ^ e) :
      ((num / den : ℕ) : ℚ) * 10 ^ e ≤ r.toRat ∧ r.toRat < ((num / den : ℕ) + 1) * 10 ^ e := by
    have hd : (0 : ℚ) < den := by exact_mod_cast h
    rw [← le_div_iff₀ hgrid, ← div_lt_iff₀ hgrid, ← hq, le_div_iff₀ hd, div_lt_iff₀ hd]
    constructor
    · exact_mod_cast Nat.div_mul_le_self num den
    · exact_mod_cast mul_comm den _ ▸ Nat.lt_mul_div_succ num h
  unfold below
  split
  case isTrue h =>
    refine hfloor (by positivity) ?_
    rw [Ratio.toRat, Nat.cast_mul, Nat.cast_pow, Nat.cast_ofNat, pow_toNat 10 h, div_div]
  case isFalse h =>
    refine hfloor hden ?_
    rw [Ratio.toRat, Nat.cast_mul, Nat.cast_pow, Nat.cast_ofNat, pow_toNat_neg 10 (by omega), div_div,
      mul_comm (r.den : ℚ), ← div_div, div_eq_mul_inv (r.num : ℚ)]

/-- Of all points of the grid that the double covers this one is nearest to it, and even if another is as near. -/
def IsNearest (x : Double) (e : ℤ) (n : ℕ) : Prop :=
  x.Covers (n * 10 ^ e) ∧ ∀ k : ℕ, x.Covers (k * 10 ^ e) →
    |n * 10 ^ e - x.value| ≤ |k * 10 ^ e - x.value| ∧
      (|n * 10 ^ e - x.value| = |k * 10 ^ e - x.value| → k ≠ n → n % 2 = 0)

section Neighbours

variable {q : ℕ} (hq : q * 10 ^ e ≤ x.value) (hq' : x.value < (q + 1) * 10 ^ e)

include hq in
theorem abs_below {k : ℕ} (h : k ≤ q) : |k * 10 ^ e - x.value| = x.value - k * 10 ^ e := by
  have hle : (k : ℚ) * 10 ^ e ≤ q * 10 ^ e := by gcongr
  rw [abs_sub_comm, abs_of_nonneg (by linarith)]

include hq' in
theorem abs_above {k : ℕ} (h : q + 1 ≤ k) : |k * 10 ^ e - x.value| = k * 10 ^ e - x.value := by
  have hle : ((q + 1 : ℕ) : ℚ) * 10 ^ e ≤ k * 10 ^ e := by gcongr
  push_cast at hle
  rw [abs_of_nonneg (by linarith)]

include hq hq'

/-- A point of the grid that is covered has the neighbour on its side covered as well. -/
theorem covers_neighbour {k : ℕ} (h : x.Covers (k * 10 ^ e)) :
    (k ≤ q ∧ x.Covers (q * 10 ^ e)) ∨ (q + 1 ≤ k ∧ x.Covers ((q + 1 : ℕ) * 10 ^ e)) := by
  have hgrid : (0 : ℚ) < 10 ^ e := by positivity
  rcases Nat.lt_or_ge q k with hlt | hle
  · refine .inr ⟨hlt, x.covers_value.between h ?_ ?_⟩
    · push_cast
      exact hq'.le
    · gcongr
      exact hlt
  · refine .inl ⟨hle, h.between x.covers_value ?_ hq⟩
    gcongr

/-- The neighbour below is the nearest point if the one above is not covered, or further away, or as far away
and odd. -/
theorem isNearest_below (h : x.Covers (q * 10 ^ e))
    (hup : x.Covers ((q + 1 : ℕ) * 10 ^ e) →
      x.value - q * 10 ^ e ≤ (q + 1) * 10 ^ e - x.value ∧
        (x.value - q * 10 ^ e = (q + 1) * 10 ^ e - x.value → q % 2 = 0)) : IsNearest x e q := by
  have hgrid : (0 : ℚ) < 10 ^ e := by positivity
  refine ⟨h, fun k hk => ?_⟩
  rw [abs_below hq le_rfl]
  rcases covers_neighbour hq hq' hk with ⟨hle, -⟩ | ⟨hge, hcovers⟩
  · rw [abs_below hq hle]
    have hcast : (k : ℚ) * 10 ^ e ≤ q * 10 ^ e := by gcongr
    refine ⟨by linarith, fun heq hne => absurd ?_ hne⟩
    have : (k : ℚ) = q := mul_right_cancel₀ hgrid.ne' (by linarith)
    exact_mod_cast this
  · rw [abs_above hq' hge]
    obtain ⟨hdist, htie⟩ := hup hcovers
    have hcast : ((q + 1 : ℕ) : ℚ) * 10 ^ e ≤ k * 10 ^ e := by gcongr
    push_cast at hcast
    exact ⟨by linarith, fun heq _ => htie (by linarith)⟩

theorem isNearest_above (h : x.Covers ((q + 1 : ℕ) * 10 ^ e))
    (hdown : x.Covers (q * 10 ^ e) →
      (q + 1) * 10 ^ e - x.value ≤ x.value - q * 10 ^ e ∧
        (x.value - q * 10 ^ e = (q + 1) * 10 ^ e - x.value → q % 2 = 1)) : IsNearest x e (q + 1) := by
  have hgrid : (0 : ℚ) < 10 ^ e := by positivity
  refine ⟨h, fun k hk => ?_⟩
  rw [abs_above hq' le_rfl]
  push_cast
  rcases covers_neighbour hq hq' hk with ⟨hle, hcovers⟩ | ⟨hge, -⟩
  · rw [abs_below hq hle]
    obtain ⟨hdist, htie⟩ := hdown hcovers
    have hcast : (k : ℚ) * 10 ^ e ≤ q * 10 ^ e := by gcongr
    refine ⟨by linarith, fun heq _ => ?_⟩
    have hodd := htie (by linarith)
    omega
  · rw [abs_above hq' hge]
    have hcast : ((q + 1 : ℕ) : ℚ) * 10 ^ e ≤ k * 10 ^ e := by gcongr
    push_cast at hcast
    refine ⟨by linarith, fun heq hne => absurd ?_ hne⟩
    have : (k : ℚ) = (q + 1 : ℕ) := mul_right_cancel₀ hgrid.ne' (by push_cast; linarith)
    exact_mod_cast this

end Neighbours

theorem onGrid?_eq (i : Interval) (e : ℤ) : onGrid? i e =
    if (i.holds (decimal (below i.value e) e) && decide (0 < below i.value e)) &&
        i.holds (decimal (below i.value e + 1) e) then
      some (if (decimal (10 * below i.value e + 5) (e - 1)).lt i.value ∨
          ((decimal (10 * below i.value e + 5) (e - 1)).le i.value ∧ below i.value e % 2 = 1) then
        below i.value e + 1
      else below i.value e)
    else if i.holds (decimal (below i.value e) e) && decide (0 < below i.value e) then some (below i.value e)
    else if i.holds (decimal (below i.value e + 1) e) then some (below i.value e + 1)
    else none := rfl

/-- What is found on a grid is the nearest of its points that the double covers; nothing is found if there is none. -/
theorem onGrid?_spec (hx : x.IsPositive) (e : ℤ) :
    match onGrid? (interval x) e with
    | some n => IsNearest x e n
    | none => ∀ k : ℕ, ¬ x.Covers (k * 10 ^ e) := by
  have hgrid : (0 : ℚ) < 10 ^ e := by positivity
  have hvalue : (interval x).value.toRat = x.value := toRat_dyadic ..
  have hden : 0 < (interval x).value.den := den_dyadic_pos ..
  obtain ⟨q, hbelow⟩ : ∃ q, q = below (interval x).value e := ⟨_, rfl⟩
  obtain ⟨hq, hq'⟩ := below_spec hden e
  rw [← hbelow, hvalue] at hq hq'
  have hdown : ((interval x).holds (decimal q e) && decide (0 < q)) = true ↔ x.Covers (q * 10 ^ e) := by
    rw [Bool.and_eq_true, decide_eq_true_iff, holds_interval_iff hx.pos (den_decimal_pos ..), toRat_decimal]
    refine ⟨And.left, fun h => ⟨h, ?_⟩⟩
    have hpos := h.pos hx
    rw [mul_pos_iff_of_pos_right hgrid] at hpos
    exact_mod_cast hpos
  have hup : (interval x).holds (decimal (q + 1) e) = true ↔ x.Covers ((q + 1 : ℕ) * 10 ^ e) := by
    rw [holds_interval_iff hx.pos (den_decimal_pos ..), toRat_decimal]
  have hmiddle : (decimal (10 * q + 5) (e - 1)).toRat = q * 10 ^ e + 10 ^ e / 2 := by
    rw [toRat_decimal, zpow_sub_one₀ (by norm_num)]
    push_cast
    ring
  have hmiddleLt : (decimal (10 * q + 5) (e - 1)).lt (interval x).value ↔
      (q + 1) * 10 ^ e - x.value < x.value - q * 10 ^ e := by
    rw [Ratio.lt_iff (den_decimal_pos ..) hden, hmiddle, hvalue]
    constructor <;> intro h <;> linarith
  have hmiddleLe : (decimal (10 * q + 5) (e - 1)).le (interval x).value ↔
      (q + 1) * 10 ^ e - x.value ≤ x.value - q * 10 ^ e := by
    rw [Ratio.le_iff (den_decimal_pos ..) hden, hmiddle, hvalue]
    constructor <;> intro h <;> linarith
  rw [onGrid?_eq, ← hbelow]
  by_cases hd : x.Covers (q * 10 ^ e) <;> by_cases hu : x.Covers ((q + 1 : ℕ) * 10 ^ e)
  · rw [if_pos (by rw [Bool.and_eq_true, hdown, hup]; exact ⟨hd, hu⟩)]
    simp only [hmiddleLt, hmiddleLe]
    split
    case isTrue h => 
      refine isNearest_above hq hq' hu fun _ => ⟨?_, fun htie => ?_⟩
      · rcases h with h | h
        · exact h.le
        · exact h.1
      · rcases h with h | h
        · linarith
        · exact h.2
    case isFalse h =>
      rw [not_or, not_lt] at h
      refine isNearest_below hq hq' hd fun _ => ⟨h.1, fun htie => ?_⟩
      have heven : ¬ q % 2 = 1 := fun hodd => h.2 ⟨htie.symm.le, hodd⟩
      omega
  · rw [if_neg (by rw [Bool.and_eq_true, hdown, hup]; exact fun h => hu h.2), if_pos (hdown.2 hd)]
    exact isNearest_below hq hq' hd fun h => absurd h hu
  · rw [if_neg (by rw [Bool.and_eq_true, hdown, hup]; exact fun h => hd h.1), if_neg (fun h => hd (hdown.1 h)),
      if_pos (hup.2 hu)]
    exact isNearest_above hq hq' hu fun h => absurd h hd
  · rw [if_neg (by rw [Bool.and_eq_true, hdown, hup]; exact fun h => hd h.1), if_neg (fun h => hd (hdown.1 h)),
      if_neg (fun h => hu (hup.1 h))]
    intro k hk
    rcases covers_neighbour hq hq' hk with ⟨-, h⟩ | ⟨-, h⟩
    · exact hd h
    · exact hu h

end Shortest

end ScriptTidy
