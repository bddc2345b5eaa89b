/-
Numbers as they are printed. ECMAScript prints the shortest decimal of a double, positionally unless
it is very large or very small. For plain numbers, which are zero or lie between 10^-4 and 2^53 - 1,
what is printed is a standard form, and the number of that standard form is the number itself: an
integer is its own shortest decimal, and a fraction is printed as its text, which reads as the double
again.
-/
import ScriptTidy.Proofs.Number.Digits

namespace ScriptTidy

open Numeral Canonical Shortest

/-! ## Printed numbers -/

/-- How a positive decimal without trailing zeros is printed: positionally if it is at least 10^-6 and less than 10^21,
and with an exponent otherwise. -/
def layout (s : ℕ) (e : ℤ) : List Char :=
  let digits := decimalDigitsOf s
  let point : ℤ := digits.length + e
  if digits.length ≤ point ∧ point ≤ 21 then digits ++ List.replicate e.toNat '0'
  else if 0 < point ∧ point ≤ 21 then digits.take point.toNat ++ '.' :: digits.drop point.toNat
  else if -6 < point ∧ point ≤ 0 then '0' :: '.' :: (List.replicate (-point).toNat '0' ++ digits)
  else
    let mark := if point - 1 < 0 then '-' else '+'
    let power := 'e' :: mark :: decimalDigitsOf (point - 1).natAbs
    match digits with
    | [d] => d :: power
    | d :: rest => d :: '.' :: (rest ++ power)
    | [] => power

section Fractions

variable {s : ℕ} {e : ℤ}

/-- A decimal that is no integer is printed as digits around a point, which are those of a standard form. -/
theorem exists_parts (hs : s % 10 ≠ 0) (he : e < 0) (hlow : -6 < digitCount s + e) (hhigh : digitCount s + e ≤ 21) :
    ∃ whole part, layout s e = whole ++ '.' :: part ∧ isWhole whole ∧ isPart part ∧
      (whole ++ part).dropWhile (· == '0') = decimalDigitsOf s ∧ (part.length : ℤ) = -e := by
  obtain ⟨c, rest, hdigits, hc, hc'⟩ := exists_digits_eq_cons (n := s) (by omega)
  have hall : ∀ d ∈ c :: rest, IsAsciiDigit d := fun d hd => isAsciiDigit_of_mem_digits (n := s) (by rwa [hdigits])
  have hlast : (c :: rest).getLast? = some (s % 10).digitChar := hdigits ▸ getLast?_digits s
  have hlength : digitCount s = rest.length + 1 := by rw [digitCount, hdigits, List.length_cons]
  have hzero : (c == '0') = false := by
    rw [beq_eq_false_iff_ne]
    rintro rfl
    exact absurd hc (by decide)
  have hpart {part : List Char} (hlast : part.getLast? = some (s % 10).digitChar) (hpart : ∀ d ∈ part, IsAsciiDigit d) :
      isPart part := by
    have hne : (s % 10).digitChar ≠ '0' := by
      intro h
      exact absurd (h ▸ digitChar_bounds (s % 10) (Nat.mod_lt _ (by decide)) (by omega)).1 (by decide)
    unfold isPart
    rw [hlast]
    simp only [Bool.and_eq_true, bne_iff_ne, List.all_eq_true, decide_eq_true_iff]
    exact ⟨hne, hpart⟩
  obtain ⟨point, hpoint⟩ : ∃ point : ℤ, point = digitCount s + e := ⟨_, rfl⟩
  have hlayout : layout s e = if 0 < point ∧ point ≤ 21
      then (c :: rest).take point.toNat ++ '.' :: (c :: rest).drop point.toNat
      else '0' :: '.' :: (List.replicate (-point).toNat '0' ++ c :: rest) := by
    have hcount : ((c :: rest).length : ℤ) + e = point := by rw [hpoint, hlength, List.length_cons]
    unfold layout
    simp only [hdigits, hcount]
    rw [if_neg (by omega)]
    split
    · rfl
    · rw [if_pos (by omega)]
  rw [hlayout]
  split
  case isTrue h =>
    refine ⟨_, _, rfl, ?_, hpart ?_ fun d hd => hall d (List.mem_of_mem_drop hd), ?_, ?_⟩
    · obtain ⟨k, hk⟩ : ∃ k, point.toNat = k + 1 := ⟨point.toNat - 1, by omega⟩
      rw [hk, List.take_succ_cons]
      exact isWhole_cons hc hc' fun d hd => hall d (List.mem_cons_of_mem _ (List.mem_of_mem_take hd))
    · rw [List.getLast?_drop, if_neg (by rw [List.length_cons]; omega), hlast]
    · rw [List.take_append_drop, List.dropWhile_cons_of_neg (by rw [hzero]; decide), hdigits]
    · rw [List.length_drop, List.length_cons]
      omega
  case isFalse h =>
    refine ⟨['0'], _, rfl, rfl, hpart ?_ ?_, ?_, ?_⟩
    · rw [List.getLast?_append, hlast]
      rfl
    · intro d hd
      rcases List.mem_append.1 hd with hd | hd
      · rw [(List.mem_replicate.1 hd).2]
        exact ⟨by decide, by decide⟩
      · exact hall d hd
    · have hzeros : ∀ d ∈ List.replicate (-point).toNat '0', (d == '0') = true := fun d hd => by
        rw [(List.mem_replicate.1 hd).2]
        rfl
      rw [List.singleton_append, List.dropWhile_cons_of_pos rfl, List.dropWhile_append_of_pos hzeros,
        List.dropWhile_cons_of_neg (by rw [hzero]; decide), hdigits]
    · rw [List.length_append, List.length_replicate, List.length_cons]
      omega

/-- The text of a double is the printed one if that is a fraction of at least 10^-4. -/
theorem display_eq_layout {x : Double} (hx : x.IsPositive) (hshortest : x.shortest = (s, e)) (he : e < 0)
    (hlow : -4 < digitCount s + e) (hhigh : digitCount s + e ≤ 16) : x.display.toList = layout s e := by
  have hlength : (decimalDigitsOf s).length = digitCount s := rfl
  unfold Double.display layout
  simp only [hx.isNaN_eq, hx.isInfinite_eq, hx.sign, hx.pos.ne', hshortest, Bool.false_eq_true, if_false,
    List.nil_append, hlength, String.toList_ofList]
  rw [if_neg (by omega)]
  by_cases hpoint : (digitCount s : ℤ) + e ≤ 0
  · rw [if_pos hpoint, if_neg (by omega), if_neg (by omega), if_pos (by omega)]
    rfl
  · rw [if_neg hpoint, if_neg (by omega), if_neg (by omega), if_pos (by omega)]

end Fractions

/-- The text is what ECMAScript prints for the double. -/
def Double.Prints (x : Double) (text : List Char) : Prop :=
  let sign := if x.negative then ['-'] else []
  if x.isNaN then text = ['N', 'a', 'N']
  else if x.isInfinite then text = sign ++ ['I', 'n', 'f', 'i', 'n', 'i', 't', 'y']
  else if x.significand = 0 then text = ['0']
  else ∃ s e, IsShortest x.magnitude s e ∧ text = sign ++ layout s e

/-- The double nearest to a number. -/
def Number.nearest : Number → Double
  | integer n => .ofRatio (n < 0) n.natAbs 1
  | double x => x

/-! ## Shortest decimals of plain numbers -/

namespace Shortest

variable {x : Double} {s n : ℕ} {e : ℤ}

theorem eq_of_abs_sub_le {a b : ℕ} (h : |(a : ℚ) - b| ≤ 1 / 2) : a = b := by
  have hlt : |(a : ℚ) - b| < 1 := h.trans_lt (by norm_num)
  have hzero : (a : ℤ) - b = 0 := Int.abs_lt_one_iff.1 (by exact_mod_cast hlt)
  omega

/-- A number that is no integer has a shortest decimal that is none. -/
theorem IsShortest.neg_of_fraction (h : IsShortest x s e) (hvalue : ∀ n : ℕ, x.value ≠ n) : e < 0 := by
  by_contra hnonneg
  obtain ⟨k, -, hk⟩ := exists_on_grid (show 0 ≤ e by omega) s
  rw [zpow_zero, mul_one] at hk
  have hunit : (0 : ℚ) < 2 ^ x.scale := by positivity
  have hscale : x.scale < 0 := by
    by_contra hge
    refine hvalue (x.significand * 2 ^ x.scale.toNat) ?_
    push_cast
    rw [Double.value, Double.pow_toNat 2 (by omega)]
  have hgrid : (s : ℚ) * 10 ^ e / 2 ^ x.scale = (k * 2 ^ (-x.scale).toNat : ℕ) := by
    push_cast
    rw [hk, Double.pow_toNat_neg 2 hscale.le, div_eq_mul_inv]
  obtain ⟨⟨hlow, hhigh, -⟩, -⟩ := h.rounds
  rw [hgrid] at hlow hhigh
  have hsignificand : k * 2 ^ (-x.scale).toNat = x.significand :=
    eq_of_abs_sub_le (abs_le.2 ⟨by linarith, by linarith⟩)
  refine hvalue k ?_
  rw [hsignificand, hk, div_eq_iff hunit.ne'] at hgrid
  exact hgrid.symm

/-- An integer that is a double below 2^53 is its own shortest decimal. -/
theorem IsShortest.eq_of_integer (hx : x.IsPositive) (h : IsShortest x s e) (hvalue : x.value = n) (hn : n < 2 ^ 53) :
    0 ≤ e ∧ (s : ℚ) * 10 ^ e = n := by
  have hcast : (n : ℚ) < 2 ^ 53 := by exact_mod_cast hn
  have hunit : (2 : ℚ) ^ x.scale ≤ 1 := zpow_le_one_of_nonpos₀ (by decide) (Double.scale_le (hvalue ▸ hcast))
  have hdist := h.rounds.abs_sub_value_le
  rw [hvalue] at hdist
  have hself : x.Covers ((n : ℕ) * 10 ^ (0 : ℤ)) := by
    rw [zpow_zero, mul_one, ← hvalue]
    exact x.covers_value
  have hpos : 0 < n := by
    have hcast := hvalue ▸ hx.value_pos
    exact_mod_cast hcast
  rcases lt_or_ge e 0 with he | he
  · exfalso
    rcases (h.fewest n 0 hself).eq_or_lt with heq | hlt
    · -- with as many digits as the integer it is the integer, and has more
      have hnear := h.nearest n 0 hself heq.symm
      obtain ⟨k, hk, hgrid⟩ := exists_on_grid he.le n
      rw [zpow_zero, mul_one] at hnear hgrid
      rw [hvalue, sub_self, abs_zero] at hnear
      have hs : (s : ℚ) * 10 ^ e = k * 10 ^ e := by
        rw [← hgrid]
        exact sub_eq_zero.1 (abs_nonpos_iff.1 hnear)
      have hsk : s = k := by exact_mod_cast mul_right_cancel₀ (by positivity) hs
      rw [hsk, hk, digitCount_mul_pow hpos] at heq
      omega
    · -- with fewer digits it is too small
      have hten : (10 : ℚ) ^ (digitCount s : ℤ) = 10 ^ (digitCount s - 1 : ℤ) * 10 := by
        rw [← zpow_add_one₀ (by decide), sub_add_cancel]
      have hone : (1 : ℚ) ≤ 10 ^ (digitCount s - 1 : ℤ) :=
        one_le_zpow₀ (by decide) (by have := digitCount_pos s; omega)
      have hlow : (s : ℚ) * 10 ^ e < 10 ^ (digitCount s - 1 : ℤ) :=
        (decimal_lt (lt_pow_digitCount s) e).trans_le (zpow_le_zpow_right₀ (by decide) (by omega))
      have hhigh := le_decimal (pow_le_of_lt_digitCount hpos hlt) 0
      rw [add_zero, zpow_zero, mul_one, hten] at hhigh
      have hnear := (abs_le.1 hdist).1
      linarith
  · obtain ⟨k, -, hk⟩ := exists_on_grid he s
    rw [zpow_zero, mul_one] at hk
    refine ⟨he, ?_⟩
    rw [hk] at hdist ⊢
    rw [eq_of_abs_sub_le (a := k) (b := n) (by linarith)]

end Shortest

theorem Double.IsPositive.place? {x : Double} (hx : x.IsPositive) :
    (Number.double x).place? = some (.rational x.value) := by
  rw [← toRat_eq_value hx.sign]
  simp [Number.place?, hx.isNaN_eq, hx.isInfinite_eq]

section Standard

variable {x : Double} {s : ℕ} {e : ℤ}

/-- A decimal that is covered is read back as the double. -/
theorem ofDecimal_eq (hx : x.IsPositive) (hcovers : x.Covers (s * 10 ^ e)) (he : e < 0)
    (hlow : -400 ≤ e + digitCount s) :
    Double.ofDecimal false s (digitCount s) e = x := by
  have hs : 0 < s := by
    have hcovered := hcovers.pos hx
    rw [mul_pos_iff_of_pos_right (by positivity)] at hcovered
    exact_mod_cast hcovered
  unfold Double.ofDecimal
  rw [if_neg hs.ne', if_neg (by omega), if_neg (by omega), if_neg (by omega),
    Double.ofRatio_eq_iff hx hs (by positivity)]
  push_cast
  rwa [Double.pow_toNat_neg 10 he.le, div_inv_eq_mul]

theorem Shortest.IsShortest.low (h : IsShortest x s e) (hlow : 1 / 10000 ≤ x.value) : -4 < digitCount s + e := by
  have hfour : ((1 : ℕ) : ℚ) * 10 ^ (-4 : ℤ) = 1 / 10000 := by norm_num
  have hle : (10 : ℚ) ^ (-4 : ℤ) ≤ s * 10 ^ e := by
    by_contra hlt
    rw [not_le] at hlt
    have hcovers : x.Covers ((1 : ℕ) * 10 ^ (-4 : ℤ)) := by
      refine h.rounds.between x.covers_value ?_ (hfour ▸ hlow)
      rw [Nat.cast_one, one_mul]
      exact hlt.le
    have hone : digitCount 1 = 1 := rfl
    have hnear := h.nearest 1 (-4) hcovers (le_antisymm (hone ▸ digitCount_pos s) (h.fewest 1 (-4) hcovers))
    rw [Nat.cast_one, one_mul] at hfour hnear
    rw [hfour] at hlt hnear
    rw [abs_of_nonpos (by linarith), abs_of_nonpos (by linarith)] at hnear
    linarith
  exact (zpow_lt_zpow_iff_right₀ (by decide : (1 : ℚ) < 10)).1 (hle.trans_lt (decimal_lt (lt_pow_digitCount s) e))

theorem Shortest.IsShortest.high (hx : x.IsPositive) (h : IsShortest x s e) (hhigh : x.value < 2 ^ 53) :
    digitCount s + e ≤ 16 := by
  have hunit : (2 : ℚ) ^ x.scale ≤ 1 := zpow_le_one_of_nonpos₀ (by decide) (Double.scale_le hhigh)
  have hdist := (abs_le.1 h.rounds.abs_sub_value_le).2
  have hpow := le_decimal (pow_pred_le (h.pos hx)) e
  have hlt : (10 : ℚ) ^ ((digitCount s - 1 : ℕ) + e : ℤ) < 10 ^ (16 : ℤ) := by
    refine hpow.trans_lt ?_
    norm_num
    linarith
  have hexp := (zpow_lt_zpow_iff_right₀ (by decide : (1 : ℚ) < 10)).1 hlt
  have hpos := digitCount_pos s
  omega

/-- The last digit of a shortest decimal is not zero. -/
theorem Shortest.IsShortest.last (hx : x.IsPositive) (h : IsShortest x s e) : s % 10 ≠ 0 := by
  intro hzero
  have hpos := h.pos hx
  have hs : s = s / 10 * 10 ^ 1 := by omega
  have hcovers : x.Covers ((s / 10 : ℕ) * 10 ^ (e + 1)) := by
    have hrounds := h.rounds
    rwa [hs, Nat.cast_mul, Nat.cast_pow, Nat.cast_ofNat, pow_one, mul_assoc, ← zpow_one_add₀ (by decide), add_comm 1 e]
      at hrounds
  have hcount : digitCount s = digitCount (s / 10) + 1 := by
    conv_lhs => rw [hs, digitCount_mul_pow (by omega)]
  have hfewest := h.fewest _ _ hcovers
  omega

/-- A decimal that is an integer is printed as the digits of that integer, unless it is too large. -/
theorem layout_of_nonneg (hs : 0 < s) (he : 0 ≤ e) (hhigh : digitCount s + e ≤ 21) :
    layout s e = decimalDigitsOf (s * 10 ^ e.toNat) := by
  have hlength : (decimalDigitsOf s).length = digitCount s := rfl
  unfold layout
  simp only [hlength]
  rw [if_pos (by omega), digits_mul_pow hs]

/-- A decimal that is no integer is printed as a standard form if that is the text of the double. -/
theorem canonicalNumber_layout_of_neg (hx : x.IsPositive) (h : IsShortest x s e) (he : e < 0)
    (hlow : -6 < digitCount s + e) (hhigh : digitCount s + e ≤ 21) :
    canonicalNumber (layout s e) = .ok (if x.display.toList = layout s e then some (.double x) else none) := by
  obtain ⟨whole, part, hlayout, hwhole, hpart, hdigits, hlength⟩ := exists_parts (h.last hx) he hlow hhigh
  have hread : double? (whole ++ '.' :: part) = some x := by
    obtain ⟨hne, hwhole⟩ := isAsciiDigit_of_isWhole hwhole
    rw [double?_parts hne hwhole (isAsciiDigit_of_isPart hpart), hdigits, ofRun_digits, hlength, neg_neg]
    exact congrArg some (ofDecimal_eq hx h.rounds he (by omega))
  rw [hlayout, canonicalNumber_parts hwhole hpart, hread, Option.bind_some]

/-- What is printed for a number of this size is the standard form of the same number. -/
theorem canonicalNumber_layout (hx : x.IsPositive) (hlow : 1 / 10000 ≤ x.value) (hhigh : x.value ≤ 2 ^ 53 - 1)
    (h : IsShortest x s e) :
    ∃ number : Number, canonicalNumber (layout s e) = .ok (some number) ∧ number.place? = some (.rational x.value) := by
  have hpoint := h.low hlow
  have hpoint' := h.high hx (by linarith)
  by_cases hinteger : ∃ n : ℕ, x.value = n
  · obtain ⟨n, hn⟩ := hinteger
    have hle : n ≤ maxInteger := by
      have hcast : (n : ℚ) + 1 ≤ 2 ^ 53 := by linarith
      exact Nat.le_pred_of_lt (by exact_mod_cast hcast)
    obtain ⟨he, hvalue⟩ := h.eq_of_integer hx hn (hle.trans_lt (by decide))
    have hsn : s * 10 ^ e.toNat = n := by
      rw [← Double.pow_toNat 10 he] at hvalue
      exact_mod_cast hvalue
    refine ⟨.integer n, ?_, ?_⟩
    · rw [layout_of_nonneg (h.pos hx) he (by omega), hsn, canonicalNumber_digits_eq_ok hle]
    · rw [hn]
      rfl
  · rw [not_exists] at hinteger
    have he := h.neg_of_fraction hinteger
    refine ⟨.double x, ?_, hx.place?⟩
    rw [canonicalNumber_layout_of_neg hx h he (by omega) (by omega),
      if_pos (display_eq_layout hx ((isShortest_iff hx).1 h) he hpoint hpoint')]

end Standard

/-! ## Plain numbers -/

/-- The number is zero, or large enough to be printed without an exponent and not too large for its double to tell it
from its neighbours. -/
def Number.IsPlain (v : Number) : Prop :=
  ∃ q : ℚ, v.place? = some (.rational q) ∧ (q = 0 ∨ 1 / 10000 ≤ q) ∧ q ≤ 2 ^ 53 - 1

namespace Double

variable {x : Double}

theorem value_eq_zero_iff : x.value = 0 ↔ x.significand = 0 := by
  have hunit : (2 : ℚ) ^ x.scale ≠ 0 := by positivity
  rw [value, mul_eq_zero_iff_right hunit, Nat.cast_eq_zero]

/-- A number that has a place is neither a NaN nor an infinity, and lies at its value. -/
theorem of_place? {q : ℚ} (h : (Number.double x).place? = some (.rational q)) :
    x.isNaN = false ∧ x.isInfinite = false ∧ x.toRat = q := by
  unfold Number.place? at h
  cases hnan : x.isNaN with
  | true => simp [hnan] at h
  | false =>
    cases hinfinite : x.isInfinite with
    | true => cases hsign : x.negative <;> simp [hnan, hinfinite, hsign] at h
    | false => exact ⟨rfl, rfl, by simpa [hnan, hinfinite] using h⟩

/-- A positive number with a place is positive and finite as a double. -/
theorem isPositive_of_place? {q : ℚ} (h : (Number.double x).place? = some (.rational q)) (hq : 0 < q) :
    x.IsPositive := by
  obtain ⟨hnan, hinfinite, rfl⟩ := of_place? h
  have hpos : 0 < x.significand := by
    by_contra hzero
    have hvalue : x.value = 0 := value_eq_zero_iff.2 (by omega)
    rw [toRat_eq, hvalue, neg_zero, ite_self] at hq
    exact absurd hq (lt_irrefl _)
  refine ⟨?_, exponentField_ne hnan hinfinite, hpos⟩
  · cases hsign : x.negative with
    | false => rfl
    | true =>
      have hvalue : 0 ≤ x.value := by unfold value; positivity
      rw [toRat_eq, hsign, if_pos rfl] at hq
      linarith

end Double

/-- A plain integer is a natural number. -/
theorem Number.IsPlain.exists_nat {n : ℤ} (h : (Number.integer n).IsPlain) : ∃ k : ℕ, n = k ∧ k ≤ maxInteger := by
  obtain ⟨q, hq, hlow, hhigh⟩ := h
  obtain rfl : (n : ℚ) = q := by simpa [Number.place?] using hq
  have hnonneg : 0 ≤ n := by
    have hcast : (0 : ℚ) ≤ n := by
      rcases hlow with hzero | hlow
      · exact hzero.ge
      · linarith
    exact_mod_cast hcast
  obtain ⟨k, rfl⟩ := Int.eq_ofNat_of_zero_le hnonneg
  have hlt : k < 2 ^ 53 := by
    have hcast : (k : ℚ) + 1 ≤ 2 ^ 53 := by push_cast at hhigh; linarith
    exact_mod_cast hcast
  exact ⟨k, rfl, Nat.le_pred_of_lt hlt⟩

/-- The double nearest to a plain number lies where the number lies. -/
theorem Number.IsPlain.place?_nearest {v : Number} (h : v.IsPlain) : (Number.double v.nearest).place? = v.place? := by
  cases v with
  | double x => rfl
  | integer n =>
    obtain ⟨k, rfl, hk⟩ := h.exists_nat
    rcases Nat.eq_zero_or_pos k with rfl | hpos
    · decide +kernel
    · obtain ⟨hx, hvalue⟩ := Double.ofRatio_natCast hpos (hk.trans_lt (by decide))
      have hnearest : (Number.integer k).nearest = .ofRatio false k 1 := by
        rw [Number.nearest, decide_eq_false (by omega), Int.natAbs_natCast]
      rw [hnearest, hx.place?, hvalue]
      rfl

/-- A plain number is the number of the standard form that is printed for it. -/
theorem canonicalNumber_of_prints {v : Number} (hplain : v.IsPlain) {text : List Char} (h : v.nearest.Prints text) :
    ∃ number : Number, canonicalNumber text = .ok (some number) ∧ number.place? = v.place? := by
  have hnearest := hplain.place?_nearest
  obtain ⟨q, hq, hlow, hhigh⟩ := hplain
  rw [hq] at hnearest ⊢
  obtain ⟨hnan, hinfinite, hvalue⟩ := Double.of_place? hnearest
  unfold Double.Prints at h
  simp only [hnan, hinfinite, Bool.false_eq_true, if_false] at h
  split at h
  case isTrue hzero =>
    rw [Double.toRat_eq, Double.value_eq_zero_iff.2 hzero, neg_zero, ite_self] at hvalue
    rw [h, ← hvalue]
    exact ⟨.integer 0, by decide, rfl⟩
  case isFalse hnonzero =>
    have hpos : 0 < q := by
      rcases hlow with rfl | hlow
      · refine absurd (Double.value_eq_zero_iff.1 ?_) hnonzero
        rw [Double.toRat_eq] at hvalue
        split at hvalue
        · exact neg_eq_zero.1 hvalue
        · exact hvalue
      · linarith
    have hx := Double.isPositive_of_place? hnearest hpos
    rw [Double.toRat_eq_value hx.sign] at hvalue
    obtain ⟨s, e, hshortest, rfl⟩ := h
    rw [Double.magnitude_eq_self hx.sign] at hshortest
    rw [hx.sign, ← hvalue]
    exact canonicalNumber_layout hx (hvalue ▸ hlow.resolve_left hpos.ne') (hvalue ▸ hhigh) hshortest

end ScriptTidy
