/-
Characters and their code points. A text is found again from its code points, and capitalizing a
text twice is the same as once: the upper-case form of a lower-case character starts with a visible
character that is not lower case, whichever of the two tables it is taken from.
-/
import Mathlib.Data.List.Basic
import ScriptTidy.Text.Capital
import ScriptTidy.Proofs.Lists
import ScriptTidy.Text.CodePoint

namespace ScriptTidy.Text

/-! ## Code points -/

namespace CodePoint

theorem toChar?_ofChar (c : Char) : (ofChar c).toChar? = some c := by
  have hvalid : (ofChar c).val.isValidChar := c.valid
  rw [toChar?, dif_pos hvalid]
  rfl

/-- A text is found again from its code points. -/
theorem toString?_map_ofChar (s : List Char) : toString? (s.map ofChar) = some (String.ofList s) := by
  have hchars : (s.map ofChar).mapM toChar? = some s := by
    induction s with
    | nil => rfl
    | cons c s ih => rw [List.map_cons, List.mapM_cons, toChar?_ofChar, ih]; rfl
  rw [toString?, hchars]
  rfl

end CodePoint

/-! ## Blanks at the ends -/

section Trim

variable {s : List Char} {c : Char}

/-- Cutting off the blanks of a text keeps a first character that is none. -/
theorem head?_trim (hc : s.head? = some c) (hblank : isBlank c = false) : (trim s).head? = some c := by
  obtain ⟨rest, rfl⟩ := List.head?_eq_some_iff.1 hc
  rw [trim, trimStart, List.dropWhile_cons_of_neg (by rw [hblank]; exact Bool.false_ne_true)]
  obtain ⟨_, htrimmed⟩ := exists_cons_of_trimmed hblank rest
  rw [trimEnd, htrimmed]
  rfl

/-- Cutting off the blanks of a text keeps a last character that is none. -/
theorem getLast?_trim (hc : s.getLast? = some c) (hblank : isBlank c = false) : (trim s).getLast? = some c := by
  obtain ⟨front, rfl⟩ := List.getLast?_eq_some_iff.1 hc
  have hstart : ∃ front', trimStart (front ++ [c]) = front' ++ [c] := by
    rw [trimStart, List.dropWhile_append]
    split
    · exact ⟨[], List.dropWhile_cons_of_neg (by rw [hblank]; exact Bool.false_ne_true)⟩
    · exact ⟨_, rfl⟩
  obtain ⟨front', hstart⟩ := hstart
  rw [trim, hstart, trimEnd, List.reverse_append, List.reverse_singleton, List.singleton_append,
    List.dropWhile_cons_of_neg (by rw [hblank]; exact Bool.false_ne_true), List.reverse_cons, List.reverse_reverse,
    List.getLast?_concat]

end Trim

/-! ## Strides -/

namespace Stride

variable {s t : Stride} {n : Nat}

theorem contains_iff : s.contains n ↔ s.first ≤ n ∧ n ≤ s.last ∧ s.step ∣ n - s.first := by
  simp only [contains, Bool.and_eq_true, decide_eq_true_eq, beq_iff_eq, and_assoc, Nat.dvd_iff_mod_eq_zero]

/-- The stride moved up or down. -/
def shifted (s : Stride) (shift : Int) : Stride := ⟨(s.first + shift).toNat, (s.last + shift).toNat, s.step⟩

theorem contains_shifted {shift : Int} (h : s.contains n) (hlow : 0 ≤ s.first + shift) :
    (s.shifted shift).contains (n + shift).toNat := by
  obtain ⟨hfirst, hlast, hstep⟩ := contains_iff.1 h
  refine contains_iff.2 ⟨?_, ?_, ?_⟩
  · simp only [shifted]
    omega
  · simp only [shifted]
    omega
  · have hsame : (n + shift).toNat - (s.first + shift).toNat = n - s.first := by omega
    simp only [shifted, hsame]
    exact hstep

/-- The strides lie one behind the other, or one holds even numbers and the other odd ones. -/
def isApart (s t : Stride) : Bool :=
  s.last.blt t.first || t.last.blt s.first ||
    ((s.step % 2 == 0 || s.first == s.last) && t.step % 2 == 0 && (s.first + t.first) % 2 == 1)

theorem not_contains_of_isApart (h : s.isApart t) (hs : s.contains n) : t.contains n = false := by
  rw [← Bool.not_eq_true, contains_iff]
  rintro ⟨htfirst, htlast, htstep⟩
  obtain ⟨hsfirst, hslast, hsstep⟩ := contains_iff.1 hs
  simp only [isApart, Bool.or_eq_true, Bool.and_eq_true, Nat.blt_eq, beq_iff_eq] at h
  rcases h with (h | h) | ⟨⟨hs2, ht2⟩, hodd⟩
  · omega
  · omega
  · have ht : 2 ∣ n - t.first := Nat.dvd_trans (Nat.dvd_of_mod_eq_zero ht2) htstep
    have hs : 2 ∣ n - s.first := by
      rcases hs2 with hs2 | hs2
      · exact Nat.dvd_trans (Nat.dvd_of_mod_eq_zero hs2) hsstep
      · omega
    omega

end Stride

/-! ## Upper case -/

/-- The blanks. -/
def blanks : List Stride := [⟨0x9, 0xd, 1⟩, ⟨0x1c, 0x20, 1⟩, ⟨0x85, 0x85, 1⟩, ⟨0xa0, 0xa0, 1⟩, ⟨0x1680, 0x1680, 1⟩,
  ⟨0x2000, 0x200a, 1⟩, ⟨0x2028, 0x2029, 1⟩, ⟨0x202f, 0x202f, 1⟩, ⟨0x205f, 0x205f, 1⟩, ⟨0x3000, 0x3000, 1⟩]

theorem isBlank_iff {c : Char} : isBlank c ↔ blanks.any (·.contains c.toNat) := by
  simp only [isBlank, blanks, List.any_cons, List.any_nil, Bool.or_false, Bool.or_eq_true, Bool.and_eq_true,
    decide_eq_true_eq, beq_iff_eq, Stride.contains_iff, Nat.one_dvd, and_true]
  omega

/-- Neither a blank nor lower case. -/
def isRaised (n : Nat) : Bool := (blanks ++ lowercase.toList).all fun s => !s.contains n

theorem isRaised_iff {c : Char} : isRaised c.toNat ↔ isBlank c = false ∧ isLower c = false := by
  have hlower : isLower c = lowercase.toList.any (·.contains c.toNat) := by rw [Array.any_toList]; rfl
  rw [← Bool.not_eq_true, ← Bool.not_eq_true, isBlank_iff, hlower]
  simp only [isRaised, List.all_append, Bool.and_eq_true, List.all_eq_true, List.any_eq_true, Bool.not_eq_true',
    not_exists, not_and, Bool.not_eq_true]

theorem isApart_uppercaseShifts : uppercaseShifts.toList.all fun s =>
    0 ≤ s.1.first + s.2 && (blanks ++ lowercase.toList).all fun t => (s.1.shifted s.2).isApart t := by
  decide +kernel

/-- The upper-case code points are raised. -/
theorem isRaised_of_shift {s : Stride × Int} (hs : s ∈ uppercaseShifts.toList) {n : Nat} (hn : s.1.contains n) :
    isRaised (n + s.2).toNat := by
  have h := List.all_eq_true.1 isApart_uppercaseShifts s hs
  rw [Bool.and_eq_true, decide_eq_true_eq, List.all_eq_true] at h
  refine List.all_eq_true.2 fun t ht => ?_
  rw [Stride.not_contains_of_isApart (h.2 t ht) (Stride.contains_shifted hn h.1)]
  rfl

theorem isRaised_of_expansion : uppercaseExpansions.all fun e => !e.2.isEmpty && e.2.all isRaised := by
  decide +kernel

theorem isRaised_ofNat {n : Nat} (h : isRaised n) : isRaised (Char.ofNat n).toNat := by
  unfold Char.ofNat
  by_cases hvalid : n.isValidChar
  · rw [dif_pos hvalid]
    exact h
  · rw [dif_neg hvalid]
    decide +kernel

/-- The upper-case form of a character is the character, or consists of visible characters that are
not lower case. -/
theorem upper_eq (c : Char) : upper c = [c] ∨ ∃ d ds, upper c = d :: ds ∧ ∀ e ∈ d :: ds, isRaised e.toNat := by
  unfold upper
  split
  case h_1 codes hlookup =>
    right
    have hmem : (c.toNat, codes) ∈ uppercaseExpansions := by
      obtain ⟨front, rest, htable, -⟩ := List.lookup_eq_some_iff.1 hlookup
      rw [htable]
      exact List.mem_append_right _ (List.mem_cons_self ..)
    have hraised := List.all_eq_true.1 isRaised_of_expansion _ hmem
    cases codes with
    | nil => cases hraised
    | cons n codes =>
      refine ⟨_, _, rfl, fun e he => ?_⟩
      rw [← List.map_cons, List.mem_map] at he
      obtain ⟨m, hm, rfl⟩ := he
      exact isRaised_ofNat (List.all_eq_true.1 hraised m hm)
  case h_2 =>
    split
    case h_1 s shift hfind =>
      right
      rw [← Array.find?_toList] at hfind
      have hcontains : s.contains c.toNat := by simpa using List.find?_some hfind
      have hraised := isRaised_of_shift (List.mem_of_find?_eq_some hfind) hcontains
      exact ⟨_, [], rfl, fun e he => List.mem_singleton.1 he ▸ isRaised_ofNat hraised⟩
    case h_2 => exact .inl rfl

theorem newline_notMem_upper {c : Char} (hc : c ≠ '\n') : '\n' ∉ upper c := by
  rcases upper_eq c with hupper | ⟨d, ds, hupper, hraised⟩
  · rw [hupper, List.mem_singleton]
    exact hc.symm
  · rw [hupper]
    exact fun hmem => absurd (isRaised_iff.1 (hraised _ hmem)).1 (by decide)

/-- Capital letters end no line. -/
theorem newline_notMem_capitalizeChars {s : List Char} (hs : '\n' ∉ s) : '\n' ∉ capitalizeChars s := by
  fun_induction capitalizeChars s with
  | case1 => exact hs
  | case2 c rest hblank ih =>
    rw [List.mem_cons, not_or] at hs ⊢
    exact ⟨hs.1, ih hs.2⟩
  | case3 c rest hblank hlower =>
    rw [List.mem_cons, not_or] at hs
    rw [List.mem_append, not_or]
    exact ⟨newline_notMem_upper (Ne.symm hs.1), hs.2⟩
  | case4 => exact hs

/-! ## Capitalizing twice -/

theorem capitalizeChars_idem (s : List Char) : capitalizeChars (capitalizeChars s) = capitalizeChars s := by
  induction s with
  | nil => rfl
  | cons c s ih =>
    cases hblank : isBlank c with
    | true => simp only [capitalizeChars, hblank, if_true, ih]
    | false =>
      cases hlower : isLower c with
      | false => simp only [capitalizeChars, hblank, hlower, Bool.false_eq_true, if_false]
      | true =>
        have hcap : capitalizeChars (c :: s) = upper c ++ s := by
          simp only [capitalizeChars, hblank, hlower, Bool.false_eq_true, if_false, if_true]
        rw [hcap]
        rcases upper_eq c with hupper | ⟨d, ds, hupper, hraised⟩
        · rw [hupper, List.singleton_append, hcap, hupper, List.singleton_append]
        · obtain ⟨hd, hnot⟩ := isRaised_iff.1 (hraised d (List.mem_cons_self ..))
          rw [hupper, List.cons_append]
          simp only [capitalizeChars, hd, hnot, Bool.false_eq_true, if_false]

end ScriptTidy.Text
