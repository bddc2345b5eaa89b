/-
Integers as the source language writes them: in decimal digits or in the digits of a base that the
letter behind a zero names, with separators between digits and with the last letter n of a big
integer; or with a needless zero in front, which means octal unless a digit rules that out. Such a
literal has the integer that its digits spell as its value and never a double, unless it is decimal
and has more digits than are read.
-/
import ScriptTidy.Proofs.Number.Canonical

namespace ScriptTidy

open Numeral

/-! ## Literals -/

/-- The character is the digit of the base with the given value. From ten on the digits are letters, in either case. -/
def IsDigitOf (base : Nat) (c : Char) (d : Nat) : Prop := d < base ∧ (c = d.digitChar ∨ c = d.digitChar.toUpper)

instance (base : Nat) (c : Char) (d : Nat) : Decidable (IsDigitOf base c d) := inferInstanceAs (Decidable (_ ∧ _))

/-- The text consists of digits of the base, with a separator between some of them, and they spell the number. -/
inductive DigitString (base : Nat) : List Char → Nat → Prop
  | digit {c : Char} {d : Nat} (hc : IsDigitOf base c d) : DigitString base [c] d
  | next {s : List Char} {c : Char} {n d : Nat} (hs : DigitString base s n) (hc : IsDigitOf base c d) :
      DigitString base (s ++ [c]) (n * base + d)
  | separated {s : List Char} {c : Char} {n d : Nat} (hs : DigitString base s n) (hc : IsDigitOf base c d) :
      DigitString base (s ++ ['_', c]) (n * base + d)

/-- The letters that name a base, and the base. -/
def baseLetters : List (Char × Nat) := [('b', 2), ('B', 2), ('o', 8), ('O', 8), ('x', 16), ('X', 16)]

/-- The text is an integer without a needless zero: decimal, or in the base that the letter behind a zero names. -/
inductive PlainInteger : Nat → List Char → Nat → Prop
  | decimal {c : Char} {s : List Char} {n : Nat} (hs : DigitString 10 (c :: s) n) (hzero : c = '0' → s = []) :
      PlainInteger 10 (c :: s) n
  | based {letter : Char} {base : Nat} {s : List Char} {n : Nat} (hletter : (letter, base) ∈ baseLetters)
      (hs : DigitString base s n) : PlainInteger base ('0' :: letter :: s) n

/-- The text is an integer literal of the source language: digits of the base that spell the number. A needless zero
means octal, or decimal if one of the digits is an eight or a nine; neither separators nor the letter n go with it. -/
inductive IntegerLiteral : Nat → List Char → Nat → Prop
  | plain {base : Nat} {s : List Char} {n : Nat} (hs : PlainInteger base s n) : IntegerLiteral base s n
  | suffixed {base : Nat} {s : List Char} {n : Nat} (hs : PlainInteger base s n) : IntegerLiteral base (s ++ ['n']) n
  | legacyOctal {s : List Char} {n : Nat} (hs : DigitString 8 ('0' :: s) n) (hbare : '_' ∉ s) (hne : s ≠ []) :
      IntegerLiteral 8 ('0' :: s) n
  | legacyDecimal {s : List Char} {n : Nat} (hs : DigitString 10 ('0' :: s) n) (hbare : '_' ∉ s)
      (hruled : '8' ∈ s ∨ '9' ∈ s) : IntegerLiteral 10 ('0' :: s) n

/-! ## Digits -/

section Digits

variable {base d : Nat} {c : Char} {s : List Char}

theorem digitValue?_digitChar : ∀ d < 16,
    digitValue? d.digitChar = some d ∧ digitValue? d.digitChar.toUpper = some d := by decide

theorem toNat_digitChar : ∀ d < 10, d.digitChar.toNat = 48 + d ∧ d.digitChar.toUpper.toNat = 48 + d := by decide

/-- What is read as a digit is a visible character in ASCII. -/
theorem plain_of_digitValue? (h : digitValue? c = some d) : c.toNat < 0x80 ∧ isSpace c = false := by
  have hrange : 48 ≤ c.toNat ∧ c.toNat ≤ 102 := by
    simp only [digitValue?, Bool.and_eq_true, decide_eq_true_iff] at h
    split_ifs at h <;> omega
  exact ⟨by omega, isSpace_eq_false (by omega)⟩

namespace IsDigitOf

theorem digitValue?_eq (h : IsDigitOf base c d) (hbase : base ≤ 16) : digitValue? c = some d := by
  have hread := digitValue?_digitChar d (Nat.lt_of_lt_of_le h.1 hbase)
  rcases h.2 with rfl | rfl
  · exact hread.1
  · exact hread.2

theorem ne_of_digitValue? (h : IsDigitOf base c d) (hbase : base ≤ 16) {c' : Char} (hc' : digitValue? c' = none) :
    c ≠ c' := by
  rintro rfl
  rw [h.digitValue?_eq hbase] at hc'
  cases hc'

theorem ne_separator (h : IsDigitOf base c d) (hbase : base ≤ 16) : c ≠ '_' := h.ne_of_digitValue? hbase rfl

theorem toNat_eq (h : IsDigitOf base c d) (hbase : base ≤ 10) : c.toNat = 48 + d := by
  have hnumber := toNat_digitChar d (Nat.lt_of_lt_of_le h.1 hbase)
  rcases h.2 with rfl | rfl
  · exact hnumber.1
  · exact hnumber.2

theorem bounds (h : IsDigitOf base c d) (hbase : base ≤ 10) : 48 ≤ c.toNat ∧ c.toNat ≤ 47 + base := by
  have hn := h.toNat_eq hbase
  have hd := h.1
  omega

theorem isAsciiDigit (h : IsDigitOf base c d) (hbase : base ≤ 10) : IsAsciiDigit c :=
  ⟨(h.bounds hbase).1, Nat.le_trans (h.bounds hbase).2 (Nat.add_le_add_left hbase 47)⟩

theorem isOctalDigit (h : IsDigitOf 8 c d) : '0' ≤ c ∧ c ≤ '7' := h.bounds (by decide)

end IsDigitOf

/-- A digit behind digits. -/
theorem digits?_concat {after : Bool} {ds : List Nat} (hs : digits? base after s = some ds)
    (hc : digitValue? c = some d) (hd : d < base) : digits? base after (s ++ [c]) = some (ds ++ [d]) := by
  fun_induction digits? base after s generalizing ds with
  | case1 =>
    cases hs
    exact digits?_cons hc hd
  | case3 rest ih => exact ih hs
  | case5 after first rest hfirst value hvalue hlt ih =>
    obtain ⟨values, hrest, rfl⟩ := Option.map_eq_some_iff.1 hs
    rw [List.cons_append, digits?_cons hvalue hlt, ih hrest, Option.map_some, List.cons_append]
  | case2 | case4 | case6 | case7 => cases hs

theorem ofDigits_concat (base : Nat) (ds : List Nat) (d : Nat) :
    ofDigits base (ds ++ [d]) = ofDigits base ds * base + d := List.foldl_concat ..

end Digits

/-! ## Strings of digits -/

section Strings

variable {base n : Nat} {c : Char} {s : List Char}

theorem filter_separators_cons (hc : c ≠ '_') : (c :: s).filter (· != '_') = c :: s.filter (· != '_') :=
  List.filter_cons_of_pos (bne_iff_ne.2 hc)

theorem filter_separators_eq_self (hs : '_' ∉ s) : s.filter (· != '_') = s :=
  List.filter_eq_self.2 fun _ hc => bne_iff_ne.2 (ne_of_mem_of_not_mem hc hs)

namespace DigitString

/-- Every character is a digit or a separator. -/
theorem eq_separator_or (h : DigitString base s n) (hc : c ∈ s) : c = '_' ∨ ∃ d, IsDigitOf base c d := by
  induction h with
  | digit hd => exact .inr ⟨_, List.mem_singleton.1 hc ▸ hd⟩
  | next _ hd ih =>
    rcases List.mem_append.1 hc with hc | hc
    · exact ih hc
    · exact .inr ⟨_, List.mem_singleton.1 hc ▸ hd⟩
  | separated _ hd ih =>
    rcases List.mem_append.1 hc with hc | hc
    · exact ih hc
    · rcases List.mem_cons.1 hc with rfl | hc
      · exact .inl rfl
      · exact .inr ⟨_, List.mem_singleton.1 hc ▸ hd⟩

/-- The first character is a digit. -/
theorem exists_eq_cons (h : DigitString base s n) : ∃ c rest d, s = c :: rest ∧ IsDigitOf base c d := by
  induction h with
  | digit hc => exact ⟨_, [], _, rfl, hc⟩
  | next _ _ ih | separated _ _ ih =>
    obtain ⟨c, rest, d, rfl, hc⟩ := ih
    exact ⟨c, _, d, List.cons_append, hc⟩

theorem head (h : DigitString base (c :: s) n) : ∃ d, IsDigitOf base c d := by
  obtain ⟨_, _, d, hcons, hd⟩ := h.exists_eq_cons
  exact ⟨d, (List.cons.inj hcons).1 ▸ hd⟩

/-- Without the separators every character is a digit. -/
theorem exists_isDigitOf (h : DigitString base s n) (hc : c ∈ s.filter (· != '_')) : ∃ d, IsDigitOf base c d := by
  obtain ⟨hmem, hne⟩ := List.mem_filter.1 hc
  exact (h.eq_separator_or hmem).resolve_left (bne_iff_ne.1 hne)

theorem isAsciiDigit (h : DigitString base s n) (hbase : base ≤ 10) (hc : c ∈ s.filter (· != '_')) : IsAsciiDigit c :=
  (h.exists_isDigitOf hc).elim fun _ hd => hd.isAsciiDigit hbase

theorem isPlain (h : DigitString base s n) (hbase : base ≤ 16) (hc : c ∈ s.filter (· != '_')) :
    c.toNat < 0x80 ∧ isSpace c = false :=
  (h.exists_isDigitOf hc).elim fun _ hd => plain_of_digitValue? (hd.digitValue?_eq hbase)

theorem n_notMem (h : DigitString base s n) (hbase : base ≤ 16) : 'n' ∉ s := by
  intro hmem
  rcases h.eq_separator_or hmem with hn | ⟨d, hd⟩
  · exact absurd hn (by decide)
  · exact hd.ne_of_digitValue? hbase rfl rfl

/-- Without the separators the text reads as digits, and they spell its number. -/
theorem exists_digits (h : DigitString base s n) (hbase : base ≤ 16) :
    ∃ ds, digits? base false (s.filter (· != '_')) = some ds ∧ ofDigits base ds = n := by
  -- a string grows at its end, and so do the digits that are read and the number that they spell
  induction h with
  | @digit c d hc =>
    refine ⟨[d], ?_, by simp [ofDigits]⟩
    rw [filter_separators_cons (hc.ne_separator hbase), digits?_cons (hc.digitValue?_eq hbase) hc.1]
    rfl
  | @next s c n d hs hc ih | @separated s c n d hs hc ih =>
    obtain ⟨ds, hds, rfl⟩ := ih
    have hconcat := digits?_concat hds (hc.digitValue?_eq hbase) hc.1
    refine ⟨ds ++ [d], ?_, ofDigits_concat base ds d⟩
    simpa [List.filter_append, hc.ne_separator hbase] using hconcat

theorem filter_ne_nil (h : DigitString base s n) (hbase : base ≤ 16) : s.filter (· != '_') ≠ [] := by
  obtain ⟨ds, hds, -⟩ := h.exists_digits hbase
  intro hnil
  rw [hnil] at hds
  cases hds

/-- What is left of a decimal string without the separators are its digits. -/
theorem length_filter (h : DigitString 10 s n) : (s.filter (· != '_')).length = s.countP Char.isDigit := by
  rw [← List.countP_eq_length_filter]
  refine List.countP_congr fun c hc => ?_
  rcases h.eq_separator_or hc with rfl | ⟨d, hd⟩
  · decide
  · have hdigit : c.isDigit = true := by
      simp only [Char.isDigit, Bool.and_eq_true, decide_eq_true_iff]
      exact hd.isAsciiDigit (Nat.le_refl _)
    simp only [hdigit, bne_iff_ne.2 (hd.ne_separator (by decide))]

/-- A string of digits is read in its base as the number that it spells. -/
theorem inBase_eq (h : DigitString base s n) (hbase : base ≤ 16) : inBase base (s.filter (· != '_')) = .ok n := by
  obtain ⟨ds, hds, rfl⟩ := h.exists_digits hbase
  rw [inBase, hds]

/-- A decimal string is read as the integer that it spells, unless it has too many digits. -/
theorem integer_eq_ok_iff (h : DigitString 10 s n) :
    integer (s.filter (· != '_')) = .ok (n : Int) ↔ s.countP Char.isDigit ≤ maxDecimalDigits := by
  have hdigits : ∀ c ∈ s.filter (· != '_'), IsAsciiDigit c := fun c => h.isAsciiDigit (Nat.le_refl _)
  have hne := h.filter_ne_nil (by decide)
  obtain ⟨ds, hds, hvalue⟩ := h.exists_digits (by decide)
  rw [digits?_eq hdigits (.inr hne), Option.some.injEq] at hds
  rw [integer_eq hdigits hne, ← ofDigits_map, hds, hvalue, h.length_filter]
  split
  case isTrue hle => exact iff_of_true rfl hle
  case isFalse hlt => exact iff_of_false nofun hlt

/-- A decimal integer without a needless zero does not start like one in another base. -/
theorem filter_ne_cons_cons (h : DigitString 10 (c :: s) n) (hzero : c = '0' → s = []) (letter : Char)
    (rest : List Char) : (c :: s).filter (· != '_') ≠ '0' :: letter :: rest := by
  obtain ⟨d, hd⟩ := h.head
  rw [filter_separators_cons (hd.ne_separator (by decide))]
  intro heq
  obtain ⟨rfl, hrest⟩ := List.cons.inj heq
  rw [hzero rfl] at hrest
  cases hrest

end DigitString

end Strings

/-! ## Leading zeros -/

section Zeros

variable {base n : Nat} {letter c : Char} {s : List Char}

theorem of_mem_baseLetters (h : (letter, base) ∈ baseLetters) : baseOf? letter = some base ∧ base ≤ 16 ∧ base ≠ 10 ∧
    letter ≠ 'n' ∧ letter ≠ '_' ∧ letter.toNat < 0x80 ∧ isSpace letter = false := by
  have hall : ∀ p ∈ baseLetters, baseOf? p.1 = some p.2 ∧ p.2 ≤ 16 ∧ p.2 ≠ 10 ∧ p.1 ≠ 'n' ∧ p.1 ≠ '_' ∧
      p.1.toNat < 0x80 ∧ isSpace p.1 = false := by decide
  exact hall _ h

theorem filter_based (hletter : (letter, base) ∈ baseLetters) :
    ('0' :: letter :: s).filter (· != '_') = '0' :: letter :: s.filter (· != '_') := by
  obtain ⟨-, -, -, -, hne, -⟩ := of_mem_baseLetters hletter
  rw [filter_separators_cons (by decide), filter_separators_cons hne]

/-- No digit names a base. -/
theorem baseOf?_digit (h : IsAsciiDigit c) : baseOf? c = none := by
  have hn := h.toNat
  unfold baseOf?
  split
  case h_7 => rfl
  all_goals exact absurd hn.2 (by decide)

theorem namesBase_eq_false (hs : ∀ c rest, s ≠ '0' :: c :: rest) : namesBase s = false := by
  unfold namesBase
  split
  · exact absurd rfl (hs _ _)
  · rfl

theorem isLegacy_eq_false (hs : ∀ c rest, s ≠ '0' :: c :: rest) : isLegacy s = false := by
  unfold isLegacy
  split
  · exact absurd rfl (hs _ _)
  · rfl

/-- Digits behind a zero name no base. -/
theorem isLegacy_digits (hs : ∀ c ∈ s, IsAsciiDigit c) (hne : s ≠ []) :
    namesBase ('0' :: s) = false ∧ isLegacy ('0' :: s) = true := by
  obtain ⟨c, rest, rfl⟩ := List.exists_cons_of_ne_nil hne
  constructor
  · rw [namesBase, baseOf?_digit (hs c (List.mem_cons_self ..))]
    rfl
  · rw [isLegacy, List.all_eq_true]
    intro d hd
    have hn := (hs d hd).toNat
    simp only [Text.isDigit, Text.isAsciiDigit]
    rw [if_pos (by omega), Bool.and_eq_true, decide_eq_true_iff, decide_eq_true_iff]
    exact hn

theorem prefixedNat_based (hletter : baseOf? letter = some base) (hs : '_' ∉ s) :
    prefixedNat ('0' :: letter :: s) = inBase base s := by
  simp only [prefixedNat, hletter]
  split
  · exact absurd (List.mem_cons_self ..) hs
  · rfl

theorem prefixedNat_decimal (hs : ∀ letter rest, s ≠ '0' :: letter :: rest) : prefixedNat s = decimal s := by
  unfold prefixedNat
  split
  · exact absurd rfl (hs _ _)
  · rfl

/-- An integer without a needless zero is read in the base that its start names, unless it is decimal and has too many
digits. -/
theorem PlainInteger.prefixed_eq_ok_iff (h : PlainInteger base s n) :
    prefixed (s.filter (· != '_')) = .ok (n : Int) ↔ (base = 10 → s.countP Char.isDigit ≤ maxDecimalDigits) := by
  cases h with
  | @decimal c s n hs hzero =>
    obtain ⟨d, hd⟩ := hs.head
    have hplain := fun x => hs.isPlain (c := x) (by decide)
    have hdecimal := prefixedNat_decimal (hs.filter_ne_cons_cons hzero)
    rw [forall_prop_of_true rfl, ← hs.integer_eq_ok_iff]
    rw [filter_separators_cons (hd.ne_separator (by decide))] at hplain hdecimal ⊢
    unfold prefixed integer
    rw [bare_eq_self hplain, sign_cons (hd.isAsciiDigit (Nat.le_refl _))]
    simp only [hdecimal]
  | @based letter base s n hletter hs =>
    obtain ⟨hbase, hle, hten, -, -, hplain⟩ := of_mem_baseLetters hletter
    have hall : ∀ c ∈ '0' :: letter :: s.filter (· != '_'), c.toNat < 0x80 ∧ isSpace c = false :=
      List.forall_mem_cons.2 ⟨by decide, List.forall_mem_cons.2 ⟨hplain, fun _ => hs.isPlain hle⟩⟩
    have hread : prefixedNat ('0' :: letter :: s.filter (· != '_')) = .ok n := by
      rw [prefixedNat_based hbase (by simp), hs.inBase_eq hle]
    refine iff_of_true ?_ fun h => absurd h hten
    unfold prefixed
    rw [filter_based hletter, bare_eq_self hall, sign_cons ⟨by decide, by decide⟩]
    simp only [hread]
    rfl

theorem PlainInteger.n_notMem (h : PlainInteger base s n) : 'n' ∉ s := by
  cases h with
  | decimal hs _ => exact hs.n_notMem (by decide)
  | based hletter hs =>
    obtain ⟨-, hle, -, hn, -⟩ := of_mem_baseLetters hletter
    simp only [List.mem_cons, not_or]
    exact ⟨by decide, hn.symm, hs.n_notMem hle⟩

end Zeros

/-! ## Values -/

section Values

variable {base n : Nat} {s : List Char} {raw : String}

theorem map_integer_eq_ok_iff {x : Except NumeralFault Int} {k : Int} :
    x.map Number.integer = .ok (.integer k) ↔ x = .ok k := by
  cases x with
  | error e => exact iff_of_false nofun nofun
  | ok m => simp [Except.map]

theorem PlainInteger.numberValue_suffixed (h : PlainInteger base s n) (hraw : raw.toList = s ++ ['n']) :
    numberValue raw = .ok (.integer n) ↔ (base = 10 → s.countP Char.isDigit ≤ maxDecimalDigits) := by
  have htext : raw.toList.filter (· != '_') = s.filter (· != '_') ++ ['n'] := by
    rw [hraw, List.filter_append]
    rfl
  unfold numberValue
  simp only [htext, List.getLast?_concat, if_true, List.dropLast_concat]
  rw [map_integer_eq_ok_iff, h.prefixed_eq_ok_iff]

theorem PlainInteger.numberValue_plain (h : PlainInteger base raw.toList n) :
    numberValue raw = .ok (.integer n) ↔ (base = 10 → raw.toList.countP Char.isDigit ≤ maxDecimalDigits) := by
  have hlast : (raw.toList.filter (· != '_')).getLast? ≠ some 'n' := fun hlast =>
    h.n_notMem (List.mem_filter.1 (List.mem_of_getLast? hlast)).1
  have hprefixed := h.prefixed_eq_ok_iff
  unfold numberValue
  simp only
  rw [if_neg hlast]
  generalize raw.toList = s at h hprefixed
  cases h with
  | @decimal c s n hs hzero =>
    have hshape := hs.filter_ne_cons_cons hzero
    rw [namesBase_eq_false hshape, isLegacy_eq_false hshape, if_neg Bool.false_ne_true, if_neg Bool.false_ne_true,
      forall_prop_of_true rfl, ← hs.integer_eq_ok_iff]
    cases hread : integer ((c :: s).filter (· != '_')) with
    | ok m => simp
    | error e =>
      -- what is not read as an integer may be a double
      refine iff_of_false ?_ nofun
      simp only
      split <;> exact nofun
  | @based letter base s n hletter hs =>
    have hnames : namesBase (('0' :: letter :: s).filter (· != '_')) = true := by
      rw [filter_based hletter, namesBase, (of_mem_baseLetters hletter).1]
      rfl
    rw [if_pos hnames, map_integer_eq_ok_iff, hprefixed]

/-- Digits with a needless zero in front are read in base eight or ten. -/
theorem numberValue_legacy (hdigits : ∀ c ∈ '0' :: s, IsAsciiDigit c) (hne : s ≠ []) (hraw : raw.toList = '0' :: s) :
    numberValue raw = if ('0' :: s).all (fun c => '0' ≤ c && c ≤ '7') then
      (inBase 8 ('0' :: s)).map fun n : Nat => .integer n else (integer ('0' :: s)).map .integer := by
  have hfilter : ('0' :: s).filter (· != '_') = '0' :: s :=
    filter_separators_eq_self fun hmem => absurd (hdigits _ hmem).2 (by decide)
  have hlast : ('0' :: s).getLast? ≠ some 'n' := fun hlast =>
    absurd (hdigits _ (List.mem_of_getLast? hlast)).2 (by decide)
  obtain ⟨hbase, hlegacy⟩ := isLegacy_digits (fun c hc => hdigits c (List.mem_cons_of_mem _ hc)) hne
  unfold numberValue
  simp only [hraw, hfilter]
  rw [if_neg hlast, hbase, hlegacy, if_neg Bool.false_ne_true, if_pos rfl]
  cases inBase 8 ('0' :: s) <;> rfl

theorem DigitString.numberValue_octal (h : DigitString 8 ('0' :: s) n) (hbare : '_' ∉ s) (hne : s ≠ [])
    (hraw : raw.toList = '0' :: s) : numberValue raw = .ok (.integer n) := by
  have hfilter : ('0' :: s).filter (· != '_') = '0' :: s := filter_separators_eq_self (by simpa using hbare)
  have hdigits := fun c => h.isAsciiDigit (c := c) (by decide)
  have hread := h.inBase_eq (by decide)
  have hoctal : ('0' :: s).all fun c => '0' ≤ c && c ≤ '7' := by
    rw [← hfilter, List.all_eq_true]
    intro c hc
    obtain ⟨d, hd⟩ := h.exists_isDigitOf hc
    rw [Bool.and_eq_true, decide_eq_true_iff, decide_eq_true_iff]
    exact hd.isOctalDigit
  rw [hfilter] at hdigits hread
  rw [numberValue_legacy hdigits hne hraw, if_pos hoctal, hread]
  rfl

theorem DigitString.numberValue_decimal (h : DigitString 10 ('0' :: s) n) (hbare : '_' ∉ s) (hruled : '8' ∈ s ∨ '9' ∈ s)
    (hraw : raw.toList = '0' :: s) :
    numberValue raw = .ok (.integer n) ↔ ('0' :: s).countP Char.isDigit ≤ maxDecimalDigits := by
  have hfilter : ('0' :: s).filter (· != '_') = '0' :: s := filter_separators_eq_self (by simpa using hbare)
  have hdigits := fun c => h.isAsciiDigit (c := c) (by decide)
  have hread := h.integer_eq_ok_iff
  have hne : s ≠ [] := by
    rintro rfl
    simp at hruled
  have hdecimal : ¬ ('0' :: s).all fun c => '0' ≤ c && c ≤ '7' := by
    intro hall
    rw [List.all_eq_true] at hall
    rcases hruled with hmem | hmem
    · exact absurd (hall _ (List.mem_cons_of_mem _ hmem)) (by decide)
    · exact absurd (hall _ (List.mem_cons_of_mem _ hmem)) (by decide)
  rw [hfilter] at hdigits hread
  rw [numberValue_legacy hdigits hne hraw, if_neg hdecimal, map_integer_eq_ok_iff, hread]

/-- The value of an integer literal is the integer that its digits spell, unless it is decimal and has more than 4300
digits. -/
theorem numberValue_eq_integer_iff (h : IntegerLiteral base raw.toList n) :
    numberValue raw = .ok (.integer n) ↔ (base = 10 → raw.toList.countP Char.isDigit ≤ 4300) := by
  generalize hraw : raw.toList = s at h
  cases h with
  | plain hs => exact hraw ▸ (hraw ▸ hs).numberValue_plain
  | suffixed hs =>
    rw [hs.numberValue_suffixed hraw, List.countP_append]
    rfl
  | legacyOctal hs hbare hne => exact iff_of_true (hs.numberValue_octal hbare hne hraw) nofun
  | legacyDecimal hs hbare hruled =>
    rw [hs.numberValue_decimal hbare hruled hraw, forall_prop_of_true rfl]
    rfl

theorem numberValue_eq_integer_hexadecimal : IntegerLiteral 16 "0XdE_adn".toList 0xdead ∧
    numberValue "0XdE_adn" = .ok (.integer 0xdead) := by
  have hd : IsDigitOf 16 'd' 13 := by decide
  have he : IsDigitOf 16 'E' 14 := by decide
  have ha : IsDigitOf 16 'a' 10 := by decide
  have hdigits := (((DigitString.digit hd).next he).separated ha).next hd
  have hliteral : IntegerLiteral 16 "0XdE_adn".toList 0xdead := .suffixed (.based (by decide) hdigits)
  exact ⟨hliteral, (numberValue_eq_integer_iff hliteral).2 (by decide)⟩

end Values

end ScriptTidy
