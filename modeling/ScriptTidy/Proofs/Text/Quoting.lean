/-
String literals as they are written. Between its quotes a literal holds printable characters that
stand for themselves and complete escapes, nothing else, so it ends at its last character and nowhere
before. Read back it is the value that was written, with every surrogate pair as one character: one
escape is read for each unit of UTF-16, and the pairs are joined afterwards.
-/
import Mathlib.Data.Nat.Init
import ScriptTidy.Text.Escape
import ScriptTidy.Text.Quoted

namespace ScriptTidy.Text

/-! ## The form of a literal -/

/-- A printable character of ASCII. -/
def IsPrintable (c : Char) : Prop := 0x20 ≤ c.toNat ∧ c.toNat ≤ 0x7e

instance (c : Char) : Decidable (IsPrintable c) := inferInstanceAs (Decidable (_ ∧ _))

namespace Quoted

/-- A hexadecimal digit, with a lower-case letter if it is one. -/
def IsHexDigit (c : Char) : Prop := ('0' ≤ c ∧ c ≤ '9') ∨ ('a' ≤ c ∧ c ≤ 'f')

/-- A complete escape of a literal between the given quotes. -/
inductive IsEscape (quote : Char) : List Char → Prop
  /-- A control character by its letter, or the backslash itself. -/
  | short {c : Char} : c ∈ ['b', 't', 'n', 'v', 'f', 'r', '\\'] → IsEscape quote ['\\', c]
  | quote : IsEscape quote ['\\', quote]
  | byte {digits : List Char} : digits.length = 2 → (∀ d ∈ digits, IsHexDigit d) →
      IsEscape quote ('\\' :: 'x' :: digits)
  | unit {digits : List Char} : digits.length = 4 → (∀ d ∈ digits, IsHexDigit d) →
      IsEscape quote ('\\' :: 'u' :: digits)

/-- What stands between the quotes of a literal: characters that stand for themselves, which are
printable and neither the quote nor a backslash, and complete escapes. -/
inductive IsBody (quote : Char) : List Char → Prop
  | nil : IsBody quote []
  | plain {c : Char} {rest : List Char} : IsPrintable c → c ≠ quote → c ≠ '\\' → IsBody quote rest →
      IsBody quote (c :: rest)
  | escape {e rest : List Char} : IsEscape quote e → IsBody quote rest → IsBody quote (e ++ rest)

variable {quote : Char} {p : CodePoint} {n : Nat}

theorem IsHexDigit.printable {c : Char} (h : IsHexDigit c) : IsPrintable c := by
  simp only [IsHexDigit, Char.le_def, UInt32.le_iff_toNat_le] at h
  change 0x20 ≤ c.val.toNat ∧ c.val.toNat ≤ 0x7e
  rcases h with ⟨hlow, hhigh⟩ | ⟨hlow, hhigh⟩
  · exact ⟨Nat.le_trans (by decide) hlow, Nat.le_trans hhigh (by decide)⟩
  · exact ⟨Nat.le_trans (by decide) hlow, Nat.le_trans hhigh (by decide)⟩

theorem IsEscape.printable {e : List Char} (hquote : IsPrintable quote) (h : IsEscape quote e) :
    ∀ c ∈ e, IsPrintable c := by
  have hbackslash : IsPrintable '\\' := by decide
  cases h with
  | short hc =>
    have hshort : ['b', 't', 'n', 'v', 'f', 'r', '\\'].all (fun c => decide (IsPrintable c)) = true := by decide
    simp [hbackslash, of_decide_eq_true (List.all_eq_true.1 hshort _ hc)]
  | quote => simp [hbackslash, hquote]
  | byte _ hdigits =>
    have hx : IsPrintable 'x' := by decide
    simpa [hbackslash, hx] using fun d hd => (hdigits d hd).printable
  | unit _ hdigits =>
    have hu : IsPrintable 'u' := by decide
    simpa [hbackslash, hu] using fun d hd => (hdigits d hd).printable

theorem IsBody.printable {body : List Char} (hquote : IsPrintable quote) (h : IsBody quote body) :
    ∀ c ∈ body, IsPrintable c := by
  induction h with
  | nil => exact fun c hc => nomatch hc
  | plain hc _ _ _ ih => exact List.forall_mem_cons.2 ⟨hc, ih⟩
  | escape he _ ih => exact List.forall_mem_append.2 ⟨he.printable hquote, ih⟩

/-! ## Hexadecimal digits -/

theorem isHexDigit_hexDigit (h : n < 16) : IsHexDigit (hexDigit n) := by
  have hall : ∀ n < 16, IsHexDigit (hexDigit n) := by unfold IsHexDigit; decide
  exact hall n h

theorem hexValue?_hexDigit (h : n < 16) : Escape.hexValue? (CodePoint.ofChar (hexDigit n)) = some n := by
  have hall : ∀ n < 16, Escape.hexValue? (CodePoint.ofChar (hexDigit n)) = some n := by decide
  exact hall n h

theorem length_hex : ∀ count n : Nat, (hex count n).length = count
  | 0, _ => rfl
  | count + 1, n => by rw [hex, List.length_append, length_hex count]; rfl

theorem isHexDigit_of_mem_hex : ∀ {count n : Nat}, ∀ d ∈ hex count n, IsHexDigit d
  | 0, _, d, hd => nomatch hd
  | count + 1, n, d, hd => by
    rcases List.mem_append.1 hd with hd | hd
    · exact isHexDigit_of_mem_hex d hd
    · rw [List.mem_singleton.1 hd]
      exact isHexDigit_hexDigit (Nat.mod_lt n (by decide))

variable (rest : List CodePoint)

/-- Two digits are read back. -/
theorem hexExactly?_two (h : n < 0x100) :
    Escape.hexExactly? 2 (CodePoint.ofChars (hex 2 n) ++ rest) 0 = some (n, rest) := by
  have hvalue : n / 16 % 16 * 16 + n % 16 = n := by omega
  simp only [hex, List.nil_append, List.cons_append, CodePoint.ofChars, List.map_cons, List.map_nil, Escape.hexExactly?,
    hexValue?_hexDigit (Nat.mod_lt _ (by decide : 0 < 16)), Option.bind_some, Nat.zero_mul, Nat.zero_add, hvalue]

/-- Four digits are read back. -/
theorem hexExactly?_four (h : n < 0x10000) :
    Escape.hexExactly? 4 (CodePoint.ofChars (hex 4 n) ++ rest) 0 = some (n, rest) := by
  have hvalue : ((n / 16 / 16 / 16 % 16 * 16 + n / 16 / 16 % 16) * 16 + n / 16 % 16) * 16 + n % 16 = n := by omega
  simp only [hex, List.nil_append, List.cons_append, CodePoint.ofChars, List.map_cons, List.map_nil, Escape.hexExactly?,
    hexValue?_hexDigit (Nat.mod_lt _ (by decide : 0 < 16)), Option.bind_some, Nat.zero_mul, Nat.zero_add, hvalue]

end Quoted

/-! ## Reading one escape -/

namespace Escape

variable {fuel : Nat} {p : CodePoint} {rest after value : List CodePoint}

theorem replaceAll_plain (h : p.val ≠ 0x5c) :
    replaceAll (fuel + 1) (p :: rest) = (p :: ·) <$> replaceAll fuel rest := by
  rw [replaceAll]
  · rfl
  · rintro hlt rfl
    exact h rfl

theorem replaceAll_escape (h : sequence p rest = .ok (value, after)) :
    replaceAll (fuel + 1) (CodePoint.ofChar '\\' :: p :: rest) = (value ++ ·) <$> replaceAll fuel after := by
  have hbackslash : CodePoint.ofChar '\\' = ⟨0x5c, by decide⟩ := rfl
  rw [hbackslash, replaceAll, h]
  rfl

theorem braced?_eq_none (h : p.val ≠ 0x7b) : braced? (p :: rest) = none := by
  unfold braced?
  split
  case h_1 heq =>
    obtain ⟨rfl, -⟩ := List.cons.inj heq
    exact absurd rfl h
  case h_2 => rfl

theorem codePoint_of_lt {n : Nat} (h : n < 0x110000) : codePoint n = .ok ⟨n, h⟩ := dif_pos h

end Escape

namespace Quoted

variable {quote : Char} {p : CodePoint} {n : Nat} {rest : List CodePoint}

theorem sequence_byte (h : n < 0x100) :
    Escape.sequence (CodePoint.ofChar 'x') (CodePoint.ofChars (hex 2 n) ++ rest) =
      .ok ([⟨n, Nat.lt_trans h (by decide)⟩], rest) := by
  have hx : (CodePoint.ofChar 'x').val = 0x78 := rfl
  unfold Escape.sequence
  rw [if_neg (by rw [hx]; decide), if_pos hx, hexExactly?_two rest h]
  simp only [Escape.codePoint_of_lt (Nat.lt_trans h (by decide))]
  rfl

theorem sequence_unit (h : n < 0x10000) :
    Escape.sequence (CodePoint.ofChar 'u') (CodePoint.ofChars (hex 4 n) ++ rest) =
      .ok ([⟨n, Nat.lt_trans h (by decide)⟩], rest) := by
  have hu : (CodePoint.ofChar 'u').val = 0x75 := rfl
  have hbraced : Escape.braced? (CodePoint.ofChars (hex 4 n) ++ rest) = none := by
    have hdigit : ∀ d < 16, (CodePoint.ofChar (hexDigit d)).val ≠ 0x7b := by decide
    exact Escape.braced?_eq_none (hdigit _ (Nat.mod_lt _ (by decide)))
  unfold Escape.sequence
  rw [if_pos hu, hbraced, hexExactly?_four rest h]
  simp only [Escape.codePoint_of_lt (Nat.lt_trans h (by decide))]
  rfl

/-- The text stands for the code points between the given quotes: each of them is a character that
stands for itself, or a complete escape that is read as it. -/
inductive Spells (quote : Char) : List Char → List CodePoint → Prop
  | nil : Spells quote [] []
  | plain {c : Char} {text : List Char} {ps : List CodePoint} : IsPrintable c → c ≠ quote → c ≠ '\\' →
      Spells quote text ps → Spells quote (c :: text) (CodePoint.ofChar c :: ps)
  | escape {c : Char} {cs text : List Char} {p : CodePoint} {ps : List CodePoint} : IsEscape quote ('\\' :: c :: cs) →
      (∀ rest, Escape.sequence (CodePoint.ofChar c) (CodePoint.ofChars cs ++ rest) = .ok ([p], rest)) →
      Spells quote text ps → Spells quote ('\\' :: c :: cs ++ text) (p :: ps)

namespace Spells

variable {text : List Char} {ps : List CodePoint}

theorem isBody (h : Spells quote text ps) : IsBody quote text := by
  induction h with
  | nil => exact .nil
  | plain hc hquote hbackslash _ ih => exact .plain hc hquote hbackslash ih
  | escape he _ _ ih => exact .escape he ih

theorem append {more : List Char} {qs : List CodePoint} (h : Spells quote text ps) (hmore : Spells quote more qs) :
    Spells quote (text ++ more) (ps ++ qs) := by
  induction h with
  | nil => exact hmore
  | plain hc hquote hbackslash _ ih => exact .plain hc hquote hbackslash ih
  | escape he hread _ ih =>
    rw [List.append_assoc]
    exact .escape he hread ih

/-- What the text stands for is read. -/
theorem replaceAll (h : Spells quote text ps) : ∀ {fuel : Nat}, text.length ≤ fuel →
    Escape.replaceAll fuel (CodePoint.ofChars text) = .ok ps := by
  induction h with
  | nil =>
    intro fuel _
    simp [CodePoint.ofChars, Escape.replaceAll]
  | @plain c text ps _ _ hbackslash _ ih =>
    intro fuel hfuel
    obtain ⟨fuel, rfl⟩ := Nat.exists_eq_add_one.2 (Nat.lt_of_lt_of_le (Nat.succ_pos _) hfuel)
    have hc : (CodePoint.ofChar c).val ≠ 0x5c := fun h => hbackslash (Char.toNat_inj.1 h)
    rw [CodePoint.ofChars, List.map_cons, Escape.replaceAll_plain hc, ← CodePoint.ofChars,
      ih (Nat.le_of_succ_le_succ hfuel)]
    rfl
  | @escape c cs text p ps _ hread _ ih =>
    intro fuel hfuel
    obtain ⟨fuel, rfl⟩ := Nat.exists_eq_add_one.2 (Nat.lt_of_lt_of_le (Nat.succ_pos _) hfuel)
    have hlength : text.length ≤ fuel := by
      simp only [List.length_append, List.length_cons] at hfuel
      omega
    have hread := hread (CodePoint.ofChars text)
    rw [CodePoint.ofChars, CodePoint.ofChars, ← List.map_append] at hread
    rw [CodePoint.ofChars, List.cons_append, List.cons_append, List.map_cons, List.map_cons,
      Escape.replaceAll_escape hread, ← CodePoint.ofChars, ih hlength]
    rfl

end Spells

theorem isEscape_unit (n : Nat) : IsEscape quote (unit n) := .unit (length_hex 4 n) isHexDigit_of_mem_hex

theorem spells_unit (h : n < 0x10000) : Spells quote (unit n) [⟨n, Nat.lt_trans h (by decide)⟩] := by
  have hspells : Spells quote (unit n ++ []) [⟨n, Nat.lt_trans h (by decide)⟩] :=
    .escape (isEscape_unit n) (fun rest => sequence_unit h) .nil
  rwa [List.append_nil] at hspells

/-- The units of UTF-16 of a code point, a surrogate being one. -/
def units (p : CodePoint) : List CodePoint :=
  if p.val < 0x10000 then [p]
  else [⟨0xd800 + (p.val - 0x10000) / 0x400, by have := p.isLt; omega⟩, ⟨0xdc00 + (p.val - 0x10000) % 0x400, by omega⟩]

/-- A short escape is read as its control character. -/
theorem spells_short {c : Char} {p : CodePoint} (hc : c ∈ ['b', 't', 'n', 'v', 'f', 'r', '\\'])
    (hread : ∀ rest, Escape.sequence (CodePoint.ofChar c) rest = .ok ([p], rest)) : Spells quote ['\\', c] [p] :=
  .escape (.short hc) hread .nil

theorem toNat_ofNat_of_le (h : n ≤ 0x7e) : (Char.ofNat n).toNat = n := by
  have hvalid : n.isValidChar := .inl (by omega)
  rw [Char.ofNat, dif_pos hvalid]
  rfl

/-- A code point below the supplementary ones is written as itself or as one escape. -/
theorem spells_narrow
    (hquote : quote = '\'' ∨ quote = '"') (h : p.val < 0x10000) : Spells quote (escape quote p) [p] := by
  obtain ⟨n, hn⟩ := p
  unfold escape
  simp only
  -- first the characters that have a short escape
  iterate 7
    split
    · subst_vars
      exact spells_short (by decide) fun _ => rfl
  rename_i hbackslash
  split
  · subst_vars
    refine .escape .quote (fun rest => ?_) .nil
    rcases hquote with rfl | rfl
    · rfl
    · rfl
  rename_i hother
  split
  · rename_i hprintable
    have hchar : (Char.ofNat n).toNat = n := toNat_ofNat_of_le hprintable.2
    have hpoint : CodePoint.ofChar (Char.ofNat n) = ⟨n, hn⟩ := Fin.ext hchar
    rw [← hpoint]
    refine .plain (by rwa [IsPrintable, hchar]) ?_ ?_ .nil
    · rintro rfl
      exact hother hchar.symm
    · intro heq
      rw [heq] at hchar
      exact hbackslash hchar.symm
  split
  · rename_i hbyte
    have hspells : Spells quote ('\\' :: 'x' :: hex 2 n ++ []) [⟨n, hn⟩] :=
      .escape (.byte (length_hex 2 n) isHexDigit_of_mem_hex) (fun rest => sequence_byte hbyte) .nil
    rwa [List.append_nil] at hspells
  · exact spells_unit h

/-- A code point is written as what stands for its units. -/
theorem spells_escape (hquote : quote = '\'' ∨ quote = '"') (p : CodePoint) :
    Spells quote (escape quote p) (units p) := by
  unfold units
  split
  case isTrue hnarrow => exact spells_narrow hquote hnarrow
  case isFalse hwide =>
    have hp := p.isLt
    have hescape : escape quote p =
        unit (0xd800 + (p.val - 0x10000) / 0x400) ++ unit (0xdc00 + (p.val - 0x10000) % 0x400) := by
      have hcontrols : ∀ k < 0x10000, p.val ≠ k := by omega
      have hcode : quote.toNat < 0x10000 := by rcases hquote with rfl | rfl <;> decide
      unfold escape
      simp only
      rw [if_neg (hcontrols _ (by decide)), if_neg (hcontrols _ (by decide)), if_neg (hcontrols _ (by decide)),
        if_neg (hcontrols _ (by decide)), if_neg (hcontrols _ (by decide)), if_neg (hcontrols _ (by decide)),
        if_neg (hcontrols _ (by decide)), if_neg (hcontrols _ hcode), if_neg (by omega), if_neg (by omega),
        if_neg hwide]
    have hhigh : 0xd800 + (p.val - 0x10000) / 0x400 < 0x10000 := by omega
    have hlow : 0xdc00 + (p.val - 0x10000) % 0x400 < 0x10000 := by omega
    rw [hescape]
    exact (spells_unit hhigh).append (spells_unit hlow)

theorem spells_flatMap (hquote : quote = '\'' ∨ quote = '"') : ∀ value : List CodePoint,
    Spells quote (value.flatMap (escape quote)) (value.flatMap units)
  | [] => .nil
  | p :: value => (spells_escape hquote p).append (spells_flatMap hquote value)

end Quoted

/-! ## Surrogate pairs -/

namespace CodePoint

/-- The second sequence is the first with each adjacent high and low surrogate as the one character
that they denote. -/
inductive PairsJoined : List CodePoint → List CodePoint → Prop
  | nil : PairsJoined [] []
  | pair {high low c : CodePoint} {ps qs : List CodePoint} : high.isHigh → low.isLow →
      c.val = 0x10000 + (high.val - 0xd800) * 0x400 + (low.val - 0xdc00) → PairsJoined ps qs →
      PairsJoined (high :: low :: ps) (c :: qs)
  | single {p : CodePoint} {ps qs : List CodePoint} : (p.isHigh → ∀ q ∈ ps.head?, ¬ q.isLow) → PairsJoined ps qs →
      PairsJoined (p :: ps) (p :: qs)

variable {p high low : CodePoint} {ps qs : List CodePoint}

theorem isHigh_iff : p.isHigh ↔ 0xd800 ≤ p.val ∧ p.val ≤ 0xdbff := by simp [isHigh]

theorem isLow_iff : p.isLow ↔ 0xdc00 ≤ p.val ∧ p.val ≤ 0xdfff := by simp [isLow]

theorem val_joined (hhigh : high.isHigh) (hlow : low.isLow) :
    (joined high low).val = 0x10000 + (high.val - 0xd800) * 0x400 + (low.val - 0xdc00) := by
  rw [isHigh_iff] at hhigh
  rw [isLow_iff] at hlow
  exact Nat.mod_eq_of_lt (by omega)

theorem joinSurrogates_pair (hhigh : high.isHigh) (hlow : low.isLow) :
    joinSurrogates (high :: low :: ps) = joined high low :: joinSurrogates ps := by
  rw [joinSurrogates, hhigh, hlow]
  rfl

theorem joinSurrogates_single (h : p.isHigh → ∀ q ∈ ps.head?, ¬ q.isLow) :
    joinSurrogates (p :: ps) = p :: joinSurrogates ps := by
  cases ps with
  | nil => simp [joinSurrogates]
  | cons q ps =>
    have hpair : (p.isHigh && q.isLow) = false := by
      rw [Bool.and_eq_false_imp]
      exact fun hp => Bool.not_eq_true _ ▸ h hp q rfl
    rw [joinSurrogates, hpair]
    rfl

theorem pairsJoined_joinSurrogates (ps : List CodePoint) : PairsJoined ps (joinSurrogates ps) := by
  fun_induction joinSurrogates ps with
  | case1 high low ps hpair ih =>
    obtain ⟨hhigh, hlow⟩ := Bool.and_eq_true_iff.1 hpair
    exact .pair hhigh hlow (val_joined hhigh hlow) ih
  | case2 high low ps hpair ih =>
    refine .single (fun hhigh q hq hlow => hpair ?_) ih
    obtain rfl : low = q := Option.some.inj hq
    rw [hhigh, hlow]
    rfl
  | case3 ps hshort =>
    match ps, hshort with
    | [], _ => exact .nil
    | [p], _ => exact .single (fun _ q hq => nomatch hq) .nil
    | high :: low :: ps, hshort => exact absurd rfl (hshort high low ps)

/-- Joining makes no low surrogate the first. -/
theorem PairsJoined.head (h : PairsJoined ps qs) : ∀ q ∈ qs.head?, q.isLow → q ∈ ps.head? := by
  cases h with
  | nil => exact fun q hq => nomatch hq
  | pair hhigh hlow hc _ =>
    intro q hq hqlow
    obtain rfl := Option.some.inj hq
    rw [isLow_iff] at hqlow
    omega
  | single _ _ => exact fun q hq _ => hq

/-- Where the pairs are joined no more are to be joined. -/
theorem PairsJoined.again (h : PairsJoined ps qs) : joinSurrogates qs = qs := by
  induction h with
  | nil => simp [joinSurrogates]
  | pair hhigh hlow hc _ ih =>
    rw [joinSurrogates_single, ih]
    intro hchigh
    rw [isHigh_iff] at hchigh
    omega
  | single hp hrest ih =>
    rw [joinSurrogates_single, ih]
    exact fun hphigh q hq hlow => hp hphigh q (hrest.head q hq hlow) hlow

theorem units_of_lt (h : p.val < 0x10000) : Quoted.units p = [p] := if_pos h

/-- The units of a supplementary character are the pair that denotes it. -/
theorem exists_units_of_le (h : 0x10000 ≤ p.val) :
    ∃ high low, Quoted.units p = [high, low] ∧ high.isHigh ∧ low.isLow ∧ joined high low = p := by
  have hp := p.isLt
  refine ⟨_, _, if_neg (Nat.not_lt.2 h), ?_, ?_, ?_⟩
  · rw [isHigh_iff]
    simp only
    omega
  · rw [isLow_iff]
    simp only
    omega
  · ext
    rw [val_joined]
    · simp only
      omega
    · rw [isHigh_iff]
      simp only
      omega
    · rw [isLow_iff]
      simp only
      omega

/-- Only the low surrogates have units that begin with one. -/
theorem isLow_of_head_units (h : ∀ q ∈ ps.head?, ¬ q.isLow) : ∀ q ∈ (ps.flatMap Quoted.units).head?, ¬ q.isLow := by
  cases ps with
  | nil => exact fun q hq => nomatch hq
  | cons p ps =>
    rw [List.flatMap_cons]
    rcases Nat.lt_or_ge p.val 0x10000 with hp | hp
    · rw [units_of_lt hp]
      exact h
    · obtain ⟨high, low, hunits, hhigh, -⟩ := exists_units_of_le hp
      rw [hunits]
      intro q hq hqlow
      obtain rfl : high = q := Option.some.inj hq
      rw [isHigh_iff] at hhigh
      rw [isLow_iff] at hqlow
      omega

/-- The pairs of the units are those of the text itself and one for each supplementary character. -/
theorem joinSurrogates_units (h : PairsJoined ps qs) : joinSurrogates (ps.flatMap Quoted.units) = qs := by
  induction h with
  | nil => simp [joinSurrogates]
  | @pair high low c ps qs hhigh hlow hc _ ih =>
    have hhighlt : high.val < 0x10000 := Nat.lt_of_le_of_lt (isHigh_iff.1 hhigh).2 (by decide)
    have hlowlt : low.val < 0x10000 := Nat.lt_of_le_of_lt (isLow_iff.1 hlow).2 (by decide)
    have hjoined : joined high low = c := Fin.ext ((val_joined hhigh hlow).trans hc.symm)
    rw [List.flatMap_cons, List.flatMap_cons, units_of_lt hhighlt, units_of_lt hlowlt, List.singleton_append,
      List.singleton_append, joinSurrogates_pair hhigh hlow, ih, hjoined]
  | @single p ps qs hp hrest ih =>
    rw [List.flatMap_cons]
    rcases Nat.lt_or_ge p.val 0x10000 with hnarrow | hwide
    · rw [units_of_lt hnarrow, List.singleton_append,
        joinSurrogates_single fun hhigh => isLow_of_head_units (hp hhigh), ih]
    · obtain ⟨high, low, hunits, hhigh, hlow, hjoined⟩ := exists_units_of_le hwide
      rw [hunits, List.cons_append, List.singleton_append, joinSurrogates_pair hhigh hlow, ih, hjoined]

end CodePoint

/-! ## Writing and reading back -/

theorem decodeString_of_spells {quote : Char} {text : List Char} {ps : List CodePoint}
    (h : Quoted.Spells quote text ps) :
    decodeString (CodePoint.ofChars text) = .ok (CodePoint.joinSurrogates ps) := by
  have hlength : text.length ≤ (CodePoint.ofChars text).length := Nat.le_of_eq (List.length_map _).symm
  rw [decodeString, h.replaceAll hlength]
  rfl

/-- A value that was read has no pairs left to join. -/
theorem joinSurrogates_of_decodeString {text value : List CodePoint} (h : decodeString text = .ok value) :
    CodePoint.joinSurrogates value = value := by
  rw [decodeString] at h
  cases hread : Escape.replaceAll text.length text with
  | error fault =>
    rw [hread] at h
    cases h
  | ok ps =>
    rw [hread] at h
    obtain rfl : CodePoint.joinSurrogates ps = value := Except.ok.inj h
    exact (CodePoint.pairsJoined_joinSurrogates ps).again

theorem quoteFor_eq (value : List CodePoint) : Quoted.quoteFor value = '\'' ∨ Quoted.quoteFor value = '"' := by
  unfold Quoted.quoteFor
  split
  · exact .inr rfl
  · exact .inl rfl

/-- A literal is printable ASCII, ends at its last character and nowhere before, and is read back as
the value that was written, its surrogate pairs joined: as the value itself if that was read from a
literal. -/
theorem quoteString_spec (value : List CodePoint) :
    ∃ quote body read, (quote = '\'' ∨ quote = '"') ∧ quoteString value = quote :: body ++ [quote] ∧
      (∀ c ∈ quoteString value, IsPrintable c) ∧ Quoted.IsBody quote body ∧
      decodeString (CodePoint.ofChars body) = .ok read ∧ CodePoint.PairsJoined value read ∧
      ∀ text, decodeString text = .ok value → read = value := by
  have hquote := quoteFor_eq value
  have hspells := Quoted.spells_flatMap hquote value
  have hjoined := CodePoint.pairsJoined_joinSurrogates value
  have hprintable : IsPrintable (Quoted.quoteFor value) := by
    rcases hquote with h | h <;> rw [h] <;> decide
  have hread := decodeString_of_spells hspells
  rw [CodePoint.joinSurrogates_units hjoined] at hread
  refine ⟨_, _, _, hquote, rfl, ?_, hspells.isBody, hread, hjoined, fun text => joinSurrogates_of_decodeString⟩
  intro c hc
  rw [quoteString, List.mem_append, List.mem_cons, List.mem_singleton] at hc
  rcases hc with (rfl | hc) | rfl
  · exact hprintable
  · exact hspells.isBody.printable hprintable c hc
  · exact hprintable

end ScriptTidy.Text
