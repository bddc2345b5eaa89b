/-
Decoding a text in UTF-8. The bytes of a character tell how many there are, and the decoder makes the
character again from them; so it gives back every text that was encoded.
-/
import Mathlib.Data.List.TakeWhile
import ScriptTidy.Text.Utf8

namespace ScriptTidy

namespace Text

namespace Utf8

theorem toNat_ofNat {n : Nat} (h : n < 256) : (UInt8.ofNat n).toNat = n := by
  rw [UInt8.toNat_ofNat']
  exact Nat.mod_eq_of_lt h

theorem isContinuation_ofNat {n : Nat} (hlow : 0x80 ≤ n) (hhigh : n ≤ 0xbf) :
    isContinuation (UInt8.ofNat n) = true := by
  have hn : (UInt8.ofNat n).toNat = n := toNat_ofNat (by omega)
  simp only [isContinuation, Bool.and_eq_true, decide_eq_true_eq, UInt8.le_iff_toNat_le, hn]
  exact ⟨hlow, hhigh⟩

/-- The first byte of a character tells how many bytes it has. -/
theorem widthOf?_ofNat {n : Nat} (h : n < 256) : widthOf? (UInt8.ofNat n) =
    if n < 0x80 then some 1 else if 0xc2 ≤ n ∧ n ≤ 0xdf then some 2 else if 0xe0 ≤ n ∧ n ≤ 0xef then some 3
    else if 0xf0 ≤ n ∧ n ≤ 0xf4 then some 4 else none := by
  unfold widthOf?
  simp only [Bool.and_eq_true, decide_eq_true_eq, UInt8.le_iff_toNat_le, UInt8.lt_iff_toNat_lt, toNat_ofNat h]
  rfl

theorem mayFollow_ofNat {n m : Nat} (hn : n < 256) (hlow : 0x80 ≤ m) (hhigh : m ≤ 0xbf)
    (h : (n = 0xe0 → 0xa0 ≤ m) ∧ (n = 0xed → m < 0xa0) ∧ (n = 0xf0 → 0x90 ≤ m) ∧ (n = 0xf4 → m < 0x90)) :
    mayFollow (UInt8.ofNat n) (UInt8.ofNat m) = true := by
  have hm : (UInt8.ofNat m).toNat = m := toNat_ofNat (by omega)
  have hfirst (k : UInt8) : UInt8.ofNat n = k ↔ n = k.toNat := by rw [← UInt8.toNat_inj, toNat_ofNat hn]
  obtain ⟨he0, hed, hf0, hf4⟩ := h
  simp only [mayFollow, isContinuation_ofNat hlow hhigh, Bool.true_and, hfirst]
  split_ifs with h1 h2 h3 h4
  · exact decide_eq_true (UInt8.le_iff_toNat_le.2 (by rw [hm]; exact he0 h1))
  · exact decide_eq_true (UInt8.lt_iff_toNat_lt.2 (by rw [hm]; exact hed h2))
  · exact decide_eq_true (UInt8.le_iff_toNat_le.2 (by rw [hm]; exact hf0 h3))
  · exact decide_eq_true (UInt8.lt_iff_toNat_lt.2 (by rw [hm]; exact hf4 h4))
  · rfl

/-- A character of several bytes that are in order. -/
theorem step_of_continuations {first second : UInt8} (others : List UInt8)
    (hwidth : widthOf? first = some (others.length + 2)) (hsecond : mayFollow first second = true)
    (hothers : ∀ b ∈ others, isContinuation b) (rest : List UInt8) :
    step first (second :: others ++ rest) = .char
      (Char.ofNat
        ((second :: others).foldl (fun n b => n * 0x40 + b.toNat % 0x40) (leadBits first (others.length + 2))))
      (others.length + 2) := by
  have htake : (second :: others ++ rest).take (others.length + 2 - 1) = second :: others :=
    List.take_left' (show (second :: others).length = others.length + 2 - 1 from rfl)
  have hcontinuations : continuations others = others := List.takeWhile_eq_self_iff.2 hothers
  rw [step, hwidth]
  split
  · next heq => cases heq
  · next heq => exact absurd (Option.some.inj heq) (by omega)
  · next width hne heq =>
    obtain rfl := Option.some.inj heq
    rw [htake]
    simp only [hsecond, hcontinuations, Bool.not_true, Bool.false_eq_true, if_false, List.length_cons]
    rw [if_pos (by omega)]

/-- Of the bytes of a character the decoder makes the character again. -/
theorem exists_step_utf8EncodeChar (c : Char) (rest : List UInt8) :
    ∃ first tail, String.utf8EncodeChar c = first :: tail ∧ step first (tail ++ rest) = .char c (tail.length + 1) := by
  have hc : Char.ofNat c.val.toNat = c := Char.ofNat_toNat c
  have hvalid : c.val.toNat < 0xd800 ∨ 0xdfff < c.val.toNat ∧ c.val.toNat < 0x110000 := c.valid
  unfold String.utf8EncodeChar
  generalize c.val.toNat = v at hc hvalid
  dsimp only
  split_ifs with h1 h2 h3
  · refine ⟨_, _, rfl, ?_⟩
    rw [step, widthOf?_ofNat (by omega), if_pos (by omega)]
    simp only [toNat_ofNat (show v < 256 by omega), hc]
    rfl
  · refine ⟨_, _, rfl, ?_⟩
    rw [step_of_continuations []]
    · simp only [List.foldl_cons, List.foldl_nil, leadBits, List.length_nil]
      rw [toNat_ofNat (by omega), toNat_ofNat (by omega),
        show (v / 64 % 32 + 192) % 0x20 * 0x40 + (v % 64 + 128) % 0x40 = v by omega, hc]
      rfl
    · rw [widthOf?_ofNat (by omega), if_neg (by omega), if_pos (by omega)]
      rfl
    · exact mayFollow_ofNat (by omega) (by omega) (by omega) (by omega)
    · exact fun _ h => nomatch h
  · refine ⟨_, _, rfl, ?_⟩
    rw [step_of_continuations [_]]
    · simp only [List.foldl_cons, List.foldl_nil, leadBits, List.length_nil, List.length_cons]
      rw [toNat_ofNat (by omega), toNat_ofNat (by omega), toNat_ofNat (by omega),
        show ((v / 4096 % 16 + 224) % 0x10 * 0x40 + (v / 64 % 64 + 128) % 0x40) * 0x40 +
          (v % 64 + 128) % 0x40 = v by omega, hc]
    · rw [widthOf?_ofNat (by omega), if_neg (by omega), if_neg (by omega), if_pos (by omega)]
      rfl
    · exact mayFollow_ofNat (by omega) (by omega) (by omega) (by omega)
    · rintro b hb
      obtain rfl := List.mem_singleton.1 hb
      exact isContinuation_ofNat (by omega) (by omega)
  · refine ⟨_, _, rfl, ?_⟩
    rw [step_of_continuations [_, _]]
    · simp only [List.foldl_cons, List.foldl_nil, leadBits, List.length_nil, List.length_cons]
      rw [toNat_ofNat (by omega), toNat_ofNat (by omega), toNat_ofNat (by omega), toNat_ofNat (by omega),
        show (((v / 262144 % 8 + 240) % 0x08 * 0x40 + (v / 4096 % 64 + 128) % 0x40) * 0x40 +
          (v / 64 % 64 + 128) % 0x40) * 0x40 + (v % 64 + 128) % 0x40 = v by omega, hc]
    · rw [widthOf?_ofNat (by omega), if_neg (by omega), if_neg (by omega), if_neg (by omega), if_pos (by omega)]
      rfl
    · exact mayFollow_ofNat (by omega) (by omega) (by omega) (by omega)
    · rintro b hb
      simp only [List.mem_cons, List.not_mem_nil, or_false] at hb
      rcases hb with rfl | rfl
      · exact isContinuation_ofNat (by omega) (by omega)
      · exact isContinuation_ofNat (by omega) (by omega)

theorem decodeFrom_utf8Encode : ∀ (cs : List Char) {fuel offset : Nat}, cs.length ≤ fuel →
    decodeFrom fuel offset (cs.flatMap String.utf8EncodeChar) = .ok cs
  | [], _, _, _ => by rw [List.flatMap_nil, decodeFrom]
  | c :: cs, fuel + 1, offset, h => by
    obtain ⟨first, tail, hbytes, hstep⟩ := exists_step_utf8EncodeChar c (cs.flatMap String.utf8EncodeChar)
    rw [List.flatMap_cons, hbytes, List.cons_append, decodeFrom, hstep]
    simp only [Nat.add_sub_cancel, List.drop_left, decodeFrom_utf8Encode cs (Nat.le_of_succ_le_succ h)]
    rfl

end Utf8

/-- Decoding the bytes of a text gives the text. -/
theorem decodeUtf8_utf8Encode (cs : List Char) : decodeUtf8 (cs.flatMap String.utf8EncodeChar) = .ok cs := by
  refine Utf8.decodeFrom_utf8Encode cs ?_
  induction cs with
  | nil => exact Nat.le_refl _
  | cons c cs ih =>
    have hc : 0 < (String.utf8EncodeChar c).length := List.length_pos_iff.2 String.utf8EncodeChar_ne_nil
    rw [List.flatMap_cons, List.length_append, List.length_cons]
    omega

end Text
end ScriptTidy
