/-
Texts in ASCII, and the string literals in them. In such a text every character is one byte, so
offsets count characters: the text between two offsets is made of the characters between them. A
literal without backslashes is read as the text between its quotes.
-/
import Mathlib.Data.List.Basic
import Mathlib.Data.Nat.Init
import ScriptTidy.Concrete.Read
import ScriptTidy.Proofs.Text.Characters
import ScriptTidy.Proofs.Text.Utf8

namespace ScriptTidy

/-! ## Bytes -/

theorem toList_loop_eq (bytes : ByteArray) (i : Nat) (before : List UInt8) :
    ByteArray.toList.loop bytes i before = before.reverse ++ bytes.data.toList.drop i := by
  fun_induction ByteArray.toList.loop bytes i before with
  | case1 i before hlt ih =>
    have hi : i < bytes.data.toList.length := by simpa using hlt
    have hget : bytes.get! i = bytes.data.toList[i] := by
      rw [ByteArray.get!, Array.getElem_toList]
      exact getElem!_pos bytes.data i hlt
    rw [ih, List.drop_eq_getElem_cons hi, hget, List.reverse_cons,
      List.append_assoc]
    rfl
  | case2 i before hge =>
    have hlength : bytes.data.toList.length ≤ i := by simpa using hge
    rw [List.drop_eq_nil_of_le hlength, List.append_nil]

theorem toList_eq_data (bytes : ByteArray) : bytes.toList = bytes.data.toList := by
  rw [ByteArray.toList, toList_loop_eq]
  rfl

theorem Source.slice_eq (s : Source) (start stop : Nat) :
    s.slice start stop = (s.bytes.data.toList.take stop).drop start := by
  rw [slice, toList_eq_data, ByteArray.data_extract, Array.toList_extract, List.extract_eq_take_drop,
    List.drop_take]

namespace Text

/-! ## ASCII -/

/-- All characters are in ASCII. -/
def IsAscii (cs : List Char) : Prop := ∀ c ∈ cs, c.toNat < 0x80

instance (cs : List Char) : Decidable (IsAscii cs) :=
  List.decidableBAll (fun c : Char => c.toNat < 0x80) cs

theorem IsAscii.append {cs ds : List Char} (hc : IsAscii cs) (hd : IsAscii ds) : IsAscii (cs ++ ds) :=
  List.forall_mem_append.2 ⟨hc, hd⟩

theorem flatMap_utf8EncodeChar_ascii {cs : List Char} (h : IsAscii cs) :
    cs.flatMap String.utf8EncodeChar = cs.map Char.toUInt8 := by
  induction cs with
  | nil => rfl
  | cons c cs ih =>
    have hc : c.utf8Size = 1 := by
      rw [Char.utf8Size_eq_one_iff, UInt32.le_iff_toNat_le]
      exact Nat.le_of_lt_succ (h c (List.mem_cons_self ..))
    rw [List.flatMap_cons, String.utf8EncodeChar_eq_singleton hc, ih fun d hd => h d (List.mem_cons_of_mem _ hd)]
    rfl

theorem decodeUtf8_ascii {cs : List Char} (h : IsAscii cs) : decodeUtf8 (cs.map Char.toUInt8) = .ok cs := by
  rw [← flatMap_utf8EncodeChar_ascii h, decodeUtf8_utf8Encode]

/-! ## Literals without escapes -/

theorem replaceAll_eq_self : ∀ {fuel : Nat} {ps : List CodePoint}, (∀ p ∈ ps, p.val ≠ 0x5c) →
    Escape.replaceAll fuel ps = .ok ps
  | _, [], _ => by rw [Escape.replaceAll]
  | 0, _ :: _, _ => by rw [Escape.replaceAll]; simp
  | fuel + 1, p :: ps, h => by
    have hrest : Escape.replaceAll fuel ps = .ok ps :=
      replaceAll_eq_self fun q hq => h q (List.mem_cons_of_mem _ hq)
    rw [Escape.replaceAll, hrest]
    · rfl
    · rintro hlt rfl
      exact h _ (List.mem_cons_self ..) rfl

theorem joinSurrogates_eq_self : ∀ {ps : List CodePoint}, (∀ p ∈ ps, p.isHigh = false) →
    CodePoint.joinSurrogates ps = ps
  | [], _ => by simp [CodePoint.joinSurrogates]
  | [p], _ => by simp [CodePoint.joinSurrogates]
  | p :: q :: ps, h => by
    rw [CodePoint.joinSurrogates, h p (List.mem_cons_self ..),
      joinSurrogates_eq_self fun r hr => h r (List.mem_cons_of_mem _ hr)]
    rfl

theorem isHigh_ofChar (c : Char) : (CodePoint.ofChar c).isHigh = false := by
  rw [← Bool.not_eq_true, CodePoint.isHigh, Bool.and_eq_true, decide_eq_true_eq, decide_eq_true_eq]
  rintro ⟨hlow, hhigh⟩
  have hlow : 0xd800 ≤ c.toNat := hlow
  have hhigh : c.toNat ≤ 0xdbff := hhigh
  rcases c.valid with h | ⟨h, -⟩
  · exact absurd (Nat.lt_of_le_of_lt hlow h) (Nat.lt_irrefl _)
  · exact absurd (Nat.lt_of_lt_of_le h hhigh) (by decide)

/-- A text without backslashes stands for itself. -/
theorem decodeString_eq_self {cs : List Char} (h : '\\' ∉ cs) :
    decodeString (CodePoint.ofChars cs) = .ok (CodePoint.ofChars cs) := by
  have hplain : ∀ p ∈ CodePoint.ofChars cs, p.val ≠ 0x5c := by
    intro p hp heq
    obtain ⟨c, hc, rfl⟩ := List.mem_map.1 hp
    have hbackslash : c.toNat = '\\'.toNat := heq
    exact h (Char.toNat_inj.1 hbackslash ▸ hc)
  have hjoined : ∀ p ∈ CodePoint.ofChars cs, p.isHigh = false := by
    intro p hp
    obtain ⟨c, -, rfl⟩ := List.mem_map.1 hp
    exact isHigh_ofChar c
  rw [decodeString, replaceAll_eq_self hplain]
  exact congrArg Except.ok (joinSurrogates_eq_self hjoined)

end Text

open Text

/-! ## Reading -/

theorem Reader.textBetween_of_decode {r : Reader} {start stop : Nat} {cs : List Char}
    (h : decodeUtf8 (r.source.slice start stop) = .ok cs) : r.textBetween start stop = .ok (String.ofList cs) := by
  rw [textBetween, h]

namespace Source

/-- In ASCII the text between two offsets is made of the characters between them. -/
theorem textBetween_ascii {cs : List Char} (h : IsAscii cs) (start stop : Nat) :
    (ofString (String.ofList cs)).reader.textBetween start stop =
      .ok (String.ofList ((cs.take stop).drop start)) := by
  have hslice : (ofString (String.ofList cs)).slice start stop = ((cs.take stop).drop start).map Char.toUInt8 := by
    rw [slice_eq, ofString, ofBytes, String.toUTF8_eq_toByteArray, String.toByteArray_ofList, List.utf8Encode,
      List.toList_data_toByteArray, flatMap_utf8EncodeChar_ascii h, List.map_drop, List.map_take]
  have hbetween : IsAscii ((cs.take stop).drop start) :=
    fun c hc => h c (List.mem_of_mem_take (List.mem_of_mem_drop hc))
  refine Reader.textBetween_of_decode ?_
  rw [reader, hslice]
  exact decodeUtf8_ascii hbetween

end Source

namespace Reader

variable {r : Reader}

/-- A string literal without backslashes is the text between its quotes. -/
theorem string_of_text {c : Cst} {quote : Char} {body : List Char}
    (htext : r.text c = .ok (String.ofList (quote :: body ++ [quote]))) (hbody : '\\' ∉ body) :
    r.string c = .ok (r.node c
      (.literal (.string (CodePoint.ofChars body)) (String.ofList (quote :: body ++ [quote])))) := by
  have hinner : ((String.ofList (quote :: body ++ [quote])).toList.drop 1).dropLast = body := by
    rw [String.toList_ofList, List.cons_append, List.drop_one, List.tail_cons, List.dropLast_concat]
  simp only [string, htext, bind, Except.bind, hinner, decodeString_eq_self hbody]
  rfl

end Reader

end ScriptTidy
