/-
Where parsers are in a text. A cursor stands behind a part of the text whose bytes its offset counts,
and a token covers the piece of the text that it is spelled as. The comments that were passed lie in
the text as well, those at the ends of lines within a line. Passing white space and tokens keeps all
of this.
-/
import ScriptTidy.Grammar.Parsing
import ScriptTidy.Proofs.Grammar.Lexemes

namespace ScriptTidy.Grammar

variable {t w rest : List Char}

/-! ## Bytes -/

@[simp] theorem byteLength_nil : byteLength [] = 0 := rfl

theorem foldl_utf8Size (n : Nat) : ∀ s : List Char, s.foldl (fun n c => n + c.utf8Size) n = n + byteLength s
  | [] => rfl
  | c :: s => by rw [byteLength, List.foldl_cons, List.foldl_cons, foldl_utf8Size, foldl_utf8Size]; omega

@[simp] theorem byteLength_cons (c : Char) (s : List Char) : byteLength (c :: s) = c.utf8Size + byteLength s := by
  rw [byteLength, List.foldl_cons, foldl_utf8Size, Nat.zero_add]

@[simp] theorem byteLength_append (a b : List Char) : byteLength (a ++ b) = byteLength a + byteLength b := by
  rw [byteLength, List.foldl_append, foldl_utf8Size]
  rfl

/-- The piece of the text between two offsets. -/
def Covers (t : List Char) (start stop : Nat) (w : List Char) : Prop :=
  ∃ front rest, t = front ++ (w ++ rest) ∧ start = byteLength front ∧ stop = start + byteLength w

/-! ## Cursors -/

/-- The cursor stands in the text. -/
def Cursor.In (t : List Char) (c : Cursor) : Prop := ∃ front, t = front ++ c.chars ∧ c.offset = byteLength front

namespace Cursor.In

variable {c : Cursor}

theorem past (h : c.In t) (hw : c.chars = w ++ rest) : Cursor.In t ⟨rest, c.offset + byteLength w⟩ := by
  obtain ⟨front, ht, hoffset⟩ := h
  exact ⟨front ++ w, by rw [List.append_assoc, ← hw, ht], by rw [hoffset, byteLength_append]⟩

theorem covers (h : c.In t) (hw : c.chars = w ++ rest) : Covers t c.offset (c.offset + byteLength w) w := by
  obtain ⟨front, ht, hoffset⟩ := h
  exact ⟨front, rest, by rw [← hw, ht], hoffset, rfl⟩

/-- Of two cursors in a text the first one reads on to the second one. -/
theorem exists_append {d : Cursor} (hc : c.In t) (hd : d.In t) (h : c.offset ≤ d.offset) :
    ∃ w, c.chars = w ++ d.chars ∧ d.offset = c.offset + byteLength w := by
  obtain ⟨front, ht, hoffset⟩ := hc
  obtain ⟨longer, ht', hoffset'⟩ := hd
  rw [ht] at ht'
  rcases List.append_eq_append_iff.1 ht' with ⟨w, rfl, hw⟩ | ⟨w, rfl, hw⟩
  · exact ⟨w, hw, by rw [hoffset', byteLength_append, hoffset]⟩
  · -- the second cursor is not before the first
    rw [hoffset, hoffset', byteLength_append] at h
    cases w with
    | nil => exact ⟨[], by simpa using hw.symm, by rw [hoffset, hoffset']; simp⟩
    | cons a w =>
      have := a.utf8Size_pos
      rw [byteLength_cons] at h
      omega

end Cursor.In

/-- Texts that begin alike up to the same byte are parted there alike. -/
theorem append_inj_of_byteLength {a b a' b' : List Char} (h : a ++ b = a' ++ b')
    (hlength : byteLength a = byteLength a') :
    a = a' ∧ b = b' := by
  have hnil {w : List Char} (hw : byteLength w = 0) : w = [] := by
    cases w with
    | nil => rfl
    | cons c w =>
      have := c.utf8Size_pos
      rw [byteLength_cons] at hw
      omega
  rcases List.append_eq_append_iff.1 h with ⟨w, rfl, rfl⟩ | ⟨w, rfl, rfl⟩
  · rw [byteLength_append] at hlength
    obtain rfl := hnil (w := w) (by omega)
    simp
  · rw [byteLength_append] at hlength
    obtain rfl := hnil (w := w) (by omega)
    simp

/-- The piece between two offsets is told by them. -/
theorem Covers.unique {start stop : Nat} {v : List Char} (hw : Covers t start stop w) (hv : Covers t start stop v) :
    w = v := by
  obtain ⟨front, rest, rfl, hstart, hstop⟩ := hw
  obtain ⟨front', rest', heq, hstart', hstop'⟩ := hv
  obtain ⟨-, heq⟩ := append_inj_of_byteLength heq (hstart.symm.trans hstart')
  exact (append_inj_of_byteLength heq (by omega)).1

/-- The offset of a cursor that another one reads on to. -/
theorem Cursor.In.offset_eq {c d : Cursor} (hc : c.In t) (hd : d.In t) (h : c.chars = w ++ d.chars) :
    d.offset = c.offset + byteLength w := by
  obtain ⟨front, ht, hoffset⟩ := hc
  obtain ⟨longer, ht', hoffset'⟩ := hd
  rw [ht, h, ← List.append_assoc] at ht'
  rw [hoffset', ← List.append_cancel_right ht', byteLength_append, hoffset]

/-! ## White space and comments -/

/-- The extent is that of a comment: if two slashes begin it, it does not go beyond its line. -/
def Extent.IsNote (t : List Char) (e : Extent) : Prop :=
  ∃ w, Covers t e.start e.stop w ∧ ∀ value, w = '/' :: '/' :: value → '\n' ∉ value

/-- What has been read at a place, from an offset on: nothing, or the beginning of a comment. -/
def Place.Holds (start : Nat) (w : List Char) : Place → Prop
  | .outside => w = []
  | .lineComment n => n = start ∧ ∃ value, w = '/' :: '/' :: value ∧ '\n' ∉ value
  | .blockComment n => n = start ∧ ∃ value, w = '/' :: '*' :: value

/-- A scan is at the offset with the characters still to be read. -/
def Place.In (t : List Char) (offset : Nat) (chars : List Char) (place : Place) : Prop :=
  ∃ front w, t = front ++ (w ++ chars) ∧ offset = byteLength front + byteLength w ∧ place.Holds (byteLength front) w

namespace Place.In

variable {place : Place} {offset : Nat} {chars : List Char}

theorem cursor (h : place.In t offset chars) : Cursor.In t ⟨chars, offset⟩ := by
  obtain ⟨front, w, ht, hoffset, -⟩ := h
  exact ⟨front ++ w, by rw [ht, List.append_assoc], by rw [hoffset, byteLength_append]⟩

theorem outside (h : Cursor.In t ⟨chars, offset⟩) : Place.outside.In t offset chars := by
  obtain ⟨front, ht, hoffset⟩ := h
  exact ⟨front, [], ht, hoffset, rfl⟩

/-- One more character is read. -/
theorem step {c : Char} (h : place.In t offset (c :: chars)) : Cursor.In t ⟨chars, offset + c.utf8Size⟩ := by
  have hpast := h.cursor.past (w := [c]) rfl
  simpa using hpast

theorem note (h : place.In t offset chars) {start : Nat}
    (hplace : place = .lineComment start ∨ place = .blockComment start) : Extent.IsNote t ⟨start, offset⟩ := by
  obtain ⟨front, w, ht, hoffset, hholds⟩ := h
  rcases hplace with rfl | rfl
  · obtain ⟨rfl, value, rfl, hline⟩ := hholds
    refine ⟨_, ⟨front, chars, ht, rfl, hoffset⟩, ?_⟩
    intro _ heq
    cases heq
    exact hline
  · obtain ⟨rfl, value, rfl⟩ := hholds
    exact ⟨_, ⟨front, chars, ht, rfl, hoffset⟩, fun _ heq => by cases heq⟩

end Place.In

/-- Where a scan ends: at a cursor that is not further back, with comments behind it. -/
structure Trivia.Follows (t : List Char) (offset : Nat) (found : Trivia) : Prop where
  cursor : found.cursor.In t
  forward : offset ≤ found.cursor.offset
  comments : ∀ e ∈ found.comments, e.IsNote t

theorem Trivia.Follows.of_le {m n : Nat} {found : Trivia} (h : found.Follows t n) (hle : m ≤ n) : found.Follows t m :=
  { h with forward := Nat.le_trans hle h.forward }

theorem skipFrom_follows {place : Place} {found : List Extent} {lineEnd : Bool} {offset : Nat} {chars : List Char}
    (hplace : place.In t offset chars) (hfound : ∀ e ∈ found, e.IsNote t) :
    (skipFrom place found lineEnd offset chars).Follows t offset := by
  fun_induction skipFrom place found lineEnd offset chars with
  | case1 found lineEnd offset rest ih =>
    -- a line comment begins
    obtain ⟨front, w, ht, hoffset, rfl⟩ := hplace
    refine (ih ⟨front, _, ht, ?_, hoffset, [], rfl, List.not_mem_nil⟩ hfound).of_le (by omega)
    rw [hoffset]
    rfl
  | case2 found lineEnd offset rest ih =>
    -- a block comment begins
    obtain ⟨front, w, ht, hoffset, rfl⟩ := hplace
    refine (ih ⟨front, _, ht, ?_, hoffset, [], rfl⟩ hfound).of_le (by omega)
    rw [hoffset]
    rfl
  | case3 found lineEnd offset c rest _ _ h ih => exact (ih (.outside hplace.step) hfound).of_le (by omega)
  | case4 found lineEnd offset c rest _ _ _ h ih => exact (ih (.outside hplace.step) hfound).of_le (by omega)
  | case6 start found lineEnd offset c rest h ih =>
    -- the line ends, and the comment with it
    exact (ih (.outside hplace.step) (List.forall_mem_cons.2 ⟨hplace.note (.inl rfl), hfound⟩)).of_le (by omega)
  | case7 start found lineEnd offset c rest h ih =>
    obtain ⟨front, w, ht, hoffset, rfl, value, rfl, hline⟩ := hplace
    refine (ih ⟨front, '/' :: '/' :: (value ++ [c]), ?_, ?_, rfl, _, rfl, ?_⟩ hfound).of_le (by omega)
    · rw [ht]
      simp
    · rw [hoffset]
      simp
      omega
    · rw [List.mem_append, List.mem_singleton, not_or]
      refine ⟨hline, ?_⟩
      rintro rfl
      exact h rfl
  | case8 start found lineEnd offset rest ih =>
    -- the end of a block comment belongs to it
    obtain ⟨front, w, ht, hoffset, rfl, value, rfl⟩ := hplace
    have hclosed : (Place.blockComment (byteLength front)).In t (offset + 2) rest := by
      refine ⟨front, '/' :: '*' :: (value ++ ['*', '/']), ?_, ?_, rfl, _, rfl⟩
      · rw [ht]
        simp
      · have hstar : '*'.utf8Size = 1 := rfl
        have hslash : '/'.utf8Size = 1 := rfl
        rw [hoffset]
        simp
        omega
    exact (ih (.outside hclosed.cursor) (List.forall_mem_cons.2 ⟨hclosed.note (.inr rfl), hfound⟩)).of_le (by omega)
  | case9 start found lineEnd offset c rest _ ih =>
    obtain ⟨front, w, ht, hoffset, rfl, value, rfl⟩ := hplace
    refine (ih ⟨front, '/' :: '*' :: (value ++ [c]), ?_, ?_, rfl, _, rfl⟩ hfound).of_le (by omega)
    · rw [ht]
      simp
    · rw [hoffset]
      simp
      omega
  | case5 | case10 | case12 => exact ⟨hplace.cursor, Nat.le_refl _, hfound⟩
  | case11 =>
    exact ⟨hplace.cursor, Nat.le_refl _, List.forall_mem_cons.2 ⟨hplace.note (.inl rfl), hfound⟩⟩

theorem Cursor.In.skip {c : Cursor} (h : c.In t) : c.skip.Follows t c.offset :=
  skipFrom_follows (.outside h) fun _ h => nomatch h

/-! ## Tokens -/

/-- The text is that of a token of the kind. -/
def TokenKind.spells : TokenKind → List Char → Bool
  | .name, w | .privateName, w => spellsName w
  | .number, w => spellsNumber w
  | .string, w => spellsString w
  | _, _ => true

/-- The token covers its text, which is one of its kind. -/
def Token.In (t : List Char) (tok : Token) : Prop :=
  tok.kind ≠ .finish → tok.kind ≠ .invalid → Covers t tok.start tok.stop tok.text.toList ∧
    tok.kind.spells tok.text.toList

theorem isCut_tokenAt {c : Char} {rest : List Char} {kind : TokenKind} {cut : Cut}
    (h : tokenAt c rest = some (kind, cut)) : IsCut (c :: rest) cut ∧ kind.spells cut.1 := by
  unfold tokenAt at h
  split_ifs at h with hprivate hname hnumber hstring
  · obtain ⟨inner, hinner, heq⟩ := Option.map_eq_some_iff.1 h
    cases heq
    obtain ⟨hcut, hlast⟩ := isCut_name? hinner
    have hspells : spellsName ('#' :: inner.1) := Bool.and_eq_true_iff.2 ⟨by simp, getLast?_cons_any hlast⟩
    rw [beq_iff_eq.1 hprivate]
    exact ⟨hcut.cons _, hspells⟩
  · obtain ⟨inner, hinner, heq⟩ := Option.map_eq_some_iff.1 h
    cases heq
    obtain ⟨hcut, hlast⟩ := isCut_name? hinner
    have hhead : cut.1.head? = some c := head?_of_isCut hcut fun hnil => by
      rw [hnil] at hlast
      cases hlast
    refine ⟨hcut, Bool.and_eq_true_iff.2 ⟨?_, hlast⟩⟩
    rw [hhead, Option.any_some, hname]
    rfl
  · obtain ⟨inner, hinner, heq⟩ := Option.map_eq_some_iff.1 h
    cases heq
    obtain ⟨hcut, htrails⟩ := isNumeral_number? hinner
    have hc : (c.isDigit || c == '.') = true := by
      rcases Bool.or_eq_true_iff.1 hnumber with h | h
      · rw [h]
        rfl
      · rw [(Bool.and_eq_true_iff.1 h).1, Bool.or_true]
    have hne := ne_nil_of_number? hinner hc
    refine ⟨hcut, Bool.and_eq_true_iff.2 ⟨?_, htrails.getLast?_any hne⟩⟩
    rw [head?_of_isCut hcut hne, Option.any_some, hc]
  · obtain ⟨inner, hinner, heq⟩ := Option.map_eq_some_iff.1 h
    cases heq
    exact ⟨(isCut_stringFrom hinner).cons _, hstring⟩
  · obtain ⟨inner, hinner, heq⟩ := Option.map_eq_some_iff.1 h
    cases heq
    exact ⟨isCut_mark? hinner, rfl⟩

/-- The token at a cursor, and the cursor behind it. -/
theorem Cursor.In.tokenAt {c : Cursor} (h : c.In t) (afterLineEnd : Bool) :
    (Token.at c afterLineEnd).1.In t ∧ (Token.at c afterLineEnd).2.In t ∧
      (Token.at c afterLineEnd).1.start = c.offset ∧
      (Token.at c afterLineEnd).2.offset = (Token.at c afterLineEnd).1.stop ∧
      c.offset ≤ (Token.at c afterLineEnd).1.stop := by
  obtain ⟨chars, offset⟩ := c
  unfold Token.at
  cases chars with
  | nil => exact ⟨fun hfinish => absurd rfl hfinish, h, rfl, rfl, Nat.le_refl _⟩
  | cons first rest =>
    dsimp only
    cases hfound : Grammar.tokenAt first rest with
    | none => exact ⟨fun _ hinvalid => absurd rfl hinvalid, h, rfl, rfl, Nat.le_refl _⟩
    | some found =>
      obtain ⟨kind, text, after⟩ := found
      obtain ⟨hcut, hspells⟩ := isCut_tokenAt hfound
      refine ⟨fun _ _ => ?_, h.past hcut, rfl, rfl, Nat.le_add_right _ _⟩
      rw [String.toList_ofList]
      exact ⟨h.covers hcut, hspells⟩

end ScriptTidy.Grammar
