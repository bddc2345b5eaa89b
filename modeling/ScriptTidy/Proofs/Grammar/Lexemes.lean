/-
What tokens are spelled like. Every scanner takes a piece off the front of the text, so the piece and
what follows it are the text again. A name begins like a name, a number with a digit or a point, and a
string with a quote; and names, numbers and regular expressions begin and end like words.
-/
import ScriptTidy.Grammar.Token
import ScriptTidy.Proofs.Layout.Bounds

namespace ScriptTidy.Grammar

open Spacing

/-! ## Characters -/

theorem leads_iff {c : Char} : leads c ↔ c ∉ ['\n', ' ', '\t', '}', ']'] := by
  simp [leads, Spacing.isSpace, and_assoc]

theorem trails_iff {c : Char} : trails c ↔ c ∉ ['\n', '{', '[', ':'] := by
  simp [trails, and_assoc]

theorem leads_of {p : Char → Bool} (hnot : ['\n', ' ', '\t', '}', ']'].all fun c => !p c) {c : Char}
    (h : p c) : leads c := by
  refine leads_iff.2 fun hc => ?_
  have hfalse := List.all_eq_true.1 hnot c hc
  rw [h] at hfalse
  cases hfalse

theorem trails_of {p : Char → Bool} (hnot : ['\n', '{', '[', ':'].all fun c => !p c) {c : Char}
    (h : p c) : trails c := by
  refine trails_iff.2 fun hc => ?_
  have hfalse := List.all_eq_true.1 hnot c hc
  rw [h] at hfalse
  cases hfalse

/-- What a name can start with stands at the beginning of a word. -/
theorem leads_of_startsName {c : Char} (h : (startsName c || c == '#') = true) : leads c :=
  leads_of (p := fun c => startsName c || c == '#') (by decide +kernel) h

/-- What a name can go on with stands at the end of a word. -/
theorem trails_of_part {c : Char} (h : Text.isIdentifierPart c.toNat) : trails c :=
  trails_of (p := fun c => Text.isIdentifierPart c.toNat) (by decide +kernel) h

/-! ## Cuts -/

/-- The piece and what follows it are the text again. -/
def IsCut (s : List Char) (cut : Cut) : Prop := s = cut.1 ++ cut.2

theorem IsCut.cons {s : List Char} {cut : Cut} (h : IsCut s cut) (c : Char) : IsCut (c :: s) (c :: cut.1, cut.2) :=
  congrArg (c :: ·) h

theorem IsCut.append {s : List Char} {cut : Cut} (h : IsCut s cut) (front : List Char) :
    IsCut (front ++ s) (front ++ cut.1, cut.2) :=
  (congrArg (front ++ ·) h).trans (List.append_assoc ..).symm

theorem isCut_takeWhile (p : Char → Bool) (s : List Char) : IsCut s (s.takeWhile p, s.drop (s.takeWhile p).length) := by
  have hsplit : s.takeWhile p ++ s.dropWhile p = s := List.takeWhile_append_dropWhile
  have hdrop : (s.takeWhile p ++ s.dropWhile p).drop (s.takeWhile p).length = s.dropWhile p := List.drop_left
  rw [hsplit] at hdrop
  rw [IsCut, hdrop, hsplit]

/-! ## Names -/

/-- The text of a name: it begins like a name or with the mark of a private one, and ends like a word. -/
def spellsName (w : List Char) : Bool :=
  (w.head?.any fun c => startsName c || c == '#') && w.getLast?.any trails

theorem isWord_ofList {w : List Char} {p : Char → Bool} (hleads : ∀ c, p c → leads c) (hhead : w.head?.any p)
    (hlast : w.getLast?.any trails) : isWord (String.ofList w) := by
  obtain ⟨c, hc, hstarts⟩ := (Option.any_eq_true _ _).1 hhead
  rw [isWord, String.toList_ofList, Bool.and_eq_true]
  refine ⟨?_, hlast⟩
  rw [hc]
  exact hleads c hstarts

theorem isWord_of_spellsName {w : List Char} (h : spellsName w) : isWord (String.ofList w) :=
  isWord_ofList (fun _ => leads_of_startsName) (Bool.and_eq_true_iff.1 h).1 (Bool.and_eq_true_iff.1 h).2

theorem mem_of_completesUnicode {rest : List Char} (h : completesUnicode rest) (hbrace : rest.head? = some '{') :
    '}' ∈ rest := by
  cases rest with
  | nil => cases hbrace
  | cons c rest =>
    obtain rfl := Option.some.inj hbrace
    simp only [completesUnicode, Bool.and_eq_true, beq_iff_eq] at h
    obtain ⟨after, hafter⟩ : ∃ after, rest.drop (rest.takeWhile isHexDigit).length = '}' :: after := by
      cases hdrop : rest.drop (rest.takeWhile isHexDigit).length with
      | nil => rw [hdrop] at h; exact absurd h.2 (by simp)
      | cons d after =>
        rw [hdrop] at h
        exact ⟨after, by rw [Option.some.inj h.2]⟩
    exact List.mem_cons_of_mem _ (List.mem_of_mem_drop (hafter ▸ List.mem_cons_self ..))

theorem getLast?_cons_all {c : Char} {w : List Char} (hw : w.getLast?.all trails) (hc : w = [] → trails c) :
    (c :: w).getLast?.all trails := by
  cases w with
  | nil => exact hc rfl
  | cons d w => rwa [List.getLast?_cons_cons]

/-- The characters of a name; within braces the name is not at its end. -/
theorem isCut_nameFrom {inBraces : Bool} {s : List Char} (hopen : inBraces → '}' ∈ s) : ∀ {cut : Cut},
    nameFrom inBraces s = some cut → IsCut s cut ∧ cut.1.getLast?.all trails ∧ (inBraces → cut.1 ≠ []) := by
  fun_induction nameFrom inBraces s with
  | case1 inBraces rest h ih =>
    intro cut hcut
    obtain ⟨inner, hinner, rfl⟩ := Option.map_eq_some_iff.1 hcut
    obtain ⟨-, hcomplete⟩ := Bool.and_eq_true_iff.1 h
    obtain ⟨hcut, hlast, -⟩ := ih (fun hbrace => mem_of_completesUnicode hcomplete (beq_iff_eq.1 hbrace)) hinner
    refine ⟨(hcut.cons _).cons _, ?_, fun _ => List.cons_ne_nil _ _⟩
    have htail := getLast?_cons_all hlast (c := 'u') fun _ => by decide
    exact getLast?_cons_all htail fun hnil => nomatch hnil
  | case2 => intro cut hcut; cases hcut
  | case3 c rest hne ih =>
    intro cut hcut
    obtain ⟨inner, hinner, rfl⟩ := Option.map_eq_some_iff.1 hcut
    have hrest : (c != '}') = true → '}' ∈ rest := by
      intro hc
      rcases List.mem_cons.1 (hopen rfl) with rfl | hmem
      · exact absurd rfl (bne_iff_ne.1 hc)
      · exact hmem
    obtain ⟨hcut, hlast, hinside⟩ := ih hrest hinner
    refine ⟨hcut.cons _, getLast?_cons_all hlast fun hnil => ?_, fun _ => List.cons_ne_nil _ _⟩
    -- only the closing brace can be the last character
    have hc : c = '}' := by
      by_contra hc
      exact hinside (bne_iff_ne.2 hc) hnil
    rw [hc]
    decide
  | case4 => intro cut hcut; cases hcut
  | case5 inBraces c rest hne hopen' hc hpart ih =>
    intro cut hcut
    obtain ⟨inner, hinner, rfl⟩ := Option.map_eq_some_iff.1 hcut
    obtain ⟨hcut, hlast, -⟩ := ih (fun h => nomatch h) hinner
    exact ⟨hcut.cons _, getLast?_cons_all hlast fun _ => trails_of_part hpart, fun _ => List.cons_ne_nil _ _⟩
  | case6 inBraces c rest hne hclosed hc hpart =>
    intro cut hcut
    obtain rfl := Option.some.inj hcut
    exact ⟨rfl, rfl, fun h => absurd h hclosed⟩
  | case7 inBraces =>
    intro cut hcut
    obtain rfl := Option.some.inj hcut
    exact ⟨rfl, rfl, fun h => nomatch hopen h⟩

theorem isCut_name? {s : List Char} {cut : Cut} (h : name? s = some cut) :
    IsCut s cut ∧ cut.1.getLast?.any trails := by
  obtain ⟨found, hfound, hname⟩ := Option.bind_eq_some_iff.1 h
  have hopen : false → '}' ∈ s := fun h => nomatch h
  obtain ⟨hcut, hlast, -⟩ := isCut_nameFrom hopen hfound
  split at hname
  · next hvalue =>
    obtain rfl := Option.some.inj hname
    refine ⟨hcut, ?_⟩
    cases hnil : found.1.getLast? with
    | none =>
      rw [List.getLast?_eq_none_iff.1 hnil] at hvalue
      exact absurd hvalue (by decide)
    | some c => rwa [hnil] at hlast
  · cases hname

/-! ## Numbers -/

/-- The text of a number. -/
def spellsNumber (w : List Char) : Bool :=
  (w.head?.any fun c => c.isDigit || c == '.') && w.getLast?.any trails

theorem leads_of_startsNumber {c : Char} (h : (c.isDigit || c == '.') = true) : leads c :=
  leads_of (p := fun c => c.isDigit || c == '.') (by decide) h

theorem isWord_of_spellsNumber {w : List Char} (h : spellsNumber w) : isWord (String.ofList w) :=
  isWord_ofList (fun _ => leads_of_startsNumber) (Bool.and_eq_true_iff.1 h).1 (Bool.and_eq_true_iff.1 h).2

/-- Every character of the piece ends like a word. -/
def Trails (w : List Char) : Prop := ∀ c ∈ w, trails c

theorem Trails.append {w v : List Char} (hw : Trails w) (hv : Trails v) : Trails (w ++ v) :=
  List.forall_mem_append.2 ⟨hw, hv⟩

theorem Trails.cons {c : Char} {w : List Char} (hc : trails c) (hw : Trails w) : Trails (c :: w) :=
  List.forall_mem_cons.2 ⟨hc, hw⟩

theorem trails_nil : Trails [] := fun _ h => nomatch h

theorem Trails.takeWhile {p : Char → Bool} (h : ∀ c, p c → trails c) (s : List Char) : Trails (s.takeWhile p) :=
  fun c hc => h c (List.all_eq_true.1 List.all_takeWhile c hc)

/-- The piece is cut off the front of the text, and made of characters of numbers. -/
def IsNumeral (s : List Char) (cut : Cut) : Prop := IsCut s cut ∧ Trails cut.1

theorem trails_of_isHexDigit {c : Char} (h : isHexDigit c) : trails c := trails_of (by decide) h

theorem isHexDigit_of_isDigit {c : Char} (h : c.isDigit) : isHexDigit c := by
  rw [isHexDigit, h]
  rfl

theorem isDigit_of_octal {c : Char} (h : ('0' ≤ c && c ≤ '7') = true) : c.isDigit := by
  obtain ⟨hlow, hhigh⟩ := Bool.and_eq_true_iff.1 h
  rw [Char.isDigit, Bool.and_eq_true]
  exact ⟨hlow, decide_eq_true (UInt32.le_trans (Char.le_def.1 (of_decide_eq_true hhigh)) (by decide))⟩

/-- Digits with separators. -/
theorem isNumeral_digits {isDigit : Char → Bool} (h : ∀ c, isDigit c → isHexDigit c) (s : List Char) :
    IsNumeral s (digits isDigit s) := by
  refine ⟨List.takeWhile_append_dropWhile.symm, .takeWhile (fun c hc => ?_) s⟩
  rcases Bool.or_eq_true_iff.1 hc with hc | hc
  · exact trails_of_isHexDigit (h c hc)
  · rw [beq_iff_eq.1 hc]
    decide

theorem isNumeral_exponent {s : List Char} {cut : Cut} (h : exponent s = some cut) : IsNumeral s cut := by
  unfold exponent at h
  split at h
  · next c rest =>
    split at h
    · next hc =>
      obtain ⟨hcut, htrails⟩ := isNumeral_digits (fun _ => isHexDigit_of_isDigit) (rest.drop
        (rest.takeWhile fun d => d == '+' || d == '-').length)
      dsimp only at h
      split at h
      · obtain rfl := Option.some.inj h
        refine ⟨?_, .cons ?_ (.append (.takeWhile (fun d hd => ?_) rest) htrails)⟩
        · have hsign := isCut_takeWhile (fun d => d == '+' || d == '-') rest
          rw [IsCut] at hsign hcut ⊢
          rw [List.cons_append, List.cons_append, List.append_assoc, ← hcut, ← hsign]
        · rcases Bool.or_eq_true_iff.1 hc with hc | hc <;> rw [beq_iff_eq.1 hc] <;> decide
        · rcases Bool.or_eq_true_iff.1 hd with hd | hd <;> rw [beq_iff_eq.1 hd] <;> decide
      · cases h
    · obtain rfl := Option.some.inj h
      exact ⟨rfl, trails_nil⟩
  · obtain rfl := Option.some.inj h
    exact ⟨rfl, trails_nil⟩

theorem isNumeral_fraction {s : List Char} {cut : Cut} (h : fraction s = some cut) : IsNumeral s cut := by
  unfold fraction at h
  split at h
  · next rest =>
    obtain ⟨hcut, htrails⟩ := isNumeral_digits (fun _ => isHexDigit_of_isDigit) rest
    dsimp only at h
    split at h
    · obtain ⟨inner, hinner, rfl⟩ := Option.map_eq_some_iff.1 h
      obtain ⟨hinner, hends⟩ := isNumeral_exponent hinner
      refine ⟨?_, .cons (by decide) (.append htrails hends)⟩
      rw [IsCut] at hinner hcut ⊢
      rw [List.cons_append, List.cons_append, List.append_assoc, ← hinner, ← hcut]
    · cases h
  · exact isNumeral_exponent h

theorem isNumeral_basedNumber {isDigit : Char → Bool} (hdigit : ∀ c, isDigit c → isHexDigit c) {lead s : List Char}
    {cut : Cut} (hlead : Trails lead) (h : basedNumber isDigit lead s = some cut) : IsNumeral (lead ++ s) cut := by
  obtain ⟨hcut, htrails⟩ := isNumeral_digits hdigit s
  unfold basedNumber at h
  generalize digits isDigit s = run at hcut htrails h
  obtain ⟨run, after⟩ := run
  dsimp only at h
  split at h
  · split at h
    · obtain rfl := Option.some.inj h
      refine ⟨?_, (hlead.append htrails).append (.cons (by decide) trails_nil)⟩
      rw [IsCut] at hcut ⊢
      rw [hcut]
      simp
    · obtain rfl := Option.some.inj h
      refine ⟨?_, hlead.append htrails⟩
      rw [IsCut] at hcut ⊢
      rw [List.append_assoc, ← hcut]
  · cases h

theorem isNumeral_legacyNumber {s : List Char} {cut : Cut} (h : legacyNumber s = some cut) : IsNumeral s cut := by
  have hcut := isCut_takeWhile Char.isDigit s
  have htrails : Trails (s.takeWhile Char.isDigit) :=
    .takeWhile (fun c hc => trails_of_isHexDigit (isHexDigit_of_isDigit hc)) s
  unfold legacyNumber at h
  dsimp only at h
  split at h
  · obtain rfl := Option.some.inj h
    exact ⟨hcut, htrails⟩
  · obtain ⟨inner, hinner, rfl⟩ := Option.map_eq_some_iff.1 h
    obtain ⟨hinner, hends⟩ := isNumeral_fraction hinner
    refine ⟨?_, htrails.append hends⟩
    rw [IsCut] at hinner hcut ⊢
    rw [List.append_assoc, ← hinner, ← hcut]

theorem isNumeral_decimalNumber {s : List Char} {cut : Cut} (h : decimalNumber s = some cut) : IsNumeral s cut := by
  obtain ⟨hcut, htrails⟩ := isNumeral_digits (fun _ => isHexDigit_of_isDigit) s
  unfold decimalNumber at h
  generalize digits Char.isDigit s = run at hcut htrails h
  obtain ⟨run, after⟩ := run
  dsimp only at h
  split at h
  · split at h
    · split at h
      · cases h
      · obtain rfl := Option.some.inj h
        refine ⟨?_, htrails.append (.cons (by decide) trails_nil)⟩
        rw [IsCut] at hcut ⊢
        rw [hcut]
        simp
    · obtain ⟨inner, hinner, rfl⟩ := Option.map_eq_some_iff.1 h
      obtain ⟨hinner, hends⟩ := isNumeral_fraction hinner
      refine ⟨?_, htrails.append hends⟩
      rw [IsCut] at hinner hcut ⊢
      rw [List.append_assoc, ← hinner, ← hcut]
  · cases h

theorem isNumeral_number? {s : List Char} {cut : Cut} (h : number? s = some cut) : IsNumeral s cut := by
  obtain ⟨found, hfound, hend⟩ := Option.bind_eq_some_iff.1 h
  have hcut : found = cut := by
    split at hend
    · cases hend
    · exact Option.some.inj hend
  rw [← hcut]
  split at hfound
  · next c rest =>
    have hlead (hc : trails c) : Trails ['0', c] := .cons (by decide) (.cons hc trails_nil)
    split_ifs at hfound with hx ho hb hd
    · refine isNumeral_basedNumber (fun _ h => h) (hlead ?_) hfound
      rcases Bool.or_eq_true_iff.1 hx with hx | hx <;> rw [beq_iff_eq.1 hx] <;> decide
    · refine isNumeral_basedNumber (fun d hd => ?_) (hlead ?_) hfound
      · exact isHexDigit_of_isDigit (isDigit_of_octal hd)
      · rcases Bool.or_eq_true_iff.1 ho with ho | ho <;> rw [beq_iff_eq.1 ho] <;> decide
    · refine isNumeral_basedNumber (fun d hd => ?_) (hlead ?_) hfound
      · rcases Bool.or_eq_true_iff.1 hd with hd | hd <;> rw [beq_iff_eq.1 hd] <;> decide
      · rcases Bool.or_eq_true_iff.1 hb with hb | hb <;> rw [beq_iff_eq.1 hb] <;> decide
    · exact isNumeral_legacyNumber hfound
    · exact isNumeral_decimalNumber hfound
  · exact isNumeral_decimalNumber hfound

theorem ne_nil_of_fraction {rest : List Char} {cut : Cut} (h : fraction ('.' :: rest) = some cut) : cut.1 ≠ [] := by
  rw [fraction, Option.ite_none_right_eq_some] at h
  obtain ⟨inner, -, rfl⟩ := Option.map_eq_some_iff.1 h.2
  exact List.cons_ne_nil _ _

/-- Where a number is to be, one is found. -/
theorem ne_nil_of_number? {c : Char} {rest : List Char} {cut : Cut} (h : number? (c :: rest) = some cut)
    (hc : (c.isDigit || c == '.') = true) : cut.1 ≠ [] := by
  intro hnil
  obtain ⟨hcut, -⟩ := isNumeral_number? h
  rw [IsCut, hnil, List.nil_append] at hcut
  obtain ⟨found, hfound, hend⟩ := Option.bind_eq_some_iff.1 h
  split at hend
  · cases hend
  · next hstop =>
    obtain rfl := Option.some.inj hend
    rcases Bool.or_eq_true_iff.1 hc with hdigit | hpoint
    · -- what follows a number is no digit
      rw [← hcut, List.head?_cons] at hstop
      simp [hdigit] at hstop
    · obtain rfl := beq_iff_eq.1 hpoint
      have hrun : digits Char.isDigit ('.' :: rest) = ([], '.' :: rest) := rfl
      have hfound : decimalNumber ('.' :: rest) = some found := hfound
      rw [decimalNumber, hrun] at hfound
      obtain ⟨inner, hinner, rfl⟩ := Option.map_eq_some_iff.1 hfound
      exact ne_nil_of_fraction hinner hnil

theorem head?_of_isCut {c : Char} {rest : List Char} {cut : Cut} (h : IsCut (c :: rest) cut) (hne : cut.1 ≠ []) :
    cut.1.head? = some c := by
  obtain ⟨text, after⟩ := cut
  cases text with
  | nil => exact absurd rfl hne
  | cons d text =>
    rw [IsCut, List.cons_append] at h
    rw [List.head?_cons, (List.cons.inj h).1]

theorem Trails.getLast?_any {w : List Char} (h : Trails w) (hne : w ≠ []) : w.getLast?.any trails := by
  rw [List.getLast?_eq_some_getLast hne]
  exact h _ (List.getLast_mem hne)

/-! ## Strings and regular expressions -/

/-- The text of a string: it begins with a quote. -/
def spellsString (w : List Char) : Bool := w.head?.any fun c => c == '\'' || c == '"'

theorem isCut_stringFrom {quote : Char} {s : List Char} :
    ∀ {cut : Cut}, stringFrom quote s = some cut → IsCut s cut := by
  fun_induction stringFrom quote s with
  | case1 rest ih =>
    intro cut h
    obtain ⟨inner, hinner, rfl⟩ := Option.map_eq_some_iff.1 h
    exact (((ih hinner).cons _).cons _).cons _
  | case2 c rest hne hescape ih =>
    intro cut h
    obtain ⟨inner, hinner, rfl⟩ := Option.map_eq_some_iff.1 h
    exact ((ih hinner).cons _).cons _
  | case4 c rest =>
    intro cut h
    obtain rfl := Option.some.inj h
    exact rfl
  | case6 c rest hne hnext hquote hend ih =>
    intro cut h
    obtain ⟨inner, hinner, rfl⟩ := Option.map_eq_some_iff.1 h
    exact (ih hinner).cons _
  | case3 | case5 | case7 => intro cut h; cases h

theorem isCut_mark? {s : List Char} {cut : Cut} (h : mark? s = some cut) : IsCut s cut := by
  obtain ⟨mark, hmark, rfl⟩ := Option.map_eq_some_iff.1 h
  have hfits := List.find?_some hmark
  obtain ⟨hbegins, -⟩ := Bool.and_eq_true_iff.1 hfits
  obtain ⟨after, hafter⟩ := List.isPrefixOf_iff_prefix.1 hbegins
  rw [IsCut, ← hafter, List.drop_left]

theorem getLast?_cons_any {c : Char} {w : List Char} (h : w.getLast?.any trails) : (c :: w).getLast?.any trails := by
  cases w with
  | nil => cases h
  | cons d w => rwa [List.getLast?_cons_cons]

/-- The body of a regular expression ends in its slash. -/
theorem isCut_regexFrom {inBrackets : Bool} {s : List Char} : ∀ {cut : Cut}, regexFrom inBrackets s = some cut →
    IsCut s cut ∧ cut.1.getLast?.any trails := by
  fun_induction regexFrom inBrackets s with
  | case2 inBrackets c rest hend ih =>
    intro cut h
    obtain ⟨inner, hinner, rfl⟩ := Option.map_eq_some_iff.1 h
    obtain ⟨hcut, hlast⟩ := ih hinner
    exact ⟨(hcut.cons _).cons _, getLast?_cons_any (getLast?_cons_any hlast)⟩
  | case4 inBrackets c rest hne hend hslash =>
    intro cut h
    obtain rfl := Option.some.inj h
    rw [beq_iff_eq.1 (Bool.and_eq_true_iff.1 hslash).1]
    exact ⟨rfl, rfl⟩
  | case5 inBrackets c rest hne hend hslash ih =>
    intro cut h
    obtain ⟨inner, hinner, rfl⟩ := Option.map_eq_some_iff.1 h
    obtain ⟨hcut, hlast⟩ := ih hinner
    exact ⟨hcut.cons _, getLast?_cons_any hlast⟩
  | case1 | case3 | case6 => intro cut h; cases h

/-- The text of a regular expression. -/
def spellsRegex (w : List Char) : Bool := w.head?.any leads && w.getLast?.any trails

theorem getLast?_append_any {w v : List Char} (hw : w.getLast?.any trails) (hv : Trails v) :
    (w ++ v).getLast?.any trails := by
  cases v with
  | nil => rwa [List.append_nil]
  | cons c v =>
    obtain ⟨d, hd, hlast⟩ := (Option.any_eq_true _ _).1 (hv.getLast?_any (List.cons_ne_nil c v))
    rw [List.getLast?_append, hd]
    exact hlast

theorem isCut_regex? {s : List Char} {cut : Cut} (h : regex? s = some cut) : IsCut s cut ∧ spellsRegex cut.1 := by
  unfold regex? at h
  split at h
  · next rest =>
    obtain ⟨inner, hinner, rfl⟩ := Option.map_eq_some_iff.1 h
    obtain ⟨hcut, hlast⟩ := isCut_regexFrom hinner
    have hflags := isCut_takeWhile (fun c => Text.isIdentifierPart c.toNat) inner.2
    have hends : Trails (inner.2.takeWhile fun c => Text.isIdentifierPart c.toNat) :=
      .takeWhile (fun _ => trails_of_part) _
    refine ⟨?_, Bool.and_eq_true_iff.2 ⟨rfl, getLast?_append_any (getLast?_cons_any hlast) hends⟩⟩
    rw [IsCut] at hcut hflags ⊢
    dsimp only
    rw [List.cons_append, List.cons_append, List.append_assoc, ← hflags, ← hcut]
  · cases h

/-! ## Templates -/

/-- A piece of a template ends before a grave accent, or before a dollar sign and a brace. -/
theorem templatePiece?_eq {s : List Char} : ∀ {p : TemplatePiece}, templatePiece? s = some p →
    s = p.text ++ ((if p.isLast then ['\x60'] else ['$', '{']) ++ p.rest) := by
  fun_induction templatePiece? s with
  | case1 c rest ih =>
    intro p h
    obtain ⟨inner, hinner, rfl⟩ := Option.map_eq_some_iff.1 h
    exact congrArg ('\\' :: c :: ·) (ih hinner)
  | case2 rest =>
    intro p h
    obtain rfl := Option.some.inj h
    rfl
  | case3 c rest hne hbrace hquote =>
    intro p h
    obtain rfl := Option.some.inj h
    rw [beq_iff_eq.1 hquote]
    rfl
  | case5 c rest hne hbrace hquote hslash ih =>
    intro p h
    obtain ⟨inner, hinner, rfl⟩ := Option.map_eq_some_iff.1 h
    exact congrArg (c :: ·) (ih hinner)
  | case4 | case6 => intro p h; cases h

end ScriptTidy.Grammar
