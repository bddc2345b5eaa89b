/-
Formatting what has been printed. Printing loses the places of nodes, gives strings quotes of its own,
puts a space in front of what a line comment says, and leaves out semicolons that stand alone; a text
that is read back shows its tree with these changes. Of these formatting sees one, the semicolons: a
printed text is formatted as if its tree, without them, were put in style once more. So it stays as it
is, unless semicolons were left out or there are needless braces in it that are to be taken off.
-/
import ScriptTidy.Proofs.Format.Hashbang
import ScriptTidy.Proofs.Layout.Strays
import ScriptTidy.Proofs.Style.Again
import ScriptTidy.Proofs.Style.NeedlessBraces
import ScriptTidy.Proofs.Text.Quoting

namespace ScriptTidy

/-! ## Comments and strings as they are printed -/

namespace Text

/-- The text of a line comment with a space in front of it, unless it begins with one or is empty. -/
def spaced : List Char → List Char
  | [] => []
  | c :: rest => if c = ' ' then c :: rest else ' ' :: c :: rest

theorem spaced_cons_of_ne {c : Char} (hc : c ≠ ' ') (rest : List Char) : spaced (c :: rest) = ' ' :: c :: rest :=
  if_neg hc

/-- Capitalizing a text neither takes a space away from its beginning nor puts one there. -/
theorem exists_capitalizeChars_cons {c : Char} (hc : c ≠ ' ') (s : List Char) :
    ∃ d rest, capitalizeChars (c :: s) = d :: rest ∧ d ≠ ' ' := by
  cases hblank : isBlank c with
  | true => exact ⟨c, capitalizeChars s, by simp [capitalizeChars, hblank], hc⟩
  | false =>
    cases hlower : isLower c with
    | false => exact ⟨c, s, by simp [capitalizeChars, hblank, hlower], hc⟩
    | true =>
      have hcap : capitalizeChars (c :: s) = upper c ++ s := by simp [capitalizeChars, hblank, hlower]
      rcases upper_eq c with hupper | ⟨d, ds, hupper, hraised⟩
      · exact ⟨c, s, by rw [hcap, hupper]; rfl, hc⟩
      · refine ⟨d, ds ++ s, by rw [hcap, hupper]; rfl, ?_⟩
        rintro rfl
        exact absurd (isRaised_iff.1 (hraised _ (List.mem_cons_self ..))).1 (by decide)

theorem spaced_capitalizeChars (s : List Char) : spaced (capitalizeChars s) = capitalizeChars (spaced s) := by
  have hspace (rest : List Char) : capitalizeChars (' ' :: rest) = ' ' :: capitalizeChars rest := rfl
  cases s with
  | nil => rfl
  | cons c s =>
    by_cases hc : c = ' '
    · subst hc
      rw [hspace]
      exact (hspace s).symm
    · obtain ⟨d, rest, hcap, hd⟩ := exists_capitalizeChars_cons hc s
      rw [spaced_cons_of_ne hc, hspace, hcap, spaced_cons_of_ne hd]

end Text

namespace Comment

/-- The comment with a space in front of what it says, if it is a line comment. -/
def spaced (c : Comment) : Comment :=
  match c.kind with
  | .line => { c with value := String.ofList (Text.spaced c.value.toList) }
  | .block => c

theorem kind_spaced (c : Comment) : c.spaced.kind = c.kind := by
  unfold spaced
  split <;> rfl

theorem text_spaced (c : Comment) : c.spaced.text = c.text := by
  obtain ⟨_ | _, value, start, stop, line⟩ := c
  · have hstarts (s : String) : s.startsWith " " = true ↔ [' '] <+: s.toList := String.startsWith_string_iff
    have htext (s : String) : (text ⟨.line, s, start, stop, line⟩).toList =
        if [' '] <+: s.toList then '/' :: '/' :: s.toList else '/' :: '/' :: ' ' :: s.toList := by
      simp only [text, hstarts]
      split <;> exact String.toList_append ..
    rw [← String.toList_inj, htext]
    show (text ⟨.line, String.ofList (Text.spaced value.toList), start, stop, line⟩).toList = _
    rw [htext, String.toList_ofList]
    cases value.toList with
    | nil => rfl
    | cons c rest =>
      by_cases hc : c = ' '
      · subst hc
        rfl
      · rw [Text.spaced_cons_of_ne hc, if_pos (by simp), if_neg (by simp [Ne.symm hc])]
  · rfl

theorem capitalized_spaced (c : Comment) : c.spaced.capitalized = c.capitalized.spaced := by
  obtain ⟨_ | _, value, start, stop, line⟩ := c
  · simp only [spaced, capitalized, Text.capitalize, String.toList_ofList, Text.spaced_capitalizeChars]
  · rfl

end Comment

/-! ## What a text shows of a tree -/

/-- How a string is spelled in print, if it was spelled in quotes before. -/
def printedSpelling (text : List Text.CodePoint) (raw : String) : String :=
  if IsQuoted raw then String.ofList (Text.quoteString text) else raw

theorem isQuoted_quoteString (text : List Text.CodePoint) : IsQuoted (String.ofList (Text.quoteString text)) := by
  have hhead : (String.ofList (Text.quoteString text)).toList.head? = some (Text.Quoted.quoteFor text) := by
    rw [String.toList_ofList]
    rfl
  unfold IsQuoted
  rw [hhead]
  exact (Text.quoteFor_eq text).imp (congrArg some) (congrArg some)

/-- Nodes and comments lose their places, line comments get their space, and strings the quotes of the printer. -/
def Respelling.printed : Respelling where
  span _ := .nowhere
  comment c := c.spaced.unplaced
  spelling := printedSpelling
  spelling_eq text raw := by
    unfold printedSpelling
    by_cases h : IsQuoted raw
    · rw [if_pos h]
      exact .inr ⟨h, isQuoted_quoteString text⟩
    · exact .inl (if_neg h)

theorem Respelling.isNeutral_printed : printed.IsNeutral where
  span _ := rfl
  kind := Comment.kind_spaced
  text := Comment.text_spaced
  capitalized c := by
    show c.spaced.unplaced.capitalized = c.capitalized.spaced.unplaced
    rw [Comment.capitalized_unplaced, Comment.capitalized_spaced]

namespace Node

/-- The tree as it is seen in the text that it is printed as. -/
def shown (t : Node) : Node := Respelling.printed.node t.withoutStrays

/-- Of what a text does not show of a tree, formatting sees the semicolons that stand alone. -/
theorem tidied_shown (t : Node) (options : Options) : t.shown.tidied options = t.withoutStrays.tidied options :=
  Respelling.isNeutral_printed.tidied t.withoutStrays options

end Node

/-! ## Formatting what has been printed -/

/-- The text is read as what it shows of the tree: up to places, the tree and its comments are found again. -/
def ReadsBack (tree : String → Reading Cst) (t : Node) (text : String) : Prop :=
  ∃ s root, Script.readWith tree text = .ok s ∧ s.attached = .ok root ∧ root.unplaced = t.shown

section Again

variable {tree : String → Reading Cst} {options : Options} {text output : String} {s : Script} {root t : Node}

/-- A text that shows a tree is formatted as the tree is without its semicolons that stand alone. -/
theorem ReadsBack.formatWith_eq (h : ReadsBack tree t text) (options : Options) :
    formatWith tree options text = t.withoutStrays.tidied options := by
  obtain ⟨s, root, hread, hattached, hroot⟩ := h
  have hs : s.tidied options = root.tidied options := by
    rw [Script.tidied, hattached]
    rfl
  rw [formatWith, hread]
  show s.tidied options = _
  rw [hs, ← Node.tidied_unplaced, hroot, Node.tidied_shown]

theorem ReadsBack.formatWith_eq_self (hback : ReadsBack tree t output) (hcases : root.HasCases)
    (hnumbers : root.HasNumbers) (hstrays : root.HasNoStrays) (happly : root.applyPlan options = .ok t)
    (hprint : t.print options = .ok output) (hterse : options.braces = .strip → t.IsTerse) :
    formatWith tree options output = .ok output := by
  -- nothing was left out in print, and the rules have nothing left to do
  have hleft : t.withoutStrays = t := by
    obtain ⟨-, rfl⟩ := hcases.applyPlan_eq_ok_iff.1 happly
    exact Node.withoutStrays_eq_self (Rule.hasNoStrays_runAll _ hstrays)
  have hagain : t.applyPlan options = .ok t := by
    refine Node.applyPlan_eq_self hcases hnumbers happly fun hplan => ?_
    exact Node.stripBraces_eq_self_iff.2 (hterse (beq_iff_eq.1 (Node.mem_plan.1 hplan)))
  rw [hback.formatWith_eq, hleft]
  exact Node.tidied_of_print hagain hprint

/-- A printed text that is read back is formatted as its tree, without semicolons that stand alone, in style once
more. It stays as it is, if no semicolon stands alone in the source and no needless braces are left where braces are
taken off; and what it is formatted as stays as it is in any case, if it is read back as well and no such braces are
left in it. -/
theorem formatWith_again (hread : Script.readWith tree text = .ok s) (hattached : s.attached = .ok root)
    (hnumbers : root.HasNumbers) (happly : root.applyPlan options = .ok t) (hprint : t.print options = .ok output)
    (hback : ReadsBack tree t output) :
    formatWith tree options text = .ok output ∧
      formatWith tree options output = t.withoutStrays.tidied options ∧
      (root.HasNoStrays → (options.braces = .strip → t.IsTerse) → formatWith tree options output = .ok output) ∧
      ∀ t' output', t.withoutStrays.applyPlan options = .ok t' → t'.print options = .ok output' →
        ReadsBack tree t' output' → (options.braces = .strip → t'.IsTerse) →
          formatWith tree options output' = .ok output' := by
  obtain ⟨hcases, -, -⟩ := Script.of_attached hread hattached
  obtain ⟨-, ht⟩ := hcases.applyPlan_eq_ok_iff.1 happly
  refine ⟨?_, hback.formatWith_eq options, ?_, ?_⟩
  · refine formatWith_eq_ok_iff.2 ⟨s, hread, ?_⟩
    rw [Script.tidied, hattached]
    exact Node.tidied_of_print happly hprint
  · intro hstrays hterse
    exact hback.formatWith_eq_self hcases hnumbers hstrays happly hprint hterse
  · intro t' output' happly' hprint' hback' hterse'
    have hcases' : t.withoutStrays.HasCases := (ht ▸ hcases.runAll).withoutStrays
    have hnumbers' : t.withoutStrays.HasNumbers := (ht ▸ hcases.hasNumbers_runAll hnumbers).withoutStrays
    exact hback'.formatWith_eq_self hcases' hnumbers' (Node.hasNoStrays_withoutStrays t) happly' hprint' hterse'

end Again

/-! ### A string below a line comment -/

namespace CommentedString

/-- The concrete tree of a string below a line comment, for the offsets at which the comment, the string, its
statement and the text end. -/
def tree (comment string statement text : Nat) : Cst :=
  let part (kind : String) (start stop : Nat) := Cst.node ⟨kind, true, false, false, start, stop, none⟩
  part "program" 0 text [
    part "expression_statement" (comment + 1) statement [part "string" (comment + 1) string []],
    part "comment" 0 comment []]

def comment (value : String) (stop : Nat) : Comment := ⟨.line, value, 0, stop, 1⟩

/-- The program that is read of it, for the comments of the statement and the spelling of the string. -/
def program (comment string statement text : Nat) (comments : List Comment) (raw : String) : Node :=
  .plain ⟨0, text, 1⟩ (.program [.mk ⟨⟨comment + 1, statement, 2⟩, comments, []⟩
    (.expressionStatement (.plain ⟨comment + 1, string, 2⟩ (.literal (.string [97]) raw)))] "")

theorem parse_source : Script.parse "//b\n\"a\"" = .ok ⟨program 3 7 7 7 [] "\"a\"", [comment "b" 3]⟩ := by
  with_unfolding_all rfl

theorem parse_output : Script.parse "// B\n'a';\n" = .ok ⟨program 4 8 9 10 [] "'a'", [comment " B" 4]⟩ := by
  have htree : Script.concreteTree "// B\n'a';\n" = .ok (tree 4 8 9 10) := by with_unfolding_all rfl
  have hread : (Source.ofString "// B\n'a';\n").readTree (tree 4 8 9 10) =
      .ok (program 4 8 9 10 [] "'a'", [comment " B" 4]) := by with_unfolding_all rfl
  refine (readWith_eq (splitHashbang_eq_self (by decide)) htree).trans ?_
  rw [String.ofList_toList, hread]
  rfl

theorem attached_source : Script.attached ⟨program 3 7 7 7 [] "\"a\"", [comment "b" 3]⟩ =
    .ok (program 3 7 7 7 [comment "b" 3] "\"a\"") := by with_unfolding_all rfl

theorem attached_output : Script.attached ⟨program 4 8 9 10 [] "'a'", [comment " B" 4]⟩ =
    .ok (program 4 8 9 10 [comment " B" 4] "'a'") := by with_unfolding_all rfl

set_option maxRecDepth 2000 in
theorem applyPlan_source : (program 3 7 7 7 [comment "b" 3] "\"a\"").applyPlan .standard =
    .ok (program 3 7 7 7 [comment "B" 3] "\"a\"") := by with_unfolding_all rfl

theorem readsBack : ReadsBack Script.concreteTree (program 3 7 7 7 [comment "B" 3] "\"a\"") "// B\n'a';\n" :=
  ⟨_, _, parse_output, attached_output, by with_unfolding_all rfl⟩

end CommentedString

open CommentedString in
/-- The quotes of the string and the space in the comment are new, and stay. -/
theorem formatWith_again_string :
    format .standard "//b\n\"a\"" = .ok "// B\n'a';\n" ∧
      format .standard "// B\n'a';\n" = .ok "// B\n'a';\n" := by
  obtain ⟨hformat, -, hsame, -⟩ := formatWith_again parse_source attached_source (by decide +kernel) applyPlan_source
    (eq_ok_of_toOption (by decide +kernel)) readsBack
  exact ⟨hformat, hsame (by decide +kernel) (by decide)⟩

end ScriptTidy
