/-
Formatting a text that has been formatted. A text is formatted if formatting gives it back, but what
formatting gives need not be formatted: a semicolon standing alone is a statement when runs are sorted
and braces taken off, and the list that holds it is printed as if it were not there. Nor need it hold as
many comments as the text: one inside a meta property is given to an owner, and stays in the name.
-/
import ScriptTidy.Proofs.Format.Stages

namespace ScriptTidy

/-! ## Formatted texts -/

theorem isFormatted_iff {options : Options} {text : String} :
    isFormatted options text = .ok true ↔ format options text = .ok text := by
  unfold isFormatted formatted
  cases format options text with
  | error fault => constructor <;> (intro h; cases h)
  | ok output =>
    show Except.ok (!(output != text)) = Except.ok true ↔ _
    rw [Except.ok.injEq, Except.ok.injEq, Bool.not_eq_true', bne_eq_false_iff_eq]

/-- A block of a semicolon and a statement keeps its braces and loses the semicolon, so that formatting it
again takes the braces off. -/
theorem format_again_differs :
    format { Options.standard with braces := .strip } "if (a) \x7b ; b(); \x7d" =
        .ok "if (a) \x7b\n\tb();\n\x7d\n" ∧
      format { Options.standard with braces := .strip } "if (a) \x7b\n\tb();\n\x7d\n" =
        .ok "if (a)\n\tb();\n" :=
  ⟨eq_ok_of_toOption (by decide +kernel), eq_ok_of_toOption (by decide +kernel)⟩

/-! ## Comments that are read -/

theorem Source.length_readComments {s : Source} {root : Cst} {comments : List Comment}
    (h : s.readComments root = .ok comments) : comments.length = root.commentNodes.length := by
  obtain ⟨found, hfound, h⟩ := exists_of_bind_ok h
  cases h
  rw [Comment.sorted, List.length_mergeSort, length_of_mapM_ok hfound]

/-- A text holds as many comments as its concrete tree, wherever in the tree they stand. -/
theorem Script.length_comments {text : String} {s : Script} (h : Script.parse text = .ok s) :
    ∃ root, Script.concreteTree (String.ofList (splitHashbang text.toList).2) = .ok root ∧
      s.comments.length = root.commentNodes.length := by
  obtain ⟨root, -, hroot, -, hcomments, -⟩ := Script.exists_of_readWith h
  exact ⟨root, hroot, Source.length_readComments hcomments⟩

/-- A comment inside a meta property is written twice. -/
theorem format_doubles_comment :
    ∃ s, Script.parse "x = new /* c */ .target;" = .ok s ∧ s.comments.length = 1 ∧
      format .standard "x = new /* c */ .target;" = .ok "/* c */\nx = new /* c */.target;\n" ∧
      ∀ s', Script.parse "/* c */\nx = new /* c */.target;\n" = .ok s' → s'.comments.length = 2 := by
  have hone : (Script.parse "x = new /* c */ .target;").toOption.map (·.comments.length) = some 1 := by decide +kernel
  have htwo : (Script.concreteTree (String.ofList
      (splitHashbang "/* c */\nx = new /* c */.target;\n".toList).2)).toOption.map (·.commentNodes.length) =
        some 2 := by decide +kernel
  obtain ⟨s, hs, hlength⟩ := Option.map_eq_some_iff.1 hone
  refine ⟨s, eq_ok_of_toOption hs, hlength, eq_ok_of_toOption (by decide +kernel), ?_⟩
  intro s' hs'
  obtain ⟨root, hroot, hcount⟩ := Script.length_comments hs'
  rw [hcount]
  rw [hroot] at htwo
  exact Option.some.inj htwo

end ScriptTidy
