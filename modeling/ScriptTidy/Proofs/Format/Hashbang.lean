/-
A first line that names an interpreter. It is no part of the tree, and the body below it is read one
line further down, where it is the same script: attachment, rules and printing depend on the order of
places at most. So formatting leaves the line as it is and formats the body as if it stood alone. The
line is printed with the code below it, though, and its last character is taken for the end of a line
of code: no blank line follows it if that is an opening bracket.
-/
import ScriptTidy.Proofs.Concrete.Lowered
import ScriptTidy.Proofs.Format.Stages
import ScriptTidy.Proofs.Layout.FirstLine
import ScriptTidy.Proofs.Layout.Places

namespace ScriptTidy

open Spacing

/-! ## The first line -/

section FirstLine

variable {first body : List Char}

/-- A line that names an interpreter. -/
def IsHashbang (line : List Char) : Prop := ['#', '!'] <+: line ∧ '\n' ∉ line

instance (line : List Char) : Decidable (IsHashbang line) := inferInstanceAs (Decidable (_ ∧ _))

theorem splitHashbang_append (h : IsHashbang first) (body : List Char) :
    splitHashbang (first ++ '\n' :: body) = (first, '\n' :: body) := by
  obtain ⟨⟨rest, rfl⟩, hline⟩ := h
  have hall : ∀ c ∈ ['#', '!'] ++ rest, (c != '\n') = true := fun c hc => by
    rw [bne_iff_ne]
    rintro rfl
    exact hline hc
  have hsplit : splitHashbang (['#', '!'] ++ rest ++ '\n' :: body) =
      ((['#', '!'] ++ rest ++ '\n' :: body).takeWhile (· != '\n'),
        (['#', '!'] ++ rest ++ '\n' :: body).dropWhile (· != '\n')) := rfl
  rw [hsplit, List.takeWhile_append_of_pos hall, List.dropWhile_append_of_pos hall]
  exact Prod.ext (List.append_nil _) rfl

theorem splitHashbang_eq_self (h : ¬ ['#', '!'] <+: body) : splitHashbang body = ([], body) := by
  unfold splitHashbang
  split
  · exact absurd ⟨_, rfl⟩ h
  · rfl

/-- The line is no label, so that only a bracket at its end counts. -/
theorem IsHashbang.isOpener_eq (h : IsHashbang first) :
    isOpener first = (first.getLast? == some '\x7b' || first.getLast? == some '[') := by
  obtain ⟨⟨rest, rfl⟩, -⟩ := h
  have hname : ((['#', '!'] ++ rest).dropWhile isSpace).dropLast = '#' :: ('!' :: rest).dropLast := rfl
  have hmark : isLabelChar '#' = false := by decide
  have hlabel : isLabel (['#', '!'] ++ rest) = false := by
    unfold isLabel
    dsimp only
    rw [hname, List.all_cons, hmark, Bool.false_and, Bool.and_false, Bool.or_false]
    exact Bool.and_false _
  rw [isOpener, hlabel, Bool.or_false]

end FirstLine

namespace Script

open Node

/-! ## Rules below the line -/

section Rules

variable {root : Node} {body : List Node} {first : List Char}

theorem run_withHashbang (h : root.form = .program body "") (r : Restyling) (first : List Char) :
    (r.run root).form = .program (r.statements (body.map r.run)) "" ∧
      r.run (withHashbang first root) = withHashbang first (r.run root) := by
  obtain ⟨info, form⟩ := root
  obtain rfl : form = .program body "" := h
  have hprogram (hashbang : String) : r.run (.mk info (.program body hashbang)) =
      .mk ⟨info.span, info.comments.map r.comment, info.trailing.map r.comment⟩
        (.program (r.statements (body.map r.run)) hashbang) :=
    Restyling.run_mk ..
  refine ⟨by rw [hprogram]; rfl, ?_⟩
  rw [hprogram]
  exact hprogram (String.ofList first)

theorem runAll_withHashbang (h : root.form = .program body "") (rules : List Rule) (first : List Char) :
    (∃ body, (Rule.runAll rules root).form = .program body "") ∧
      Rule.runAll rules (withHashbang first root) = withHashbang first (Rule.runAll rules root) := by
  induction rules generalizing root body with
  | nil => exact ⟨⟨body, h⟩, rfl⟩
  | cons rule rules ih =>
    obtain ⟨hform, hrun⟩ := run_withHashbang h rule.restyling first
    rw [Rule.runAll_cons, Rule.runAll_cons, hrun]
    exact ih hform

theorem hasCases_withHashbang (h : root.form = .program body "") (first : List Char) :
    (withHashbang first root).HasCases ↔ root.HasCases := by
  refine forall_preorder_withHashbang h first ?_
  rw [withHashbang_eq h, h]
  rfl

theorem pieces_withHashbang (h : root.form = .program body "") (hne : first ≠ []) (semicolons : Bool) :
    (withHashbang first root).pieces semicolons =
      .text (.ofList first) :: .newline :: .newline :: root.pieces semicolons := by
  have hshown : (String.ofList first != "") = true := by
    rw [bne_iff_ne]
    intro hempty
    exact hne (String.ofList_eq_empty_iff.1 hempty)
  rw [withHashbang_eq h]
  obtain ⟨info, form⟩ := root
  obtain rfl : form = .program body "" := h
  simp only [pieces, withForm, Node.form, hshown]
  rfl

/-- The first line is printed above the program, whose text does not change. -/
theorem print_withHashbang (h : root.form = .program body "") (hne : first ≠ []) (hline : '\n' ∉ first)
    {options : Options} {out : String} (hout : root.print options = .ok out) :
    (withHashbang first root).print options = .ok (.ofList (Piece.belowLine first out.toList)) := by
  rw [print, Piece.render] at hout ⊢
  have hfault : Piece.fault? ((withHashbang first root).pieces options.semicolons) =
      Piece.fault? (root.pieces options.semicolons) := by
    rw [pieces_withHashbang h hne]
    rfl
  rw [hfault]
  cases hnone : Piece.fault? (root.pieces options.semicolons) with
  | some fault =>
    rw [hnone] at hout
    cases hout
  | none =>
    rw [hnone] at hout
    cases hout
    rw [pieces_withHashbang h hne, String.toList_ofList]
    exact congrArg (Except.ok ∘ String.ofList)
      ((quoted_pieces options.semicolons root).normalizeLayout_belowLine options.indent hne hline)

/-- A program with a first line is styled as it is without, and the line stands above it. -/
theorem tidied_withHashbang (h : root.form = .program body "") (hcases : root.HasCases) (hne : first ≠ [])
    (hline : '\n' ∉ first) {options : Options} {out : String} (hout : root.tidied options = .ok out) :
    (withHashbang first root).tidied options = .ok (.ofList (Piece.belowLine first out.toList)) := by
  obtain ⟨styled, hstyled, hprint⟩ := exists_of_bind_ok hout
  obtain ⟨hkeys, rfl⟩ := hcases.applyPlan_eq_ok_iff.1 (eq_ok_of_mapError hstyled)
  obtain ⟨⟨_, hform⟩, hrun⟩ := runAll_withHashbang h options.plan first
  refine Node.tidied_of_print (((hasCases_withHashbang h first).2 hcases).applyPlan_eq_ok_iff.2 ⟨?_, rfl⟩) ?_
  · exact fun hsort => (hasPropertyKeys_withHashbang h first).2 (hkeys hsort)
  · rw [hrun]
    exact print_withHashbang hform hne hline (eq_ok_of_mapError hprint)

end Rules

/-! ## Reading below the line -/

section Reading

variable {s : Source} {root : Cst} {span : Span} {body : List Node} {comments : List Comment} {first : List Char}

/-- The tree of a script that is read, with all comments at their owners. -/
def populatedProgram (span : Span) (body : List Node) (comments : List Comment) : Node :=
  .mk ⟨span, [], (populated body comments).2⟩ (.program (populated body comments).1 "")

theorem attached_of_read (hprogram : s.readProgram root = .ok (.plain span (.program body "")))
    (hcomments : s.readComments root = .ok comments) (first : List Char) :
    (Script.mk (withHashbang first (.plain span (.program body ""))) comments).attached =
        .ok (withHashbang first (populatedProgram span body comments)) ∧
      (populatedProgram span body comments).HasCases := by
  obtain ⟨hfresh, hstart, -⟩ := Source.readProgram_fresh root _ hprogram
  -- a program starts at the first character of its text, and no comment is before that
  have hends : ∀ c ∈ comments, span.start < c.stop := by
    have hzero : span.start = 0 := hstart
    rw [hzero]
    exact Source.readComments_stop root comments hcomments
  have hattached : (Script.mk (withHashbang first (.plain span (.program body ""))) comments).attached =
      .ok (withHashbang first (populatedProgram span body comments)) :=
    attach_program (fresh_withHashbang rfl hfresh first).allComments_eq_nil hends
  obtain ⟨attached, hsame, hcases, -⟩ := exists_attached hprogram hcomments first
  rw [hattached] at hsame
  obtain rfl := Except.ok.inj hsame
  exact ⟨hattached, (hasCases_withHashbang rfl first).1 hcases⟩

theorem tidied_of_read (hprogram : s.readProgram root = .ok (.plain span (.program body "")))
    (hcomments : s.readComments root = .ok comments) (first : List Char) (options : Options) :
    (Script.mk (withHashbang first (.plain span (.program body ""))) comments).tidied options =
      (withHashbang first (populatedProgram span body comments)).tidied options := by
  rw [Script.tidied, (attached_of_read hprogram hcomments first).1]
  rfl

/-- Without places nothing tells that a program stands one line further down. -/
theorem unplaced_lowered (span span' : Span) (body : List Node) (comments : List Comment) (first : List Char) :
    (withHashbang first (populatedProgram span' (body.map Node.lowered) (comments.map Comment.lowered))).unplaced =
      (withHashbang first (populatedProgram span body comments)).unplaced := by
  have hnode (n : Node) : n.lowered.unplaced = n.unplaced := by
    show Relabeling.placeless.node (Relabeling.lowered.node n) = Relabeling.placeless.node n
    exact Relabeling.node_node n
  have hcomment (c : Comment) : c.lowered.unplaced = c.unplaced := rfl
  have hpopulated : populated (body.map Node.lowered) (comments.map Comment.lowered) =
      ((populated body comments).1.map Node.lowered, (populated body comments).2.map Comment.lowered) :=
    populated_relabeled Relabeling.keepsOrder_lowered body comments
  have hunplaced (span : Span) (body : List Node) (comments : List Comment) :
      (withHashbang first (populatedProgram span body comments)).unplaced =
        .mk ⟨.nowhere, [], (populated body comments).2.map Comment.unplaced⟩
          (.program ((populated body comments).1.map unplaced) (String.ofList first)) :=
    unplaced_mk ..
  rw [hunplaced, hunplaced, hpopulated]
  simp only [List.map_map, Function.comp_def, hnode, hcomment]

/-- A script below a first line of its own is styled as it is without, and the line stands above it. -/
theorem tidied_below {t : Source} {below : Cst} {program : Node} (hs : s.IsLowered t) (hsame : root.IsLowered below)
    (htree : s.readTree root = .ok (program, comments)) (hne : first ≠ []) (hline : '\n' ∉ first) {options : Options}
    {out : String} (hout : (Script.mk (withHashbang [] program) comments).tidied options = .ok out) :
    ∃ program' comments', t.readTree below = .ok (program', comments') ∧
      (Script.mk (withHashbang first program') comments').tidied options =
        .ok (.ofList (Piece.belowLine first out.toList)) := by
  obtain ⟨⟨body, rfl⟩, hprogram, hcomments⟩ := Source.exists_of_readTree htree
  obtain ⟨-, hcases⟩ := attached_of_read hprogram hcomments []
  have hbelow := Source.readTree_lowered hs hsame htree
  obtain ⟨-, hprogram', hcomments'⟩ := Source.exists_of_readTree hbelow
  refine ⟨_, _, hbelow, ?_⟩
  calc (Script.mk (withHashbang first (.plain _ (.program (body.map Node.lowered) "")))
          (comments.map Comment.lowered)).tidied options
      = (withHashbang first
          (populatedProgram _ (body.map Node.lowered) (comments.map Comment.lowered))).tidied options :=
        tidied_of_read hprogram' hcomments' first options
    _ = (withHashbang first (populatedProgram _ body comments)).tidied options := by
        rw [← tidied_unplaced, unplaced_lowered, tidied_unplaced]
    _ = .ok (.ofList (Piece.belowLine first out.toList)) :=
        tidied_withHashbang rfl hcases hne hline ((tidied_of_read hprogram hcomments [] options).symm.trans hout)

end Reading

end Script

/-! ## Formatting -/

/-- A text in the style of the options, where concrete trees are found by the given function. -/
def formatWith (tree : String → Reading Cst) (options : Options) (text : String) : Except FormatFault String := do
  let s ← (Script.readWith tree text).mapError .read
  s.tidied options

theorem format_eq (options : Options) : format options = formatWith Script.concreteTree options := rfl

section Formatting

open Script

variable {tree : String → Reading Cst} {options : Options} {first body out : String} {root below : Cst}

theorem formatWith_eq_ok_iff {text : String} :
    formatWith tree options text = .ok out ↔ ∃ s, readWith tree text = .ok s ∧ s.tidied options = .ok out := by
  constructor
  · intro h
    obtain ⟨s, hs, hout⟩ := exists_of_bind_ok h
    exact ⟨s, eq_ok_of_mapError hs, hout⟩
  · rintro ⟨s, hs, hout⟩
    rw [formatWith, hs]
    exact hout

theorem readWith_eq {text : String} {line rest : List Char} (hsplit : splitHashbang text.toList = (line, rest))
    (hroot : tree (.ofList rest) = .ok root) : readWith tree text =
      (fun read => ⟨withHashbang line read.1, read.2⟩) <$> (Source.ofString (.ofList rest)).readTree root := by
  rw [readWith, hsplit]
  dsimp only
  rw [hroot]
  rfl

theorem ofList_belowLine (h : IsHashbang first.toList) (out : String) :
    String.ofList (Piece.belowLine first.toList out.toList) =
      if out = "\n" then first ++ "\n"
      else if first.toList.getLast? ∈ [some '\x7b', some '['] ∨ isCloser out.toList then first ++ "\n" ++ out
      else first ++ "\n\n" ++ out := by
  have hempty : out.toList = ['\n'] ↔ out = "\n" := by
    rw [← String.toList_inj]
    rfl
  have hopener : (isCloser out.toList || isOpener first.toList) = true ↔
      first.toList.getLast? ∈ [some '\x7b', some '['] ∨ isCloser out.toList := by
    rw [h.isOpener_eq, Bool.or_eq_true, Bool.or_eq_true, beq_iff_eq, beq_iff_eq, or_comm]
    simp
  rw [Piece.belowLine]
  simp only [hempty, hopener]
  split
  · next hout => rw [hout]; simp
  · split
    · simp [← String.toList_inj]
    · simp [← String.toList_inj]

/-- The first line stays as it is, and below it stands what the body is formatted as. A blank line is between them,
unless the line ends in an opening bracket or the body begins with a closing one; an empty body is left out. -/
theorem formatWith_hashbang (hfirst : IsHashbang first.toList) (hbody : ¬ ['#', '!'] <+: body.toList)
    (hroot : tree body = .ok root) (hbelow : tree ("\n" ++ body) = .ok below) (hsame : root.IsLowered below)
    (hout : formatWith tree options body = .ok out) :
    formatWith tree options (first ++ "\n" ++ body) = .ok (
      if out = "\n" then first ++ "\n"
      else if first.toList.getLast? ∈ [some '\x7b', some '['] ∨ isCloser out.toList then first ++ "\n" ++ out
      else first ++ "\n\n" ++ out) := by
  have hne : first.toList ≠ [] := by
    intro hnil
    have hmark := hfirst.1
    rw [hnil] at hmark
    exact absurd hmark (by decide)
  have hsplit : splitHashbang (first ++ "\n" ++ body).toList = (first.toList, '\n' :: body.toList) := by
    rw [← splitHashbang_append hfirst]
    simp
  have htext : String.ofList ('\n' :: body.toList) = "\n" ++ body := by simp
  -- the body alone is read, and its comments find their owners
  obtain ⟨script, hread, htidied⟩ := formatWith_eq_ok_iff.1 hout
  rw [readWith_eq (splitHashbang_eq_self hbody) (by rwa [String.ofList_toList]), String.ofList_toList] at hread
  cases htree : (Source.ofString body).readTree root with
  | error fault =>
    rw [htree] at hread
    cases hread
  | ok read =>
    obtain ⟨program, comments⟩ := read
    rw [htree] at hread
    obtain rfl := Except.ok.inj hread
    -- with the line above it the body is the same script, one line further down
    obtain ⟨program', comments', hbelowTree, hbelowOut⟩ :=
      tidied_below (Source.isLowered_ofString body) hsame htree hne hfirst.2 htidied
    rw [← ofList_belowLine hfirst]
    refine formatWith_eq_ok_iff.2 ⟨_, ?_, hbelowOut⟩
    rw [readWith_eq hsplit (by rwa [htext]), htext, hbelowTree]
    rfl

end Formatting

/-! ### A name below a first line -/

/-- The concrete tree of a name of one letter that stands alone at the given offset. -/
def nameAt (offset : Nat) : Cst :=
  let part (kind : String) (start : Nat) := Cst.node ⟨kind, true, false, false, start, offset + 1, none⟩
  part "program" 0 [part "expression_statement" offset [part "identifier" offset []]]

theorem isLowered_nameAt (offset : Nat) : (nameAt offset).IsLowered (nameAt (offset + 1)) :=
  ⟨⟨rfl, rfl⟩, rfl, rfl⟩

theorem concreteTree_name : Script.concreteTree "x" = .ok (nameAt 0) := by with_unfolding_all rfl

theorem concreteTree_name_below : Script.concreteTree ("\n" ++ "x") = .ok (nameAt 1) := by
  with_unfolding_all rfl

theorem format_name : format .standard "x" = .ok "x;\n" := eq_ok_of_toOption (by decide +kernel)

/-- The blank line between a first line and a name, and where there is none. -/
theorem format_hashbang_name :
    format .standard ("#!/bin/x" ++ "\n" ++ "x") = .ok "#!/bin/x\n\nx;\n" ∧
      format .standard ("#!/bin/x \x7b" ++ "\n" ++ "x") = .ok "#!/bin/x \x7b\nx;\n" := by
  have hbody : ¬ ['#', '!'] <+: "x".toList := by decide
  constructor
  · exact (formatWith_hashbang (by decide) hbody concreteTree_name concreteTree_name_below (isLowered_nameAt 0)
      format_name).trans (by decide)
  · exact (formatWith_hashbang (by decide) hbody concreteTree_name concreteTree_name_below (isLowered_nameAt 0)
      format_name).trans (by decide)

/-- No blank line stands below a first line that ends in an opening bracket. -/
theorem format_hashbang_opener : ∃ first body out : String, IsHashbang first.toList ∧ ¬ ['#', '!'] <+: body.toList ∧
    out ≠ "\n" ∧ format .standard body = .ok out ∧
      format .standard (first ++ "\n" ++ body) ≠ .ok (first ++ "\n\n" ++ out) := by
  have hopener : format .standard ("#!/bin/x \x7b" ++ "\n" ++ "x") = .ok "#!/bin/x \x7b\nx;\n" :=
    eq_ok_of_toOption (by decide +kernel)
  refine ⟨"#!/bin/x \x7b", "x", "x;\n", by decide, by decide, by decide, format_name, ?_⟩
  rw [hopener]
  decide

end ScriptTidy
