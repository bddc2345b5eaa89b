/-
Scripts as they are read of texts. The concrete tree of a text is sound, so the tree that is read of it is
sound, before its comments are in place and afterwards: it has the shape of trees that are read, its names
and operators are words, and its numbers have their places among each other.
-/
import ScriptTidy.Proofs.Concrete.Sound
import ScriptTidy.Proofs.Format.Comments
import ScriptTidy.Proofs.Grammar.Scripts
import ScriptTidy.Proofs.Layout.Wording

namespace ScriptTidy

/-! ## Comments change no form -/

namespace Form

variable {α β : Type}

theorem isExpression_map (f : α → β) (form : Form α) : (form.map f).isExpression = form.isExpression := by
  cases form <;> rfl

theorem isListed_map (f : α → β) (form : Form α) : (form.map f).isListed = form.isListed := by
  cases form <;> rfl

theorem isWhole_map (f : α → β) (form : Form α) : (form.map f).isWhole = form.isWhole := by
  cases form <;> rfl

end Form

namespace Node

variable {f : Node → Node} {a b root : Node} {form : Form Node}

namespace KeepsForms

variable (hf : KeepsForms f)
include hf

theorem isIdentifier (n : Node) : (f n).isIdentifier = n.isIdentifier := by
  rw [Node.isIdentifier, hf, Node.isIdentifier]
  cases n.form <;> rfl

theorem allStand (form : Form Node) : AllStand (form.map f).markRoles.children ↔ AllStand form.markRoles.children := by
  rw [Form.markRoles_map, Form.children_map]
  simp only [AllStand, List.forall_mem_map, hf _, Form.fits_map]

theorem isCoherent (form : Form Node) : (form.map f).isCoherent = form.isCoherent := by
  cases form
  case property key value kind isMethod isShorthand isComputed =>
    cases isShorthand with
    | false => rfl
    | true =>
      show (_ && _) = (_ && _)
      congr 1
      · exact hf.isIdentifier key
      · rw [hf value]
        cases value.form <;> rfl
  case exportNamedDeclaration declaration specifiers source =>
    cases declaration <;> cases specifiers <;> cases source <;> rfl
  case templateLiteral quasis expressions => simp [Form.map, Form.isCoherent]
  all_goals rfl

theorem isWhole (n : Node) : (f n).form.isWhole = n.form.isWhole := by rw [hf, Form.isWhole_map]

theorem isExpression (n : Node) : (f n).form.isExpression = n.form.isExpression := by rw [hf, Form.isExpression_map]

theorem all_isWhole (ns : List Node) : (ns.map f).all (·.form.isWhole) = ns.all (·.form.isWhole) := by
  rw [List.all_map]
  exact congrArg ns.all (funext hf.isWhole)

theorem all_isListed (ns : List Node) : (ns.map f).all (·.form.isListed) = ns.all (·.form.isListed) := by
  rw [List.all_map]
  exact congrArg ns.all (funext fun n => by rw [Function.comp_apply, hf, Form.isListed_map])

theorem isWorded (form : Form Node) : (form.map f).isWorded = form.isWorded := by
  have hchildren : (form.map f).children.all (·.form.isWhole) = form.children.all (·.form.isWhole) := by
    rw [Form.children_map, hf.all_isWhole]
  cases form
  case metaProperty head target =>
    show (_ && _) = (_ && _)
    congr 1
    · rw [hf head]
      cases head.form <;> rfl
    · rw [hf target]
      cases target.form <;> rfl
  case literal value raw => rfl
  case switchStatement => exact hf.isWhole _
  case unaryExpression | updateExpression => exact congrArg (_ && ·) (hf.isWhole _)
  case variableDeclaration => exact congrArg (_ && ·) (hf.all_isWhole _)
  case sequenceExpression expressions =>
    show (!(expressions.map f).isEmpty && _) = _
    rw [List.isEmpty_map, hf.all_isWhole]
    rfl
  all_goals exact hchildren

theorem isSpelled (form : Form Node) : (form.map f).isSpelled = form.isSpelled := by
  cases form
  case program | blockStatement | switchCase => exact hf.all_isListed _
  case metaProperty | labeledStatement => exact hf.isIdentifier _
  case unaryExpression | updateExpression => exact congrArg (_ && ·) (hf.isExpression _)
  case sequenceExpression expressions =>
    cases expressions with
    | nil => rfl
    | cons first rest => exact hf.isExpression _
  case expressionStatement | binaryExpression | logicalExpression | assignmentExpression | conditionalExpression |
    callExpression | taggedTemplateExpression | memberExpression => exact hf.isExpression _
  all_goals rfl

theorem isTargetSpelled (form : Form Node) : (form.map f).isTargetSpelled = form.isTargetSpelled := by
  cases form
  case metaProperty head target =>
    show (f target).form.isSpelled = target.form.isSpelled
    rw [hf target, hf.isSpelled]
  all_goals rfl

theorem isNaN (n : Node) : (f n).isNaN = n.isNaN := by
  rw [Node.isNaN, hf, Node.isNaN]
  cases n.form <;> rfl

theorem isSound_iff (n : Node) : (f n).IsSound ↔ n.IsSound := by
  have hform := hf n
  refine ⟨fun ⟨hroles, hcoherent, hworded, hnumber⟩ => ?_, fun ⟨hroles, hcoherent, hworded, hnumber⟩ => ?_⟩
  · rw [hform] at hroles hcoherent hworded
    exact ⟨(hf.allStand _).1 hroles, hf.isCoherent _ ▸ hcoherent, hf.isWorded _ ▸ hworded, hf.isNaN n ▸ hnumber⟩
  · refine ⟨?_, ?_, ?_, (hf.isNaN n).trans hnumber⟩
    · rw [hform]
      exact (hf.allStand _).2 hroles
    · rw [hform]
      exact (hf.isCoherent _).trans hcoherent
    · rw [hform]
      exact (hf.isWorded _).trans hworded

end KeepsForms

theorem Sound.of_uncommented_eq (h : a.uncommented = b.uncommented) (hb : b.Sound) : a.Sound where
  nodes := (forall_preorder_of_uncommented_eq keepsForms_uncommented.isSound_iff h).2 hb.nodes
  spelled htargets := by
    have hspelled : a.Spelled ↔ b.Spelled := forall_preorder_of_uncommented_eq (fun n => by
      rw [uncommented_form, keepsForms_uncommented.isSpelled]) h
    have htarget : a.TargetsSpelled ↔ b.TargetsSpelled := forall_preorder_of_uncommented_eq (fun n => by
      rw [uncommented_form, keepsForms_uncommented.isTargetSpelled]) h
    exact hspelled.2 (hb.spelled (htarget.1 htargets))

theorem uncommented_of_attach {comments : List Comment} (h : root.attach comments = .ok a) :
    a.uncommented = root.uncommented := by
  unfold attach at h
  dsimp only at h
  split at h
  · cases h
  · rw [← Except.ok.inj h, uncommented_settleAll, uncommented_associateAll]

theorem sound_program {span : Span} {body : List Node} {hashbang : String} (h : AllHave Rank.isListed body) :
    (plain span (.program body hashbang)).Sound := by
  refine sound_plain ⟨h.statement, rfl, ?_, rfl⟩ (List.all_eq_true.2 fun n hn => (h n hn).listed)
    fun n hn => (h n hn).sound
  exact List.all_eq_true.2 fun n hn => (h n hn).whole

end Node

/-! ## What is read of a text -/

namespace Script

open Node

variable {text : String} {s : Script} {root t : Node}

/-- A script that is read is a sound program, and none of its line comments goes beyond its line. -/
theorem sound_of_parse (h : Script.parse text = .ok s) :
    (∃ span body hashbang, s.program = plain span (.program body hashbang)) ∧ s.program.Sound ∧
      ∀ c ∈ s.comments, c.kind = .line → '\n' ∉ c.value.toList := by
  obtain ⟨root, program, htree, hprogram, hcomments, hscript⟩ := exists_of_readWith h
  obtain ⟨hsound, hkind, hnamed⟩ := Grammar.concreteTree_sound (eq_ok_of_mapError htree)
  rw [String.toList_ofList] at hsound
  obtain ⟨span, body, rfl, hbody⟩ := Source.readProgram_has ⟨hsound, hnamed, hkind⟩ program hprogram
  have hscript' : s.program = plain span (.program body (String.ofList (splitHashbang text.toList).1)) := hscript
  exact ⟨⟨_, _, _, hscript'⟩, hscript' ▸ sound_program hbody, Source.readComments_lines hsound _ hcomments⟩

/-- The tree that is read of a text, with the comments in their places, has the shape of trees that are read; its names
and operators are words, and its numbers have their places. It is spelled as a script, if the second names of all meta
properties are. -/
theorem attached_of_parse (h : Script.parse text = .ok s) (hattached : s.attached = .ok root) :
    root.Shaped ∧ root.Worded ∧ root.HasNumbers ∧ (root.TargetsSpelled → root.Spelled) := by
  obtain ⟨⟨span, body, hashbang, hprogram⟩, hsound, hlines⟩ := sound_of_parse h
  obtain ⟨-, -, hperm⟩ := of_attached h hattached
  have hsame := uncommented_of_attach hattached
  have hroot : root.Sound := .of_uncommented_eq hsame hsound
  have hform : ∃ body hashbang, root.form = .program body hashbang := by
    have hmap : root.form.map uncommented = .program (body.map uncommented) hashbang := by
      rw [← uncommented_form, hsame, uncommented_form, hprogram]
      rfl
    exact exists_of_map_eq_program hmap
  refine ⟨⟨hform, fun n hn => (hroot.nodes n hn).roles, fun n hn => (hroot.nodes n hn).coherent, fun c hc => ?_⟩,
    fun n hn => (hroot.nodes n hn).worded, fun n hn => (hroot.nodes n hn).number, hroot.spelled⟩
  exact hlines c (hperm.mem_iff.1 hc)

/-- What is printed of a text has the shape of trees that are read, its names and operators are words, and its comments
stand where they may. -/
theorem styled_of_parse {options : Options} (h : Script.parse text = .ok s) (hattached : s.attached = .ok root)
    (happly : root.applyPlan options = .ok t) : t.Shaped ∧ t.Worded ∧ t.Housed := by
  obtain ⟨hcases, hhoused, -⟩ := of_attached h hattached
  obtain ⟨hshaped, hworded, -⟩ := attached_of_parse h hattached
  obtain ⟨-, rfl⟩ := hcases.applyPlan_eq_ok_iff.1 happly
  exact ⟨hshaped.runAll hhoused, hworded.runAll hcases, (hhoused.applyPlan hcases happly).1⟩

end Script

/-! ## What is formatted -/

section Format

variable {options : Options} {text output : String}

/-- Every text that is formatted is read, styled and printed, and the comments of the text are written, each once and
on a line of its own. -/
theorem format_comments (hout : format options text = .ok output) :
    ∃ s root t, Script.parse text = .ok s ∧ s.attached = .ok root ∧ root.applyPlan options = .ok t ∧
      t.print options = .ok output ∧
      (Piece.comments (t.pieces options.semicolons)).Perm
        (if options.capComments then s.comments.map Comment.capitalized else s.comments) ∧
      ∀ before c after, t.pieces options.semicolons = before ++ .comment c :: after →
        Piece.OnOwnLine options.indent before c after output.toList := by
  obtain ⟨s, root, t, hread, hattached, happly, hprint, hwritten, -⟩ := formatWith_comments hout
  have hshaped : root.Shaped := (Script.attached_of_parse hread hattached).1
  exact ⟨s, root, t, hread, hattached, happly, hprint, hwritten hshaped⟩

/-- What is written of a text stays as it is, if it is read back, no semicolon stands alone in the text, and no needless
braces are left where braces are taken off. -/
theorem format_eq_self (hout : format options text = .ok output) :
    ∃ s root t, Script.parse text = .ok s ∧ s.attached = .ok root ∧ root.applyPlan options = .ok t ∧
      (ReadsBack Script.concreteTree t output → root.HasNoStrays → (options.braces = .strip → t.IsTerse) →
        format options output = .ok output) := by
  obtain ⟨s, root, t, hread, hattached, happly, hprint, -⟩ := formatWith_comments hout
  obtain ⟨hcases, -, -⟩ := Script.of_attached hread hattached
  obtain ⟨-, -, hnumbers, -⟩ := Script.attached_of_parse hread hattached
  exact ⟨s, root, t, hread, hattached, happly, fun hback hstrays hterse =>
    hback.formatWith_eq_self hcases hnumbers hstrays happly hprint hterse⟩

end Format

end ScriptTidy
