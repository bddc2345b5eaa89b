/-
What can fail once a text has been read. No comment that is read ends where the text starts, so all
of them find an owner; a program that is read has only cases in its switches, and can be printed.
Comments change none of this and neither do rules. What is left is a property named by an integer of
too many digits: its key is looked for when properties are sorted, and that fails. Everything else is
formatted once it has been read.
-/
import ScriptTidy.Format
import ScriptTidy.Proofs.Comments.Housing
import ScriptTidy.Proofs.Concrete.Fresh
import ScriptTidy.Proofs.Concrete.Literals
import ScriptTidy.Proofs.Concrete.Walks
import ScriptTidy.Proofs.Syntax.Places

namespace ScriptTidy

/-! ## What is read -/

namespace Source

variable {s : Source}

theorem text_of_stop_eq_zero {c : Cst} (h : c.mark.stop = 0) : s.reader.text c = .ok "" := by
  refine Reader.textBetween_of_decode ?_
  rw [h, reader, slice_eq, List.take_zero, List.drop_nil]
  rfl

/-- A comment has a text, so it ends behind the start of the source. -/
theorem readComment_stop (c : Cst) : Yields (fun comment => 0 < comment.stop) (s.readComment c) := by
  intro comment h
  obtain ⟨text, htext, h⟩ := exists_of_bind_ok h
  have hstop : 0 < c.mark.stop := by
    rw [Nat.pos_iff_ne_zero]
    intro hzero
    rw [text_of_stop_eq_zero hzero] at htext
    cases htext
    cases h
  dsimp only at h
  split at h
  · cases h
    exact hstop
  · cases h
    exact hstop
  · cases h

theorem readComments_stop (root : Cst) :
    Yields (fun comments => ∀ c ∈ comments, 0 < c.stop) (s.readComments root) :=
  .bind (.mapM readComment_stop _) fun comments h =>
    .pure fun c hc => h c ((Comment.sorted_perm comments).mem_iff.1 hc)

/-- What is read of a tree is a program and comments, each for itself. -/
theorem exists_of_readTree {root : Cst} {program : Node} {comments : List Comment}
    (h : s.readTree root = .ok (program, comments)) :
    (∃ body, program = .plain ⟨0, s.bytes.size, 1⟩ (.program body "")) ∧ s.readProgram root = .ok program ∧
      s.readComments root = .ok comments := by
  unfold readTree at h
  split at h
  · obtain ⟨problem, -, h⟩ := exists_of_bind_ok h
    cases h
  · obtain ⟨program, hprogram, h⟩ := exists_of_bind_ok h
    obtain ⟨comments, hcomments, h⟩ := exists_of_bind_ok h
    cases h
    obtain ⟨body, -, hbody⟩ := exists_of_bind_ok hprogram
    exact ⟨⟨body, (Except.ok.inj hbody).symm⟩, hprogram, hcomments⟩

end Source

/-! ## Programs that are read -/

namespace Node

variable {a b root : Node} {body : List Node} {hashbang : String}

theorem Fresh.allComments_eq_nil (h : root.Fresh) : root.allComments = [] :=
  List.flatMap_eq_nil_iff.2 fun n hn => by rw [heldComments, (h n hn).comments, (h n hn).trailing, List.append_nil]

theorem Fresh.hasCases (h : root.Fresh) : root.HasCases := fun n hn => (h n hn).cases

theorem Fresh.printable (h : root.Fresh) (hprogram : root.form = .program body hashbang) : root.Printable where
  program := ⟨body, hashbang, hprogram⟩
  written n hn := (h n hn).written

/-! ## Comments change nothing else -/

theorem keepsForms_uncommented : KeepsForms uncommented := uncommented_form

/-- What does not depend on comments holds at all nodes of both of two trees that differ in their
comments only, or of neither. -/
theorem forall_preorder_of_uncommented_eq {P : Node → Prop} (hP : ∀ n : Node, P n.uncommented ↔ P n)
    (h : a.uncommented = b.uncommented) : (∀ n ∈ a.preorder, P n) ↔ ∀ n ∈ b.preorder, P n := by
  have hside (root : Node) : (∀ n ∈ root.preorder, P n) ↔ ∀ n ∈ root.uncommented.preorder, P n := by
    simp only [keepsForms_uncommented.respells.preorder, List.forall_mem_map, hP]
  rw [hside a, h, ← hside b]

theorem isCase_uncommented (n : Node) : n.uncommented.isCase = n.isCase := by
  rw [isCase, uncommented_form, isCase]
  cases n.form <;> rfl

theorem hasCases_of_uncommented_eq (h : a.uncommented = b.uncommented) : a.HasCases ↔ b.HasCases := by
  refine forall_preorder_of_uncommented_eq (fun n => ?_) h
  rw [uncommented_form, Form.switchMembers_map, List.forall_mem_map]
  simp only [isCase_uncommented]

theorem hasPropertyKeys_of_uncommented_eq (h : a.uncommented = b.uncommented) :
    a.HasPropertyKeys ↔ b.HasPropertyKeys :=
  forall_preorder_of_uncommented_eq (fun n => by rw [keepsForms_uncommented.respells.propertyFault?]) h

theorem exists_of_map_eq_program {f : Node → Node} {form : Form Node} (h : form.map f = .program body hashbang) :
    ∃ body hashbang, form = .program body hashbang := by
  cases form with
  | program body hashbang => exact ⟨body, hashbang, rfl⟩
  | _ => cases h

theorem Printable.of_uncommented_eq (h : a.uncommented = b.uncommented) (hb : b.Printable) : a.Printable where
  program := by
    obtain ⟨body, hashbang, hprogram⟩ := hb.program
    have hform : a.form.map uncommented = .program (body.map uncommented) hashbang := by
      rw [← uncommented_form, h, uncommented_form, hprogram]
      rfl
    exact exists_of_map_eq_program hform
  written := by
    refine (forall_preorder_of_uncommented_eq (fun n => ?_) h).2 hb.written
    rw [uncommented_form, Form.written_map, List.forall_mem_map]
    simp only [uncommented_form, Form.fault?_map]

end Node

/-! ## Attachment -/

namespace Script

open Node

variable {s : Source} {root : Cst} {program : Node} {comments : List Comment} {body : List Node}

theorem withHashbang_eq (h : program.form = .program body "") (hashbang : List Char) :
    withHashbang hashbang program = program.withForm (.program body (String.ofList hashbang)) := by
  rw [withHashbang, h]

/-- A first line that names an interpreter is no node. -/
theorem forall_preorder_withHashbang {P : Node → Prop} (h : program.form = .program body "") (hashbang : List Char)
    (hP : P (withHashbang hashbang program) ↔ P program) :
    (∀ n ∈ (withHashbang hashbang program).preorder, P n) ↔ ∀ n ∈ program.preorder, P n := by
  have hchildren : (withHashbang hashbang program).children = program.children := by
    rw [withHashbang_eq h, Node.children, Node.children, h]
    rfl
  rw [forall_preorder_iff, forall_preorder_iff, hP, hchildren]

theorem fresh_withHashbang (h : program.form = .program body "") (hfresh : program.Fresh) (hashbang : List Char) :
    (withHashbang hashbang program).Fresh := by
  have hself := hfresh program (mem_preorder_self program)
  have hwritten := hself.written
  rw [h] at hwritten
  refine (forall_preorder_withHashbang h hashbang (iff_of_true ?_ hself)).2 hfresh
  rw [withHashbang_eq h]
  exact ⟨hself.comments, hself.trailing, (fun _ hm => nomatch hm), hwritten⟩

theorem hasPropertyKeys_withHashbang (h : program.form = .program body "") (hashbang : List Char) :
    (withHashbang hashbang program).HasPropertyKeys ↔ program.HasPropertyKeys := by
  refine forall_preorder_withHashbang h hashbang ?_
  rw [withHashbang_eq h, propertyFault?, propertyFault?, h]
  rfl

theorem hasOverlongKey_withHashbang (h : program.form = .program body "") (hashbang : List Char) :
    (withHashbang hashbang program).HasOverlongKey ↔ program.HasOverlongKey := by
  rw [← not_iff_not, ← hasPropertyKeys_iff_overlong, ← hasPropertyKeys_iff_overlong,
    hasPropertyKeys_withHashbang h]

/-- All comments of a script that is read find an owner, and no stage after this fails for another
reason than the key of a property. -/
theorem exists_attached (hprogram : s.readProgram root = .ok program) (hcomments : s.readComments root = .ok comments)
    (hashbang : List Char) : ∃ attached, (Script.mk (withHashbang hashbang program) comments).attached = .ok attached ∧
      attached.HasCases ∧ attached.Printable ∧ (attached.HasPropertyKeys ↔ ¬ program.HasOverlongKey) ∧
      attached.Housed ∧ attached.allComments.Perm comments := by
  obtain ⟨hfresh, hstart, body, hform⟩ := Source.readProgram_fresh root program hprogram
  have hfresh' := fresh_withHashbang hform hfresh hashbang
  have hform' : (withHashbang hashbang program).form = .program body (String.ofList hashbang) := by
    rw [withHashbang_eq hform]
    rfl
  have hstart' : (withHashbang hashbang program).span.start = 0 := by
    rw [withHashbang_eq hform]
    exact hstart
  have hends : ∀ c ∈ comments, (withHashbang hashbang program).span.start < c.stop := by
    rw [hstart']
    exact Source.readComments_stop root comments hcomments
  have hsame : (((withHashbang hashbang program).associateAll comments).settle false).1.uncommented =
      (withHashbang hashbang program).uncommented :=
    (uncommented_settle _ false).trans (uncommented_associateAll _ comments)
  have hroot : (withHashbang hashbang program).form.isContainer := by
    rw [hform']
    rfl
  obtain ⟨hattached, hperm⟩ := attach_eq hform' hfresh'.allComments_eq_nil hends
  refine ⟨_, hattached, ?_, ?_, ?_, ?_, hperm⟩
  · exact (hasCases_of_uncommented_eq hsame).2 hfresh'.hasCases
  · exact .of_uncommented_eq hsame (hfresh'.printable hform')
  · rw [hasPropertyKeys_of_uncommented_eq hsame, hasPropertyKeys_withHashbang hform, hasPropertyKeys_iff_overlong]
  · exact (settled_settle hroot hfresh'.allComments_eq_nil).housed

end Script

/-! ## An object with a single member -/

/-! The text `(\x7b'name':this\x7d)` for any name, as it is read. -/

namespace KeyedObject

/-- The characters of the text. -/
def text (name : List Char) : List Char :=
  ['(', '\x7b'] ++ ('\'' :: name ++ ['\'']) ++ [':', 't', 'h', 'i', 's', '\x7d', ')']

def source (name : List Char) : Source := .ofString (String.ofList (text name))

/-- A concrete node that is no token. -/
def part (kind : String) (start stop : Nat) (field : Option String) (children : List Cst) : Cst :=
  .node ⟨kind, true, false, false, start, stop, field⟩ children

def token (kind : String) (start : Nat) : Cst := .node ⟨kind, false, false, false, start, start + 1, none⟩ []

/-! The concrete nodes, for a name of a given length. -/

def key (length : Nat) : Cst := part "string" 2 (length + 4) (some "key") []

def value (length : Nat) : Cst := part "this" (length + 5) (length + 9) (some "value") []

def member (length : Nat) : Cst := part "pair" 2 (length + 9) none [key length, token ":" (length + 4), value length]

def object (length : Nat) : Cst :=
  part "object" 1 (length + 10) none [token "\x7b" 1, member length, token "\x7d" (length + 9)]

def expression (length : Nat) : Cst :=
  part "parenthesized_expression" 0 (length + 11) none [token "(" 0, object length, token ")" (length + 10)]

def statement (length : Nat) : Cst := part "expression_statement" 0 (length + 11) none [expression length]

def tree (length : Nat) : Cst := part "program" 0 (length + 11) none [statement length]

/-! The nodes that are read. -/

variable {s : Source} {name : List Char} {length depth : Nat} {keyNode : Node}

def nodeAt (s : Source) (c : Cst) (form : Form Node) : Node := .plain (s.span c c) form

def nameNode (s : Source) (name : List Char) : Node :=
  nodeAt s (key name.length) (.literal (.string (Text.CodePoint.ofChars name)) (String.ofList ('\'' :: name ++ ['\''])))

def objectNode (s : Source) (length : Nat) (keyNode : Node) : Node :=
  nodeAt s (object length) (.objectExpression [nodeAt s (member length)
    (.property keyNode (nodeAt s (value length) .thisExpression) "init" false false false)])

def expressionNode (s : Source) (length : Nat) (keyNode : Node) : Node :=
  nodeAt s (expression length) (.parenthesizedExpression (objectNode s length keyNode))

def program (s : Source) (length : Nat) (keyNode : Node) : Node :=
  .plain ⟨0, s.bytes.size, 1⟩ (.program [nodeAt s (statement length)
    (.expressionStatement (expressionNode s length keyNode))] "")

theorem isAscii_text (h : Text.IsAscii name) : Text.IsAscii (text name) := by
  have hquote : Text.IsAscii ['\''] := by decide
  exact .append (.append (by decide) (.append (.append hquote h) hquote)) (by decide)

theorem readNode_key (hascii : Text.IsAscii name) (hplain : '\\' ∉ name) (depth : Nat) :
    (source name).readNode (depth + 1) (key name.length) = .ok (nameNode (source name) name) := by
  have hbetween : ((text name).take (name.length + 4)).drop 2 = '\'' :: name ++ ['\''] := by
    rw [text, List.take_left' (by simp), List.drop_left' (by rfl)]
  have htext : (source name).reader.text (key name.length) = .ok (String.ofList ('\'' :: name ++ ['\''])) := by
    rw [Reader.text, source, Source.textBetween_ascii (isAscii_text hascii)]
    exact congrArg (fun cs => Except.ok (String.ofList cs)) hbetween
  exact Reader.string_of_text (r := ⟨source name, (source name).readNode depth⟩) htext hplain

theorem readNode_object (h : s.readNode (depth + 1) (key length) = .ok keyNode) :
    s.readNode (depth + 2) (object length) = .ok (objectNode s length keyNode) := by
  let r : Reader := ⟨s, s.readNode (depth + 1)⟩
  have hname : r.memberName (key length) = .ok (keyNode, false) := by
    have hkind : ((key length).kind == "computed_property_name") = false := by rfl
    have hread : r.read (key length) = .ok keyNode := h
    rw [Reader.memberName, hkind, hread]
    rfl
  have hpair : r.pair (member length) = .ok (nodeAt s (member length)
      (.property keyNode (nodeAt s (value length) .thisExpression) "init" false false false)) := by
    have hkey : r.require (member length) "key" = .ok (key length) := by rfl
    have hvalue : r.readField (member length) "value" = .ok (nodeAt s (value length) .thisExpression) := by rfl
    rw [Reader.pair, hkey, hvalue]
    show (r.memberName (key length) >>= _) = _
    rw [hname]
    rfl
  have hmember : r.objectMember (member length) = r.pair (member length) := by rfl
  have hnamed : (object length).named = [member length] := by rfl
  have hobject : s.readNode (depth + 2) (object length) = r.object (object length) := by rfl
  rw [hobject, Reader.object, hnamed, List.mapM_cons, hmember, hpair]
  rfl

theorem readFirst_eq {r : Reader} {c d : Cst} (h : c.named = [d]) : r.readFirst c = r.read d := by
  rw [Reader.readFirst, Reader.firstNamed, h]
  rfl

theorem readNode_statement (h : s.readNode (depth + 1) (key length) = .ok keyNode) :
    s.readNode (depth + 4) (statement length) =
      .ok (nodeAt s (statement length) (.expressionStatement (expressionNode s length keyNode))) := by
  have hexpression : s.readNode (depth + 3) (expression length) =
      Reader.wrapped ⟨s, s.readNode (depth + 2)⟩ .parenthesizedExpression (expression length) := by rfl
  have hobject : Reader.readFirst ⟨s, s.readNode (depth + 2)⟩ (expression length) =
      .ok (objectNode s length keyNode) :=
    (readFirst_eq rfl).trans (readNode_object h)
  have hstatement : s.readNode (depth + 4) (statement length) =
      Reader.expressionStatement ⟨s, s.readNode (depth + 3)⟩ (statement length) := by rfl
  have hinner : Reader.readFirst ⟨s, s.readNode (depth + 3)⟩ (statement length) =
      .ok (expressionNode s length keyNode) := by
    refine (readFirst_eq (d := expression length) rfl).trans (hexpression.trans ?_)
    rw [Reader.wrapped, hobject]
    rfl
  rw [hstatement, Reader.expressionStatement, hinner]
  rfl

theorem readProgram_tree (hascii : Text.IsAscii name) (hplain : '\\' ∉ name) :
    (source name).readProgram (tree name.length) =
      .ok (program (source name) name.length (nameNode (source name) name)) := by
  have hdepth : 996 + 4 = maxNesting := by rfl
  have hnamed : (tree name.length).named.filter (fun c => c.kind != "hash_bang_line") = [statement name.length] := by
    rfl
  have hstatement := readNode_statement (readNode_key hascii hplain 996)
  rw [hdepth] at hstatement
  rw [Source.readProgram, hnamed, Reader.readAll, List.mapM_cons]
  show ((source name).readNode maxNesting (statement name.length) >>= _) >>= _ = _
  rw [hstatement]
  rfl

/-! The text is without comments. -/

theorem commentNodes_eq_nil {c : Cst} (hc : c.isComment = false) (h : ∀ d ∈ c.children, d.commentNodes = []) :
    c.commentNodes = [] := by
  rw [Cst.commentNodes_eq, if_neg (by rw [hc]; decide), List.flatMap_eq_nil_iff]
  exact h

theorem commentNodes_token (kind : String) (start : Nat) (h : (token kind start).isComment = false) :
    (token kind start).commentNodes = [] :=
  commentNodes_eq_nil h fun _ hd => nomatch hd

theorem readComments_tree (s : Source) (length : Nat) : s.readComments (tree length) = .ok [] := by
  have hkey : (key length).commentNodes = [] := commentNodes_eq_nil rfl fun _ hd => nomatch hd
  have hvalue : (value length).commentNodes = [] := commentNodes_eq_nil rfl fun _ hd => nomatch hd
  have hmember : (member length).commentNodes = [] :=
    commentNodes_eq_nil rfl (by simp [member, part, Cst.children, hkey, commentNodes_token ":" _ rfl, hvalue])
  have hobject : (object length).commentNodes = [] :=
    commentNodes_eq_nil rfl (by
      simp [object, part, Cst.children, commentNodes_token "\x7b" _ rfl, hmember, commentNodes_token "\x7d" _ rfl])
  have hexpression : (expression length).commentNodes = [] :=
    commentNodes_eq_nil rfl (by
      simp [expression, part, Cst.children, commentNodes_token "(" _ rfl, hobject, commentNodes_token ")" _ rfl])
  have hstatement : (statement length).commentNodes = [] :=
    commentNodes_eq_nil rfl (by simp [statement, part, Cst.children, hexpression])
  have htree : (tree length).commentNodes = [] :=
    commentNodes_eq_nil rfl (by simp [tree, part, Cst.children, hstatement])
  rw [Source.readComments, htree, List.mapM_nil]
  exact congrArg Except.ok (Comment.sorted_perm []).eq_nil

/-- The member has a key unless its name spells an integer of too many digits. -/
theorem hasOverlongKey_program_iff (s : Source) (name : List Char) :
    (program s name.length (nameNode s name)).HasOverlongKey ↔
      Canonical.isWhole name ∧ maxDecimalDigits < name.length := by
  have hname : Text.CodePoint.toString? (Text.CodePoint.ofChars name) = some (String.ofList name) :=
    Text.CodePoint.toString?_map_ofChar name
  simp [Node.HasOverlongKey, program, expressionNode, objectNode, nodeAt, nameNode, Node.preorder_eq, Node.plain,
    Node.children, Node.form, Form.children, Node.IsOverlong, Node.nameText?, hname]

end KeyedObject

/-! ## Stages -/

namespace Script

open KeyedObject

variable {s : Source} {root : Cst} {program : Node} {comments : List Comment}

/-- Once a text is read, its comments find their owners, rules give a tree unless properties are to
be sorted and one is named by too many digits, and what they give is printed. -/
theorem stages_of_read (hprogram : s.readProgram root = .ok program) (hcomments : s.readComments root = .ok comments)
    (hashbang : List Char) (options : Options) :
    ∃ attached, (Script.mk (withHashbang hashbang program) comments).attached = .ok attached ∧
      ((∃ styled, attached.applyPlan options = .ok styled) ↔ (options.sortProperties → ¬ program.HasOverlongKey)) ∧
      (∀ fault, attached.applyPlan options = .error fault →
        ∃ count, maxDecimalDigits < count ∧ fault = .tooManyDigits count) ∧
      ∀ styled, attached.applyPlan options = .ok styled → ∃ text, styled.print options = .ok text := by
  obtain ⟨attached, hattached, hcases, hprintable, hkeys, -⟩ := exists_attached hprogram hcomments hashbang
  refine ⟨attached, hattached, ?_, fun fault hfault => Rule.applyAll_eq_error hfault, fun styled hstyled => ?_⟩
  · simp only [hcases.applyPlan_eq_ok_iff, exists_and_left, exists_eq, and_true, hkeys]
  · obtain ⟨-, rfl⟩ := hcases.applyPlan_eq_ok_iff.1 hstyled
    exact (hprintable.runAll hcases).exists_print options

theorem stages_of_read_keyedObject : ∃ attached styled text,
    (Script.mk (withHashbang [] (KeyedObject.program (source ['b']) 1 (nameNode (source ['b']) ['b']))) []).attached =
        .ok attached ∧
      attached.applyPlan .standard = .ok styled ∧ styled.print .standard = .ok text := by
  have hprogram := readProgram_tree (show Text.IsAscii ['b'] by decide) (by decide)
  obtain ⟨attached, hattached, hstyled, -, hprint⟩ :=
    stages_of_read hprogram (readComments_tree _ 1) [] .standard
  have hshort : ¬ (KeyedObject.program (source ['b']) 1 (nameNode (source ['b']) ['b'])).HasOverlongKey :=
    fun h => absurd ((hasOverlongKey_program_iff _ ['b']).1 h).1 (by decide)
  obtain ⟨styled, hstyled⟩ := hstyled.2 fun _ => hshort
  obtain ⟨text, htext⟩ := hprint styled hstyled
  exact ⟨attached, styled, text, hattached, hstyled, htext⟩

/-- One more digit than is read. -/
def overlongName : List Char := '1' :: List.replicate maxDecimalDigits '1'

theorem eq_one_of_mem_overlongName {c : Char} (h : c ∈ overlongName) : c = '1' := by
  rcases List.mem_cons.1 h with rfl | h
  · rfl
  · exact (List.mem_replicate.1 h).2

/-- A text that is read, and whose properties cannot be sorted. -/
theorem not_styled_of_overlongName : ∃ program attached,
    (source overlongName).readProgram (tree overlongName.length) = .ok program ∧
      (source overlongName).readComments (tree overlongName.length) = .ok [] ∧
      (Script.mk program []).attached = .ok attached ∧
      ∀ styled, attached.applyPlan .standard ≠ .ok styled := by
  have hascii : Text.IsAscii overlongName := fun c hc => eq_one_of_mem_overlongName hc ▸ by decide
  have hplain : '\\' ∉ overlongName := fun h => absurd (eq_one_of_mem_overlongName h) (by decide)
  have hlength : maxDecimalDigits < overlongName.length := by
    rw [overlongName, List.length_cons, List.length_replicate]
    exact Nat.lt_succ_self _
  have hprogram := readProgram_tree hascii hplain
  have hcomments := readComments_tree (source overlongName) overlongName.length
  obtain ⟨attached, hattached, hcases, -, hkeys, -⟩ := exists_attached hprogram hcomments []
  refine ⟨_, attached, hprogram, hcomments, hattached, fun styled hstyled => ?_⟩
  have hshort := hkeys.1 ((hcases.applyPlan_eq_ok_iff.1 hstyled).1 rfl)
  exact hshort ((hasOverlongKey_program_iff _ _).2 ⟨Node.isWhole_ones _, hlength⟩)

end Script

/-! ## Formatting -/

section Formatting

variable {text : String} {script : Script} {options : Options}

/-- What is known of a script that is read. -/
theorem Script.exists_of_readWith {tree : String → Reading Cst} (h : Script.readWith tree text = .ok script) :
    ∃ root program, tree (String.ofList (splitHashbang text.toList).2) = .ok root ∧
      (Source.ofString (String.ofList (splitHashbang text.toList).2)).readProgram root = .ok program ∧
      (Source.ofString (String.ofList (splitHashbang text.toList).2)).readComments root = .ok script.comments ∧
      script.program = Script.withHashbang (splitHashbang text.toList).1 program := by
  obtain ⟨root, hroot, h⟩ := exists_of_bind_ok h
  obtain ⟨⟨program, comments⟩, hread, h⟩ := exists_of_bind_ok h
  obtain ⟨-, hprogram, hcomments⟩ := Source.exists_of_readTree hread
  cases h
  exact ⟨root, program, hroot, hprogram, hcomments, rfl⟩

/-- A script that is read holds in its tree the comments of the text, and no others, where comments may stand. -/
theorem Script.of_attached {tree : String → Reading Cst} {attached : Node}
    (hread : Script.readWith tree text = .ok script) (hattached : script.attached = .ok attached) :
    attached.HasCases ∧ attached.Housed ∧ attached.allComments.Perm script.comments := by
  obtain ⟨root, program, -, hprogram, hcomments, hscript⟩ := Script.exists_of_readWith hread
  obtain ⟨same, hsame, hcases, -, -, hhoused, hperm⟩ :=
    Script.exists_attached hprogram hcomments (splitHashbang text.toList).1
  rw [← hscript, hattached] at hsame
  obtain rfl := Except.ok.inj hsame
  exact ⟨hcases, hhoused, hperm⟩

theorem Node.tidied_of_applyPlan_error {root : Node} {fault : NumeralFault}
    (h : root.applyPlan options = .error fault) : root.tidied options = .error (.sort fault) := by
  rw [Node.tidied, h]
  rfl

theorem Node.tidied_of_print {root styled : Node} (h : root.applyPlan options = .ok styled)
    (htext : styled.print options = .ok text) : root.tidied options = .ok text := by
  rw [Node.tidied, h]
  show (styled.print options).mapError FormatFault.print = .ok text
  rw [htext]
  rfl

/-- A script that is read is formatted unless a key cannot be found. -/
theorem Script.tidied_of_parse (h : Script.parse text = .ok script) (options : Options) :
    (options.sortProperties ∧ script.program.HasOverlongKey →
      ∃ count, maxDecimalDigits < count ∧ script.tidied options = .error (.sort (.tooManyDigits count))) ∧
    (¬ (options.sortProperties ∧ script.program.HasOverlongKey) →
      ∃ output, script.tidied options = .ok output) := by
  obtain ⟨root, program, -, hprogram, hcomments, hscript⟩ := Script.exists_of_readWith h
  obtain ⟨attached, hattached, hcases, hprintable, hkeys, -⟩ :=
    Script.exists_attached hprogram hcomments (splitHashbang text.toList).1
  obtain ⟨-, -, body, hform⟩ := Source.readProgram_fresh root program hprogram
  rw [← hscript] at hattached
  have htidied : script.tidied options = attached.tidied options := by
    rw [Script.tidied, hattached]
    rfl
  rw [htidied, hscript, Script.hasOverlongKey_withHashbang hform]
  refine ⟨fun ⟨hsort, hlong⟩ => ?_, fun hshort => ?_⟩
  · cases happly : attached.applyPlan options with
    | ok styled => exact absurd hlong (hkeys.1 ((hcases.applyPlan_eq_ok_iff.1 happly).1 hsort))
    | error fault =>
      obtain ⟨count, hcount, rfl⟩ := Rule.applyAll_eq_error happly
      exact ⟨count, hcount, Node.tidied_of_applyPlan_error happly⟩
  · have happly := hcases.applyPlan_eq_ok_iff.2 ⟨fun hsort => hkeys.2 fun hlong => hshort ⟨hsort, hlong⟩, rfl⟩
    obtain ⟨output, houtput⟩ := (hprintable.runAll hcases).exists_print options
    exact ⟨output, Node.tidied_of_print happly houtput⟩

/-- A text is formatted, unless it cannot be read, or a property cannot be sorted because its name
has too many digits. -/
theorem format_fails {fault : FormatFault} (h : format options text = .error fault) :
    (∃ reason, Script.parse text = .error reason ∧ fault = .read reason) ∨
      ∃ script count, Script.parse text = .ok script ∧ options.sortProperties ∧ script.program.HasOverlongKey ∧
        maxDecimalDigits < count ∧ fault = .sort (.tooManyDigits count) := by
  cases hparse : Script.parse text with
  | error reason =>
    have hread : format options text = .error (.read reason) := by
      rw [format, hparse]
      rfl
    rw [hread] at h
    cases h
    exact .inl ⟨reason, rfl, rfl⟩
  | ok script =>
    have htidied : format options text = script.tidied options := by
      rw [format, hparse]
      rfl
    rw [htidied] at h
    obtain ⟨hlong, hshort⟩ := Script.tidied_of_parse hparse options
    by_cases hsort : options.sortProperties ∧ script.program.HasOverlongKey
    · obtain ⟨count, hcount, hfault⟩ := hlong hsort
      rw [hfault] at h
      cases h
      exact .inr ⟨script, count, rfl, hsort.1, hsort.2, hcount, rfl⟩
    · obtain ⟨output, houtput⟩ := hshort hsort
      rw [houtput] at h
      cases h

end Formatting

end ScriptTidy
