/-
Blank lines between the members of a list. Each member brings its own newlines: one at its end, one on either
side of a function, class or method, and one where the module headers end. How many of them come together depends
on the two members only, and of those that do two stay; for no member ends like a line that opens something, or
begins like one that closes something.
-/
import ScriptTidy.Proofs.Layout.Bounds
import ScriptTidy.Proofs.Layout.Gaps
import ScriptTidy.Proofs.Layout.Rows

namespace ScriptTidy

open Layout Piece Spacing

/-! ## Room for a blank line -/

namespace Piece

variable {unit : String} {before after : List Piece}

/-- A blank line may stand behind what opens nothing and before what closes nothing. -/
theorem room_eq_two (hunit : isIndent unit) (hbefore : (written unit before).getLast?.any trails) {depth : Nat}
    (hafter : (written unit after).head?.any leads) : room unit before (indent depth :: after) = 2 := by
  have hopens : isOpener (lastLine (tailText unit before)) = false := by
    by_contra hopener
    obtain ⟨c, hc, hopening⟩ := getLast?_of_isOpener (Bool.eq_true_of_not_eq_false hopener)
    obtain ⟨plain, hplain⟩ : lastLine (tailText unit before) <:+ tailText unit before := List.rtakeWhile_suffix _ _
    obtain ⟨front, hfront⟩ : before.rtakeWhile isPlain <:+ before := List.rtakeWhile_suffix _ _
    have hwritten : (written unit before).getLast? = some c := by
      rw [← hfront, written_append, ← tailText, ← hplain, List.getLast?_append, List.getLast?_append, hc]
      rfl
    rw [hwritten] at hbefore
    rcases hopening with rfl | rfl | rfl <;> cases hbefore
  have hcloses : isCloser (headText unit (indent depth :: after)) = false := by
    by_contra hcloser
    obtain ⟨rest, hrest⟩ : (indent depth :: after).takeWhile isPlain <+: indent depth :: after :=
      List.takeWhile_prefix _
    have hwritten : isCloser (written unit (indent depth :: after)) = true := by
      rw [← hrest, written_append]
      exact isCloser_of_isCloser_append (Bool.eq_true_of_not_eq_false hcloser)
    rw [written_cons, segment, isCloser_append (isSpace_of_mem_indentText hunit depth)] at hwritten
    obtain ⟨c, hc, hleads⟩ := (Option.any_eq_true _ _).1 hafter
    obtain ⟨text, htext⟩ := List.head?_eq_some_iff.1 hc
    simp only [leads, Bool.and_eq_true, Bool.not_eq_true', bne_iff_ne] at hleads
    obtain ⟨⟨⟨-, hspace⟩, hbrace⟩, hbracket⟩ := hleads
    simp [isCloser, htext, hspace, hbrace, hbracket] at hwritten
  rw [room, hcloses, hopens]
  rfl

theorem BeginsInked.of_leads (h : (written unit after).head?.any leads) : BeginsInked unit after := by
  obtain ⟨c, hc, hleads⟩ := (Option.any_eq_true _ _).1 h
  refine ⟨c, hc, ?_⟩
  rintro rfl
  cases hleads

theorem EndsInked.of_trails (h : (written unit before).getLast?.any trails) : EndsInked unit before := by
  obtain ⟨c, hc, htrails⟩ := (Option.any_eq_true _ _).1 h
  refine ⟨c, hc, ?_⟩
  rintro rfl
  cases htrails

theorem BeginsInked.indent (hunit : isIndent unit) (h : BeginsInked unit after) (depth : Nat) :
    BeginsInked unit (indent depth :: after) := by
  rw [BeginsInked, written_cons, segment]
  rcases hindent : indentText unit depth with _ | ⟨c, blank⟩
  · exact h
  · refine ⟨c, rfl, ?_⟩
    rintro rfl
    exact newline_notMem_indentText (newline_notMem_of_isIndent hunit) depth (hindent ▸ List.mem_cons_self)

/-- Of the newlines between two lines two stay, if there are so many. -/
theorem parted_lines (hunit : isIndent unit) {l m : Layout} (hl : Trails unit l) (hm : Leads unit m)
    (above below : List Piece) (depth : Nat) {count : Nat} (hcount : 0 < count) :
    Parted unit (min count 2) (above ++ l depth) (indent depth :: (m depth ++ below)) (normalizeLayout (segments unit
      (above ++ (l depth ++ (List.replicate count newline ++ indent depth :: (m depth ++ below)))))) := by
  obtain ⟨last, hlast, htrails⟩ := (Option.any_eq_true _ _).1 (hl depth)
  obtain ⟨head, hhead, hleads⟩ := (Option.any_eq_true _ _).1 (hm depth)
  have hbefore : (written unit (above ++ l depth)).getLast?.any trails := by
    rw [written_append, List.getLast?_append, hlast]
    exact htrails
  have hafter : (written unit (m depth ++ below)).head?.any leads := by
    rw [written_append, List.head?_append, hhead]
    exact hleads
  have hparted := parted_normalizeLayout (.of_trails hbefore) ((BeginsInked.of_leads hafter).indent hunit depth) hcount
  rw [room_eq_two hunit hbefore hafter] at hparted
  rwa [← List.append_assoc]

end Piece

/-! ## Lists -/

namespace Child

variable {semicolons : Bool} {first second : Child} {front strays back : List Child}

/-- The last member that is no empty statement, or what stood before the list. -/
def lastMember (before : Option Node) : List Child → Option Node
  | [] => before
  | child :: rest =>
    match child.1.form with
    | .emptyStatement => lastMember before rest
    | _ => lastMember (some child.1) rest

/-- A member on its line. -/
def memberLine (semicolons : Bool) (child : Child) : Layout :=
  seq [pad, onlyIf (!semicolons && child.1.needsGuard) ";", statement semicolons child]

/-- The members of a list up to the end of one of them. -/
def membersUpTo (semicolons : Bool) (front : List Child) (child : Child) : Layout :=
  seq [members semicolons none front, above (lastMember none front) child, memberLine semicolons child]

/-- The members of a list from the line of one of them on. -/
def membersFrom (semicolons : Bool) (child : Child) (back : List Child) : Layout :=
  seq [memberLine semicolons child, newline, onlyIf child.1.isSpaced newline, members semicolons (some child.1) back]

theorem members_empty (before : Option Node) (h : first.1.form = .emptyStatement) (depth : Nat) :
    members semicolons before (first :: back) depth =
      commentLines first.1.comments depth ++ members semicolons before back depth := by
  rw [members, h]
  simp [seq]

theorem members_cons (before : Option Node) (h : first.1.form ≠ .emptyStatement) (depth : Nat) :
    members semicolons before (first :: back) depth =
      above before first depth ++ membersFrom semicolons first back depth := by
  have hmembers : members semicolons before (first :: back) = seq [
      onlyIf (before.any Node.isModuleHeader && !first.1.isModuleHeader) Layout.newline, commentLines first.1.comments,
      commentLines first.1.headerComments, onlyIf first.1.isSpaced Layout.newline, pad,
      onlyIf (!semicolons && first.1.needsGuard) ";", statement semicolons first, Layout.newline,
      onlyIf first.1.isSpaced Layout.newline, members semicolons (some first.1) back] := by
    rw [members]
    split
    · next hempty => exact absurd hempty h
    · rfl
  rw [hmembers]
  simp only [above, membersFrom, memberLine, seq, List.flatMap_cons, List.flatMap_nil, List.append_nil,
    List.append_assoc]

theorem lastMember_empty (before : Option Node) (h : first.1.form = .emptyStatement) :
    lastMember before (first :: back) = lastMember before back := by
  rw [lastMember, h]

theorem lastMember_cons (before : Option Node) (h : first.1.form ≠ .emptyStatement) :
    lastMember before (first :: back) = lastMember (some first.1) back := by
  rw [lastMember]
  split
  · next hempty => exact absurd hempty h
  · rfl

theorem members_append (semicolons : Bool) (front back : List Child) (before : Option Node) (depth : Nat) :
    members semicolons before (front ++ back) depth =
      members semicolons before front depth ++ members semicolons (lastMember before front) back depth := by
  induction front generalizing before with
  | nil => rfl
  | cons child front ih =>
    by_cases h : child.1.form = .emptyStatement
    · rw [List.cons_append, members_empty before h, members_empty before h, ih, List.append_assoc,
        lastMember_empty before h]
    · rw [List.cons_append, members_cons before h, members_cons before h, lastMember_cons before h, membersFrom,
        membersFrom]
      simp only [seq, List.flatMap_cons, List.flatMap_nil, ih, List.append_assoc, List.append_nil]

/-- Empty statements without comments leave nothing. -/
theorem members_strays (hstrays : ∀ child ∈ strays, child.1.isStray) (before : Option Node) (depth : Nat) :
    members semicolons before (strays ++ back) depth = members semicolons before back depth := by
  induction strays with
  | nil => rfl
  | cons child strays ih =>
    obtain ⟨hchild, hstrays⟩ := List.forall_mem_cons.1 hstrays
    have hempty : child.1.form = .emptyStatement ∧ child.1.comments = [] := by
      unfold Node.isStray at hchild
      split at hchild
      · next hform => exact ⟨hform, List.isEmpty_iff.1 hchild⟩
      · cases hchild
    rw [List.cons_append, members_empty before hempty.1, ih hstrays, hempty.2]
    rfl

end Child

/-! ## Neighbors -/

namespace Node

/-- A blank line stands between the two members. -/
def keepsApart (first second : Node) : Bool :=
  first.isSpaced || second.isSpaced || first.isModuleHeader && !second.isModuleHeader

/-- How many newlines are written between the two members. -/
def breaksBetween (first second : Node) : Nat :=
  1 + first.isSpaced.toNat + (first.isModuleHeader && !second.isModuleHeader).toNat + second.isSpaced.toNat

theorem breaksBetween_pos (first second : Node) : 0 < first.breaksBetween second := by
  unfold breaksBetween
  omega

theorem min_breaksBetween (first second : Node) :
    min (first.breaksBetween second) 2 = if first.keepsApart second then 2 else 1 := by
  unfold breaksBetween keepsApart
  cases first.isSpaced <;> cases second.isSpaced <;> cases first.isModuleHeader && !second.isModuleHeader <;> rfl

end Node

namespace Child

variable {semicolons : Bool} {first second : Child} {front strays back : List Child}

theorem onlyIf_newline (b : Bool) (depth : Nat) :
    onlyIf b Layout.newline depth = List.replicate b.toNat Piece.newline := by
  cases b <;> rfl

/-- Between the lines of two members without comments between them stand newlines only. -/
theorem members_neighbors (hstrays : ∀ child ∈ strays, child.1.isStray) (hfirst : first.1.form ≠ .emptyStatement)
    (hsecond : second.1.form ≠ .emptyStatement) (hcomments : second.1.comments = [])
    (hheader : second.1.headerComments = []) (depth : Nat) :
    members semicolons none (front ++ first :: (strays ++ second :: back)) depth =
      membersUpTo semicolons front first depth ++ (List.replicate (first.1.breaksBetween second.1) Piece.newline ++
        membersFrom semicolons second back depth) := by
  have habove : above (some first.1) second depth = List.replicate
      ((first.1.isModuleHeader && !second.1.isModuleHeader).toNat + second.1.isSpaced.toNat) Piece.newline := by
    rw [above, hcomments, hheader, List.replicate_add, ← onlyIf_newline _ depth, ← onlyIf_newline _ depth]
    simp [seq, commentLines, nothing]
  have hbreaks : List.replicate (first.1.breaksBetween second.1) Piece.newline =
      Piece.newline :: (onlyIf first.1.isSpaced Layout.newline depth ++ above (some first.1) second depth) := by
    rw [habove, onlyIf_newline, List.replicate_append_replicate, ← List.replicate_succ, Node.breaksBetween]
    congr 1
    omega
  rw [members_append, members_cons _ hfirst, membersFrom, hbreaks]
  simp only [seq_cons, members_strays hstrays, members_cons _ hsecond, membersUpTo, List.append_assoc]
  simp [seq, Layout.newline]

end Child

/-! ## Trees -/

namespace Form

/-- The list of statements or class members that the node has. -/
def members? {α : Type} : Form α → Option (List α)
  | .program body _ | .blockStatement body | .classBody body | .switchCase _ body => some body
  | _ => none

theorem isMixed_of_members? {form : Form Node} {body : List Node} (h : form.members? = some body) :
    form.isMixed = false := by
  cases form <;> first | rfl | cases h

theorem mem_written_of_members? {form : Form Node} {body : List Node} (h : form.members? = some body) {m : Node}
    (hm : m ∈ body) : m ∈ form.written := by
  cases form with
  | program | blockStatement | classBody =>
    obtain rfl := Option.some.inj h
    exact hm
  | switchCase =>
    obtain rfl := Option.some.inj h
    exact List.mem_append_right _ hm
  | _ => cases h

end Form

namespace Node

variable {root n m first second : Node} {body front strays back : List Node} {semicolons : Bool}

/-- A list of members stands in the pieces, if it is not made of empty statements. -/
theorem exists_members_infix (h : root.Shaped) (hn : n ∈ root.preorder) (hbody : n.form.members? = some body)
    (hm : m ∈ body) (hempty : m.form ≠ .emptyStatement) (semicolons : Bool) :
    ∃ depth, Child.members semicolons none (body.map (child semicolons)) depth <:+: root.pieces semicolons := by
  have hchild : m.child semicolons ∈ body.map (child semicolons) := List.mem_map_of_mem hm
  cases hfragment : n.form.isFragment with
  | true =>
    -- only the root is a program
    have hvisible : n.isVisible := by
      obtain ⟨info, form⟩ := n
      cases form <;> first | rfl | cases hbody
    rcases h.exists_infix hn hvisible semicolons with rfl | ⟨role, hfits, -⟩
    · obtain ⟨body', hashbang, hform⟩ := h.program
      rw [hform] at hbody
      cases hbody
      exact ⟨0, members_infix_pieces hform⟩
    · obtain ⟨info, form⟩ := n
      cases form with
      | program => cases role <;> cases hfits
      | catchClause => cases hbody
      | _ => cases hfragment
  | false =>
    obtain ⟨info, form⟩ := n
    have hinfix := h.exists_whole_infix hn
    cases form with
    | blockStatement statements | classBody statements =>
      obtain rfl := Option.some.inj hbody
      obtain ⟨depth, hinfix⟩ := hinfix rfl rfl rfl semicolons
      rw [printed_eq] at hinfix
      exact ⟨depth + 1, (Child.members_infix_braced hchild hempty _ depth).trans hinfix⟩
    | switchCase test consequent =>
      obtain rfl := Option.some.inj hbody
      obtain ⟨depth, hinfix⟩ := hinfix rfl rfl rfl semicolons
      rw [printed_eq] at hinfix
      exact ⟨depth + 1, (infix_seq (l := deeper (Child.members semicolons none (consequent.map (child semicolons))))
        (.tail _ (.tail _ (.head _))) depth).trans hinfix⟩
    | program => cases hfragment
    | _ => cases hbody

/-- What a member of a list is printed as begins and ends like a word. -/
theorem bounded_statement_of_mem (unit : String) (h : root.Shaped) (hworded : root.Worded) (hn : n ∈ root.preorder)
    (hbody : n.form.members? = some body) (hm : m ∈ body) (semicolons : Bool) :
    Bounded unit (Child.statement semicolons (m.child semicolons)) :=
  Child.bounded_statement (bounded_part unit h hworded hn (Form.isMixed_of_members? hbody)
    (Form.mem_written_of_members? hbody hm) semicolons)

/-- The pieces of a list of members stand in those of the tree, indented by so many levels, with others above and
below. -/
def ListsAt (root : Node) (semicolons : Bool) (body : List Node) (depth : Nat) (above below : List Piece) : Prop :=
  root.pieces semicolons = above ++ (Child.members semicolons none (body.map (child semicolons)) depth ++ below)

/-- Of two members that follow each other in a list, the second one without comments, the text has the one exactly
one blank line above the other if either is a function, class or method or if the module headers end between them, and
no blank line otherwise. This holds at every place where the list stands. -/
theorem print_neighbors (h : root.Shaped) (hworded : root.Worded) (hn : n ∈ root.preorder)
    (hbody : n.form.members? = some (front ++ first :: (strays ++ second :: back)))
    (hstrays : ∀ m ∈ strays, m.isStray) (hfirst : first.form ≠ .emptyStatement)
    (hsecond : second.form ≠ .emptyStatement) (hcomments : second.comments = []) (hheader : second.headerComments = [])
    (options : Options) :
    ∃ text, root.print options = .ok text ∧
      (∃ depth above below,
        root.ListsAt options.semicolons (front ++ first :: (strays ++ second :: back)) depth above below) ∧
      ∀ depth above below,
        root.ListsAt options.semicolons (front ++ first :: (strays ++ second :: back)) depth above below →
        Piece.Parted options.indent (if first.keepsApart second then 2 else 1)
          (above ++ Child.membersUpTo options.semicolons (front.map (child options.semicolons))
            (first.child options.semicolons) depth)
          (Child.membersFrom options.semicolons (second.child options.semicolons)
            (back.map (child options.semicolons)) depth ++ below) text.toList := by
  obtain ⟨deep, before, after, hlists⟩ := exists_members_infix h hn hbody (by simp) hfirst options.semicolons
  refine ⟨_, h.printable.print_eq options, ⟨deep, before, after, by rw [ListsAt, ← hlists, List.append_assoc]⟩,
    fun depth above below hpieces => ?_⟩
  have hends : Trails options.indent (Child.membersUpTo options.semicolons (front.map (child options.semicolons))
      (first.child options.semicolons)) := by
    have hstatement :=
      bounded_statement_of_mem options.indent h hworded hn hbody (m := first) (by simp) options.semicolons
    exact .last rfl (.last rfl hstatement.trails)
  have hbegins : Leads options.indent (seq [
      onlyIf (!options.semicolons && second.needsGuard) ";",
      Child.statement options.semicolons (second.child options.semicolons)]) := by
    have hstatement :=
      bounded_statement_of_mem options.indent h hworded hn hbody (m := second) (by simp) options.semicolons
    exact .onlyIf (fun _ => .text rfl) hstatement.leads.seq
  have hlist : Child.members options.semicolons none
      ((front ++ first :: (strays ++ second :: back)).map (child options.semicolons)) depth =
        Child.membersUpTo options.semicolons (front.map (child options.semicolons)) (first.child options.semicolons)
            depth ++
          (List.replicate (first.breaksBetween second) Piece.newline ++
            Child.membersFrom options.semicolons (second.child options.semicolons) (back.map (child options.semicolons))
              depth) := by
    rw [List.map_append, List.map_cons, List.map_append, List.map_cons]
    refine Child.members_neighbors (fun part hpart => ?_) hfirst hsecond hcomments hheader depth
    obtain ⟨m, hm, rfl⟩ := List.mem_map.1 hpart
    exact hstrays m hm
  obtain ⟨rest, hline⟩ : ∃ rest, Child.membersFrom options.semicolons (second.child options.semicolons)
      (back.map (child options.semicolons)) depth ++ below = indent depth :: (seq [
        onlyIf (!options.semicolons && second.needsGuard) ";",
        Child.statement options.semicolons (second.child options.semicolons)] depth ++ rest) := by
    refine ⟨seq [Layout.newline, onlyIf second.isSpaced Layout.newline,
      Child.members options.semicolons (some second) (back.map (child options.semicolons))] depth ++ below, ?_⟩
    simp [Child.membersFrom, Child.memberLine, seq, pad, child]
  have hparted := Piece.parted_lines options.indent_valid hends hbegins above rest depth
    (first.breaksBetween_pos second)
  rw [min_breaksBetween, ← hline] at hparted
  rwa [String.toList_ofList, spacedText, hpieces, hlist, List.append_assoc, List.append_assoc]

/-- An import, a semicolon and an expression. -/
def importThis : Node :=
  plain ⟨0, 0, 1⟩ (.program [
    plain ⟨0, 0, 1⟩ (.importDeclaration [] (plain ⟨0, 0, 1⟩ (.literal (.string [109]) "'m'"))),
    plain ⟨0, 0, 1⟩ .emptyStatement,
    plain ⟨0, 0, 1⟩ (.expressionStatement (plain ⟨0, 0, 1⟩ .thisExpression))] "")

theorem print_neighbors_importThis : ∃ before after,
    Piece.Parted "\t" 2 before after "import 'm';\n\nthis;\n".toList := by
  have hshaped : importThis.Shaped := {
    program := ⟨_, _, rfl⟩
    roles := by decide +kernel
    coherent := by decide +kernel
    lines := by decide +kernel }
  have hworded : importThis.Worded := by decide +kernel
  have hprint : importThis.print .standard = .ok "import 'm';\n\nthis;\n" := by decide +kernel
  obtain ⟨text, htext, ⟨depth, above, below, hlists⟩, hparted⟩ :=
    @print_neighbors importThis importThis _ _ [] [plain ⟨0, 0, 1⟩ .emptyStatement] [] hshaped hworded
      (mem_preorder_self _) rfl (by decide) (by simp [plain, form]) (by simp [plain, form]) rfl rfl .standard
  rw [hprint] at htext
  cases htext
  exact ⟨_, _, hparted depth above below hlists⟩

end Node

end ScriptTidy
