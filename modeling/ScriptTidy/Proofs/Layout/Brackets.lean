/-
Blank lines inside brackets and below labels. Behind an opening bracket, before a closing one and behind the
label of a statement the text has one newline, whatever is written there. Behind the label of a case it has one if
the label is a line; a label that goes on over several lines, or has the text of a template in it, is taken for
something else, and then a blank line may stand below it.
-/
import ScriptTidy.Proofs.Layout.Siblings

namespace ScriptTidy

open Layout Piece Spacing

/-! ## Lines between newlines -/

namespace Piece

variable {unit : String} {ps qs above below : List Piece}

/-- Newlines, and lines that end in them. -/
inductive Ruled (unit : String) : List Piece → Prop
  | nil : Ruled unit []
  | newline {ps : List Piece} : Ruled unit ps → Ruled unit (newline :: ps)
  | line {line ps : List Piece} : BeginsInked unit line → EndsInked unit line → Ruled unit ps →
      Ruled unit (line ++ newline :: ps)

theorem Ruled.append (h : Ruled unit ps) (hqs : Ruled unit qs) : Ruled unit (ps ++ qs) := by
  induction h with
  | nil => exact hqs
  | newline _ ih => exact .newline ih
  | line hbegins hends _ ih =>
    rw [List.append_assoc]
    exact .line hbegins hends ih

/-- Lines end in a newline. -/
theorem Ruled.exists_concat (h : Ruled unit ps) (hne : ps ≠ []) : ∃ front, ps = front ++ [Piece.newline] := by
  induction h with
  | nil => exact absurd rfl hne
  | @newline ps _ ih =>
    rcases List.eq_nil_or_concat ps with rfl | ⟨front, p, rfl⟩
    · exact ⟨[], rfl⟩
    · obtain ⟨front, hfront⟩ := ih (by simp)
      exact ⟨Piece.newline :: front, by rw [hfront, List.cons_append]⟩
  | @line line ps _ _ _ ih =>
    rcases List.eq_nil_or_concat ps with rfl | ⟨front, p, rfl⟩
    · exact ⟨line, rfl⟩
    · obtain ⟨front, hfront⟩ := ih (by simp)
      exact ⟨line ++ Piece.newline :: front, by rw [hfront, List.append_assoc, List.cons_append]⟩

/-- In front of what follows stand newlines, and behind them something else begins. -/
theorem Ruled.exists_begin (h : Ruled unit ps) (hbelow : BeginsInked unit below) :
    ∃ count after, ps ++ below = List.replicate count Piece.newline ++ after ∧ BeginsInked unit after := by
  induction h with
  | nil => exact ⟨0, below, rfl, hbelow⟩
  | newline _ ih =>
    obtain ⟨count, after, heq, hafter⟩ := ih
    exact ⟨count + 1, after, by rw [List.cons_append, heq, List.replicate_succ, List.cons_append], hafter⟩
  | line hbegins _ _ _ => exact ⟨0, _, rfl, (hbegins.append _).append _⟩

/-- Behind what stands before stand newlines, and in front of them something else ends. -/
theorem Ruled.exists_end (h : Ruled unit ps) (habove : EndsInked unit above) (count : Nat) :
    ∃ before more, above ++ (List.replicate count Piece.newline ++ ps) = before ++ List.replicate more Piece.newline ∧
      EndsInked unit before ∧ (0 < count → 0 < more) := by
  induction h generalizing above count with
  | nil => exact ⟨above, count, by rw [List.append_nil], habove, id⟩
  | @newline ps _ ih =>
    obtain ⟨before, more, heq, hbefore, hmore⟩ := ih habove (count + 1)
    refine ⟨before, more, ?_, hbefore, fun _ => hmore count.succ_pos⟩
    rw [← heq, List.replicate_succ', List.append_assoc, List.singleton_append]
  | @line line ps hbegins hends _ ih =>
    obtain ⟨before, more, heq, hbefore, hmore⟩ := ih (hends.append (above ++ List.replicate count Piece.newline)) 1
    refine ⟨before, more, ?_, hbefore, fun _ => hmore Nat.one_pos⟩
    rw [← heq]
    simp

/-! ## Room for one newline -/

theorem room_pos (unit : String) (before after : List Piece) : 0 < room unit before after := by
  unfold room
  split <;> decide

theorem tailText_append (hps : ∀ p ∈ ps, p.isPlain) (above : List Piece) :
    tailText unit (above ++ ps) = tailText unit above ++ written unit ps := by
  rw [tailText, tailText, ← written_append]
  congr 1
  rw [List.rtakeWhile, List.reverse_append, List.takeWhile_append_of_pos (by simpa using hps), List.reverse_append,
    List.reverse_reverse]
  rfl

/-- Behind a bracket there is no room for a blank line. -/
theorem room_of_opening {opening : String} {c : Char} (hlast : opening.toList.getLast? = some c)
    (hc : c = '{' ∨ c = '[') (above after : List Piece) : room unit (above ++ [text opening]) after = 1 := by
  have htail : (tailText unit (above ++ [text opening])).getLast? = some c := by
    rw [tailText_append (by simp [isPlain, verbatim?]), List.getLast?_append, written_cons, segment]
    rw [show written unit [] = [] from rfl, List.append_nil, hlast]
    rfl
  have hline : (lastLine (tailText unit (above ++ [text opening]))).getLast? = some c := by
    rw [getLast?_lastLine (by rw [htail]; rintro ⟨⟩; simp at hc), htail]
  rw [room, isOpener_of_getLast? hline hc, Bool.or_true, if_pos rfl]

/-- Before a bracket there is no room for a blank line. -/
theorem room_of_closing (hunit : isIndent unit) {closing : String} {c : Char} (hhead : closing.toList.head? = some c)
    (hc : c = '}' ∨ c = ']') (before below : List Piece) (depth : Nat) :
    room unit before (indent depth :: text closing :: below) = 1 := by
  obtain ⟨rest, hrest⟩ := List.head?_eq_some_iff.1 hhead
  have hcloses : isCloser (headText unit (indent depth :: text closing :: below)) = true := by
    have hplain : headText unit (indent depth :: text closing :: below) =
        indentText unit depth ++ (c :: rest ++ written unit (below.takeWhile isPlain)) := by
      rw [headText, List.takeWhile_cons_of_pos rfl, List.takeWhile_cons_of_pos rfl, written_cons, written_cons, ← hrest]
      rfl
    rw [hplain, isCloser_append (isSpace_of_mem_indentText hunit depth)]
    rcases hc with rfl | rfl <;> rfl
  rw [room, hcloses, Bool.true_or, if_pos rfl]

/-- Behind the first ones of the pieces newlines are written, and the text has one of them. -/
def TightBelow (unit : String) (pieces before : List Piece) (text : List Char) : Prop :=
  ∃ count after, pieces = before ++ (List.replicate (count + 1) newline ++ after) ∧ Parted unit 1 before after text

/-- Before the last ones of the pieces newlines are written, and the text has one of them. -/
def TightAbove (unit : String) (pieces after : List Piece) (text : List Char) : Prop :=
  ∃ before count, pieces = before ++ (List.replicate (count + 1) newline ++ after) ∧ Parted unit 1 before after text

theorem parted_one {before after : List Piece} (hbefore : EndsInked unit before) (hafter : BeginsInked unit after)
    {count : Nat} (hone : min (count + 1) (room unit before after) = 1) :
    Parted unit 1 before after
      (normalizeLayout (segments unit (before ++ (List.replicate (count + 1) newline ++ after)))) := by
  have hparted := parted_normalizeLayout hbefore hafter (Nat.add_pos_right count Nat.one_pos)
  rwa [hone] at hparted

/-- The brackets of which the first one opens what the second one closes. -/
def AreBrackets (opening closing : String) : Prop := opening = "\x7b" ∧ closing = "\x7d" ∨ opening = "[" ∧ closing = "]"

theorem AreBrackets.beginsInked (hunit : isIndent unit) {opening closing : String} (h : AreBrackets opening closing)
    (below : List Piece) (depth : Nat) : BeginsInked unit (indent depth :: text closing :: below) := by
  refine .indent hunit ?_ depth
  rcases h with ⟨-, rfl⟩ | ⟨-, rfl⟩
  · exact ⟨'}', rfl, by decide⟩
  · exact ⟨']', rfl, by decide⟩

/-- The lines of brackets have no blank line above them and none below them. -/
theorem tight_brackets (hunit : isIndent unit) {opening closing : String} (hbrackets : AreBrackets opening closing)
    (hps : Ruled unit ps) (above below : List Piece) (depth : Nat) :
    let pieces := above ++ text opening :: newline :: (ps ++ indent depth :: text closing :: below)
    TightBelow unit pieces (above ++ [text opening]) (normalizeLayout (segments unit pieces)) ∧
      TightAbove unit pieces (indent depth :: text closing :: below) (normalizeLayout (segments unit pieces)) := by
  intro pieces
  obtain ⟨o, c, hopening, hopens, hclosing, hcloses⟩ : ∃ o c, opening.toList = [o] ∧ (o = '{' ∨ o = '[') ∧
      closing.toList = [c] ∧ (c = '}' ∨ c = ']') := by
    rcases hbrackets with ⟨rfl, rfl⟩ | ⟨rfl, rfl⟩
    · exact ⟨_, _, rfl, .inl rfl, rfl, .inl rfl⟩
    · exact ⟨_, _, rfl, .inr rfl, rfl, .inr rfl⟩
  have habove : EndsInked unit (above ++ [text opening]) := by
    refine .append ⟨o, ?_, by rcases hopens with rfl | rfl <;> decide⟩ above
    simp [written, segment, hopening]
  have hbelow := hbrackets.beginsInked hunit below depth
  constructor
  · obtain ⟨count, after, heq, hafter⟩ := hps.exists_begin hbelow
    have hpieces : pieces = (above ++ [text opening]) ++ (List.replicate (count + 1) newline ++ after) := by
      rw [List.replicate_succ, List.cons_append, ← heq]
      simp [pieces]
    refine ⟨count, after, hpieces, ?_⟩
    rw [hpieces]
    refine parted_one habove hafter ?_
    rw [room_of_opening (by rw [hopening]; rfl) hopens]
    omega
  · obtain ⟨before, more, heq, hbefore, hmore⟩ := hps.exists_end habove 1
    obtain ⟨count, rfl⟩ := Nat.exists_eq_succ_of_ne_zero (hmore Nat.one_pos).ne'
    have hpieces :
        pieces = before ++ (List.replicate (count + 1) newline ++ indent depth :: text closing :: below) := by
      rw [← List.append_assoc before, ← heq]
      simp [pieces]
    refine ⟨before, count, hpieces, ?_⟩
    rw [hpieces]
    refine parted_one hbefore hbelow ?_
    rw [room_of_closing hunit (by rw [hclosing]; rfl) hcloses]
    omega

/-- The pieces are a line without raw text, or a part of one. -/
def OnLine (unit : String) (ps : List Piece) : Prop := (∀ p ∈ ps, p.isPlain) ∧ '\n' ∉ written unit ps

/-- Below a label there is no room for a blank line, if the label is a line. -/
theorem room_of_label (hunit : isIndent unit) (hline : OnLine unit ps) (hlabel : isLabel (written unit ps))
    (above after : List Piece) (depth : Nat) : room unit (above ++ newline :: indent depth :: ps) after = 1 := by
  obtain ⟨hplain, hbreak⟩ := hline
  have htail : tailText unit (above ++ newline :: indent depth :: ps) =
      tailText unit above ++ '\n' :: (indentText unit depth ++ written unit ps) := by
    rw [tailText_append (List.forall_mem_cons.2 ⟨rfl, List.forall_mem_cons.2 ⟨rfl, hplain⟩⟩), written_cons,
      written_cons]
    rfl
  have hall : ∀ c ∈ indentText unit depth ++ written unit ps, (c != '\n') = true := by
    intro c hc
    rw [bne_iff_ne]
    rintro rfl
    rcases List.mem_append.1 hc with hc | hc
    · exact newline_notMem_indentText (newline_notMem_of_isIndent hunit) depth hc
    · exact hbreak hc
  have hlast : lastLine (tailText unit (above ++ newline :: indent depth :: ps)) =
      indentText unit depth ++ written unit ps := by
    rw [htail, lastLine, List.rtakeWhile_append_cons (by decide), List.rtakeWhile_eq_self_iff.2 hall]
  rw [room, hlast, isOpener_append (isSpace_of_mem_indentText hunit depth), isOpener, hlabel, Bool.or_true,
    Bool.or_true, if_pos rfl]

end Piece

/-! ## Lines of nodes -/

namespace Child

variable {unit : String} {semicolons : Bool} {child : Child} {children : List Child}

/-- The comments end on the lines on which they begin. -/
def Unbroken (comments : List Comment) : Prop := ∀ c ∈ comments, c.kind = .line → '\n' ∉ c.value.toList

theorem ruled_onlyIf_newline (b : Bool) (depth : Nat) : Ruled unit (onlyIf b Layout.newline depth) := by
  cases b with
  | true => exact .newline .nil
  | false => exact .nil

theorem ruled_seq {ls : List Layout} {depth : Nat} (h : ∀ l ∈ ls, Ruled unit (l depth)) :
    Ruled unit (seq ls depth) := by
  induction ls with
  | nil => exact .nil
  | cons l ls ih =>
    obtain ⟨hl, hls⟩ := List.forall_mem_cons.1 h
    exact hl.append (ih hls)

/-- A line of text, with its indent and its end. -/
theorem ruled_line (hunit : isIndent unit) (ls : List Layout) {depth : Nat} (hbegins : BeginsInked unit (seq ls depth))
    (hends : EndsInked unit (seq ls depth)) : Ruled unit (seq (pad :: (ls ++ [Layout.newline])) depth) := by
  have hpieces :
      seq (pad :: (ls ++ [Layout.newline])) depth = (indent depth :: seq ls depth) ++ Piece.newline :: [] := by
    simp [seq, pad, Layout.newline]
  rw [hpieces]
  exact .line (hbegins.indent hunit depth) (hends.append [indent depth]) .nil

theorem ruled_commentLines (hunit : isIndent unit) {comments : List Comment} (h : Unbroken comments) (depth : Nat) :
    Ruled unit (commentLines comments depth) := by
  unfold commentLines
  split
  · exact .nil
  · refine .newline (ruled_seq fun l hl => ?_)
    obtain ⟨c, hc, rfl⟩ := List.mem_map.1 hl
    have hwritten : written unit (seq [comment c] depth) = c.text.toList := List.append_nil _
    refine ruled_line hunit [comment c] ?_ ?_
    · exact ⟨'/', by rw [hwritten]; exact c.head?_text, by decide⟩
    · obtain ⟨last, hlast, hne⟩ := Comment.exists_getLast?_text (h c hc)
      exact ⟨last, by rw [hwritten]; exact hlast, hne⟩

/-- Comments in front of a line. -/
theorem ruled_members (hunit : isIndent unit)
    (h : ∀ part ∈ children, Bounded unit (statement semicolons part) ∧ Unbroken part.1.comments ∧
      Unbroken part.1.headerComments) (depth : Nat) :
    ∀ before, Ruled unit (members semicolons before children depth) := by
  induction children with
  | nil => exact fun _ => .nil
  | cons part children ih =>
    obtain ⟨⟨hpart, hcomments, hheader⟩, hchildren⟩ := List.forall_mem_cons.1 h
    intro before
    by_cases hempty : part.1.form = .emptyStatement
    · rw [members_empty before hempty]
      exact (ruled_commentLines hunit hcomments depth).append (ih hchildren before)
    · have hbegins : Leads unit (seq [onlyIf (!semicolons && part.1.needsGuard) ";", statement semicolons part]) :=
        .onlyIf (fun _ => .text rfl) hpart.leads.seq
      have hends : Trails unit (seq [onlyIf (!semicolons && part.1.needsGuard) ";", statement semicolons part]) :=
        .last rfl hpart.trails
      have hline := ruled_line hunit _ (.of_leads (hbegins depth)) (.of_trails (hends depth))
      have hpieces : members semicolons before (part :: children) depth =
          seq [above before part,
            seq [pad, onlyIf (!semicolons && part.1.needsGuard) ";", statement semicolons part, Layout.newline],
            onlyIf part.1.isSpaced Layout.newline, members semicolons (some part.1) children] depth := by
        rw [members_cons before hempty]
        simp [membersFrom, memberLine, seq]
      rw [hpieces]
      refine ruled_seq fun l hl => ?_
      simp only [List.mem_cons, List.not_mem_nil, or_false] at hl
      rcases hl with rfl | rfl | rfl | rfl
      · refine ruled_seq fun l hl => ?_
        simp only [List.mem_cons, List.not_mem_nil, or_false] at hl
        rcases hl with rfl | rfl | rfl | rfl
        · exact ruled_onlyIf_newline _ depth
        · exact ruled_commentLines hunit hcomments depth
        · exact ruled_commentLines hunit hheader depth
        · exact ruled_onlyIf_newline _ depth
      · exact hline
      · exact ruled_onlyIf_newline _ depth
      · exact ih hchildren (some part.1)

theorem ruled_element (hunit : isIndent unit) {slot : Option Child}
    (h : ∀ part ∈ slot, Bounded unit part.2.whole ∧ Unbroken part.1.comments) (depth : Nat) :
    Ruled unit (element slot depth) := by
  cases slot with
  | none => exact ruled_line hunit [","] ⟨',', rfl, by decide⟩ ⟨',', rfl, by decide⟩
  | some part =>
    obtain ⟨hpart, hcomments⟩ := h part rfl
    have hbegins : Leads unit (seq [part.2.whole, ","]) := hpart.leads.seq
    have hends : Trails unit (seq [part.2.whole, ","]) := .last rfl (.text rfl)
    exact (ruled_commentLines hunit hcomments depth).append
      (ruled_line hunit [part.2.whole, ","] (.of_leads (hbegins depth)) (.of_trails (hends depth)))

theorem ruled_member (hunit : isIndent unit) (h : Bounded unit child.2.whole ∧ Unbroken child.1.comments)
    (depth : Nat) : Ruled unit (member child depth) := by
  have hpieces : member child depth = seq [onlyIf child.holdsFunction Layout.newline, element (some child),
      onlyIf child.holdsFunction Layout.newline] depth := by
    simp [member, element, seq]
  rw [hpieces]
  refine ruled_seq fun l hl => ?_
  simp only [List.mem_cons, List.not_mem_nil, or_false] at hl
  rcases hl with rfl | rfl | rfl
  · exact ruled_onlyIf_newline _ depth
  · exact ruled_element hunit (by rintro part ⟨⟩; exact h) depth
  · exact ruled_onlyIf_newline _ depth

/-- The label of a case, up to its colon. -/
def caseLabel (test : Option Child) : Layout :=
  match test with
  | some test => seq ["case ", test, ":"]
  | none => "default:"

theorem leads_caseLabel (test : Option Child) : Leads unit (caseLabel test) := by
  cases test with
  | none => exact .text rfl
  | some test => exact .seq (.text (by decide))

theorem endsInked_caseLabel (test : Option Child) (depth : Nat) : EndsInked unit (caseLabel test depth) := by
  refine ⟨':', ?_, by decide⟩
  cases test with
  | none => rfl
  | some test =>
    rw [caseLabel, written_seq_of_getLast? rfl, List.getLast?_append]
    rfl

/-- A case on one line looks like a label. -/
theorem isLabel_caseLabel (test : Option Child) (depth : Nat) :
    isLabel (written unit (caseLabel test depth)) = true := by
  cases test with
  | none =>
    rw [caseLabel, written_text]
    decide
  | some test =>
    have hwritten : written unit (caseLabel (some test) depth) =
        'c' :: 'a' :: 's' :: 'e' :: ' ' :: (written unit (test.2.whole depth) ++ [':']) := by
      rw [caseLabel, written_seq]
      simp only [List.flatMap_cons, List.flatMap_nil, List.append_nil, written_text]
      rfl
    have hlast : (written unit (caseLabel (some test) depth)).getLast? = some ':' := by
      rw [hwritten]
      simp only [← List.cons_append, List.getLast?_concat]
    have hname : ((written unit (caseLabel (some test) depth)).dropWhile isSpace).dropLast =
        'c' :: 'a' :: 's' :: 'e' :: ' ' :: written unit (test.2.whole depth) := by
      rw [hwritten, List.dropWhile_cons_of_neg (by decide)]
      simp only [← List.cons_append, List.dropLast_concat]
    have hblank : Text.isWord 32 = false := by decide +kernel
    simp [isLabel, hlast, hname, startsWithCase, hblank]

end Child

/-! ## Nodes -/

namespace Node

variable {root n m : Node} {body : List Node} {unit : String} {semicolons : Bool}

theorem mem_allComments_of_mem_headerComments {c : Comment} (hc : c ∈ n.headerComments) : c ∈ n.allComments := by
  induction n using byChildren with
  | node n ih =>
    have hheld {m : Node} (hm : m ∈ n.children) (h : c ∈ m.allComments) : c ∈ n.allComments := by
      obtain ⟨k, hk, hc⟩ := List.mem_flatMap.1 h
      exact List.mem_flatMap.2 ⟨k, mem_preorder_trans (mem_preorder_of_mem_children hm) hk, hc⟩
    obtain ⟨info, form⟩ := n
    cases form with
    | forStatement init test update body =>
      cases init with
      | none => cases hc
      | some init =>
        simp only [headerComments] at hc
        split at hc
        · exact hheld (m := init) (.head _)
            (List.mem_flatMap.2 ⟨init, mem_preorder_self init, List.mem_append_left _ hc⟩)
        · cases hc
    | labeledStatement label body =>
      rw [headerComments] at hc
      exact hheld (m := body) (.tail _ (.head _)) (ih body (.tail _ (.head _)) hc)
    | _ => cases hc

/-- No comment of the node goes beyond its line. -/
theorem Shaped.unbroken (h : root.Shaped) (hn : n ∈ root.preorder) :
    Child.Unbroken n.comments ∧ Child.Unbroken n.trailing ∧ Child.Unbroken n.headerComments := by
  have hheld {k : Node} (hk : k ∈ root.preorder) {c : Comment} (hc : c ∈ k.heldComments) :
      c.kind = .line → '\n' ∉ c.value.toList :=
    h.lines c (List.mem_flatMap.2 ⟨k, hk, hc⟩)
  refine ⟨fun c hc => hheld hn (List.mem_append_left _ hc), fun c hc => hheld hn (List.mem_append_right _ hc),
    fun c hc => ?_⟩
  obtain ⟨k, hk, hc⟩ := List.mem_flatMap.1 (mem_allComments_of_mem_headerComments hc)
  exact hheld (mem_preorder_trans hn hk) hc

/-- The members of a list are lines. -/
theorem ruled_members (hunit : isIndent unit) (h : root.Shaped) (hworded : root.Worded) (hn : n ∈ root.preorder)
    (hbody : n.form.members? = some body) (semicolons : Bool) (depth : Nat) :
    Ruled unit (Child.members semicolons none (body.map (child semicolons)) depth) := by
  refine Child.ruled_members hunit (fun part hpart => ?_) depth none
  obtain ⟨m, hm, rfl⟩ := List.mem_map.1 hpart
  have hmem := mem_preorder_trans hn
    (mem_preorder_of_mem_children (Form.mem_children_of_mem_written (Form.mem_written_of_members? hbody hm)))
  obtain ⟨hcomments, -, hheader⟩ := h.unbroken hmem
  exact ⟨bounded_statement_of_mem unit h hworded hn hbody hm semicolons, hcomments, hheader⟩

/-- The node has brackets with lines between them. -/
def spreads (n : Node) : Bool :=
  match n.form with
  | .blockStatement body | .classBody body => !(n.trailing.isEmpty && body.all isStray)
  | .switchStatement _ cases => !(cases.isEmpty && n.trailing.isEmpty)
  | .arrayExpression elements => !(elements.isEmpty && n.trailing.isEmpty)
  | .objectExpression properties => !(properties.isEmpty && n.trailing.isEmpty)
  | _ => false

/-- The label of a case. -/
def caseLabel (semicolons : Bool) (test : Option Node) : Layout := Child.caseLabel (test.map (child semicolons))

theorem whole_switchCase (info : Info) (test : Option Node) (consequent : List Node) :
    ((mk info (.switchCase test consequent)).printed semicolons).whole =
      seq [caseLabel semicolons test, Layout.newline,
        deeper (Child.members semicolons none (consequent.map (child semicolons)))] := by
  rw [printed_eq]
  cases test <;> rfl

/-- The members of a switch are cases. -/
theorem exists_of_mem_cases (h : root.Shaped) (hn : n ∈ root.preorder) {discriminant : Node} {cases : List Node}
    (hform : n.form = .switchStatement discriminant cases) (hm : m ∈ cases) :
    m ∈ root.preorder ∧ ∃ test consequent, m.form = .switchCase test consequent := by
  have hrole : (m, Role.case) ∈ n.form.markRoles.children := by
    rw [hform]
    exact List.mem_cons_of_mem _ (List.mem_map_of_mem hm)
  refine ⟨mem_preorder_trans hn (mem_preorder_of_mem_children (mem_children_of_mem_markRoles hrole)), ?_⟩
  have hfits := h.roles n hn _ hrole
  obtain ⟨info, form⟩ := m
  cases form with
  | switchCase test consequent => exact ⟨test, consequent, rfl⟩
  | _ => cases hfits

theorem ruled_caseLines (hunit : isIndent unit) (h : root.Shaped) (hworded : root.Worded) (hn : n ∈ root.preorder)
    {discriminant : Node} {cases some : List Node} (hform : n.form = .switchStatement discriminant cases)
    (hsome : ∀ m ∈ some, m ∈ cases) (semicolons : Bool) (depth : Nat) :
    Ruled unit (seq ((some.map (child semicolons)).map Child.caseLines) depth) := by
  refine Child.ruled_seq fun l hl => ?_
  obtain ⟨part, hpart, rfl⟩ := List.mem_map.1 hl
  obtain ⟨m, hm, rfl⟩ := List.mem_map.1 hpart
  obtain ⟨hmem, test, consequent, hcase⟩ := exists_of_mem_cases h hn hform (hsome m hm)
  have hlabel : Ruled unit (seq [pad, caseLabel semicolons test, Layout.newline] depth) := by
    refine Child.ruled_line hunit [caseLabel semicolons test] ?_ ?_
    · exact .of_leads ((Child.leads_caseLabel _).seq depth)
    · rw [seq, List.flatMap_singleton]
      exact Child.endsInked_caseLabel _ depth
  have hmembers := ruled_members hunit h hworded hmem (congrArg Form.members? hcase) semicolons (depth + 1)
  have hpieces : (m.child semicolons).caseLines depth = commentLines m.comments depth ++
      (seq [pad, caseLabel semicolons test, Layout.newline] depth ++
        Child.members semicolons none (consequent.map (child semicolons)) (depth + 1)) := by
    obtain ⟨info, form⟩ := m
    obtain rfl : form = .switchCase test consequent := hcase
    have hwhole := @whole_switchCase semicolons info test consequent
    rw [Child.caseLines, child, hwhole]
    simp [seq, deeper]
  rw [hpieces]
  exact (Child.ruled_commentLines hunit (h.unbroken hmem).1 depth).append (hlabel.append hmembers)

/-- What is written between the brackets of a node, on lines of its own. -/
def inside (semicolons : Bool) (n : Node) : Layout :=
  match n.form with
  | .blockStatement body | .classBody body =>
    deeper (seq [Child.members semicolons none (body.map (child semicolons)), commentLines n.trailing])
  | .switchStatement _ cases =>
    seq [seq ((cases.map (child semicolons)).map Child.caseLines), deeper (commentLines n.trailing)]
  | .arrayExpression elements =>
    deeper (seq [seq ((elements.map (Option.map (child semicolons))).map Child.element), commentLines n.trailing])
  | .objectExpression properties =>
    deeper (seq [seq ((properties.map (child semicolons)).map Child.member), commentLines n.trailing])
  | _ => nothing

theorem exists_whole_of_spreads (hspreads : n.spreads) (semicolons : Bool) (depth : Nat) :
    ∃ opening closing head, Piece.AreBrackets opening closing ∧ (n.printed semicolons).whole depth =
      head ++ (Piece.text opening :: Piece.newline ::
        (n.inside semicolons depth ++ [Piece.indent depth, Piece.text closing])) := by
  rw [printed_eq]
  obtain ⟨info, form⟩ := n
  cases form with
  | blockStatement body | classBody body =>
    have hstray : (body.map (child semicolons)).all (·.1.isStray) = body.all isStray := List.all_map
    have hbare : (info.trailing.isEmpty && body.all isStray) = false := Eq.mp (Bool.not_eq_true' _) hspreads
    refine ⟨_, _, [], .inl ⟨rfl, rfl⟩, ?_⟩
    simp only [form, Form.map, Form.layout, Child.braced]
    rw [hstray, trailing, Node.info, hbare, if_neg Bool.false_ne_true]
    simp [inside, form, trailing, Node.info, seq, deeper, Layout.text, Layout.newline, pad]
  | switchStatement discriminant cases =>
    have hbare : (cases.isEmpty && info.trailing.isEmpty) = false := Eq.mp (Bool.not_eq_true' _) hspreads
    refine ⟨_, _, seq ["switch (", (discriminant.printed semicolons).whole, ") "] depth, .inl ⟨rfl, rfl⟩, ?_⟩
    simp only [form, Form.map, Form.layout]
    rw [List.isEmpty_map, trailing, Node.info, hbare, if_neg Bool.false_ne_true]
    simp [inside, form, trailing, Node.info, seq, deeper, Layout.text, Layout.newline, pad, child]
  | arrayExpression elements =>
    have hbare : (elements.isEmpty && info.trailing.isEmpty) = false := Eq.mp (Bool.not_eq_true' _) hspreads
    refine ⟨_, _, [], .inr ⟨rfl, rfl⟩, ?_⟩
    simp only [form, Form.map, Form.layout, Child.lines]
    rw [List.isEmpty_map, List.isEmpty_map, trailing, Node.info, hbare, if_neg Bool.false_ne_true]
    simp [inside, form, trailing, Node.info, seq, deeper, Layout.text, Layout.newline, pad]
  | objectExpression properties =>
    have hbare : (properties.isEmpty && info.trailing.isEmpty) = false := Eq.mp (Bool.not_eq_true' _) hspreads
    refine ⟨_, _, [], .inl ⟨rfl, rfl⟩, ?_⟩
    simp only [form, Form.map, Form.layout, Child.lines]
    rw [List.isEmpty_map, List.isEmpty_map, trailing, Node.info, hbare, if_neg Bool.false_ne_true]
    simp [inside, form, trailing, Node.info, seq, deeper, Layout.text, Layout.newline, pad]
  | _ => cases hspreads

theorem ruled_inside (hunit : isIndent unit) (h : root.Shaped) (hworded : root.Worded) (hn : n ∈ root.preorder)
    (semicolons : Bool) (depth : Nat) : Ruled unit (n.inside semicolons depth) := by
  have hpart (m : Node) (hmixed : n.form.isMixed = false) (hm : m ∈ n.form.written) :
      Bounded unit (m.printed semicolons).whole ∧ Child.Unbroken m.comments :=
    ⟨bounded_part unit h hworded hn hmixed hm semicolons, (h.unbroken (mem_preorder_trans hn
      (mem_preorder_of_mem_children (Form.mem_children_of_mem_written hm)))).1⟩
  have htrailing (depth : Nat) := Child.ruled_commentLines hunit (h.unbroken hn).2.1 depth
  obtain ⟨info, form⟩ := n
  cases form with
  | blockStatement body | classBody body =>
    exact (ruled_members hunit h hworded hn rfl semicolons (depth + 1)).append ((htrailing (depth + 1)).append .nil)
  | switchStatement discriminant cases =>
    exact (ruled_caseLines hunit h hworded hn rfl (fun m hm => hm) semicolons depth).append
      ((htrailing (depth + 1)).append .nil)
  | arrayExpression elements =>
    refine .append (Child.ruled_seq fun l hl => ?_) ((htrailing (depth + 1)).append .nil)
    obtain ⟨slot, hslot, rfl⟩ := List.mem_map.1 hl
    obtain ⟨element, helement, rfl⟩ := List.mem_map.1 hslot
    refine Child.ruled_element hunit (fun part hmem => ?_) _
    obtain ⟨m, rfl, rfl⟩ := Option.mem_map.1 hmem
    exact hpart m rfl (List.mem_filterMap.2 ⟨some m, helement, rfl⟩)
  | objectExpression properties =>
    refine .append (Child.ruled_seq fun l hl => ?_) ((htrailing (depth + 1)).append .nil)
    obtain ⟨part, hmem, rfl⟩ := List.mem_map.1 hl
    obtain ⟨m, hm, rfl⟩ := List.mem_map.1 hmem
    exact Child.ruled_member hunit (hpart m rfl hm) _
  | _ => exact .nil

/-- The pieces of the node stand in those of the tree, indented by so many levels, with others above and below. -/
def StandsAt (root : Node) (semicolons : Bool) (n : Node) (depth : Nat) (above below : List Piece) : Prop :=
  root.pieces semicolons = above ++ ((n.printed semicolons).whole depth ++ below)

/-- Inside the brackets of the node, wherever it stands, the text has one newline behind the opening one and one before
the closing one. -/
def TightInside (root : Node) (options : Options) (text : List Char) (n : Node) : Prop :=
  (∃ depth above below, root.StandsAt options.semicolons n depth above below) ∧
  ∀ depth above below, root.StandsAt options.semicolons n depth above below →
    ∃ head opening closing, Piece.AreBrackets opening closing ∧
      (n.printed options.semicolons).whole depth = head ++ (Piece.text opening :: Piece.newline ::
        (n.inside options.semicolons depth ++ [Piece.indent depth, Piece.text closing])) ∧
      Piece.TightBelow options.indent (root.pieces options.semicolons) (above ++ (head ++ [Piece.text opening])) text ∧
      Piece.TightAbove options.indent (root.pieces options.semicolons)
        (Piece.indent depth :: Piece.text closing :: below) text

theorem isVisible_of_spreads (hspreads : n.spreads) :
    n.isVisible ∧ n.form.isFragment = false ∧ n.isFunctionExpression = false := by
  obtain ⟨info, form⟩ := n
  cases form with
  | blockStatement | classBody | switchStatement | arrayExpression | objectExpression => exact ⟨rfl, rfl, rfl⟩
  | _ => cases hspreads

theorem exists_standsAt_of_spreads (h : root.Shaped) (hn : n ∈ root.preorder) (hspreads : n.spreads)
    (semicolons : Bool) : ∃ depth above below, root.StandsAt semicolons n depth above below := by
  obtain ⟨hvisible, hfragment, hfunction⟩ := isVisible_of_spreads hspreads
  obtain ⟨depth, above, below, hpieces⟩ := h.exists_whole_infix hn hvisible hfragment hfunction semicolons
  exact ⟨depth, above, below, by rw [StandsAt, ← hpieces, List.append_assoc]⟩

theorem tightInside (h : root.Shaped) (hworded : root.Worded) (hn : n ∈ root.preorder) (hspreads : n.spreads)
    (options : Options) :
    TightInside root options (root.spacedText options) n := by
  refine ⟨exists_standsAt_of_spreads h hn hspreads options.semicolons, fun depth above below hpieces => ?_⟩
  obtain ⟨opening, closing, head, hbrackets, hwhole⟩ := exists_whole_of_spreads hspreads options.semicolons depth
  have hinside : root.pieces options.semicolons = (above ++ head) ++ Piece.text opening :: Piece.newline ::
      (n.inside options.semicolons depth ++ Piece.indent depth :: Piece.text closing :: below) := by
    rw [hpieces, hwhole]
    simp
  obtain ⟨hbelow, habove⟩ := Piece.tight_brackets options.indent_valid hbrackets
    (ruled_inside options.indent_valid h hworded hn options.semicolons depth) (above ++ head) below depth
  refine ⟨head, opening, closing, hbrackets, hwhole, ?_, ?_⟩
  · rw [spacedText, hinside, ← List.append_assoc]
    exact hbelow
  · rw [spacedText, hinside]
    exact habove

/-- Behind the label of the statement, wherever it stands, the text has one newline. -/
def TightLabel (root : Node) (options : Options) (text : List Char) (label statement : Node) : Prop :=
  (∃ depth above below, root.StandsAt options.semicolons statement depth above below) ∧
  ∀ depth above below, root.StandsAt options.semicolons statement depth above below →
    Piece.TightBelow options.indent (root.pieces options.semicolons)
      (above ++ ((label.printed options.semicolons).whole depth ++ [Piece.text ":"])) text

theorem tightLabel (h : root.Shaped) (hworded : root.Worded) (hn : n ∈ root.preorder) {label body : Node}
    (hform : n.form = .labeledStatement label body) (options : Options) :
    TightLabel root options (root.spacedText options) label n := by
  have hbody : Bounded options.indent (Child.statement options.semicolons (body.child options.semicolons)) :=
    Child.bounded_statement (bounded_part options.indent h hworded hn (by rw [hform]; rfl)
      (by rw [hform]; exact .tail _ (.head _)) options.semicolons)
  obtain ⟨info, form⟩ := n
  obtain rfl : form = .labeledStatement label body := hform
  obtain ⟨deep, before, after, hstands⟩ := h.exists_whole_infix hn rfl rfl rfl options.semicolons
  refine ⟨⟨deep, before, after, by rw [StandsAt, ← hstands, List.append_assoc]⟩, fun depth above below hpieces => ?_⟩
  have hwhole : ((mk info (.labeledStatement label body)).printed options.semicolons).whole depth =
      (label.printed options.semicolons).whole depth ++ [Piece.text ":"] ++ (List.replicate (0 + 1) Piece.newline ++
        Piece.indent depth :: Child.statement options.semicolons (body.child options.semicolons) depth) := by
    rw [printed_eq]
    simp [form, Form.map, Form.layout, seq, Layout.text, Layout.newline, pad, child]
  have hends :
      EndsInked options.indent (above ++ ((label.printed options.semicolons).whole depth ++ [Piece.text ":"])) :=
    (EndsInked.append ⟨':', rfl, by decide⟩ _).append above
  have hbegins : BeginsInked options.indent
      (Piece.indent depth :: (Child.statement options.semicolons (body.child options.semicolons) depth ++ below)) :=
    ((BeginsInked.of_leads (hbody.leads depth)).append below).indent options.indent_valid depth
  have hlabel : root.pieces options.semicolons = (above ++ ((label.printed options.semicolons).whole depth ++
      [Piece.text ":"])) ++ (List.replicate (0 + 1) Piece.newline ++ Piece.indent depth ::
        (Child.statement options.semicolons (body.child options.semicolons) depth ++ below)) := by
    rw [hpieces, hwhole]
    simp
  refine ⟨0, _, hlabel, ?_⟩
  rw [spacedText, hlabel]
  -- one newline is all that is written
  exact Piece.parted_one hends hbegins (Nat.min_eq_left (Piece.room_pos ..))

/-- What is written of a switch up to one of its cases. -/
def switchUpTo (semicolons : Bool) (discriminant : Node) (front : List Node) (case : Node) : Layout :=
  seq ["switch (", (discriminant.printed semicolons).whole, ") ", "\x7b", Layout.newline,
    seq ((front.map (child semicolons)).map Child.caseLines), commentLines case.comments, pad]

/-- What is written of a switch behind one of its cases. -/
def switchFrom (semicolons : Bool) (back : List Node) (trailing : List Comment) : Layout :=
  seq [seq ((back.map (child semicolons)).map Child.caseLines), deeper (commentLines trailing), pad, "\x7d"]

theorem whole_switchStatement {discriminant : Node} {front back : List Node}
    (hform : n.form = .switchStatement discriminant (front ++ m :: back)) (semicolons : Bool) (depth : Nat) :
    (n.printed semicolons).whole depth = switchUpTo semicolons discriminant front m depth ++
      ((m.printed semicolons).whole depth ++ switchFrom semicolons back n.trailing depth) := by
  obtain ⟨info, form⟩ := n
  obtain rfl : form = .switchStatement discriminant (front ++ m :: back) := hform
  have hbare : ((front ++ m :: back).isEmpty && info.trailing.isEmpty) = false := by cases front <;> rfl
  rw [printed_eq]
  simp only [form, Form.map, Form.layout]
  rw [List.isEmpty_map, trailing, Node.info, hbare, if_neg Bool.false_ne_true]
  simp [switchUpTo, switchFrom, Child.caseLines, seq, deeper, child]

/-- A case begins a line. -/
theorem exists_switchUpTo (hunit : isIndent unit) (h : root.Shaped) (hworded : root.Worded) (hn : n ∈ root.preorder)
    {discriminant : Node} {front back : List Node} (hform : n.form = .switchStatement discriminant (front ++ m :: back))
    (semicolons : Bool) (depth : Nat) :
    ∃ start, switchUpTo semicolons discriminant front m depth = start ++ [Piece.newline, Piece.indent depth] := by
  have hmem : m ∈ root.preorder := (exists_of_mem_cases h hn hform (by simp)).1
  -- the lines before the case end in a newline
  have hfront : Ruled unit (Piece.newline ::
      (seq ((front.map (child semicolons)).map Child.caseLines) depth ++ commentLines m.comments depth)) :=
    .newline ((ruled_caseLines hunit h hworded hn hform (fun k hk => List.mem_append_left _ hk) _ depth).append
      (Child.ruled_commentLines hunit (h.unbroken hmem).1 depth))
  obtain ⟨start, hstart⟩ := hfront.exists_concat (List.cons_ne_nil _ _)
  refine ⟨seq ["switch (", (discriminant.printed semicolons).whole, ") ", "\x7b"] depth ++ start, ?_⟩
  have hlines : switchUpTo semicolons discriminant front m depth =
      seq ["switch (", (discriminant.printed semicolons).whole, ") ", "\x7b"] depth ++ ((Piece.newline ::
        (seq ((front.map (child semicolons)).map Child.caseLines) depth ++ commentLines m.comments depth)) ++
          [Piece.indent depth]) := by
    simp [switchUpTo, seq, Layout.newline, pad]
  rw [hlines, hstart]
  simp

/-- Behind the lines of a case stand lines and the closing bracket of the switch. -/
theorem exists_switchFrom (hunit : isIndent unit) (h : root.Shaped) (hworded : root.Worded) (hn : n ∈ root.preorder)
    {discriminant : Node} {front back : List Node} (hform : n.form = .switchStatement discriminant (front ++ m :: back))
    {ps : List Piece} (hps : Ruled unit ps) (semicolons : Bool) (depth : Nat) (below : List Piece) :
    ∃ count after, ps ++ (switchFrom semicolons back n.trailing depth ++ below) =
      List.replicate count Piece.newline ++ after ∧ BeginsInked unit after := by
  have hback : Ruled unit (seq ((back.map (child semicolons)).map Child.caseLines) depth ++
      commentLines n.trailing (depth + 1)) :=
    (ruled_caseLines hunit h hworded hn hform (fun k hk => by simp [hk]) _ depth).append
      (Child.ruled_commentLines hunit (h.unbroken hn).2.1 (depth + 1))
  have hclosing : BeginsInked unit (Piece.indent depth :: Piece.text "\x7d" :: below) :=
    Piece.AreBrackets.beginsInked hunit (.inl ⟨rfl, rfl⟩) below depth
  obtain ⟨count, after, heq, hafter⟩ := (hps.append hback).exists_begin hclosing
  refine ⟨count, after, ?_, hafter⟩
  rw [← heq]
  simp [switchFrom, seq, deeper, pad, Layout.text]

/-- Behind the label of the case, wherever its switch stands, the text has as many newlines as there is room for, and
one if the label is a line. -/
def SpacedCase (root : Node) (options : Options) (text : List Char) (n discriminant : Node) (front : List Node)
    (case : Node) (back : List Node) (test : Option Node) : Prop :=
  (∃ depth above below, root.StandsAt options.semicolons n depth above below) ∧
  ∀ depth above below, root.StandsAt options.semicolons n depth above below →
    let upTo := above ++ switchUpTo options.semicolons discriminant front case depth
    let label := caseLabel options.semicolons test depth
    root.StandsAt options.semicolons case depth upTo
      (switchFrom options.semicolons back n.trailing depth ++ below) ∧
    ∃ count after, root.pieces options.semicolons =
        (upTo ++ label) ++ (List.replicate (count + 1) Piece.newline ++ after) ∧
      Piece.Parted options.indent (min (count + 1) (Piece.room options.indent (upTo ++ label) after))
        (upTo ++ label) after text ∧
      (Piece.OnLine options.indent label → Piece.Parted options.indent 1 (upTo ++ label) after text)

theorem spacedCase (h : root.Shaped) (hworded : root.Worded) (hn : n ∈ root.preorder) {discriminant : Node}
    {front back : List Node} (hform : n.form = .switchStatement discriminant (front ++ m :: back)) {test : Option Node}
    {consequent : List Node} (hcase : m.form = .switchCase test consequent) (options : Options) :
    SpacedCase root options (root.spacedText options) n discriminant front m back test := by
  have hunit := options.indent_valid
  have hspreads : n.spreads := by
    rw [spreads, hform]
    cases front <;> rfl
  refine ⟨exists_standsAt_of_spreads h hn hspreads options.semicolons, fun depth above below hpieces => ?_⟩
  intro upTo label
  have hstands : root.StandsAt options.semicolons m depth upTo
      (switchFrom options.semicolons back n.trailing depth ++ below) := by
    rw [StandsAt, hpieces, whole_switchStatement hform]
    simp [upTo]
  have hmem : m ∈ root.preorder := (exists_of_mem_cases h hn hform (by simp)).1
  obtain ⟨count, after, hafter, hbegins⟩ := exists_switchFrom hunit h hworded hn hform
    (ruled_members hunit h hworded hmem (congrArg Form.members? hcase) options.semicolons (depth + 1))
    options.semicolons depth below
  have hwhole : (m.printed options.semicolons).whole depth = label ++ Piece.newline ::
      Child.members options.semicolons none (consequent.map (child options.semicolons)) (depth + 1) := by
    obtain ⟨info, form⟩ := m
    obtain rfl : form = .switchCase test consequent := hcase
    rw [whole_switchCase]
    simp [label, seq, deeper, Layout.newline]
  have hlabel : root.pieces options.semicolons =
      (upTo ++ label) ++ (List.replicate (count + 1) Piece.newline ++ after) := by
    rw [hstands, hwhole, List.replicate_succ, List.cons_append, ← hafter]
    simp
  have hends : EndsInked options.indent (upTo ++ label) := (Child.endsInked_caseLabel _ depth).append _
  refine ⟨hstands, count, after, hlabel, ?_, fun hline => ?_⟩
  · rw [spacedText, hlabel]
    exact Piece.parted_normalizeLayout hends hbegins (Nat.add_pos_right count Nat.one_pos)
  · obtain ⟨start, hstart⟩ := exists_switchUpTo hunit h hworded hn hform options.semicolons depth
    have hroom := Piece.room_of_label hunit hline (Child.isLabel_caseLabel _ depth) (above ++ start) after depth
    have hplace : above ++ start ++ Piece.newline :: Piece.indent depth :: label = upTo ++ label := by
      simp only [upTo, hstart]
      simp
    rw [spacedText, hlabel]
    refine Piece.parted_one hends hbegins ?_
    rw [← hplace, hroom]
    omega

/-- Inside every block, class body, switch, array and object that is written on several lines the text has one
newline behind the opening bracket and one before the closing one, and it has one behind the label of a statement.
Behind the label of a case it has one if the label is a line; a label that is none has as many newlines behind it as the
end of its last line leaves room for. All this holds at every place where the pieces of the node stand. -/
theorem print_tight (h : root.Shaped) (hworded : root.Worded) (options : Options) :
    ∃ text, root.print options = .ok text ∧
      (∀ n ∈ root.preorder, n.spreads → TightInside root options text.toList n) ∧
      (∀ n ∈ root.preorder, ∀ label body, n.form = .labeledStatement label body →
        TightLabel root options text.toList label n) ∧
      ∀ n ∈ root.preorder, ∀ discriminant front case back,
        n.form = .switchStatement discriminant (front ++ case :: back) →
        ∃ test consequent, case.form = .switchCase test consequent ∧
          SpacedCase root options text.toList n discriminant front case back test := by
  refine ⟨_, h.printable.print_eq options, ?_⟩
  rw [String.toList_ofList]
  refine ⟨fun n hn hspreads => tightInside h hworded hn hspreads options,
    fun n hn label body hform => tightLabel h hworded hn hform options,
    fun n hn discriminant front case back hform => ?_⟩
  obtain ⟨-, test, consequent, hcase⟩ := exists_of_mem_cases h hn hform (m := case) (by simp)
  exact ⟨test, consequent, hcase, spacedCase h hworded hn hform hcase options⟩

/-- A switch with a function in a case that tests a template. -/
def templateSwitch : Node :=
  plain ⟨0, 0, 1⟩ (.switchStatement (plain ⟨0, 0, 1⟩ .thisExpression) [
    plain ⟨0, 0, 1⟩ (.switchCase (some (plain ⟨0, 0, 1⟩ (.templateLiteral ["x"] []))) [
      plain ⟨0, 0, 1⟩ (.functionDeclaration (plain ⟨0, 0, 1⟩ (.identifier "f")) []
        (plain ⟨0, 0, 1⟩ (.blockStatement [])) false false)])])

/-- A program of such a switch. -/
def templateCase : Node := plain ⟨0, 0, 1⟩ (.program [templateSwitch] "")

theorem shaped_templateCase : templateCase.Shaped where
  program := ⟨_, _, rfl⟩
  roles := by decide +kernel
  coherent := by decide +kernel
  lines := by decide +kernel

theorem print_templateCase : templateCase.print .standard =
    .ok "switch (this) \x7b\ncase \x60x\x60:\n\n\tfunction f() \x7b\x7d\n\x7d\n" := by
  decide +kernel

theorem print_tight_templateCase :
    TightInside templateCase .standard
      "switch (this) \x7b\ncase \x60x\x60:\n\n\tfunction f() \x7b\x7d\n\x7d\n".toList templateSwitch := by
  obtain ⟨text, htext, hinside, -⟩ := print_tight shaped_templateCase (by decide +kernel) .standard
  rw [print_templateCase] at htext
  cases htext
  exact hinside templateSwitch (by
    rw [preorder_eq]
    exact List.mem_cons_of_mem _ (List.mem_flatMap.2 ⟨templateSwitch, .head _, mem_preorder_self _⟩)) rfl

/-- The label of the case of such a switch. -/
def templateLabel : Layout := caseLabel true (some (plain ⟨0, 0, 1⟩ (.templateLiteral ["x"] [])))

/-- The line with the label of the case ends in a backtick and a colon, and a blank line stands below it. -/
theorem print_loose_templateCase : templateCase.Shaped ∧ templateCase.Worded ∧
    templateCase.print .standard =
      .ok "switch (this) \x7b\ncase \x60x\x60:\n\n\tfunction f() \x7b\x7d\n\x7d\n" ∧
    ∃ above below, templateCase.pieces true = above ++ templateLabel 0 ++ (List.replicate 2 Piece.newline ++ below) ∧
      Piece.Parted "\t" 2 (above ++ templateLabel 0) below
        "switch (this) \x7b\ncase \x60x\x60:\n\n\tfunction f() \x7b\x7d\n\x7d\n".toList := by
  have hpieces : templateCase.pieces true = (templateCase.pieces true).take 7 ++ templateLabel 0 ++
      (List.replicate 2 Piece.newline ++ (templateCase.pieces true).drop 14) := by decide +kernel
  refine ⟨shaped_templateCase, by decide +kernel, print_templateCase, _, _, hpieces, ?_⟩
  have hroom : min 2 (Piece.room "\t" ((templateCase.pieces true).take 7 ++ templateLabel 0)
      ((templateCase.pieces true).drop 14)) = 2 := by decide +kernel
  have hends : EndsInked "\t" ((templateCase.pieces true).take 7 ++ templateLabel 0) :=
    ⟨':', by decide +kernel, by decide⟩
  have hbegins : BeginsInked "\t" ((templateCase.pieces true).drop 14) := ⟨'\t', by decide +kernel, by decide⟩
  have hparted := Piece.parted_normalizeLayout hends hbegins Nat.two_pos
  have hprint := shaped_templateCase.printable.print_eq .standard
  rw [print_templateCase] at hprint
  rw [hroom, ← hpieces] at hparted
  rw [Except.ok.inj hprint, String.toList_ofList]
  exact hparted

end Node

end ScriptTidy
