/-
How texts begin and end. Whatever stands in a list or after a keyword begins with a character that does not
close anything and ends with one that does not open anything, if its names, numbers and operators do. So the
lines that no blank line may follow, and those that none may precede, are lines of brackets and labels only.

A name is what a script has in its place, which for the two names around the point of new.target may be a comment
too; the first of them tells how the text begins, and the second one how it ends.
-/
import ScriptTidy.Proofs.Layout.Leading
import ScriptTidy.Proofs.Layout.Occurrence

namespace ScriptTidy

open Layout Piece

namespace Spacing

/-- A line may begin with the character behind its indent and is not taken for the end of something. -/
def leads (c : Char) : Bool := c != '\n' && !isSpace c && c != '}' && c != ']'

/-- A line may end with the character and is not taken for the beginning of something. -/
def trails (c : Char) : Bool := c != '\n' && c != '{' && c != '[' && c != ':'

/-- A text that begins and ends like a word. -/
def isWord (s : String) : Bool := s.toList.head?.any leads && s.toList.getLast?.any trails

end Spacing

open Spacing

/-! ## Words -/

namespace Form

variable {α : Type}

/-- The node is no name but one that is a word, and no case. -/
def isWhole : Form α → Bool
  | .identifier name => isWord name
  | .switchCase .. => false
  | _ => true

/-- The names, numbers and operators of the node are words, and cases stand in switches only. -/
def isWorded : Form Node → Bool
  | .metaProperty head target =>
    (match head.form with
      | .identifier name => name.toList.head?.any leads
      | _ => false) &&
    (match target.form with
      | .identifier name => name.toList.getLast?.any trails
      | _ => false)
  | .switchStatement discriminant _ => discriminant.form.isWhole
  | .literal (.string _) _ => true
  | .literal _ raw => isWord raw
  | .unaryExpression operator argument => operator.toList.head?.any leads && argument.form.isWhole
  | .updateExpression operator argument _ => isWord operator && argument.form.isWhole
  | .variableDeclaration kind declarations => kind.toList.head?.any leads && declarations.all (·.form.isWhole)
  | .sequenceExpression expressions => !expressions.isEmpty && expressions.all (·.form.isWhole)
  | form => form.children.all (·.form.isWhole)

end Form

namespace Node

/-- Every node of the tree has words for its names, numbers and operators. -/
def Worded (root : Node) : Prop := ∀ n ∈ root.preorder, n.form.isWorded

instance (root : Node) : Decidable root.Worded := inferInstanceAs (Decidable (∀ n ∈ root.preorder, n.form.isWorded))

theorem Worded.of_mem {root n : Node} (h : root.Worded) (hn : n ∈ root.preorder) : n.Worded :=
  fun _ hm => h _ (mem_preorder_trans hn hm)

end Node

/-! ## Layouts -/

namespace Layout

variable {unit : String} {l m : Layout} {ls : List Layout}

/-- At every depth the text of the layout begins with a character that closes nothing. -/
def Leads (unit : String) (l : Layout) : Prop := ∀ depth, (written unit (l depth)).head?.any leads

/-- At every depth the text of the layout ends with a character that opens nothing. -/
def Trails (unit : String) (l : Layout) : Prop := ∀ depth, (written unit (l depth)).getLast?.any trails

/-- At every depth the layout is empty, or its text ends with a character that opens nothing. -/
def Fades (unit : String) (l : Layout) : Prop := ∀ depth, (written unit (l depth)).getLast?.all trails

/-- The text of the layout begins and ends like a word. -/
structure Bounded (unit : String) (l : Layout) : Prop where
  leads : Leads unit l
  trails : Trails unit l

theorem Leads.text {s : String} (h : s.toList.head?.any Spacing.leads) : Leads unit (text s) := by
  intro depth
  rwa [written_text]

theorem Leads.seq (h : Leads unit l) : Leads unit (seq (l :: ls)) := by
  intro depth
  obtain ⟨c, hc, hleads⟩ := (Option.any_eq_true _ _).1 (h depth)
  rw [written_seq, List.flatMap_cons, List.head?_append, hc]
  exact hleads

/-- The layout begins with a part that may be missing. -/
theorem Leads.onlyIf {b : Bool} (hl : b = true → Leads unit l) (hls : Leads unit (Layout.seq ls)) :
    Leads unit (Layout.seq (onlyIf b l :: ls)) := by
  cases b with
  | true => exact (hl rfl).seq
  | false => exact hls

theorem Trails.text {s : String} (h : s.toList.getLast?.any Spacing.trails) : Trails unit (text s) := by
  intro depth
  rwa [written_text]

theorem Trails.fades (h : Trails unit l) : Fades unit l := by
  intro depth
  obtain ⟨c, hc, htrails⟩ := (Option.any_eq_true _ _).1 (h depth)
  rw [hc]
  exact htrails

theorem Trails.deeper (h : Trails unit l) : Trails unit (deeper l) := fun depth => h (depth + 1)

theorem written_seq_of_getLast? (hlast : ls.getLast? = some l) (depth : Nat) :
    written unit (seq ls depth) = written unit (seq ls.dropLast depth) ++ written unit (l depth) := by
  obtain ⟨front, rfl⟩ := List.getLast?_eq_some_iff.1 hlast
  rw [List.dropLast_concat, written_seq, written_seq, List.flatMap_append, List.flatMap_singleton]

/-- The layout ends with its last part. -/
theorem Trails.last (hlast : ls.getLast? = some l) (h : Trails unit l) : Trails unit (seq ls) := by
  intro depth
  obtain ⟨c, hc, htrails⟩ := (Option.any_eq_true _ _).1 (h depth)
  rw [written_seq_of_getLast? hlast, List.getLast?_append, hc]
  exact htrails

/-- The layout ends with its last part, or without it with the one before. -/
theorem Trails.beforeLast (hlast : ls.getLast? = some l) (hl : Fades unit l)
    (h : Trails unit (Layout.seq ls.dropLast)) : Trails unit (Layout.seq ls) := by
  intro depth
  have hfades := hl depth
  rw [written_seq_of_getLast? hlast, List.getLast?_append]
  cases hend : (written unit (l depth)).getLast? with
  | none => exact h depth
  | some c =>
    rw [hend] at hfades
    exact hfades

theorem Fades.nothing : Fades unit nothing := fun _ => rfl

theorem Fades.onlyIf (b : Bool) (h : Fades unit l) : Fades unit (onlyIf b l) := by
  cases b with
  | true => exact h
  | false => exact .nothing

theorem Bounded.text {s : String} (h : isWord s) : Bounded unit (text s) :=
  ⟨.text (Bool.and_eq_true_iff.1 h).1, .text (Bool.and_eq_true_iff.1 h).2⟩

theorem Leads.commas {first : Layout} (h : Leads unit first) : Leads unit (commas (first :: ls)) := by
  cases ls with
  | nil => exact h
  | cons second rest => exact h.seq

theorem Trails.commas : ∀ {ls : List Layout}, ls ≠ [] → (∀ l ∈ ls, Trails unit l) → Trails unit (commas ls)
  | [only], _, h => h only (List.mem_singleton_self _)
  | _ :: second :: rest, _, h =>
    .last rfl (commas (List.cons_ne_nil second rest) fun l hl => h l (List.mem_cons_of_mem _ hl))

end Layout

/-! ## Parts -/

namespace Child

variable {unit : String} {semicolons : Bool} {child : Child} {children : List Child}

theorem fades_after (keyword : String) {slot : Option Child} (h : ∀ part ∈ slot, Trails unit part.2.whole) :
    Fades unit (after keyword slot) := by
  cases slot with
  | none => exact .nothing
  | some part => exact (Trails.last rfl (h part rfl)).fades

theorem bounded_list (hne : children ≠ []) (h : ∀ part ∈ children, Bounded unit part.2.whole) :
    Bounded unit (list children) := by
  obtain ⟨first, rest, rfl⟩ := List.exists_cons_of_ne_nil hne
  refine ⟨.commas (h first List.mem_cons_self).leads, .commas (List.cons_ne_nil _ _) fun l hl => ?_⟩
  obtain ⟨part, hpart, rfl⟩ := List.mem_map.1 hl
  exact (h part hpart).trails

theorem fades_list (h : ∀ part ∈ children, Bounded unit part.2.whole) : Fades unit (list children) := by
  cases children with
  | nil => exact .nothing
  | cons first rest => exact (bounded_list (List.cons_ne_nil _ _) h).trails.fades

theorem bounded_parenthesized (children : List Child) : Bounded unit (parenthesized children) :=
  ⟨.seq (.text rfl), .last rfl (.text rfl)⟩

theorem bounded_key (h : Bounded unit child.2.whole) (isComputed : Bool) : Bounded unit (child.key isComputed) := by
  cases isComputed with
  | true => exact ⟨.seq (.text rfl), .last rfl (.text rfl)⟩
  | false => exact h

theorem fades_terminator (n : Node) : Fades unit (n.terminator semicolons) := by
  unfold Node.terminator
  split
  · exact (Trails.text rfl).fades
  · exact .onlyIf _ (Trails.text rfl).fades

/-- A statement begins and ends as what it is printed as, but for its semicolon. -/
theorem bounded_statement (h : Bounded unit child.2.whole) : Bounded unit (statement semicolons child) :=
  ⟨h.leads.seq, .beforeLast rfl (fades_terminator _) (.last rfl h.trails)⟩

theorem bounded_braced (children : List Child) (trailing : List Comment) :
    Bounded unit (braced semicolons children trailing) := by
  unfold braced
  split
  · exact ⟨.text rfl, .text rfl⟩
  · exact ⟨.seq (.text rfl), .last rfl (.text rfl)⟩

theorem bounded_lines {opening closing : String} (hopening : opening.toList.head?.any leads)
    (hclosing : closing.toList.getLast?.any trails) (ls : List Layout) (trailing : List Comment) :
    Bounded unit (lines opening closing ls trailing) := by
  unfold lines
  split
  · exact ⟨.seq (.text hopening), .last rfl (.text hclosing)⟩
  · exact ⟨.seq (.text hopening), .last rfl (.text hclosing)⟩

theorem trails_body (h : Bounded unit child.2.whole) : Trails unit (body semicolons child) := by
  unfold body
  split
  · exact .last rfl h.trails
  · exact .last rfl (.deeper (.last rfl (bounded_statement h).trails))

theorem trails_elseBranch (h : Bounded unit child.2.whole) : Trails unit (elseBranch semicolons child) := by
  unfold elseBranch
  split
  · exact .last rfl h.trails
  · exact .last rfl (trails_body h)

theorem bounded_functionCore (params : List Child) (h : Bounded unit child.2.whole) :
    Bounded unit (functionCore params child) :=
  ⟨(bounded_parenthesized params).leads.seq, .last rfl h.trails⟩

theorem bounded_function (id : Option Child) {core : Layout} (h : Bounded unit core) (isAsync isGenerator : Bool) :
    Bounded unit (function id core isAsync isGenerator) := by
  refine ⟨.onlyIf (fun _ => .text rfl) (.seq ?_), .last rfl h.trails⟩
  split
  · exact .text rfl
  · exact .text rfl

theorem bounded_classLike (id superclass : Option Child) (h : Bounded unit child.2.whole) :
    Bounded unit (classLike id superclass child) :=
  ⟨.seq (.text rfl), .last rfl h.trails⟩

theorem bounded_method (kind : String) {key : Layout} (hkey : Bounded unit key) (h : Bounded unit child.2.core) :
    Bounded unit (method kind key child) := by
  refine ⟨.onlyIf (fun hkind => ?_) (.onlyIf (fun _ => .text rfl) (.onlyIf (fun _ => .text rfl) hkey.leads.seq)),
    .last rfl h.trails⟩
  simp only [Bool.or_eq_true, beq_iff_eq] at hkind
  rcases hkind with rfl | rfl
  · exact .text (by decide)
  · exact .text (by decide)

theorem bounded_exportNamed {declaration source : Option Child} (specifiers : List Child)
    (hdeclaration : ∀ part ∈ declaration, Trails unit part.2.whole)
    (hsource : ∀ part ∈ source, Trails unit part.2.whole) :
    Bounded unit (exportNamed declaration specifiers source) := by
  cases declaration with
  | some declaration => exact ⟨.seq (.text rfl), .last rfl (hdeclaration declaration rfl)⟩
  | none => exact ⟨.seq (.text rfl), .beforeLast rfl (fades_after _ hsource) (.last rfl (.text rfl))⟩

theorem bounded_template (quasis : List String) (expressions : List Child) :
    Bounded unit (template quasis expressions) := by
  cases quasis with
  | nil => exact ⟨.text rfl, .text rfl⟩
  | cons quasi quasis => exact ⟨.seq (.text rfl), .last rfl (.text rfl)⟩

theorem bounded_literal {value : LiteralValue} {raw : String}
    (hworded : (Form.literal value raw : Form Node).isWorded) : Bounded unit (Child.literal value raw) := by
  cases value with
  | string value =>
    refine .text ?_
    rw [isWord, String.toList_ofList, Text.quoteString]
    rcases Text.quoteFor_eq value with h | h
    · rw [h, List.getLast?_append]
      rfl
    · rw [h, List.getLast?_append]
      rfl
  | _ => exact .text hworded

theorem leads_arrowParams (h : ∀ part ∈ children, Bounded unit part.2.whole) : Leads unit (arrowParams children) := by
  unfold arrowParams
  split
  case isTrue hsingle =>
    refine (bounded_list ?_ h).leads
    rintro rfl
    cases hsingle
  case isFalse => exact (bounded_parenthesized children).leads

theorem bounded_memberOf {object name : Child} (hobject : Bounded unit object.2.whole)
    (hname : Bounded unit name.2.whole) (isComputed isOptional : Bool) :
    Bounded unit (memberOf object name isComputed isOptional) := by
  refine ⟨hobject.leads.seq, .last rfl ?_⟩
  split
  · exact .last rfl (.text rfl)
  · exact .last rfl hname.trails

/-- A member of an object is its value, or its key and the value or function. -/
theorem bounded_property {key value : Child} {kind : String} {isMethod isShorthand : Bool}
    (hfits : value.1.form.fits (if Form.isMethodLike kind isMethod isShorthand then .method else .inner))
    (hkey : Bounded unit key.2.whole)
    (hvalue : Bounded unit (value.shown (if Form.isMethodLike kind isMethod isShorthand then .method else .inner)))
    (isComputed : Bool) : Bounded unit (Child.property key value kind isMethod isShorthand isComputed) := by
  unfold Child.property
  cases isShorthand with
  | true =>
    rw [if_pos rfl]
    split
    · exact hvalue
    · exact hkey
  | false =>
    have hlike : (isMethod || kind != "init") = Form.isMethodLike kind isMethod false := rfl
    rw [if_neg Bool.false_ne_true, hlike]
    cases hmethod : Form.isMethodLike kind isMethod false with
    | true =>
      rw [hmethod] at hfits hvalue
      have hfunction : value.1.isFunctionExpression = true := by
        obtain ⟨⟨info, form⟩, _⟩ := value
        cases form <;> first | rfl | cases hfits
      rw [hfunction]
      exact bounded_method kind (bounded_key hkey isComputed) hvalue
    | false =>
      rw [hmethod] at hvalue
      exact ⟨(bounded_key hkey isComputed).leads.seq, .last rfl hvalue.trails⟩

end Child

/-! ## Nodes -/

namespace Form

/-- The node may have parts that are neither words nor made of them. -/
def isMixed {α : Type} : Form α → Bool
  | .metaProperty .. | .switchStatement .. => true
  | _ => false

theorem isWhole_of_mem_written {form : Form Node} (h : form.isWorded) (hmixed : form.isMixed = false) {m : Node}
    (hm : m ∈ form.written) : m.form.isWhole := by
  have hchild := mem_children_of_mem_written hm
  cases form
  case metaProperty | switchStatement => cases hmixed
  case literal => cases hchild
  case unaryExpression operator argument | updateExpression operator argument isPrefix =>
    obtain rfl := List.mem_singleton.1 hchild
    exact (Bool.and_eq_true_iff.1 h).2
  case variableDeclaration kind declarations => exact List.all_eq_true.1 (Bool.and_eq_true_iff.1 h).2 m hchild
  case sequenceExpression expressions => exact List.all_eq_true.1 (Bool.and_eq_true_iff.1 h).2 m hchild
  all_goals exact List.all_eq_true.1 h m hchild

end Form

namespace Node

variable {unit : String} {semicolons : Bool}

/-- What is printed of the parts of the node begins and ends like a word. -/
structure HasBoundedParts (unit : String) (semicolons : Bool) (n : Node) : Prop where
  whole : ∀ m ∈ n.form.written, m.form.isWhole → Bounded unit (m.printed semicolons).whole
  core : ∀ m role, (m, role) ∈ n.form.markRoles.children → role = .handler ∨ role = .method →
    Bounded unit (m.printed semicolons).core

theorem bounded_core {n : Node} {role : Role} (hworded : n.form.isWorded) (h : HasBoundedParts unit semicolons n)
    (hfits : n.form.fits role) (hrole : role = .handler ∨ role = .method) :
    Bounded unit (n.printed semicolons).core := by
  have hpart (m : Node) (hm : m ∈ n.form.written) (hmixed : n.form.isMixed = false) :
      Bounded unit (m.printed semicolons).whole :=
    h.whole m hm (Form.isWhole_of_mem_written hworded hmixed hm)
  rw [printed_eq]
  obtain ⟨info, form⟩ := n
  rcases hrole with rfl | rfl
  · cases form with
    | catchClause param body =>
      have hbody := hpart body (List.mem_append_right _ (.head _)) rfl
      refine ⟨?_, .last rfl hbody.trails⟩
      cases param with
      | none => exact hbody.leads.seq
      | some param => exact (Leads.text rfl).seq.seq
    | _ => cases hfits
  · cases form with
    | functionExpression id params body isAsync isGenerator =>
      exact Child.bounded_functionCore _ (hpart body (List.mem_append_right _ (.head _)) rfl)
    | _ => cases hfits

theorem leads_identifier {n : Node} (h : (match n.form with
    | .identifier name => name.toList.head?.any leads
    | _ => false) = true) : Leads unit (n.printed semicolons).whole := by
  rw [printed_eq]
  obtain ⟨info, form⟩ := n
  cases form with
  | identifier name => exact .text h
  | _ => cases h

theorem trails_identifier {n : Node} (h : (match n.form with
    | .identifier name => name.toList.getLast?.any trails
    | _ => false) = true) : Trails unit (n.printed semicolons).whole := by
  rw [printed_eq]
  obtain ⟨info, form⟩ := n
  cases form with
  | identifier name => exact .text h
  | _ => cases h

/-- The two names around a point need not be words, and what stands in a switch does not matter. -/
theorem bounded_whole_of_isMixed {n : Node} (hmixed : n.form.isMixed) (hworded : n.form.isWorded) :
    Bounded unit (n.printed semicolons).whole := by
  rw [printed_eq]
  obtain ⟨info, form⟩ := n
  cases form with
  | metaProperty head target =>
    obtain ⟨hhead, htarget⟩ := Bool.and_eq_true_iff.1 hworded
    exact ⟨(leads_identifier hhead).seq, .last rfl (trails_identifier htarget)⟩
  | switchStatement discriminant cases =>
    refine ⟨.seq (.text rfl), .last rfl ?_⟩
    split
    · exact .text rfl
    · exact .last rfl (.text rfl)
  | _ => cases hmixed

/-- What a node is printed as begins and ends like a word, if its parts do. -/
theorem bounded_whole {n : Node} (hfragment : n.form.isFragment = false) (hwhole : n.form.isWhole)
    (hworded : n.form.isWorded) (hmixed : n.form.isMixed = false)
    (hfits : ∀ m role, (m, role) ∈ n.form.markRoles.children → m.form.fits role)
    (h : HasBoundedParts unit semicolons n) : Bounded unit (n.printed semicolons).whole := by
  have hpart (m : Node) (hm : m ∈ n.form.written) : Bounded unit (m.printed semicolons).whole :=
    h.whole m hm (Form.isWhole_of_mem_written hworded hmixed hm)
  have hparts {ms : List Node} (hms : ∀ m ∈ ms, m ∈ n.form.written) :
      ∀ part ∈ ms.map (child semicolons), Bounded unit part.2.whole := by
    intro part hpartmem
    obtain ⟨m, hm, rfl⟩ := List.mem_map.1 hpartmem
    exact hpart m (hms m hm)
  have hslot {slot : Option Node} (hslot : ∀ m ∈ slot, m ∈ n.form.written) :
      ∀ part ∈ slot.map (child semicolons), Trails unit part.2.whole := by
    intro part hpartmem
    obtain ⟨m, hm, rfl⟩ := Option.mem_map.1 hpartmem
    exact (hpart m (hslot m hm)).trails
  rw [printed_eq]
  obtain ⟨info, form⟩ := n
  simp only [Node.form] at hpart hparts hslot
  cases form with
  | program | catchClause => cases hfragment
  | switchCase => cases hwhole
  | metaProperty | switchStatement => cases hmixed
  | identifier name => exact .text hwhole
  | literal value raw => exact Child.bounded_literal hworded
  | emptyStatement | debuggerStatement | thisExpression | super => exact .text (by decide)
  | blockStatement body | classBody body => exact Child.bounded_braced _ _
  | templateLiteral quasis expressions => exact Child.bounded_template _ _
  | arrayExpression elements | objectExpression properties => exact Child.bounded_lines rfl rfl _ _
  | expressionStatement e | importDefaultSpecifier e => exact hpart e (.head _)
  | ifStatement test consequent alternate =>
    have hconsequent : Trails unit (Child.body semicolons (consequent.child semicolons)) :=
      Child.trails_body (hpart consequent (.tail _ (.head _)))
    refine ⟨.seq (.text rfl), ?_⟩
    cases alternate with
    | none => exact .beforeLast rfl .nothing (.last rfl hconsequent)
    | some alternate =>
      have halternate := hpart alternate (.tail _ (.tail _ (.head _)))
      exact .last rfl (.last rfl (Child.trails_elseBranch halternate))
  | whileStatement test body => exact ⟨.seq (.text rfl), .last rfl (Child.trails_body (hpart body (.tail _ (.head _))))⟩
  | doWhileStatement body test => exact ⟨.seq (.text rfl), .last rfl (.text rfl)⟩
  | forStatement init test update body =>
    exact ⟨.seq (.text rfl), .last rfl (Child.trails_body (hpart body (List.mem_append_right _ (.head _))))⟩
  | forInStatement left right body =>
    exact ⟨.seq (.text (by decide)), .last rfl (Child.trails_body (hpart body (.tail _ (.tail _ (.head _)))))⟩
  | forOfStatement left right body isAwait =>
    refine ⟨.seq ?_, .last rfl (Child.trails_body (hpart body (.tail _ (.tail _ (.head _)))))⟩
    cases isAwait with
    | true => exact .text rfl
    | false => exact .text rfl
  | tryStatement block handler finalizer =>
    have hblock := hpart block (.head _)
    refine ⟨.seq (.text rfl), .beforeLast rfl (Child.fades_after _ (hslot fun m hm => ?_)) ?_⟩
    · exact List.mem_cons_of_mem _ (Option.mem_toList.2 hm)
    · cases handler with
      | none => exact .beforeLast rfl .nothing (.last rfl hblock.trails)
      | some handler =>
        have hhandler := h.core handler .handler (by simp [Node.form, Form.markRoles, Form.children]) (.inl rfl)
        exact .last rfl (.last rfl hhandler.trails)
  | returnStatement argument | breakStatement label | continueStatement label =>
    exact ⟨.seq (.text rfl), .beforeLast rfl (Child.fades_after _ (hslot fun m hm => Option.mem_toList.2 hm))
      (.last rfl (.text rfl))⟩
  | yieldExpression argument isDelegate =>
    have hargument : Fades unit (Child.after " " (argument.map (child semicolons))) :=
      Child.fades_after _ (hslot fun m hm => Option.mem_toList.2 hm)
    cases isDelegate with
    | true => exact ⟨.seq (.text rfl), .beforeLast rfl hargument (.last rfl (.text rfl))⟩
    | false => exact ⟨.seq (.text rfl), .beforeLast rfl hargument (.last rfl (.text rfl))⟩
  | throwStatement e | importNamespaceSpecifier e | exportDefaultDeclaration e | spreadElement e | awaitExpression e
  | restElement e =>
    exact ⟨.seq (.text rfl), .last rfl (hpart e (.head _)).trails⟩
  | labeledStatement label body =>
    have hbody : Bounded unit (Child.statement semicolons (body.child semicolons)) :=
      Child.bounded_statement (hpart body (.tail _ (.head _)))
    exact ⟨(hpart label (.head _)).leads.seq, .last rfl hbody.trails⟩
  | variableDeclaration kind declarations =>
    -- without bindings the blank behind the keyword is the end
    refine ⟨.seq (.text ?_), .beforeLast rfl (Child.fades_list (hparts fun m hm => hm)) (.last rfl (.text ?_))⟩
    · rw [String.toList_append, List.head?_append]
      obtain ⟨c, hc, hleads⟩ := (Option.any_eq_true _ _).1 (Bool.and_eq_true_iff.1 hworded).1
      rw [hc]
      exact hleads
    · rw [String.toList_append, List.getLast?_append]
      rfl
  | variableDeclarator id init =>
    have hid := hpart id (.head _)
    exact ⟨hid.leads.seq, .beforeLast rfl
      (Child.fades_after _ (hslot fun m hm => List.mem_cons_of_mem _ (Option.mem_toList.2 hm))) (.last rfl hid.trails)⟩
  | importSpecifier name other | exportSpecifier name other =>
    have hname := hpart name (.head _)
    exact ⟨hname.leads.seq, .beforeLast rfl
      (Child.fades_after _ (hslot fun m hm => List.mem_cons_of_mem _ (Option.mem_toList.2 hm)))
      (.last rfl hname.trails)⟩
  | propertyDefinition key value isStatic isComputed =>
    have hkey : Bounded unit ((key.child semicolons).key isComputed) :=
      Child.bounded_key (hpart key (.head _)) isComputed
    exact ⟨.onlyIf (fun _ => .text rfl) hkey.leads.seq, .beforeLast rfl
      (Child.fades_after _ (hslot fun m hm => List.mem_cons_of_mem _ (Option.mem_toList.2 hm)))
      (.last rfl hkey.trails)⟩
  | functionDeclaration id params body isAsync isGenerator | functionExpression id params body isAsync isGenerator =>
    exact Child.bounded_function _ (Child.bounded_functionCore _ (hpart body (List.mem_append_right _ (.head _)))) _ _
  | classDeclaration id superclass body | classExpression id superclass body =>
    exact Child.bounded_classLike _ _ (hpart body (List.mem_append_right _ (.head _)))
  | methodDefinition key value kind isStatic isComputed =>
    have hvalue := h.core value .method (.tail _ (.head _)) (.inr rfl)
    have hkey : Bounded unit ((key.child semicolons).key isComputed) :=
      Child.bounded_key (hpart key (.head _)) isComputed
    have hmethod : Bounded unit (Child.method kind ((key.child semicolons).key isComputed) (value.child semicolons)) :=
      Child.bounded_method kind hkey hvalue
    exact ⟨.onlyIf (fun _ => .text rfl) hmethod.leads.seq, .last rfl hmethod.trails⟩
  | importDeclaration specifiers source =>
    exact ⟨.seq (.text rfl), .last rfl (hpart source (List.mem_append_right _ (.head _))).trails⟩
  | exportNamedDeclaration declaration specifiers source =>
    refine Child.bounded_exportNamed _ (hslot fun m hm => ?_) (hslot fun m hm => ?_)
    · exact List.mem_append_left _ (List.mem_append_left _ (Option.mem_toList.2 hm))
    · exact List.mem_append_right _ (Option.mem_toList.2 hm)
  | exportAllDeclaration exported source =>
    exact ⟨.seq (.text rfl), .last rfl (hpart source (List.mem_append_right _ (.head _))).trails⟩
  | taggedTemplateExpression tag quasi =>
    exact ⟨(hpart tag (.head _)).leads.seq, .last rfl (hpart quasi (.tail _ (.head _))).trails⟩
  | property key value kind isMethod isShorthand isComputed =>
    have hvalue :=
      h.core value (if Form.isMethodLike kind isMethod isShorthand then .method else .inner) (.tail _ (.head _))
    refine Child.bounded_property (hfits value _ (.tail _ (.head _))) (hpart key (.head _)) ?_ isComputed
    split
    case isTrue hmethod =>
      rw [if_pos hmethod] at hvalue
      exact hvalue (.inr rfl)
    case isFalse => exact hpart value (.tail _ (.head _))
  | arrowFunctionExpression params body isAsync =>
    have hparams : Leads unit (Child.arrowParams (params.map (child semicolons))) :=
      Child.leads_arrowParams (hparts fun m hm => List.mem_append_left _ hm)
    exact ⟨.onlyIf (fun _ => .text rfl) hparams.seq, .last rfl (hpart body (List.mem_append_right _ (.head _))).trails⟩
  | unaryExpression operator argument =>
    exact ⟨.seq (.text (Bool.and_eq_true_iff.1 hworded).1), .last rfl (hpart argument (.head _)).trails⟩
  | updateExpression operator argument isPrefix =>
    have hoperator : Bounded unit operator := .text (Bool.and_eq_true_iff.1 hworded).1
    have hargument := hpart argument (.head _)
    cases isPrefix with
    | true => exact ⟨hoperator.leads.seq, .last rfl hargument.trails⟩
    | false => exact ⟨hargument.leads.seq, .last rfl hoperator.trails⟩
  | binaryExpression operator left right | logicalExpression operator left right
  | assignmentExpression operator left right | assignmentPattern left right =>
    exact ⟨(hpart left (.head _)).leads.seq, .last rfl (hpart right (.tail _ (.head _))).trails⟩
  | conditionalExpression test consequent alternate =>
    exact ⟨(hpart test (.head _)).leads.seq, .last rfl (hpart alternate (.tail _ (.tail _ (.head _)))).trails⟩
  | sequenceExpression expressions =>
    refine Child.bounded_list ?_ (hparts fun m hm => hm)
    rw [Ne, List.map_eq_nil_iff]
    rintro rfl
    cases hworded
  | callExpression callee arguments isOptional =>
    exact ⟨(hpart callee (.head _)).leads.seq, .last rfl (Child.bounded_parenthesized _).trails⟩
  | newExpression callee arguments => exact ⟨.seq (.text rfl), .last rfl (Child.bounded_parenthesized _).trails⟩
  | memberExpression object name isComputed isOptional =>
    exact Child.bounded_memberOf (hpart object (.head _)) (hpart name (.tail _ (.head _))) isComputed isOptional
  | parenthesizedExpression e => exact ⟨.seq (.text rfl), .last rfl (.text rfl)⟩
  | arrayPattern elements | objectPattern properties => exact ⟨.seq (.text rfl), .last rfl (.text rfl)⟩

/-- What a node is printed as begins and ends like a word, and so does what follows the name of a function. -/
theorem bounded_child (semicolons : Bool) {n : Node} (hfitting : n.Fitting) (hworded : n.Worded) :
    (n.form.isFragment = false → n.form.isWhole → Bounded unit (n.printed semicolons).whole) ∧
      ∀ role, n.form.fits role → role = .handler ∨ role = .method → Bounded unit (n.printed semicolons).core := by
  induction n using byChildren with
  | node n ih =>
    have hself := mem_preorder_self n
    have hbelow (m : Node) (hm : m ∈ n.children) :=
      ih m hm (hfitting.child hm) (hworded.of_mem (mem_preorder_of_mem_children hm))
    have hparts : HasBoundedParts unit semicolons n := by
      refine ⟨fun m hm hwhole => ?_, fun m role hm hrole => ?_⟩
      · obtain ⟨role, hrole, hne⟩ := exists_role_of_mem_written hm
        exact (hbelow m (Form.mem_children_of_mem_written hm)).1
          (Form.isFragment_eq_false (hfitting.roles n hself _ hrole) hne) hwhole
      · exact (hbelow m (mem_children_of_mem_markRoles hm)).2 role (hfitting.roles n hself _ hm) hrole
    refine ⟨fun hfragment hwhole => ?_, fun role hfits hrole => bounded_core (hworded n hself) hparts hfits hrole⟩
    cases hmixed : n.form.isMixed with
    | true => exact bounded_whole_of_isMixed hmixed (hworded n hself)
    | false =>
      exact bounded_whole hfragment hwhole (hworded n hself) hmixed
        (fun m role hm => hfitting.roles n hself (m, role) hm) hparts

/-- In a tree of the shape that is read, what is written of a part of a node begins and ends like a word. -/
theorem bounded_part {root n m : Node} (unit : String) (h : root.Shaped) (hworded : root.Worded)
    (hn : n ∈ root.preorder) (hmixed : n.form.isMixed = false) (hm : m ∈ n.form.written) (semicolons : Bool) :
    Bounded unit (m.printed semicolons).whole := by
  obtain ⟨role, hrole, hne⟩ := exists_role_of_mem_written hm
  have hmem := mem_preorder_trans hn (mem_preorder_of_mem_children (Form.mem_children_of_mem_written hm))
  exact (bounded_child semicolons (h.fitting.of_mem hmem) (hworded.of_mem hmem)).1
    (Form.isFragment_eq_false (h.roles n hn _ hrole) hne) (Form.isWhole_of_mem_written (hworded n hn) hmixed hm)

end Node

end ScriptTidy
