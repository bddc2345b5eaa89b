/-
How texts begin. Of an expression that was read from a script the first character can be told before
it is printed, wherever it matters: the few characters that would continue a line without a
semicolon are the first character exactly where they are foretold. So a semicolon is written before
just those statements of a list that need it, and a sign is kept apart from the same sign.

What is foretold is the first character only. A line may also be continued because it ends in a word
that asks for more, as let does before a name; no semicolon is written for the sake of that.
-/
import ScriptTidy.Format
import ScriptTidy.Proofs.Layout.Lines
import ScriptTidy.Proofs.Text.Quoting

namespace ScriptTidy

open Layout Piece

/-! ## Trees that were read -/

namespace Form

variable {α : Type}

/-- An expression, or the pattern that an assignment has in place of one. -/
def isExpression : Form α → Bool
  | .identifier .. | .literal .. | .templateLiteral .. | .taggedTemplateExpression .. | .thisExpression | .super
  | .metaProperty .. | .arrayExpression .. | .objectExpression .. | .functionExpression .. | .arrowFunctionExpression ..
  | .classExpression .. | .unaryExpression .. | .updateExpression .. | .binaryExpression .. | .logicalExpression ..
  | .assignmentExpression .. | .conditionalExpression .. | .sequenceExpression .. | .callExpression ..
  | .newExpression .. | .memberExpression .. | .parenthesizedExpression .. | .awaitExpression .. | .yieldExpression ..
  | .arrayPattern .. | .objectPattern .. => true
  | _ => false

/-- What can stand in a list of statements. -/
def isListed : Form α → Bool
  | .emptyStatement | .debuggerStatement | .expressionStatement .. | .ifStatement .. | .whileStatement ..
  | .doWhileStatement .. | .forStatement .. | .forInStatement .. | .forOfStatement .. | .switchStatement ..
  | .tryStatement .. | .returnStatement .. | .throwStatement .. | .breakStatement .. | .continueStatement ..
  | .labeledStatement .. | .blockStatement .. | .variableDeclaration .. | .functionDeclaration ..
  | .classDeclaration .. | .importDeclaration .. | .exportNamedDeclaration .. | .exportDefaultDeclaration ..
  | .exportAllDeclaration .. => true
  | _ => false

/-- The list of statements that a node has. -/
def statements? : Form α → Option (List α)
  | .program body _ | .blockStatement body | .switchCase _ body => some body
  | _ => none

/-- The names, literals and operators of a node are spelled as in a script, and what its text begins with is an
expression if it can be one; its statements are statements. -/
def isSpelled : Form Node → Bool
  | .identifier name => name.toList.head?.any fun c => Grammar.startsName c || c == '#'
  | .literal (.string _) raw => raw.toList.head?.any fun c => c == '\'' || c == '"'
  | .literal _ raw => !raw.toList.isEmpty
  | .unaryExpression operator argument => !operator.toList.isEmpty && argument.form.isExpression
  | .updateExpression operator argument _ => !operator.toList.isEmpty && argument.form.isExpression
  | .binaryExpression _ left _ => left.form.isExpression
  | .logicalExpression _ left _ => left.form.isExpression
  | .assignmentExpression _ left _ => left.form.isExpression
  | .conditionalExpression test _ _ => test.form.isExpression
  | .sequenceExpression expressions => expressions.head?.any (·.form.isExpression)
  | .callExpression callee _ _ => callee.form.isExpression
  | .taggedTemplateExpression tag _ => tag.form.isExpression
  | .memberExpression object _ _ _ => object.form.isExpression
  | .metaProperty head _ => head.isIdentifier
  | .labeledStatement label _ => label.isIdentifier
  | .variableDeclaration kind _ => kind == "var" || kind == "let" || kind == "const"
  | .expressionStatement expression => expression.form.isExpression
  | .program body _ => body.all (·.form.isListed)
  | .blockStatement body => body.all (·.form.isListed)
  | .switchCase _ consequent => consequent.all (·.form.isListed)
  | _ => true

end Form

namespace Node

/-- Every node of the tree is spelled as in a script. -/
def Spelled (root : Node) : Prop := ∀ n ∈ root.preorder, n.form.isSpelled

instance (root : Node) : Decidable root.Spelled := inferInstanceAs (Decidable (∀ n ∈ root.preorder, n.form.isSpelled))

theorem Spelled.of_mem {root n : Node} (h : root.Spelled) (hn : n ∈ root.preorder) : n.Spelled :=
  fun _ hm => h _ (mem_preorder_trans hn hm)

theorem Spelled.child {n m : Node} (h : n.Spelled) (hm : m ∈ n.children) : m.Spelled :=
  h.of_mem (mem_preorder_of_mem_children hm)

end Node

theorem continuesLine_iff {c : Char} : Node.continuesLine c ↔ c ∈ ['(', '[', '\x60', '+', '-', '/'] := by
  simp [Node.continuesLine, or_assoc]

/-- Names do not continue a line. -/
theorem not_continuesLine_of_startsName {c : Char} (h : (Grammar.startsName c || c == '#') = true) :
    Node.continuesLine c = false := by
  rw [← Bool.not_eq_true, continuesLine_iff]
  intro hc
  have hmarks : ['(', '[', '\x60', '+', '-', '/'].all (fun c => !(Grammar.startsName c || c == '#')) = true := by
    decide +kernel
  have hmark := List.all_eq_true.1 hmarks c hc
  rw [h] at hmark
  cases hmark

/-! ## How layouts begin -/

namespace Layout

variable {unit : String} {c : Char} {told : Option Char} {l : Layout} {ls : List Layout}

theorem written_seq (ls : List Layout) (depth : Nat) :
    written unit (seq ls depth) = ls.flatMap fun l => written unit (l depth) := by
  induction ls with
  | nil => rfl
  | cons l ls ih => rw [List.flatMap_cons, ← ih, ← written_append]; rfl

theorem written_text (s : String) (depth : Nat) : written unit (text s depth) = s.toList := List.append_nil _

theorem written_newline (depth : Nat) : written unit (Layout.newline depth) = ['\n'] := rfl

theorem written_pad (depth : Nat) : written unit (pad depth) = indentText unit depth := List.append_nil _

/-- At every depth the text of the layout begins with the character. -/
def Begins (unit : String) (c : Char) (l : Layout) : Prop := ∀ depth, (written unit (l depth)).head? = some c

theorem Begins.text {s : String} (h : s.toList.head? = some c) : Begins unit c (text s) := by
  intro depth
  rw [written_text, h]

theorem Begins.seq (h : Begins unit c l) : Begins unit c (seq (l :: ls)) := by
  intro depth
  rw [written_seq, List.flatMap_cons, List.head?_append, h depth]
  rfl

/-- The text of the layout begins with a character that does not continue a line. -/
def Safe (unit : String) (l : Layout) : Prop := ∃ c, Begins unit c l ∧ Node.continuesLine c = false

theorem Safe.text {s : String} (h : s.toList.head?.any fun c => !Node.continuesLine c) : Safe unit (text s) := by
  obtain ⟨c, hc, hsafe⟩ := (Option.any_eq_true _ _).1 h
  exact ⟨c, .text hc, by simpa using hsafe⟩

theorem Safe.seq (h : Safe unit l) : Safe unit (seq (l :: ls)) := h.imp fun _ hc => ⟨hc.1.seq, hc.2⟩

theorem Safe.skip (h : Safe unit (Layout.seq ls)) : Safe unit (Layout.seq (nothing :: ls)) := h

/-- The text begins with the character that was told, if not with one that does not matter. -/
def Foretold (unit : String) (told : Option Char) (l : Layout) : Prop :=
  ∃ c, Begins unit c l ∧ (told = some c ∨ Node.continuesLine c = false ∧ told.all fun d => !Node.continuesLine d)

theorem Begins.foretold (h : Begins unit c l) : Foretold unit (some c) l := ⟨c, h, .inl rfl⟩

theorem Safe.foretold (h : Safe unit l) : Foretold unit none l := h.imp fun _ hc => ⟨hc.1, .inr ⟨hc.2, rfl⟩⟩

theorem foretold_text {s : String} (h : (!s.toList.isEmpty) = true) : Foretold unit s.toList.head? (text s) := by
  cases hs : s.toList with
  | nil =>
    rw [hs] at h
    cases h
  | cons c cs => exact Begins.foretold (.text (by rw [hs]; rfl))

theorem Foretold.seq (h : Foretold unit told l) : Foretold unit told (seq (l :: ls)) :=
  h.imp fun _ hc => ⟨hc.1.seq, hc.2⟩

/-- Of the characters that matter, the first one is told. -/
theorem Foretold.head?_iff (h : Foretold unit told l) (depth : Nat) {d : Char} (hd : Node.continuesLine d) :
    (written unit (l depth)).head? = some d ↔ told = some d := by
  obtain ⟨c, hc, htold⟩ := h
  rw [hc depth]
  rcases htold with rfl | ⟨hsafe, htold⟩
  · rfl
  · refine iff_of_false ?_ ?_
    · rintro ⟨⟩
      rw [hd] at hsafe
      cases hsafe
    · rintro rfl
      rw [Option.all_some, hd] at htold
      cases htold

end Layout

/-! ## How nodes begin -/

namespace Node

variable {unit : String} {semicolons : Bool}

theorem safe_identifier {n : Node} (hname : n.isIdentifier) (h : n.Spelled) :
    Safe unit (n.printed semicolons).whole := by
  have hspelled := h n (mem_preorder_self n)
  obtain ⟨info, form⟩ := n
  cases form with
  | identifier name =>
    obtain ⟨c, hc, hstarts⟩ := (Option.any_eq_true _ _).1 hspelled
    rw [printed_eq]
    exact ⟨c, .text hc, not_continuesLine_of_startsName hstarts⟩
  | _ => cases hname

theorem begins_lines {c : Char} (opening closing : String) {ls : List Layout} {trailing : List Comment}
    (h : opening.toList.head? = some c) : Begins unit c (Child.lines opening closing ls trailing) := by
  unfold Child.lines
  split
  · exact .seq (.text h)
  · exact .seq (.text h)

theorem foretold_literal {value : LiteralValue} {raw : String}
    (hspelled : (Form.literal value raw : Form Node).isSpelled) :
    Foretold unit raw.toList.head? (Child.literal value raw) := by
  cases value with
  | string value =>
    -- the quote that is written may be another one than that in the script
    have hquote : Safe unit (String.ofList (Text.quoteString value)) := by
      refine .text ?_
      rw [String.toList_ofList, Text.quoteString]
      rcases Text.quoteFor_eq value with h | h <;> rw [h] <;> rfl
    obtain ⟨c, hc, hquotes⟩ := (Option.any_eq_true _ _).1 hspelled
    obtain ⟨d, hbegins, hsafe⟩ := hquote
    refine ⟨d, hbegins, .inr ⟨hsafe, ?_⟩⟩
    rw [hc, Option.all_some]
    simp only [Bool.or_eq_true, beq_iff_eq] at hquotes
    rcases hquotes with rfl | rfl <;> decide
  | _ => exact foretold_text hspelled

theorem safe_function (id : Option Child) (core : Layout) (isAsync isGenerator : Bool) :
    Safe unit (Child.function id core isAsync isGenerator) := by
  cases isAsync with
  | true => exact .seq (.text (by decide))
  | false =>
    refine .skip (.seq ?_)
    cases isGenerator with
    | true => exact .text (by decide)
    | false => exact .text (by decide)

theorem foretold_arrowParams {params : List Node} {ls : List Layout} (h : ∀ param ∈ params, param.Spelled) :
    Foretold unit (if isSingleName params then none else some '(')
      (seq (Child.arrowParams (params.map (child semicolons)) :: ls)) := by
  have hnodes : (params.map (child semicolons)).map (·.1) = params := by
    rw [List.map_map]
    exact List.map_id _
  refine .seq ?_
  unfold Child.arrowParams
  rw [hnodes]
  split
  case isTrue hsingle =>
    match params, hsingle, h with
    | [param], hname, h => exact (safe_identifier hname (h param (List.mem_singleton_self _))).foretold
  case isFalse => exact (Begins.text rfl).seq.foretold

/-- What an expression that was read begins with is foretold. -/
theorem foretold_leadingChar (semicolons : Bool) (n : Node) (h : n.Spelled) (hexpression : n.form.isExpression) :
    Foretold unit n.leadingChar (n.printed semicolons).whole := by
  induction n using byChildren with
  | node n ih =>
    have hspelled := h n (mem_preorder_self n)
    -- the leading part of an expression, where it has one, is an expression that was read
    have hpart (m : Node) (hm : m ∈ n.children) (hpart : m.form.isExpression) :
        Foretold unit m.leadingChar (m.printed semicolons).whole :=
      ih m hm (h.child hm) hpart
    rw [printed_eq]
    obtain ⟨info, form⟩ := n
    cases form with
    | identifier name =>
      obtain ⟨c, hc, hstarts⟩ := (Option.any_eq_true _ _).1 hspelled
      exact Safe.foretold ⟨c, .text hc, not_continuesLine_of_startsName hstarts⟩
    | literal value raw => exact foretold_literal hspelled
    | templateLiteral quasis expressions =>
      refine Begins.foretold ?_
      cases quasis with
      | nil => exact .text rfl
      | cons quasi quasis => exact .seq (.text rfl)
    | taggedTemplateExpression tag quasi => exact .seq (hpart tag (.head _) hspelled)
    | thisExpression => exact Safe.foretold (.text (by decide))
    | super => exact Safe.foretold (.text (by decide))
    | metaProperty head target => exact (safe_identifier hspelled (h.child (.head _))).seq.foretold
    | arrayExpression elements => exact (begins_lines "[" "]" rfl).foretold
    | objectExpression properties => exact (begins_lines "\x7b" "\x7d" rfl).foretold
    | functionExpression id params body isAsync isGenerator => exact (safe_function ..).foretold
    | arrowFunctionExpression params body isAsync =>
      cases isAsync with
      | true => exact (Safe.text (by decide)).seq.foretold
      | false =>
        exact foretold_arrowParams fun param hparam => h.child (List.mem_append_left _ hparam)
    | classExpression id superclass body => exact (Safe.text (by decide)).seq.foretold
    | unaryExpression operator argument => exact .seq (foretold_text (Bool.and_eq_true_iff.1 hspelled).1)
    | updateExpression operator argument isPrefix =>
      obtain ⟨hoperator, hargument⟩ := Bool.and_eq_true_iff.1 hspelled
      cases isPrefix with
      | true => exact .seq (foretold_text hoperator)
      | false => exact .seq (hpart argument (.head _) hargument)
    | binaryExpression operator left right | logicalExpression operator left right
    | assignmentExpression operator left right =>
      exact .seq (hpart left (.head _) hspelled)
    | conditionalExpression test consequent alternate =>
      exact .seq (hpart test (.head _) hspelled)
    | sequenceExpression expressions =>
      cases expressions with
      | nil => cases hspelled
      | cons first rest =>
        have hfirst := hpart first (.head _) hspelled
        cases rest with
        | nil => exact hfirst
        | cons second rest => exact .seq hfirst
    | callExpression callee arguments isOptional =>
      exact .seq (hpart callee (.head _) hspelled)
    | newExpression callee arguments => exact (Safe.text (by decide)).seq.foretold
    | memberExpression object member isComputed isOptional =>
      exact .seq (hpart object (.head _) hspelled)
    | parenthesizedExpression expression => exact (Begins.text rfl).seq.foretold
    | awaitExpression argument => exact (Safe.text (by decide)).seq.foretold
    | yieldExpression argument isDelegate =>
      cases isDelegate with
      | true => exact (Safe.text (by decide)).seq.foretold
      | false => exact (Safe.text (by decide)).seq.foretold
    | arrayPattern elements => exact (Begins.text rfl).seq.foretold
    | objectPattern properties => exact (Begins.text rfl).seq.foretold
    | _ => cases hexpression

/-! ## Statements in lists -/

/-- The node is an expression that stands as a statement. -/
def isExpressionStatement (n : Node) : Bool :=
  match n.form with
  | .expressionStatement _ => true
  | _ => false

/-- No other statement than an expression continues a line. -/
theorem safe_statement {n : Node} (h : n.Spelled) (hlisted : n.form.isListed)
    (hexpression : n.isExpressionStatement = false) : Safe unit (n.printed semicolons).whole := by
  have hspelled := h n (mem_preorder_self n)
  rw [printed_eq]
  obtain ⟨info, form⟩ := n
  cases form with
  | expressionStatement => cases hexpression
  | emptyStatement | debuggerStatement => exact .text (by decide)
  | ifStatement | whileStatement | doWhileStatement | forStatement | forInStatement | switchStatement | tryStatement
  | returnStatement | throwStatement | breakStatement | continueStatement | classDeclaration | importDeclaration
  | exportDefaultDeclaration | exportAllDeclaration => exact .seq (.text (by decide))
  | forOfStatement left right body isAwait =>
    cases isAwait with
    | true => exact .seq (.text (by decide))
    | false => exact .seq (.text (by decide))
  | labeledStatement label body => exact .seq (safe_identifier hspelled (h.child (.head _)))
  | blockStatement body =>
    simp only [Node.form, Form.map, Form.layout, Child.braced]
    split
    · exact .text (by decide)
    · exact .seq (.text (by decide))
  | variableDeclaration kind declarations =>
    simp only [Node.form, Form.isSpelled, Bool.or_eq_true, beq_iff_eq] at hspelled
    rcases hspelled with (rfl | rfl) | rfl <;> exact .seq (.text (by decide))
  | functionDeclaration id params body isAsync isGenerator => exact safe_function ..
  | exportNamedDeclaration declaration specifiers source =>
    cases declaration with
    | none => exact .seq (.text (by decide))
    | some declaration => exact .seq (.text (by decide))
  | _ => cases hlisted

/-- A semicolon before the statement, if it would continue a line. -/
def guard (n : Node) : List Char := if n.needsGuard then [';'] else []

/-- A statement is guarded if it is an expression that begins with a character that continues a line, and then it
begins with no such character. -/
theorem guard_spec (unit : String) (semicolons : Bool) (depth : Nat) {n : Node} (h : n.Spelled)
    (hlisted : n.form.isListed) :
    (n.guard = [';'] ↔ n.isExpressionStatement ∧
        (written unit ((n.printed semicolons).whole depth)).head?.any continuesLine) ∧
      (n.guard ++ written unit ((n.printed semicolons).whole depth)).head?.all fun c => !continuesLine c := by
  generalize htext : written unit ((n.printed semicolons).whole depth) = text
  cases hexpression : n.isExpressionStatement with
  | false =>
    -- no other statement is guarded, and none needs it
    have hguard : n.needsGuard = false := by
      obtain ⟨info, form⟩ := n
      cases form <;> first | rfl | cases hexpression
    have hsafe : Safe unit (n.printed semicolons).whole := safe_statement h hlisted hexpression
    obtain ⟨c, hc, hsafe⟩ := hsafe
    have hhead : text.head? = some c := htext ▸ hc depth
    simp [guard, hguard, hhead, hsafe]
  | true =>
    obtain ⟨info, form⟩ := n
    cases form with
    | expressionStatement e =>
      have hforetold : Foretold unit e.leadingChar (e.printed semicolons).whole :=
        foretold_leadingChar semicolons e (h.child (.head _)) (h _ (mem_preorder_self _))
      obtain ⟨c, hc, htold⟩ := hforetold
      rw [printed_eq] at htext
      have hhead : text.head? = some c := htext ▸ hc depth
      -- either the character was told, or neither it nor the one that was told continues a line
      rcases htold with htold | ⟨hsafe, htold⟩
      · cases hcontinues : continuesLine c with
        | true => simp [guard, needsGuard, Node.form, htold, hhead, hcontinues]; decide
        | false => simp [guard, needsGuard, Node.form, htold, hhead, hcontinues]
      · have hnone : e.leadingChar.any continuesLine = false := by
          cases hleading : e.leadingChar with
          | none => rfl
          | some d => simpa [hleading] using htold
        simp [guard, needsGuard, Node.form, hnone, hhead, hsafe]
    | _ => cases hexpression

end Node

/-! ## Lists of statements -/

/-- The text is empty, or its last line has ended. -/
def EndsLine (text : List Char) : Prop := text = [] ∨ text.getLast? = some '\n'

theorem EndsLine.append {a b : List Char} (ha : EndsLine a) (hb : EndsLine b) : EndsLine (a ++ b) := by
  rcases hb with rfl | hb
  · rwa [List.append_nil]
  · exact .inr (by rw [List.getLast?_append, hb]; rfl)

theorem endsLine_newline (text : List Char) : EndsLine (text ++ ['\n']) := .inr (by rw [List.getLast?_append]; rfl)

namespace Child

variable {unit : String} {semicolons : Bool} {child : Child} {depth : Nat}

theorem endsLine_onlyIf_newline (b : Bool) : EndsLine (written unit (onlyIf b newline depth)) := by
  cases b with
  | true => exact endsLine_newline []
  | false => exact .inl rfl

theorem endsLine_commentLines (comments : List Comment) : EndsLine (written unit (commentLines comments depth)) := by
  unfold commentLines
  split
  · exact .inl rfl
  · -- the first newline ends the line above, and every comment ends its own
    rw [written_seq, List.flatMap_cons]
    refine (endsLine_newline []).append ?_
    rw [List.flatMap_map]
    clear * -
    induction comments with
    | nil => exact .inl rfl
    | cons c comments ih =>
      rw [List.flatMap_cons, written_seq]
      simp only [List.flatMap_cons, List.flatMap_nil, List.append_nil, ← List.append_assoc]
      exact (endsLine_newline _).append ih

/-- What is written above a statement that is not empty. -/
def above (before : Option Node) (child : Child) : Layout :=
  seq [onlyIf (before.any Node.isModuleHeader && !child.1.isModuleHeader) newline, commentLines child.1.comments,
    commentLines child.1.headerComments, onlyIf child.1.isSpaced newline]

theorem endsLine_above (before : Option Node) (child : Child) : EndsLine (written unit (above before child depth)) := by
  rw [above, written_seq]
  simp only [List.flatMap_cons, List.flatMap_nil, List.append_nil]
  exact (endsLine_onlyIf_newline _).append
    ((endsLine_commentLines _).append ((endsLine_commentLines _).append (endsLine_onlyIf_newline _)))

theorem written_members_of_empty (before : Option Node) (rest : List Child) (h : child.1.form = .emptyStatement) :
    written unit (members semicolons before (child :: rest) depth) =
      written unit (commentLines child.1.comments depth) ++ written unit (members semicolons before rest depth) := by
  rw [members, h]
  simp only [written_seq, List.flatMap_cons, List.flatMap_nil, List.append_nil]

/-- A statement that is not empty has lines of its own. -/
theorem written_members_of_ne (before : Option Node) (rest : List Child) (h : child.1.form ≠ .emptyStatement) :
    written unit (members semicolons before (child :: rest) depth) =
      written unit (above before child depth) ++ indentText unit depth ++
        (written unit (onlyIf (!semicolons && child.1.needsGuard) ";" depth) ++
          written unit (statement semicolons child depth)) ++
        '\n' :: (written unit (onlyIf child.1.isSpaced newline depth) ++
          written unit (members semicolons (some child.1) rest depth)) := by
  have hmembers : members semicolons before (child :: rest) = seq [
      onlyIf (before.any Node.isModuleHeader && !child.1.isModuleHeader) newline, commentLines child.1.comments,
      commentLines child.1.headerComments, onlyIf child.1.isSpaced newline, pad,
      onlyIf (!semicolons && child.1.needsGuard) ";", statement semicolons child, newline,
      onlyIf child.1.isSpaced newline, members semicolons (some child.1) rest] := by
    rw [members]
    split
    · next hempty => exact absurd hempty h
    · rfl
  rw [hmembers]
  simp only [above, written_seq, List.flatMap_cons, List.flatMap_nil, List.append_nil, List.append_assoc, written_pad,
    written_newline, List.singleton_append]

/-- The members of a list end in the end of a line. -/
theorem endsLine_members : ∀ (children : List Child) (before : Option Node),
    EndsLine (written unit (members semicolons before children depth))
  | [], _ => .inl rfl
  | child :: rest, before => by
    by_cases h : child.1.form = .emptyStatement
    · rw [written_members_of_empty before rest h]
      exact (endsLine_commentLines _).append (endsLine_members rest before)
    · rw [written_members_of_ne before rest h, List.append_cons]
      exact (endsLine_newline _).append ((endsLine_onlyIf_newline _).append (endsLine_members rest _))

/-- The members of a list are written one after another. -/
theorem exists_written_members_append (unit : String) (semicolons : Bool) (depth : Nat) :
    ∀ (front back : List Child) (before : Option Node),
    ∃ last, written unit (members semicolons before (front ++ back) depth) =
      written unit (members semicolons before front depth) ++ written unit (members semicolons last back depth)
  | [], back, before => ⟨before, rfl⟩
  | child :: front, back, before => by
    by_cases h : child.1.form = .emptyStatement
    · obtain ⟨last, hlast⟩ := exists_written_members_append unit semicolons depth front back before
      refine ⟨last, ?_⟩
      rw [List.cons_append, written_members_of_empty before _ h, written_members_of_empty before _ h, hlast,
        List.append_assoc]
    · obtain ⟨last, hlast⟩ := exists_written_members_append unit semicolons depth front back (some child.1)
      refine ⟨last, ?_⟩
      rw [List.cons_append, written_members_of_ne before _ h, written_members_of_ne before _ h, hlast]
      simp only [List.append_assoc, List.cons_append]

end Child

namespace Node

variable {unit : String} {semicolons : Bool}

/-- In a list a statement has lines of its own. Before it stands a semicolon exactly if it is an expression that
begins with a character that continues a line, and so what stands on the line begins with no such character. -/
def StandsApart (unit : String) (depth : Nat) (front : List Node) (statement : Node) (back : List Node) : Prop :=
  ∃ above gap guard text below, above = written unit (Child.members false none (front.map (child false)) depth) ∧
    text = written unit ((statement.printed false).whole depth) ∧
    written unit (Child.members false none ((front ++ statement :: back).map (child false)) depth) =
      above ++ gap ++ indentText unit depth ++ (guard ++ text) ++ '\n' :: below ∧
    EndsLine above ∧ EndsLine gap ∧ (guard = [] ∨ guard = [';']) ∧
    (guard = [';'] ↔ statement.isExpressionStatement ∧ text.head?.any continuesLine) ∧
    (guard ++ text).head?.all fun c => !continuesLine c

theorem mem_children_of_statements {n : Node} {body : List Node} (h : n.form.statements? = some body)
    (hspelled : n.form.isSpelled) : ∀ m ∈ body, m ∈ n.children ∧ m.form.isListed := by
  obtain ⟨info, form⟩ := n
  cases form with
  | program | blockStatement =>
    obtain rfl := Option.some.inj h
    exact fun m hm => ⟨hm, List.all_eq_true.1 hspelled m hm⟩
  | switchCase =>
    obtain rfl := Option.some.inj h
    exact fun m hm => ⟨List.mem_append_right _ hm, List.all_eq_true.1 hspelled m hm⟩
  | _ => cases h

theorem terminator_eq_nothing {n : Node} (h : n.form.isListed) : n.terminator false = nothing := by
  obtain ⟨info, form⟩ := n
  cases form <;> first | rfl | cases h

theorem standsApart {statement : Node} (h : statement.Spelled) (hlisted : statement.form.isListed)
    (hne : statement.form ≠ .emptyStatement) (depth : Nat) (front back : List Node) :
    StandsApart unit depth front statement back := by
  obtain ⟨last, hlast⟩ := Child.exists_written_members_append unit false depth (front.map (child false))
    ((statement :: back).map (child false)) none
  obtain ⟨hguard, hsafe⟩ := guard_spec unit false depth h hlisted
  refine ⟨_, written unit (Child.above last (statement.child false) depth), statement.guard, _,
    written unit (onlyIf statement.isSpaced newline depth) ++
      written unit (Child.members false (some statement) (back.map (child false)) depth),
    rfl, rfl, ?_, Child.endsLine_members .., Child.endsLine_above .., ?_, hguard, hsafe⟩
  · have hwritten : written unit (onlyIf (!false && statement.needsGuard) ";" depth) = statement.guard := by
      unfold guard
      cases statement.needsGuard with
      | true => rfl
      | false => rfl
    have hstatement : written unit (Child.statement false (statement.child false) depth) =
        written unit ((statement.printed false).whole depth) := by
      rw [Child.statement, written_seq]
      simp only [List.flatMap_cons, List.flatMap_nil, List.append_nil, child, terminator_eq_nothing hlisted]
      exact List.append_nil _
    rw [List.map_append, hlast, List.map_cons, Child.written_members_of_ne last _ hne]
    simp only [child] at hwritten hstatement ⊢
    rw [hwritten, hstatement]
    simp only [List.append_assoc]
  · unfold guard
    split
    · exact .inr rfl
    · exact .inl rfl

/-- A sign is not followed by the same sign. -/
theorem sign_apart {info : Info} {operator : String} {argument : Node}
    (h : (Node.mk info (.unaryExpression operator argument)).Spelled) (hsign : operator = "+" ∨ operator = "-")
    (depth : Nat) :
    ∃ rest, written unit (((Node.mk info (.unaryExpression operator argument)).printed semicolons).whole depth) =
        operator.toList ++ rest ∧ rest.head? ≠ operator.toList.head? := by
  have hexpression : argument.form.isExpression := (Bool.and_eq_true_iff.1 (h _ (mem_preorder_self _))).2
  have hforetold : Foretold unit argument.leadingChar (argument.printed semicolons).whole :=
    foretold_leadingChar semicolons argument (h.child (.head _)) hexpression
  obtain ⟨sign, hoperator, hcontinues, hspace⟩ : ∃ sign, operator.toList = [sign] ∧ continuesLine sign ∧
      Child.needsSpace operator argument = (argument.leadingChar == some sign) := by
    rcases hsign with rfl | rfl
    · exact ⟨'+', rfl, rfl, rfl⟩
    · exact ⟨'-', rfl, rfl, rfl⟩
  refine ⟨written unit (onlyIf (Child.needsSpace operator argument) " " depth) ++
    written unit ((argument.printed semicolons).whole depth), ?_, ?_⟩
  · rw [printed_eq]
    refine (written_seq _ depth).trans ?_
    simp only [List.flatMap_cons, List.flatMap_nil, List.append_nil, written_text]
    rfl
  · rw [hoperator, hspace, List.head?_append]
    cases htold : argument.leadingChar == some sign with
    | true =>
      have hblank : sign ≠ ' ' := by rintro rfl; cases hcontinues
      exact fun heq => hblank (Option.some.inj heq).symm
    | false =>
      rw [beq_eq_false_iff_ne] at htold
      exact fun heq => htold ((hforetold.head?_iff depth hcontinues).1 heq)

/-- Of a script that was read: the first character of every expression is told if it is one that continues a line,
every statement of a list is kept apart from the line before it, and every sign from the same sign. -/
theorem leadingChar_spec {root : Node} (h : root.Spelled) :
    (∀ n ∈ root.preorder, n.form.isExpression → ∀ unit semicolons depth c, continuesLine c →
        ((written unit ((n.printed semicolons).whole depth)).head? = some c ↔ n.leadingChar = some c)) ∧
      (∀ n ∈ root.preorder, ∀ front statement back, n.form.statements? = some (front ++ statement :: back) →
        statement.form ≠ .emptyStatement → ∀ unit depth, StandsApart unit depth front statement back) ∧
      ∀ n ∈ root.preorder, ∀ operator argument, n.form = .unaryExpression operator argument →
        operator = "+" ∨ operator = "-" → ∀ unit semicolons depth, ∃ rest,
          written unit ((n.printed semicolons).whole depth) = operator.toList ++ rest ∧
            rest.head? ≠ operator.toList.head? := by
  refine ⟨?_, ?_, ?_⟩
  · intro n hn hexpression unit semicolons depth c hc
    exact (foretold_leadingChar semicolons n (h.of_mem hn) hexpression).head?_iff depth hc
  · intro n hn front statement back hstatements hne unit depth
    obtain ⟨hmem, hlisted⟩ := mem_children_of_statements hstatements (h n hn) statement (by simp)
    exact standsApart (h.of_mem (mem_preorder_trans hn (mem_preorder_of_mem_children hmem))) hlisted hne
      depth front back
  · rintro ⟨info, form⟩ hn operator argument rfl hsign unit semicolons depth
    exact sign_apart (h.of_mem hn) hsign depth

/-- A script with a statement in brackets and a sign before the same sign, as it is read. -/
theorem leadingChar_spec_brackets :
    ∃ s, Script.parse "a;\n[b] = - -c;" = .ok s ∧ s.program.Spelled ∧
      ∀ front statement back, s.program.form.statements? = some (front ++ statement :: back) →
        statement.form ≠ .emptyStatement → StandsApart "\t" 0 front statement back := by
  have hspelled : (Script.parse "a;\n[b] = - -c;").toOption.map (fun s => decide s.program.Spelled) = some true := by
    decide +kernel
  obtain ⟨s, hs, hdecided⟩ := Option.map_eq_some_iff.1 hspelled
  have h : s.program.Spelled := of_decide_eq_true hdecided
  obtain ⟨-, hlists, -⟩ := leadingChar_spec h
  exact ⟨s, eq_ok_of_toOption hs, h, fun front statement back hstatements hne =>
    hlists _ (mem_preorder_self _) front statement back hstatements hne "\t" 0⟩

/-- No semicolon is written for the sake of how the line before ends: of the two expressions the first is the word let,
and read again it declares the name that begins the second one. -/
theorem let_continued :
    ∃ s t, Script.parse "let;\nx = 1;" = .ok s ∧ s.program.Spelled ∧
      s.program.form.statements?.map (List.map isExpressionStatement) = some [true, true] ∧
      s.program.print { Options.standard with semicolons := false } = .ok "let\nx = 1\n" ∧
      Script.parse "let\nx = 1\n" = .ok t ∧
      t.program.form.statements?.map (List.map isExpressionStatement) = some [false] := by
  have hread : (Script.parse "let;\nx = 1;").toOption.map (fun s => decide (s.program.Spelled ∧
      s.program.form.statements?.map (List.map isExpressionStatement) = some [true, true] ∧
      (s.program.print { Options.standard with semicolons := false }).toOption = some "let\nx = 1\n")) = some true := by
    decide +kernel
  have hagain : (Script.parse "let\nx = 1\n").toOption.map
      (fun t => t.program.form.statements?.map (List.map isExpressionStatement)) = some (some [false]) := by
    decide +kernel
  obtain ⟨s, hs, hdecided⟩ := Option.map_eq_some_iff.1 hread
  obtain ⟨t, ht, hlist⟩ := Option.map_eq_some_iff.1 hagain
  obtain ⟨hspelled, hstatements, hprinted⟩ := of_decide_eq_true hdecided
  exact ⟨s, t, eq_ok_of_toOption hs, hspelled, hstatements, eq_ok_of_toOption hprinted, eq_ok_of_toOption ht, hlist⟩

end Node

end ScriptTidy
