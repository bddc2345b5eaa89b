/-
What the parsers of statements and declarations give: sound nodes that can stand among statements, if the
parsers of the parts below give such nodes. What is exported stands in the middle of a line, so that it has
to be a declaration: a statement that starts with a word of declarations is one, or the export is refused.
-/
import ScriptTidy.Grammar.Statement
import ScriptTidy.Proofs.Grammar.Expressions

namespace ScriptTidy.Grammar

open Parsing Expression Statement Cst

variable {t : List Char} {p q : Rank → Bool} {kind field : String} {tok : Token} {c : Cst} {cs front : List Cst}

theorem terminated_makes {start : Nat} (hkind : Kind.isPlain kind p) (hfits : AllFit t kind cs) :
    Makes t (Free t p) (terminated kind start cs) :=
  .step semicolon_makes fun _ => finish_makes hkind hfits

theorem seesForEach_makes : Makes t (fun _ => True) seesForEach :=
  .step (sees_makes "in") fun _ => .step (sees_makes "of") fun _ => .pure trivial

/-! ## Nodes of which more is asked -/

theorem named_makeNode {start stop : Nat} (hcs : ∀ c ∈ cs, c.mark.isNamed ∧ c.isComment = false) :
    (makeNode kind start stop cs).named = cs :=
  List.filter_eq_self.2 fun c hc => by simp [hcs c hc]

/-- A declaration starts with its word. -/
theorem declaration_free {start stop : Nat} (hword : tok.Solid t) (htext : tok.text ∈ ["var", "let", "const"])
    (hcs : ∀ c ∈ cs, c.Free t Rank.isInner) :
    (makeNode (declarationKind tok.text) start stop (tok.toCst :: cs)).Free t Rank.isDeclaration := by
  have hfits (kind : String) (h : Kind.takes kind none Rank.isInner) : AllFit t kind (tok.toCst :: cs) :=
    allFit_cons.2 ⟨fit_toCst hword kind, allFit_of_free hcs h⟩
  unfold declarationKind
  split
  · exact free_makeNode (by decide) (hfits _ (by decide))
  · next hvar =>
    have hlexical := hfits "lexical_declaration" (by decide)
    have hall : (tok.toCst :: cs).all (fits "lexical_declaration") = true :=
      List.all_eq_true.2 fun d hd => (hlexical d hd).2
    refine free_makeNode_of_isRegular (by decide) (by decide) rfl (Bool.and_eq_true_iff.2 ⟨hall, ?_⟩) hlexical
    show ["let", "const"].contains tok.text = true
    simp only [List.mem_cons, List.not_mem_nil, or_false] at htext
    rcases htext with h | h | h <;> rw [h] at hvar ⊢ <;> first | rfl | exact absurd rfl hvar

/-- A case starts with its value. -/
theorem switchCase_free {start stop : Nat} (htest : c.Free t Rank.isExpression)
    (hcs : ∀ c ∈ cs, c.Free t Rank.isListed) :
    (makeNode "switch_case" start stop (playing "value" c :: cs)).Free t Rank.isOperand := by
  have hfits : AllFit t "switch_case" (playing "value" c :: cs) :=
    allFit_cons.2 ⟨htest.playing (by decide) rfl, allFit_of_free hcs (by decide)⟩
  have hall : (playing "value" c :: cs).all (fits "switch_case") = true := List.all_eq_true.2 fun d hd => (hfits d hd).2
  have hnamed : (makeNode "switch_case" start stop (playing "value" c :: cs)).named = playing "value" c :: cs := by
    refine named_makeNode (List.forall_mem_cons.2 ⟨?_, fun d hd => ⟨(hcs d hd).named, (hcs d hd).read⟩⟩)
    obtain ⟨mark, children⟩ := c
    exact ⟨htest.named, htest.read⟩
  refine free_makeNode_of_isRegular (by decide) (by decide) rfl (Bool.and_eq_true_iff.2 ⟨hall, ?_⟩) hfits
  show (Option.all _ (Cst.named _).head? && (Cst.named _).tail.all _) = true
  rw [hnamed, List.head?_cons, List.tail_cons, Option.all_some, Bool.and_eq_true, List.all_eq_true]
  refine ⟨by cases c; rfl, fun d hd => ?_⟩
  rw [(hcs d hd).field]
  rfl

/-- A node all parts of which are names. -/
theorem jump_free {start stop : Nat} (hkind : kind ∈ Kind.jumps) (hrank : p (Kind.rank kind)) (hfits : AllFit t kind cs)
    (hnames : ∀ c ∈ cs, c.mark.isNamed → c.kind ∈ Reader.nameKinds) : (makeNode kind start stop cs).Free t p := by
  have hall : cs.all (fits kind) = true := List.all_eq_true.2 fun d hd => (hfits d hd).2
  have hnamed : (makeNode kind start stop cs).named.all (fun d => Reader.nameKinds.contains d.kind) = true := by
    refine List.all_eq_true.2 fun d hd => List.contains_iff_mem.2 ?_
    obtain ⟨hd, hfilter⟩ := List.mem_filter.1 hd
    exact hnames d hd (Bool.and_eq_true_iff.1 hfilter).1
  obtain ⟨hspells, hread, hswitch⟩ := (show ∀ kind ∈ Kind.jumps, Kind.spells? kind = none ∧
    (kind == "comment" || kind == "html_comment") = false ∧ kind ≠ "switch_case" by decide +kernel) kind hkind
  refine free_makeNode_of_isRegular hrank hspells hread (Bool.and_eq_true_iff.2 ⟨hall, ?_⟩) hfits
  show (if kind == "switch_case" then _ else if Kind.jumps.contains kind then _ else _) = true
  rw [if_neg (by simpa using hswitch), if_pos (List.contains_iff_mem.2 hkind)]
  exact hnamed

/-- The kinds of declarations with the kinds of the expressions that they are without a name. -/
def nameless : List (String × String) :=
  [("function_declaration", "function_expression"), ("class_declaration", "class")]

theorem fits_nameless {kind' : String} (h : (kind, kind') ∈ nameless) (d : Cst) : d.fits kind' = d.fits kind := by
  simp only [nameless, List.mem_cons, Prod.mk.injEq, List.not_mem_nil, or_false] at h
  rcases h with ⟨rfl, rfl⟩ | ⟨rfl, rfl⟩ <;> rfl

/-- A declaration without a name is an expression. -/
theorem free_nameless {kind' : String} (h : c.Free t p) (hkind : (c.kind, kind') ∈ nameless) :
    (Cst.node { c.mark with kind := kind' } c.children).Free t Rank.isOperand := by
  obtain ⟨hplain, hspells, hread, hrank⟩ := (show ∀ e ∈ nameless, e.2 ∉ Kind.particular ∧
    (Kind.spells? e.1 = none ∧ Kind.spells? e.2 = none) ∧ (e.2 == "comment" || e.2 == "html_comment") = false ∧
      (Kind.rank e.2).isOperand by decide +kernel) _ hkind
  obtain ⟨mark, children⟩ := c
  exact ⟨h.sound.withKind h.named hplain (hspells.2.trans hspells.1.symm) fun d hd =>
    ⟨h.sound.child hd, (fits_nameless hkind d).trans (h.sound.allFit h.named d hd).2⟩, h.named, hread, h.field, hrank⟩

/-! ## Imports and exports -/

/-- A string that plays no part yet. -/
structure IsString (t : List Char) (c : Cst) : Prop where
  free : c.Free t Rank.isOperand
  kind : c.kind = "string"

theorem isString_leaf (h : tok.Solid t) (hkind : tok.kind = .string) : IsString t (tok.leaf "string") := by
  refine ⟨free_leaf h (by decide) ?_ (by decide), rfl⟩
  have hspells := h.2
  rwa [hkind] at hspells

/-- A string that tells the source of an import or export. -/
theorem IsString.fit (h : IsString t c) (hplayers : Kind.players? kind "source" = some ["string"])
    (htakes : Kind.takes kind (some "source") Rank.isOperand) : (playing "source" c).Fit t kind :=
  h.free.playing_of htakes fun kinds hkinds => by
    rw [hplayers] at hkinds
    cases hkinds
    exact h.kind ▸ List.mem_singleton_self _

theorem source_makes (kind : String) (hplayers : Kind.players? kind "source" = some ["string"])
    (htakes : Kind.takes kind (some "source") Rank.isOperand) : Makes t (Fit t kind) source :=
  .step (expect_makes "from") fun _ => Gives.of_token fun _ => .ite
    (fun hstring => Gives.pass fun hsolid => .pure ((isString_leaf hsolid hstring).fit hplayers htakes))
      fun _ => .refuse

/-- The word default is not read as a name, but may stand in place of one. -/
theorem exportedName_makes (kind field : String) (hplayers : Kind.players? kind field = none)
    (htakes : Kind.takes kind (some field) Rank.isOperand) : Makes t (Fit t kind) (exportedName field) := by
  refine Gives.of_token fun tok => .ite (fun hdefault => Gives.pass fun hsolid => .pure ?_) fun _ => .ite
    (fun hstring => Gives.pass fun hsolid =>
      .pure ((isString_leaf hsolid hstring).free.playing htakes hplayers)) fun _ =>
      Gives.of_makes (.bind (anyName_makes (by decide)) fun _ hname => .pure (hname.free.playing htakes hplayers))
  refine ⟨(sound_toCst hsolid).playing field, ?_⟩
  simp [fits, playing, Token.toCst, Cst.mark, Cst.kind, text_of_is hdefault, hplayers]

theorem importSpecifier_makes : Makes t (Free t Rank.isOperand) importSpecifier := by
  refine .step token_makes fun tok => .bind (exportedName_makes "import_specifier" "name" rfl (by decide))
    fun name hname => ?_
  have hrest (renamed : List Cst) (hrenamed : AllFit t "import_specifier" renamed) : Makes t (Free t Rank.isOperand) (do
      if renamed.isEmpty && !tok.isFreeName then refuse
      else finish "import_specifier" tok.start (name :: renamed)) :=
    .ite .refuse (finish_makes (by decide) (allFit_cons.2 ⟨hname, hrenamed⟩))
  exact .step (accept_makes "as") fun _ => .ite
    (.bind identifier_makes fun _ hident => hrest _ (allFit_one (hident.free.playing (by decide) rfl)))
      (hrest [] allFit_nil)

theorem importNames_makes : Makes t (Free t Rank.isOperand) importNames := by
  have hnamespace : Makes t (Free t Rank.isOperand) namespaceImport :=
    .step startOffset_makes fun _ => .step (expect_makes "*") fun _ => .step (expect_makes "as") fun _ =>
      .bind identifier_makes fun _ hname => .step get_makes fun _ => .pure (jump_free (by decide) (by decide)
        (allFit_one (hname.free.fit (by decide))) fun d hd _ => List.mem_singleton.1 hd ▸ hname.kind)
  have hnamed : Makes t (Free t Rank.isOperand) namedImports :=
    .step startOffset_makes fun _ => .step (expect_makes _) fun _ =>
      .bind (commaList_makes importSpecifier_makes) fun _ hnames =>
      finish_makes (by decide) (allFit_of_free hnames (by decide))
  exact .step (sees_makes "*") fun _ => .ite hnamespace hnamed

theorem importClause_makes : Makes t (Free t Rank.isOperand) importClause := by
  refine .step startOffset_makes fun start => .step token_makes fun _ => ?_
  have hfinish (parts : List Cst) (hparts : ∀ c ∈ parts, c.Free t Rank.isOperand) :
      Makes t (Free t Rank.isOperand) (finish "import_clause" start parts) :=
    finish_makes (by decide) (allFit_of_free hparts (by decide))
  refine .ite (.bind identifier_makes fun name hname => .step (accept_makes ",") fun _ => .ite
    (.bind importNames_makes fun _ hnames => hfinish _ ?_) (hfinish _ ?_))
      (.bind importNames_makes fun _ hnames => hfinish _ ?_)
  · exact List.forall_mem_cons.2 ⟨hname.free, List.forall_mem_singleton.2 hnames⟩
  · exact List.forall_mem_singleton.2 hname.free
  · exact List.forall_mem_singleton.2 hnames

theorem exportSpecifier_makes : Makes t (Free t Rank.isOperand) exportSpecifier := by
  refine .step startOffset_makes fun start => .bind (exportedName_makes "export_specifier" "name" rfl (by decide))
    fun name hname => ?_
  have hrest (renamed : List Cst) (hrenamed : AllFit t "export_specifier" renamed) :
      Makes t (Free t Rank.isOperand) (finish "export_specifier" start (name :: renamed)) :=
    finish_makes (by decide) (allFit_cons.2 ⟨hname, hrenamed⟩)
  exact .step (accept_makes "as") fun _ => .ite
    (.bind (exportedName_makes _ "alias" rfl (by decide)) fun _ halias => hrest _ (allFit_one halias))
      (hrest [] allFit_nil)

theorem exportNames_makes (start : Nat) (hfront : AllFit t "export_statement" front) :
    Makes t (Free t Rank.isDeclaration) (exportNames start front) := by
  refine .step startOffset_makes fun _ => .step (expect_makes _) fun _ =>
    .bind (commaList_makes exportSpecifier_makes) fun _ hnames =>
    .bind (finish_makes (p := Rank.isOperand) (by decide) (allFit_of_free hnames (by decide))) fun clause hclause => ?_
  have hrest (origin : List Cst) (horigin : AllFit t "export_statement" origin) :
      Makes t (Free t Rank.isDeclaration) (terminated "export_statement" start (front ++ [clause] ++ origin)) :=
    terminated_makes (by decide) (allFit_append.2 ⟨allFit_append.2 ⟨hfront, allFit_one (hclause.fit (by decide))⟩,
      horigin⟩)
  exact .step (sees_makes "from") fun _ => .ite
    (.bind (source_makes _ rfl (by decide)) fun _ hsource => hrest _ (allFit_one hsource)) (hrest [] allFit_nil)

theorem exportAll_makes (start : Nat) (hfront : AllFit t "export_statement" front) :
    Makes t (Free t Rank.isDeclaration) (exportAll start front) := by
  refine .bind advance_makes fun star hstar => ?_
  have hrest (parts : List Cst) (hparts : AllFit t "export_statement" parts) : Makes t (Free t Rank.isDeclaration) (do
      let origin ← source
      terminated "export_statement" start (front ++ parts ++ [origin])) :=
    .bind (source_makes _ rfl (by decide)) fun _ hsource =>
      terminated_makes (by decide) (allFit_append.2 ⟨allFit_append.2 ⟨hfront, hparts⟩, allFit_one hsource⟩)
  refine .step (accept_makes "as") fun _ =>
    .ite (.bind (exportedName_makes "namespace_export" "" rfl (by decide)) fun name hname => hrest _ (allFit_one ?_))
    (hrest _ (allFit_one (fit_toCst hstar _)))
  exact (free_makeNode (p := Rank.isOperand) (by decide)
    (allFit_cons.2 ⟨fit_toCst hstar _, allFit_one hname⟩)).fit (by decide)

theorem text_of_startsVariables {followed : Token} (h : startsVariables tok followed) :
    tok.text ∈ ["var", "let", "const"] := by
  simp only [startsVariables, Bool.or_eq_true, Bool.and_eq_true] at h
  rcases h with (h | h) | ⟨h, -⟩ <;> rw [text_of_is h] <;> decide

/-! ## Words of declarations -/

/-- The words that declarations start with. -/
def declarationWords : List String := ["var", "let", "const", "function", "class", "async", "@"]

/-- The node is a declaration, or a statement that may not be exported. -/
def IsDeclarative (c : Cst) : Prop := c.rank.isDeclaration ∨ c.kind ∈ ["expression_statement", "labeled_statement"]

/-- What is read below as a statement and starts with a word of declarations is a declaration, if it may be exported. -/
def Below.Declares (t : List Char) (below : Below) : Prop :=
  Gives t (fun s => declarationWords.any s.token.is) (below .statement) fun c _ => IsDeclarative c

theorem not_any_of_is {text : String} (h : tok.is text) (htext : text ∉ declarationWords) :
    ¬ declarationWords.any tok.is := by
  intro hany
  obtain ⟨word, hmem, his⟩ := List.any_eq_true.1 hany
  exact htext ((text_of_is h).symm.trans (text_of_is his) ▸ hmem)

/-- The words of declarations are not among the others that start a statement. -/
theorem lookup_byWord_eq_none {below : Below} (h : declarationWords.any tok.is) :
    (byWord below).lookup tok.text = none := by
  obtain ⟨word, hmem, his⟩ := List.any_eq_true.1 h
  rw [text_of_is his]
  simp only [declarationWords, List.mem_cons, List.not_mem_nil, or_false] at hmem
  rcases hmem with rfl | rfl | rfl | rfl | rfl | rfl | rfl <;> rfl

/-- Where no comment in markup style starts, none is passed. -/
theorem eq_of_skipMarkupComments {s s' : State} {a : Unit} (hstarts : startsMarkupComment s.here.chars = false)
    (h : skipMarkupComments s = .ok (a, s')) : s' = s := by
  obtain ⟨⟨l, s''⟩, hcollect, h⟩ := exists_of_bind_ok h
  cases h
  obtain ⟨token, here, next, last, comments, budget⟩ := s
  cases budget with
  | zero => cases hcollect
  | succ budget =>
    obtain ⟨⟨o, s''⟩, hstep, hcollect⟩ := exists_of_bind_ok hcollect
    have hnone : (Except.ok (none, ⟨token, here, next, last, comments, budget + 1⟩) : Except GrammarFault
      (Option Unit × State)) =
        .ok (o, s'') := by
      rw [← hstep]
      show _ = (if startsMarkupComment here.chars then _ else pure none : Parsing (Option Unit)) _
      rw [if_neg (by rw [show startsMarkupComment here.chars = false from hstarts]; exact Bool.false_ne_true)]
      rfl
    cases hnone
    cases hcollect
    rfl
/-- At a word of declarations there is no comment in markup style. -/
theorem skipMarkupComments_keeps :
    Gives t (fun s => s.token = tok) skipMarkupComments fun _ s => declarationWords.any tok.is → s.token = tok := by
  rintro s hs rfl a s' h
  refine ⟨(skipMarkupComments_makes s hs trivial a s' h).1, fun hword => ?_⟩
  rw [eq_of_skipMarkupComments ?_ h]
  obtain ⟨word, hmem, his⟩ := List.any_eq_true.1 hword
  have hkind : s.token.kind = .mark ∨ s.token.kind = .name := by
    simpa using (Bool.and_eq_true_iff.1 his).1
  have hreads := hs.reads (by rcases hkind with h | h <;> simp [h]) (by rcases hkind with h | h <;> simp [h])
  rw [hreads, text_of_is his]
  simp only [declarationWords, List.mem_cons, List.not_mem_nil, or_false] at hmem
  rcases hmem with rfl | rfl | rfl | rfl | rfl | rfl | rfl <;> rfl

theorem jump_makes (hkind : kind ∈ ["break_statement", "continue_statement"]) :
    Makes t (Free t Rank.isListed) (jump kind) := by
  obtain ⟨hjump, hrank, htakes⟩ := (show ∀ kind ∈ ["break_statement", "continue_statement"],
    kind ∈ Kind.jumps ∧ (Kind.rank kind).isListed ∧ Kind.takes kind none Rank.isOperand by decide +kernel) kind hkind
  refine .bind advance_makes fun word hword => Gives.of_token fun tok => ?_
  have hrest (label : List Cst) (hlabel : ∀ c ∈ label, IsNameNode t c) :
      Makes t (Free t Rank.isListed) (terminated kind word.start (word.toCst :: label)) := by
    refine .step semicolon_makes fun _ => .step get_makes fun _ => .pure (jump_free hjump hrank (allFit_cons.2
      ⟨fit_toCst hword _, fun c hc => (hlabel c hc).free.fit htakes⟩)
        (List.forall_mem_cons.2 ⟨fun h => ?_, fun c hc _ => (hlabel c hc).kind⟩))
    cases h
  refine .ite (fun hname => Gives.pass fun hsolid => hrest _ (List.forall_mem_singleton.2 ?_)) fun _ =>
    Gives.of_makes (hrest [] fun _ h => nomatch h)
  exact isNameNode_leaf hsolid
    (spellsName_of_kind hsolid (.inl (kind_of_isFreeName (Bool.and_eq_true_iff.1 hname).1))) (by decide)

theorem wordStatement_makes : Makes t (Free t Rank.isListed) (wordStatement "debugger_statement") :=
  .step advance_makes fun _ => terminated_makes (by decide) allFit_nil

section Below

variable {below : Below} (hb : below.Sound t)
include hb

/-! ## Parts -/

theorem head_makes : Makes t (Free t Rank.isOperand) (head below) :=
  .step startOffset_makes fun _ => .step (expect_makes "(") fun _ => .bind (hb (.expression true)) fun _ hinner =>
    .step (expect_makes ")") fun _ => finish_makes (by decide) (allFit_one (hinner.fit (by decide)))

theorem body_makes : Makes t (Free t Rank.isListed) (body below) :=
  .step skipMarkupComments_makes fun _ => hb .statement

/-! ## Declarations of variables -/

theorem declarator_makes (allowIn : Bool) : Makes t (Free t Rank.isInner) (declarator below allowIn) := by
  have hassignment : Makes t (Free t Rank.isExpression) (below (.assignment allowIn)) := hb _
  refine .step startOffset_makes fun start => .bind (hb .binding) fun target htarget => ?_
  have hrest (value : List Cst) (hvalue : AllFit t "variable_declarator" value) :
      Makes t (Free t Rank.isInner) (finish "variable_declarator" start (playing "name" target :: value)) :=
    finish_makes (by decide) (allFit_cons.2 ⟨htarget.playing (by decide) rfl, hvalue⟩)
  exact .step (accept_makes "=") fun _ => .ite
    (.bind hassignment fun _ hvalue => hrest _ (allFit_one (hvalue.playing (by decide) rfl))) (hrest [] allFit_nil)

theorem moreDeclarators_makes (allowIn : Bool) :
    Makes t (fun l => ∀ c ∈ l, c.Free t Rank.isInner) (moreDeclarators below allowIn) :=
  collect_makes (.step (accept_makes ",") fun _ => .ite (.some (declarator_makes hb allowIn)) .none)

theorem variableDeclaration_gives (htext : tok.text ∈ ["var", "let", "const"]) :
    Gives t (fun s => s.token = tok) (variableDeclaration below) fun c _ => c.Free t Rank.isDeclaration :=
  Gives.pass fun hsolid => .bind (declarator_makes hb true) fun _ hfirst =>
    .bind (moreDeclarators_makes hb true) fun _ hrest =>
    .step semicolon_makes fun _ => .step get_makes fun _ =>
      .pure (declaration_free hsolid htext (List.forall_mem_cons.2 ⟨hfirst, hrest⟩))

/-! ## Conditions and loops -/

theorem ifStatement_makes : Makes t (Free t Rank.isListed) (ifStatement below) := by
  refine .step advance_makes fun word => .bind (head_makes hb) fun test htest =>
    .bind (body_makes hb) fun consequent hconsequent =>
    .step startOffset_makes fun other => ?_
  have hrest (alternative : List Cst) (halternative : AllFit t "if_statement" alternative) :
      Makes t (Free t Rank.isListed) (finish "if_statement" word.start
        ([playing "condition" test, playing "consequence" consequent] ++ alternative)) :=
    finish_makes (by decide) (allFit_append.2 ⟨allFit_cons.2 ⟨htest.playing (by decide) rfl,
      allFit_one (hconsequent.playing (by decide) rfl)⟩, halternative⟩)
  exact .step (accept_makes "else") fun _ => .ite
    (.bind (body_makes hb) fun _ hinner => .bind
      (finish_makes (p := Rank.isOperand) (by decide) (allFit_one (hinner.fit (by decide))))
      fun _ hclause => hrest _ (allFit_one (hclause.playing (by decide) rfl)))
    (hrest [] allFit_nil)

theorem whileStatement_makes : Makes t (Free t Rank.isListed) (whileStatement below) :=
  .step advance_makes fun _ => .bind (head_makes hb) fun _ htest => .bind (body_makes hb) fun _ hinner =>
    finish_makes (by decide)
      (allFit_cons.2 ⟨htest.playing (by decide) rfl, allFit_one (hinner.playing (by decide) rfl)⟩)

theorem doStatement_makes : Makes t (Free t Rank.isListed) (doStatement below) :=
  .step advance_makes fun _ => .bind (body_makes hb) fun _ hinner => .step (expect_makes "while") fun _ =>
    .bind (head_makes hb) fun _ htest => .step (accept_makes ";") fun _ => finish_makes (by decide)
      (allFit_cons.2 ⟨hinner.playing (by decide) rfl, allFit_one (htest.playing (by decide) rfl)⟩)

theorem clause_makes (hfield : field ∈ ["condition", "increment"]) (closing : String) :
    Makes t (AllFit t "for_statement") (clause below field closing) := by
  obtain ⟨htakes, hplayers⟩ := (show ∀ field ∈ ["condition", "increment"],
    Kind.takes "for_statement" (some field) Rank.isExpression ∧ Kind.players? "for_statement" field = none by
    decide +kernel) field hfield
  exact .step (accept_makes closing) fun _ => .ite (.pure allFit_nil) (.bind (hb (.expression true)) fun _ hinner =>
    .step (expect_makes closing) fun _ => .pure (allFit_one (hinner.playing htakes hplayers)))

theorem forRest_makes (start : Nat) (hfront : AllFit t "for_statement" front) :
    Makes t (Free t Rank.isListed) (forRest below start front) :=
  .bind (clause_makes hb (by decide) ";") fun _ htest => .bind (clause_makes hb (by decide) ")") fun _ hupdate =>
    .bind (body_makes hb) fun _ hinner => finish_makes (by decide) (allFit_append.2 ⟨allFit_append.2
      ⟨allFit_append.2 ⟨hfront, htest⟩, hupdate⟩, allFit_one (hinner.playing (by decide) rfl)⟩)

theorem forEachRest_makes (start : Nat) (hfront : AllFit t "for_in_statement" front) :
    Makes t (Free t Rank.isListed) (forEachRest below start front) := by
  refine .bind advance_makes fun operator hoperator => ?_
  have hrest (right : Cst) (hright : right.Free t Rank.isExpression) : Makes t (Free t Rank.isListed) (do
      let _ ← expect ")"
      let inner ← body below
      finish "for_in_statement" start
        (front ++ [playing "operator" operator.toCst, playing "right" right, playing "body" inner])) :=
    .step (expect_makes ")") fun _ => .bind (body_makes hb) fun inner hinner =>
      finish_makes (by decide) (allFit_append.2 ⟨hfront,
      allFit_cons.2 ⟨fit_playing_toCst hoperator (by decide) (fun kinds hkinds => by cases hkinds), allFit_cons.2
        ⟨hright.playing (by decide) rfl, allFit_one (hinner.playing (by decide) rfl)⟩⟩⟩)
  exact .ite (.bind (hb (.assignment true)) hrest) (.bind (hb (.expression true)) hrest)

theorem forDeclaration_gives (start : Nat) (hmarks : AnyFit t front) (htext : tok.text ∈ ["var", "let", "const"]) :
    Gives t (fun s => s.token = tok) (forDeclaration below start front) fun c _ => c.Free t Rank.isListed := by
  refine Gives.pass fun hsolid => .step startOffset_makes fun bindingStart =>
    .bind (hb .binding) fun target htarget => ?_
  have hrest (value : List Cst) (heach : AllFit t "for_in_statement" value)
    (hvalue : AllFit t "variable_declarator" value) :
      Makes t (Free t Rank.isListed) (do
        if ← seesForEach then
          forEachRest below start (front ++ [playing "kind" tok.toCst, playing "left" target] ++ value)
        else
          let first ← finish "variable_declarator" bindingStart (playing "name" target :: value)
          let rest ← moreDeclarators below false
          let _ ← expect ";"
          let init ← finish (declarationKind tok.text) tok.start (tok.toCst :: first :: rest)
          forRest below start [playing "initializer" init]) := by
    refine .step seesForEach_makes fun _ => .ite (forEachRest_makes hb start (allFit_append.2 ⟨allFit_append.2
        ⟨hmarks _, allFit_cons.2 ⟨?_, allFit_one (htarget.playing (by decide) rfl)⟩⟩, heach⟩)) ?_
    · refine fit_playing_toCst hsolid (by decide) fun kinds hkinds => ?_
      cases hkinds
      exact htext
    · refine .bind (finish_makes (by decide) (allFit_cons.2 ⟨htarget.playing (by decide) rfl, hvalue⟩))
        fun first hfirst =>
        .bind (moreDeclarators_makes hb false) fun rest hrest => .step (expect_makes ";") fun _ =>
          .bind
            (.step get_makes fun _ => .pure (declaration_free hsolid htext (List.forall_mem_cons.2 ⟨hfirst, hrest⟩)))
            fun init hinit => ?_
      exact forRest_makes hb start (allFit_one (hinit.playing (by decide) rfl))
  exact .step (accept_makes "=") fun _ => .ite
    (.bind (hb (.assignment false)) fun _ hvalue => hrest _ (allFit_one (hvalue.playing (by decide) rfl))
      (allFit_one (hvalue.playing (by decide) rfl)))
    (hrest [] allFit_nil allFit_nil)

theorem forStatement_makes : Makes t (Free t Rank.isListed) (forStatement below) := by
  refine .step advance_makes fun word => .bind (acceptToken_makes "await") fun marks hmarks =>
    .step (expect_makes "(") fun _ =>
    .step (accept_makes ";") fun _ => .ite (forRest_makes hb _ allFit_nil)
      (Gives.of_token fun tok => Gives.bind following_gives
      fun followed =>
        Gives.ite (fun hstarts => forDeclaration_gives hb _ hmarks (text_of_startsVariables hstarts)) fun _ =>
        Gives.of_makes (.bind (hb (.expression false)) fun init hinit => .step seesForEach_makes fun _ => .ite ?_ ?_))
  · split
    · next target htarget =>
      have htarget := (hinit.mono fun _ => Rank.isInner_of_isExpression).toPattern? htarget
      exact forEachRest_makes hb _ (allFit_append.2 ⟨hmarks _, allFit_one (htarget.playing (by decide) rfl)⟩)
    · exact .refuse
  · exact .step (expect_makes ";") fun _ => forRest_makes hb _ (allFit_one (hinit.playing (by decide) rfl))

/-! ## Switches -/

theorem caseBody_makes : Makes t (fun l => ∀ c ∈ l, c.Free t Rank.isListed) (caseBody below) :=
  collect_makes (.step skipMarkupComments_makes fun _ => .step (sees_makes "case") fun _ =>
    .step (sees_makes "default") fun _ =>
    .step (sees_makes _) fun _ => .ite .none (.some (hb .statement)))

theorem switchCase_makes : Makes t (Free t Rank.isOperand) (switchCase below) :=
  .step startOffset_makes fun _ => .step (accept_makes "default") fun _ => .ite
    (.step (expect_makes ":") fun _ => .bind (caseBody_makes hb) fun _ hstatements =>
      finish_makes (by decide) (allFit_of_free hstatements (by decide)))
    (.step (expect_makes "case") fun _ => .bind (hb (.expression true)) fun _ htest => .step (expect_makes ":") fun _ =>
      .bind (caseBody_makes hb) fun _ hstatements => .step get_makes fun _ => .pure (switchCase_free htest hstatements))

theorem switchStatement_makes : Makes t (Free t Rank.isListed) (switchStatement below) :=
  .step advance_makes fun _ => .bind (head_makes hb) fun _ hvalue => .step startOffset_makes fun _ =>
    .step (expect_makes _) fun _ =>
    .bind (membersUntil_makes (switchCase_makes hb)) fun _ hcases =>
      .bind (finish_makes (p := Rank.isOperand) (by decide) (allFit_of_free hcases (by decide))) fun _ hinner =>
        finish_makes (by decide)
          (allFit_cons.2 ⟨hvalue.playing (by decide) rfl, allFit_one (hinner.playing (by decide) rfl)⟩)

/-! ## Jumps and exceptions -/

theorem returnStatement_makes : Makes t (Free t Rank.isListed) (returnStatement below) := by
  have hreturned : Makes t (AllFit t "return_statement") (returned below) :=
    .step token_makes fun _ => .ite (.pure allFit_nil) (.bind (hb (.expression true)) fun _ hinner =>
      .pure (allFit_one (hinner.fit (by decide))))
  exact .bind advance_makes fun _ hword => .bind hreturned fun _ hargument =>
    terminated_makes (by decide) (allFit_cons.2 ⟨fit_toCst hword _, hargument⟩)

theorem throwStatement_makes : Makes t (Free t Rank.isListed) (throwStatement below) :=
  .bind advance_makes fun _ hword => .step token_makes fun _ =>
    .ite .refuse (.bind (hb (.expression true)) fun _ hargument =>
    terminated_makes (by decide) (allFit_cons.2 ⟨fit_toCst hword _, allFit_one (hargument.fit (by decide))⟩))

theorem catchClause_makes : Makes t (fun c => c.Free t Rank.isOperand ∧ c.kind = "catch_clause")
    (catchClause below) := by
  refine .step advance_makes fun word => ?_
  have hrest (param : List Cst) (hparam : AllFit t "catch_clause" param) :
      Makes t (fun c => c.Free t Rank.isOperand ∧ c.kind = "catch_clause") (do
        let inner ← block below
        finish "catch_clause" word.start (param ++ [playing "body" inner])) :=
    .bind (block_makes hb) fun _ hinner => .step get_makes fun _ =>
      .pure ⟨free_makeNode (by decide) (allFit_append.2 ⟨hparam, allFit_one (hinner.fit (by decide) (by decide))⟩), rfl⟩
  exact .step (accept_makes "(") fun _ => .ite
    (.bind (hb .binding) fun _ htarget => .step (expect_makes ")") fun _ =>
      hrest _ (allFit_one (htarget.playing (by decide) rfl)))
    (hrest [] allFit_nil)

theorem finallyClause_makes : Makes t (fun c => c.Free t Rank.isOperand ∧ c.kind = "finally_clause")
    (finallyClause below) :=
  .step advance_makes fun _ => .bind (block_makes hb) fun _ hinner => .step get_makes fun _ =>
    .pure ⟨free_makeNode (by decide) (allFit_one (hinner.fit (by decide) (by decide))), rfl⟩

theorem tryStatement_makes : Makes t (Free t Rank.isListed) (tryStatement below) := by
  -- a clause can play its part in the statement only
  have hclause {field kind : String} {c : Cst} (h : c.Free t Rank.isOperand ∧ c.kind = kind)
      (htakes : Kind.takes "try_statement" (some field) Rank.isOperand)
      (hplayers : Kind.players? "try_statement" field = some [kind]) : AllFit t "try_statement" [playing field c] :=
    allFit_one (h.1.playing_of htakes fun kinds hkinds => by
      rw [hplayers] at hkinds
      cases hkinds
      exact h.2 ▸ List.mem_singleton_self _)
  refine .step advance_makes fun word => .bind (block_makes hb) fun inner hinner => ?_
  have hrest (handler finalizer : List Cst) (hhandler : AllFit t "try_statement" handler)
      (hfinalizer : AllFit t "try_statement" finalizer) : Makes t (Free t Rank.isListed) (do
      if (handler ++ finalizer).isEmpty then refuse
      else finish "try_statement" word.start ([playing "body" inner] ++ handler ++ finalizer)) :=
    .ite .refuse (finish_makes (by decide) (allFit_append.2 ⟨allFit_append.2
      ⟨allFit_one (hinner.fit (by decide) (by decide)), hhandler⟩, hfinalizer⟩))
  have hfinal (handler : List Cst) (hhandler : AllFit t "try_statement" handler) : Makes t (Free t Rank.isListed) (do
      let finalizer ←
        if ← sees "finally" then pure [playing "finalizer" (← finallyClause below)] else pure []
      if (handler ++ finalizer).isEmpty then refuse
      else finish "try_statement" word.start ([playing "body" inner] ++ handler ++ finalizer)) :=
    .step (sees_makes "finally") fun _ => .ite
      (.bind (finallyClause_makes hb) fun _ hfinally => hrest handler _ hhandler (hclause hfinally (by decide) rfl))
      (hrest handler [] hhandler allFit_nil)
  exact .step (sees_makes "catch") fun _ => .ite
    (.bind (catchClause_makes hb) fun _ hcatch => hfinal _ (hclause hcatch (by decide) rfl)) (hfinal [] allFit_nil)

/-! ## Functions and classes -/

/-- A declaration, or what it is if it need not have a name. -/
structure IsDeclared (t : List Char) (needsName : Bool) (c : Cst) : Prop where
  free : c.Free t Rank.isInner
  rank : needsName → c.rank.isDeclaration

omit hb in
theorem nameless_makes {kind' : String} (hkind : (kind, kind') ∈ nameless) (needsName : Bool)
    (h : c.Free t Rank.isDeclaration ∧ c.kind = kind) : Makes t (IsDeclared t needsName)
      (if (c.field? "name").isSome then return c
        else if needsName then refuse
        else return .node { c.mark with kind := kind' } c.children) := by
  obtain ⟨hc, rfl⟩ := h
  refine .ite (.pure ⟨hc.mono fun _ => Rank.isInner_of_isDeclaration, fun _ => hc.rank⟩)
    (Gives.ite (fun _ => .refuse) fun hfree =>
    Makes.pure ⟨(free_nameless hc hkind).mono fun _ => Rank.isInner_of_isOperand, fun h => absurd h hfree⟩)

theorem functionDeclaration_makes (start : Nat) (hfront : AnyFit t front) (needsName : Bool) :
    Makes t (IsDeclared t needsName) (functionDeclaration below start front needsName) :=
  .bind (function_makes hb (by decide) (by decide) start hfront) fun _ hc => nameless_makes (by decide) needsName hc

theorem classDeclaration_makes (start : Nat) (hfront : ∀ c ∈ front, c.Free t Rank.isOperand) (needsName : Bool) :
    Makes t (IsDeclared t needsName) (classDeclaration below start front needsName) :=
  .bind (classNode_makes hb (by decide) (by decide) start hfront) fun _ hc => nameless_makes (by decide) needsName hc

/-! ## Modules -/

theorem importStatement_makes : Makes t (Free t Rank.isDeclaration) (importStatement below) := by
  refine .bind advance_makes fun word hword => ?_
  have hrest (parts : List Cst) (hparts : AllFit t "import_statement" parts) : Makes t (Free t Rank.isDeclaration) (do
      let extra ← importAttribute below
      terminated "import_statement" word.start (word.toCst :: parts ++ extra)) := by
    have hextra : Makes t (AllFit t "import_statement") (importAttribute below) :=
      .step startOffset_makes fun _ => .step (accept_makes "with") fun _ => .ite
        (.bind (object_makes hb) fun _ hinner => .bind (finish_makes (p := Rank.isOperand) (by decide)
          (allFit_one (hinner.fit (by decide)))) fun _ hc => .pure (allFit_one (hc.fit (by decide))))
        (.pure allFit_nil)
    exact .bind hextra fun extra hextra => terminated_makes (by decide)
      (allFit_cons.2 ⟨fit_toCst hword _, allFit_append.2 ⟨hparts, hextra⟩⟩)
  exact Gives.of_token fun _ => .ite
    (fun hstring => Gives.pass fun hsolid =>
      hrest _ (allFit_one ((isString_leaf hsolid hstring).fit rfl (by decide)))) fun _ =>
      Gives.of_makes (.bind importClause_makes fun _ hnames => .bind (source_makes _ rfl (by decide)) fun _ hsource =>
        hrest _ (allFit_cons.2 ⟨hnames.fit (by decide), allFit_one hsource⟩))

theorem exportDefault_makes (start : Nat) (hfront : AllFit t "export_statement" front) :
    Makes t (Free t Rank.isDeclaration) (exportDefault below start front) := by
  have hdeclared (c : Cst) (h : IsDeclared t false c) : Makes t (Free t Rank.isDeclaration)
      (finish "export_statement" start
        (front ++ [playing (if (c.field? "name").isSome then "declaration" else "value") c])) := by
    refine finish_makes (by decide) (allFit_append.2 ⟨hfront, allFit_one ?_⟩)
    split
    · exact h.free.playing (by decide) rfl
    · exact h.free.playing (by decide) rfl
  exact .step token_makes fun tok => Gives.bind following_gives fun followed => Gives.of_makes
    (.ite (.bind (functionDeclaration_makes hb _ (fun _ => allFit_nil) false) hdeclared) (.ite
      (.bind advance_makes fun word hword => .bind
        (functionDeclaration_makes hb _ (fun kind => allFit_one (fit_toCst hword kind)) false) hdeclared)
      (.ite (.bind (decorators_makes hb) fun _ hdecorated =>
        .bind (classDeclaration_makes hb _ hdecorated false) hdeclared)
        (.bind (hb (.assignment true)) fun _ hvalue => terminated_makes (by decide)
          (allFit_append.2 ⟨hfront, allFit_one (hvalue.playing (by decide) rfl)⟩)))))

/-! ## Other statements -/

theorem labeled_gives (hname : tok.isFreeName) :
    Gives t (fun s => s.token = tok) (labeled below) fun c _ => c.Free t Rank.isListed ∧ c.kind = "labeled_statement" :=
  Gives.pass fun hsolid => .step (expect_makes ":") fun _ => .bind (body_makes hb) fun _ hinner =>
    .step get_makes fun _ => .pure ⟨free_makeNode (by decide)
      (allFit_cons.2 ⟨(isNameNode_leaf hsolid (spellsName_of_kind hsolid (.inl (kind_of_isFreeName hname)))
      (by decide)).fit (by decide) (by decide), allFit_one (hinner.playing (by decide) rfl)⟩), rfl⟩

theorem expressionStatement_makes :
    Makes t (fun c => c.Free t Rank.isListed ∧ c.kind = "expression_statement") (expressionStatement below) :=
  .bind (expression_makes hb true) fun _ hinner => .step semicolon_makes fun _ => .step get_makes fun _ =>
    .pure ⟨free_makeNode (by decide) (allFit_one (hinner.fit (by decide))), rfl⟩

theorem withStatement_makes : Makes t (Free t Rank.isListed) (withStatement below) :=
  .step advance_makes fun _ => .bind (head_makes hb) fun _ hobject => .bind (body_makes hb) fun _ hinner =>
    finish_makes (by decide)
      (allFit_cons.2 ⟨hobject.playing (by decide) rfl, allFit_one (hinner.playing (by decide) rfl)⟩)

section Export

variable (hdeclares : below.Declares t)
include hdeclares

theorem exportStatement_makes (start : Nat) (hfront : ∀ c ∈ front, c.Free t Rank.isOperand) :
    Makes t (Free t Rank.isDeclaration) (exportStatement below start front) := by
  refine .bind advance_makes fun word hword => Gives.of_token fun tok => ?_
  have hparts : AllFit t "export_statement" (front ++ [word.toCst]) :=
    allFit_append.2 ⟨allFit_of_free hfront (by decide), allFit_one (fit_toCst hword _)⟩
  refine .ite (fun _ => Gives.pass fun hsolid => exportDefault_makes hb start
      (allFit_append.2 ⟨hparts, allFit_one (fit_toCst hsolid _)⟩)) fun _ =>
    .ite (fun _ => Gives.of_makes (exportNames_makes start hparts)) fun _ =>
    .ite (fun _ => Gives.of_makes (exportAll_makes start hparts)) fun _ => .ite (fun hword => ?_) fun _ => .refuse
  refine Gives.bind (Gives.and (Gives.of_makes (hb .statement)) (hdeclares.mono ?_ fun _ _ h => h)) fun c => .ite
    (fun _ => .refuse) fun hbare => ?_
  · rintro s rfl
    exact hword
  · rintro s hs ⟨hc, hdeclarative⟩
    have hrank := hdeclarative.resolve_right fun hkind => hbare (List.contains_iff_mem.2 hkind)
    have hinner : c.Free t Rank.isInner := { hc with rank := Rank.isInner_of_isDeclaration hrank }
    exact finish_makes (by decide) (allFit_append.2 ⟨hparts, allFit_one (hinner.playing (by decide) rfl)⟩) s hs trivial

theorem decorated_makes : Makes t (Free t Rank.isDeclaration) (decorated below) :=
  .step startOffset_makes fun _ => .bind (decorators_makes hb) fun _ hmarks => .step (sees_makes "export") fun _ => .ite
    (exportStatement_makes hb hdeclares _ hmarks)
    ((classDeclaration_makes hb _ hmarks true).mono fun _ h => { h.free with rank := h.rank rfl })

omit hdeclares in
theorem byWord_makes : ∀ e ∈ byWord below, Makes t (Free t Rank.isListed) e.2 := by
  simp only [byWord, List.forall_mem_cons, List.not_mem_nil, false_implies, implies_true, and_true]
  exact ⟨ifStatement_makes hb, forStatement_makes hb, whileStatement_makes hb, doStatement_makes hb,
    jump_makes (by decide),
    jump_makes (by decide), returnStatement_makes hb, withStatement_makes hb, switchStatement_makes hb,
      throwStatement_makes hb,
    tryStatement_makes hb, wordStatement_makes⟩

/-- A statement, or a declaration if it starts like one. -/
structure IsStatement (t : List Char) (first : Token) (c : Cst) : Prop where
  free : c.Free t Rank.isListed
  declarative : declarationWords.any first.is → IsDeclarative c

theorem statement_gives (first : Token) :
    Gives t (fun s => s.token = first) (statement below) fun c _ => IsStatement t first c := by
  refine Gives.bind skipMarkupComments_keeps fun _ => ?_
  rintro s hs hkept
  refine (Gives.mono (Gives.token_again (Q := fun c _ => IsStatement t s.token c) ?_) (fun _ h => h) ?_) s hs rfl
  · generalize s.token = tok
    have hdeclaration {p : Parsing Cst} (h : Makes t (Free t Rank.isDeclaration) p) : Makes t (IsStatement t tok) p :=
      h.mono fun _ hc => ⟨hc.mono fun _ => Rank.isListed_of_isDeclaration, fun _ => .inl hc.rank⟩
    have hdeclared {p : Parsing Cst} (h : Makes t (IsDeclared t true) p) : Makes t (IsStatement t tok) p :=
      hdeclaration (h.mono fun _ hc => { hc.free with rank := hc.rank rfl })
    refine Gives.bind following_gives fun followed => ?_
    split
    · next parser hlookup =>
      obtain ⟨before, after, hsplit, -⟩ := List.lookup_eq_some_iff.1 hlookup
      have hmem : (tok.text, parser) ∈ byWord below := by simp [hsplit]
      refine Gives.of_makes ((byWord_makes hb _ hmem).mono fun c hc => ⟨hc, fun hword => ?_⟩)
      rw [lookup_byWord_eq_none hword] at hlookup
      cases hlookup
    · refine .ite (fun hbrace => Gives.of_makes ?_) fun _ =>
        .ite (fun hempty => Gives.pass fun hsolid => .pure ?_) fun _ =>
        .ite (fun hstarts => ?_) fun _ => .ite (fun _ => Gives.of_makes ?_) fun _ =>
          .ite (fun _ => Gives.of_makes ?_) fun _ =>
        .ite (fun _ => Gives.of_makes ?_) fun _ => .ite (fun _ => Gives.of_makes ?_) fun _ =>
          .ite (fun _ => Gives.of_makes ?_)
        fun _ => .ite (fun _ => Gives.of_makes ?_) fun _ => .ite (fun hlabel => ?_) fun _ => Gives.of_makes ?_
      · exact (braces_makes hb (expressionStatement_makes hb |>.mono fun _ h => h.1) (fun _ h => h)
          fun _ => Rank.isListed_of_isDeclaration).mono fun _ hc =>
            ⟨hc, fun hword => absurd hword (not_any_of_is hbrace (by decide))⟩
      · exact ⟨free_leaf hsolid (by decide) rfl (by decide), fun hword =>
          absurd hword (not_any_of_is hempty (by decide))⟩
      · exact (variableDeclaration_gives hb (text_of_startsVariables hstarts)).mono (fun _ h => h)
          fun _ _ hc => ⟨hc.mono fun _ => Rank.isListed_of_isDeclaration, fun _ => .inl hc.rank⟩
      · exact hdeclared (functionDeclaration_makes hb _ (fun _ => allFit_nil) true)
      · exact .bind advance_makes fun word hword =>
          hdeclared (functionDeclaration_makes hb _ (fun kind => allFit_one (fit_toCst hword kind)) true)
      · exact hdeclared (classDeclaration_makes hb _ (fun _ h => absurd h List.not_mem_nil) true)
      · exact hdeclaration (decorated_makes hb hdeclares)
      · exact hdeclaration (importStatement_makes hb)
      · exact hdeclaration (exportStatement_makes hb hdeclares _ fun _ h => absurd h List.not_mem_nil)
      · exact (labeled_gives hb (Bool.and_eq_true_iff.1 hlabel).1).mono (fun _ h => h)
          fun _ _ hc => ⟨hc.1, fun _ => .inr (by rw [hc.2]; decide)⟩
      · exact (expressionStatement_makes hb).mono fun _ hc => ⟨hc.1, fun _ => .inr (by rw [hc.2]; decide)⟩
  · -- comments in markup style do not come before a word of declarations
    exact fun _ _ hc => ⟨hc.free, fun hword => hc.declarative (by rw [hkept hword]; exact hword)⟩

end Export

end Below

end ScriptTidy.Grammar
