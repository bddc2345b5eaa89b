/-
What readers give of sound concrete trees. A reader that is given a sound node of its kind gives a sound tree
of the rank of that node, if the nodes below are read so. Only what stands behind the point of a meta property
may begin with anything.
-/
import ScriptTidy.Proofs.Concrete.Parts
import ScriptTidy.Proofs.Concrete.Readers
import ScriptTidy.Proofs.Number.Values

namespace ScriptTidy

open Node Cst

variable {t : List Char} {p : Rank → Bool} {kind field : String} {c d : Cst}

namespace Node

variable {span : Span} {bindings : List Node} {word : String}

theorem variableDeclaration_ranked (hword : word ∈ ["var", "let", "const"])
    (hbindings : AllHave Rank.isInner bindings) :
    (plain span (.variableDeclaration word bindings)).Ranked .declaration := by
  obtain ⟨hleads, hspelled⟩ := (by decide : ∀ word ∈ ["var", "let", "const"],
    word.toList.head?.any Spacing.leads ∧ (word == "var" || word == "let" || word == "const") = true) word hword
  refine ranked_plain ⟨allStand_of_isUniform rfl fun m hm => (hbindings m hm).inner, rfl, ?_, rfl⟩ hspelled rfl rfl
    fun m hm => (hbindings m hm).sound
  exact Bool.and_eq_true_iff.2 ⟨hleads, List.all_eq_true.2 fun m hm => (hbindings m hm).whole⟩

/-- A case of a switch, or a catch clause: it is sound, and can stand in its role only. -/
structure StandsAs (role : Role) (n : Node) : Prop where
  sound : n.Sound
  fits : n.form.fits role

end Node

namespace Cst

/-- An operand of a sequence. -/
structure IsExpression (t : List Char) (c : Cst) : Prop where
  sound : c.Sound t
  named : c.mark.isNamed
  rank : c.rank.isExpression

theorem IsA.isExpression_of_mem (h : c.IsA t "sequence_expression") (hd : d ∈ c.named) : d.IsExpression t where
  sound := (h.belongs hd).sound
  named := (h.belongs hd).named
  rank := Kind.isExpression_of_admits (by decide) (h.belongs hd).admits

/-- The operands of sequences are expressions, and every sequence has some. By recursion on what is still to be looked
at. -/
theorem isExpression_operandsFrom {stack : List Cst} (h : ∀ d ∈ stack, d.IsExpression t) :
    (∀ d ∈ operandsFrom stack, d.IsExpression t) ∧ (stack ≠ [] → operandsFrom stack ≠ []) := by
  fun_induction operandsFrom stack with
  | case1 => exact ⟨h, fun hne => absurd rfl hne⟩
  | case2 c stack hkind ih =>
    obtain ⟨hc, hstack⟩ := List.forall_mem_cons.1 h
    have hisA : c.IsA t "sequence_expression" := ⟨hc.sound, hc.named, beq_iff_eq.1 hkind⟩
    obtain ⟨hall, hne⟩ := ih (List.forall_mem_append.2 ⟨fun _ => hisA.isExpression_of_mem, hstack⟩)
    exact ⟨hall, fun _ => hne fun hnil => hisA.named_ne_nil (List.append_eq_nil_iff.1 hnil).1⟩
  | case3 c stack hkind ih =>
    obtain ⟨hc, hstack⟩ := List.forall_mem_cons.1 h
    exact ⟨List.forall_mem_cons.2 ⟨hc, (ih hstack).1⟩, fun _ => List.cons_ne_nil _ _⟩

end Cst

/-- Of the text of a meta property the part in front of the point begins with one of two letters, and the part behind it
ends with one of two. -/
theorem Kind.names_of_spellsMeta {w : List Char} (h : Kind.spellsMeta w) :
    (∃ a, (w.takeWhile (· != '.')).head? = some a ∧ a ∈ ['n', 'i']) ∧
      ∃ z, ((w.dropWhile (· != '.')).tail).getLast? = some z ∧ z ∈ ['t', 'a'] := by
  rw [spellsMeta, Bool.and_eq_true, Bool.and_eq_true] at h
  obtain ⟨⟨hfirst, hpoint⟩, hlast⟩ := h
  obtain ⟨a, ha, hfirst⟩ := (Option.any_eq_true _ _).1 hfirst
  obtain ⟨z, hz, hlast⟩ := (Option.any_eq_true _ _).1 hlast
  have ha' : a ∈ ['n', 'i'] := List.contains_iff_mem.1 hfirst
  have hz' : z ∈ ['t', 'a'] := List.contains_iff_mem.1 hlast
  refine ⟨⟨a, ?_, ha'⟩, z, ?_, hz'⟩
  · obtain ⟨rest, rfl⟩ := List.head?_eq_some_iff.1 ha
    rw [List.takeWhile_cons, if_pos (List.all_eq_true.1 (by decide : ['n', 'i'].all (· != '.') = true) a ha')]
    rfl
  · obtain ⟨back, hback⟩ := exists_dropWhile_ne (List.contains_iff_mem.1 hpoint)
    rw [← List.takeWhile_append_dropWhile (p := (· != '.')) (l := w), hback, List.getLast?_append] at hz
    rw [hback, List.tail_cons]
    cases back with
    | nil =>
      obtain rfl := Option.some.inj hz
      exact absurd hz' (by decide)
    | cons b back => rwa [List.getLast?_cons_cons, List.getLast?_cons, Option.some_or, ← List.getLast?_cons] at hz

theorem not_isEmpty_of_head? {w : List Char} {f : Char → Bool} (h : w.head?.any f) : (!w.isEmpty) = true := by
  cases w with
  | nil => cases h
  | cons c w => rfl

namespace Reader

variable {r : Reader}

section Below

variable (hr : r.Below t)
include hr

/-! ### Statements -/

theorem block_ranked (hc : c.IsA t "statement_block") : Yields (Ranked .declaration) (r.block c) :=
  .bind (readAll_has hr hc (Kind.isListed_of_admits (by decide))) fun _ hbody =>
    .pure (ranked_common rfl rfl (List.all_eq_true.2 fun n hn => (hbody n hn).listed) rfl hbody.statement hbody.any)

/-- The body of a function and the like. -/
theorem body_has (hd : d.Plays t kind "body") (hplayers : Kind.players? kind "body" = some ["statement_block"]) :
    Yields (Has Rank.isInner) (r.block d) :=
  (block_ranked hr (hd.isA_player hplayers (by decide) (by decide))).imp fun _ h => h.has rfl

theorem expressionStatement_ranked (hc : c.IsA t "expression_statement") :
    Yields (Ranked .statement) (r.expressionStatement c) :=
  .bind (readFirst_has hr hc (Kind.isExpression_of_admits (by decide))) fun _ hexpression =>
    .pure (ranked_uniform rfl rfl rfl hexpression.expression rfl (by simp [Form.children, hexpression.asInner]))

theorem variableDeclarator_ranked (hc : c.IsA t "variable_declarator") :
    Yields (Ranked .part) (r.variableDeclarator c) :=
  .bind (readField_has (p := Rank.isInner) hr hc (by decide)) fun _ hid =>
    .bind (readOptional_has (p := Rank.isInner) hr hc (by decide)) fun _ hinit =>
      .pure (ranked_uniform rfl rfl rfl rfl rfl (by simp [Form.children, hid, hinit]))

theorem declaration_ranked (hc : c.IsA t kind) {word : String} (hword : word ∈ ["var", "let", "const"]) :
    Yields (Ranked .declaration) (r.declaration word c) := by
  refine .bind (.mapM_of_mem fun d hd => ?_) fun _ hbindings => .pure (variableDeclaration_ranked hword hbindings)
  obtain ⟨hmem, hdeclarator⟩ := List.mem_filter.1 hd
  exact (variableDeclarator_ranked hr ((hc.belongs hmem).isA (beq_iff_eq.1 hdeclarator))).imp fun _ h => h.has rfl

theorem lexicalDeclaration_ranked (hc : c.IsA t "lexical_declaration") :
    Yields (Ranked .declaration) (r.lexicalDeclaration c) := by
  have hfirst : c.children.head?.all fun d => ["let", "const"].contains d.kind := hc.suits
  refine .bind (P := (· ∈ ["let", "const"])) ?_ fun word hword =>
    declaration_ranked hr hc (List.mem_cons_of_mem _ hword)
  unfold firstKind
  split
  · next hchildren =>
    rw [hchildren] at hfirst
    exact .pure (List.contains_iff_mem.1 hfirst)
  · exact .error _

theorem ifStatement_ranked (hc : c.IsA t "if_statement") : Yields (Ranked .statement) (r.ifStatement c) := by
  refine .bind (.option_mapM_of_mem fun _ hd => readFirst_any hr (hc.plays hd).sound) fun alternate halternate =>
    .bind (require_plays hc _) fun _ hd => .bind (unparenthesized_has hr hd (by decide)) fun _ htest =>
      .bind (readField_has (p := Rank.isAny) hr hc (by decide)) fun _ hconsequent =>
        .pure (ranked_common rfl rfl rfl rfl ?_ ?_)
  all_goals have halternate : AllHave Rank.isAny alternate.toList := halternate
  · simp [Form.markRoles, Form.children, Option.toList_map, htest.inner, hconsequent.statement, halternate.statement]
  · simp [Form.children, htest.any, hconsequent, halternate]

theorem whileStatement_ranked (hc : c.IsA t "while_statement") : Yields (Ranked .statement) (r.whileStatement c) :=
  .bind (require_plays hc _) fun _ hd => .bind (unparenthesized_has hr hd (by decide)) fun _ htest =>
    .bind (readField_has (p := Rank.isAny) hr hc (by decide)) fun _ hbody =>
      .pure (ranked_common rfl rfl rfl rfl (by simp [Form.markRoles, Form.children, htest.inner, hbody.statement])
        (by simp [Form.children, htest.any, hbody]))

theorem doStatement_ranked (hc : c.IsA t "do_statement") : Yields (Ranked .statement) (r.doStatement c) :=
  .bind (readField_has (p := Rank.isAny) hr hc (by decide)) fun _ hbody => .bind (require_plays hc _) fun _ hd =>
    .bind (unparenthesized_has hr hd (by decide)) fun _ htest =>
      .pure (ranked_common rfl rfl rfl rfl (by simp [Form.markRoles, Form.children, htest.inner, hbody.statement])
        (by simp [Form.children, htest.any, hbody]))

theorem forClause_has (hc : c.IsA t "for_statement") (hgives : Kind.gives "for_statement" field Rank.isInner) :
    Yields (fun n => AllHave Rank.isInner n.toList) (r.forClause (c.field? field)) := by
  have hsome (n : Node) (h : n.Has Rank.isInner) :
      Yields (fun n => AllHave Rank.isInner n.toList) (pure (some n) : Reading _) := .pure (by simp [h])
  unfold forClause
  split
  · exact .pure allHave_nil
  · next d hd =>
    split
    · exact .pure allHave_nil
    · next hnamed =>
      rw [Bool.or_eq_true, not_or, Bool.not_eq_true', Bool.not_eq_false] at hnamed
      split
      · next hkind =>
        have hisA : d.IsA t "expression_statement" := ⟨(hc.plays hd).sound, hnamed.2, beq_iff_eq.1 hkind⟩
        exact .bind (readFirst_has hr hisA (Kind.isInner_of_admits (by decide))) hsome
      · exact .bind (read_plays hr (hc.plays hd) hgives) hsome

theorem forStatement_ranked (hc : c.IsA t "for_statement") : Yields (Ranked .statement) (r.forStatement c) :=
  .bind (forClause_has hr hc (by decide)) fun _ hinit => .bind (forClause_has hr hc (by decide)) fun _ htest =>
    .bind (forClause_has hr hc (by decide)) fun _ hupdate =>
      .bind (readField_has (p := Rank.isAny) hr hc (by decide)) fun _ hbody => .pure (ranked_common rfl rfl rfl rfl
        (by simp [Form.markRoles, Form.children, Option.toList_map, hinit.inner, htest.inner, hupdate.inner,
          hbody.statement])
        (by simp [Form.children, hinit.any, htest.any, hupdate.any, hbody]))

theorem forEachTarget_has (hc : c.IsA t "for_in_statement") (hd : d.Plays t "for_in_statement" "left") :
    Yields (Has Rank.isInner) (r.forEachTarget c d) := by
  refine .bind (read_plays (p := Rank.isInner) hr hd (by decide)) fun left hleft => ?_
  split
  · exact .pure hleft
  · next word hword =>
    refine .bind (readOptional_has (p := Rank.isInner) hr hc (by decide)) fun init hinit => .pure ?_
    have hbinding : (r.node d (.variableDeclarator left init)).Ranked .part :=
      ranked_uniform rfl rfl rfl rfl rfl (by simp [Form.children, hleft, hinit])
    exact (variableDeclaration_ranked ((hc.plays hword).players _ rfl)
      (by simp [hbinding.has (p := Rank.isInner) rfl])).has rfl

theorem forInStatement_ranked (hc : c.IsA t "for_in_statement") : Yields (Ranked .statement) (r.forInStatement c) := by
  refine .bind (require_plays hc _) fun _ hd => .bind (forEachTarget_has hr hc hd) fun left hleft => .step fun _ =>
    .bind (readField_has (p := Rank.isInner) hr hc (by decide)) fun right hright =>
      .bind (readField_has (p := Rank.isAny) hr hc (by decide)) fun body hbody => .ite (.pure ?_) (.pure ?_)
  · exact ranked_common rfl rfl rfl rfl
      (by simp [Form.markRoles, Form.children, hleft.inner, hright.inner, hbody.statement])
      (by simp [Form.children, hleft.any, hright.any, hbody])
  · exact ranked_common rfl rfl rfl rfl
      (by simp [Form.markRoles, Form.children, hleft.inner, hright.inner, hbody.statement])
      (by simp [Form.children, hleft.any, hright.any, hbody])

theorem switchCase_stands (hc : c.Sound t) (hnamed : c.mark.isNamed) :
    Yields (StandsAs .case) (r.switchCase c) := by
  have hsound (test : Option Node) {consequent : List Node} (htest : AllHave Rank.isInner test.toList)
      (hconsequent : AllHave Rank.isListed consequent) : (r.node c (.switchCase test consequent)).StandsAs .case := by
    refine ⟨sound_plain ⟨?_, rfl, ?_, rfl⟩ (List.all_eq_true.2 fun n hn => (hconsequent n hn).listed) ?_, rfl⟩
    · show AllStand (Form.switchCase (test.map (·, .inner)) (consequent.map (·, .statement))).children
      simp [Form.children, Option.toList_map, htest.inner, hconsequent.statement]
    · have hparts : AllHave Rank.isAny (test.toList ++ consequent) := by simp [htest.any, hconsequent.any]
      exact List.all_eq_true.2 fun m hm => (hparts m hm).whole
    · have hparts : AllHave Rank.isAny (test.toList ++ consequent) := by simp [htest.any, hconsequent.any]
      exact fun m hm => (hparts m hm).sound
  unfold switchCase
  split
  · next hkind =>
    have hisA : c.IsA t "switch_case" := ⟨hc, hnamed, beq_iff_eq.1 hkind⟩
    have hsuits := Bool.and_eq_true_iff.1 hisA.suits
    refine .bind (.bind (firstNamed_head c) fun d hd => ?_) fun test htest => .bind (.mapM_of_mem fun d hd => ?_)
      fun consequent hconsequent => .pure (hsound (some test) (by simpa using htest) hconsequent)
    · rw [hd] at hsuits
      refine read_belongs hr (hisA.belongs (List.mem_of_mem_head? hd)) fun hadmits => ?_
      rw [beq_iff_eq.1 hsuits.1] at hadmits
      exact (Bool.and_eq_true_iff.1 hadmits).2
    · have hfield := List.all_eq_true.1 hsuits.2 d hd
      refine read_belongs hr (hisA.belongs (List.mem_of_mem_tail hd)) fun hadmits => ?_
      have hlisted := (Bool.and_eq_true_iff.1 hadmits).2
      have hvalue : ¬(d.mark.field == some "value") = true := by simpa using hfield
      rwa [if_neg (by decide), if_pos (by decide), if_neg hvalue] at hlisted
  · split
    · next hkind =>
      have hisA : c.IsA t "switch_default" := ⟨hc, hnamed, beq_iff_eq.1 hkind⟩
      exact .bind (readAll_has hr hisA (Kind.isListed_of_admits (by decide))) fun consequent hconsequent =>
        .pure (hsound none allHave_nil hconsequent)
    · exact .error _

theorem switchStatement_ranked (hc : c.IsA t "switch_statement") :
    Yields (Ranked .statement) (r.switchStatement c) := by
  refine .bind (require_plays hc _) fun body hbody => .bind
    (.mapM_of_mem fun d hd => switchCase_stands hr (hbody.sound.child (mem_of_named hd)) (named_of_mem hd))
    fun cases hcases => .bind (require_plays hc _) fun _ hd => .bind (unparenthesized_has hr hd (by decide))
      fun discriminant hdiscriminant => .pure (ranked_plain ⟨?_, rfl, hdiscriminant.whole, rfl⟩ rfl rfl rfl ?_)
  · exact allStand_cons.2 ⟨hdiscriminant.inner, allStand_map fun n hn => (hcases n hn).fits⟩
  · exact List.forall_mem_cons.2 ⟨hdiscriminant.sound, fun n hn => (hcases n hn).sound⟩

theorem catchClause_stands (hc : c.IsA t "catch_clause") :
    Yields (fun n => n.StandsAs .handler ∧ n.form.isWhole) (r.catchClause c) := by
  refine .bind (readOptional_has (p := Rank.isInner) hr hc (by decide)) fun param hparam => .bind (require_plays hc _)
    fun _ hd => .bind (body_has hr hd rfl) fun body hbody => .pure ⟨⟨sound_plain ⟨?_, rfl, ?_, rfl⟩ rfl ?_, rfl⟩, rfl⟩
  all_goals have hparts : AllHave Rank.isInner (param.toList ++ [body]) := by simp [hparam, hbody]
  · exact allStand_of_isUniform rfl fun m hm => (hparts m hm).inner
  · exact List.all_eq_true.2 fun m hm => (hparts m hm).whole
  · exact fun m hm => (hparts m hm).sound

theorem tryStatement_ranked (hc : c.IsA t "try_statement") : Yields (Ranked .statement) (r.tryStatement c) := by
  have hfinally {d : Cst} (hd : c.field? "finalizer" = some d) : d.IsA t "finally_clause" :=
    (hc.plays hd).isA_player rfl (by decide) (by decide)
  refine .bind
    (.option_mapM_of_mem fun _ hd => catchClause_stands hr ((hc.plays hd).isA_player rfl (by decide) (by decide)))
    fun handler hhandler => .bind (.option_mapM_of_mem fun _ hd => .bind (require_plays (hfinally hd) _) fun _ hd =>
      body_has hr hd rfl) fun finalizer hfinalizer => .bind (require_plays hc _) fun _ hd =>
        .bind (body_has hr hd rfl) fun block hblock => .pure (ranked_plain ⟨?_, rfl, ?_, rfl⟩ rfl rfl rfl ?_)
  all_goals have hfinalizer : AllHave Rank.isInner finalizer.toList := hfinalizer
  · have hstand : AllStand (handler.toList.map (·, .handler)) := allStand_map fun n hn => (hhandler n hn).1.fits
    show AllStand (Form.tryStatement (block, .inner) (handler.map (·, .handler)) (finalizer.map (·, .inner))).children
    simp [Form.children, Option.toList_map, hblock.inner, hstand, hfinalizer.inner]
  · have hwhole : ∀ n ∈ [block] ++ handler.toList ++ finalizer.toList, n.form.isWhole := by
      simp only [List.forall_mem_append, List.forall_mem_singleton]
      exact ⟨⟨hblock.whole, fun n hn => (hhandler n hn).2⟩, fun n hn => (hfinalizer n hn).whole⟩
    exact List.all_eq_true.2 hwhole
  · have hsound : ∀ n ∈ [block] ++ handler.toList ++ finalizer.toList, n.Sound := by
      simp only [List.forall_mem_append, List.forall_mem_singleton]
      exact ⟨⟨hblock.sound, fun n hn => (hhandler n hn).1.sound⟩, fun n hn => (hfinalizer n hn).sound⟩
    exact hsound

theorem returnStatement_ranked (hc : c.IsA t "return_statement") : Yields (Ranked .statement) (r.returnStatement c) :=
  .bind (readFirst?_has hr hc (Kind.isInner_of_admits (by decide))) fun _ hargument =>
    .pure (ranked_uniform rfl rfl rfl rfl rfl hargument)

theorem throwStatement_ranked (hc : c.IsA t "throw_statement") : Yields (Ranked .statement) (r.throwStatement c) :=
  .bind (readFirst_has hr hc (Kind.isInner_of_admits (by decide))) fun _ hargument =>
    .pure (ranked_uniform rfl rfl rfl rfl rfl (by simp [Form.children, hargument]))

/-- The label that a statement leaves for. -/
theorem target_has (hc : c.IsA t kind) (hkind : kind ∈ Kind.jumps) :
    Yields (fun n => AllHave Rank.isInner n.toList) (r.identifier? c.named.head?) := by
  refine .option_mapM_of_mem fun d hd => ?_
  have hmem := List.mem_of_mem_head? hd
  exact (identifier_ranked hr ((hc.belongs hmem).isA rfl) (hc.kind_of_jumps hkind hmem)).imp fun _ h => h.1.has rfl

theorem breakStatement_ranked (hc : c.IsA t "break_statement") : Yields (Ranked .statement) (r.breakStatement c) :=
  .bind (target_has hr hc (by decide)) fun _ hlabel => .pure (ranked_uniform rfl rfl rfl rfl rfl hlabel)

theorem continueStatement_ranked (hc : c.IsA t "continue_statement") :
    Yields (Ranked .statement) (r.continueStatement c) :=
  .bind (target_has hr hc (by decide)) fun _ hlabel => .pure (ranked_uniform rfl rfl rfl rfl rfl hlabel)

theorem labeledStatement_ranked (hc : c.IsA t "labeled_statement") :
    Yields (Ranked .statement) (r.labeledStatement c) :=
  .bind (require_plays hc _) fun _ hd => .bind (playedName_ranked hr hd rfl (by decide)) fun label hlabel =>
    .bind (readField_has (p := Rank.isAny) hr hc (by decide)) fun body hbody =>
      have hname : label.Has Rank.isInner := hlabel.1.has rfl
      .pure (ranked_common rfl rfl hlabel.2 rfl (by simp [Form.markRoles, Form.children, hname.inner, hbody.statement])
        (by simp [Form.children, hname.any, hbody]))

/-! ### Functions and classes -/

theorem params_has (hd : d.Plays t kind "parameters") : Yields (AllHave Rank.isInner) (r.params d) :=
  readAll_has hr (hd.isA_player rfl (by decide) (by decide)) (Kind.isInner_of_admits (by decide))

/-- The parameters of a function, none if they are missing. -/
theorem params?_has (hc : c.IsA t kind) : Yields (AllHave Rank.isInner) (r.params (c.field? "parameters")) := by
  cases hparameters : c.field? "parameters" with
  | none => exact .pure allHave_nil
  | some d => exact params_has hr (hc.plays hparameters)

theorem functionDeclaration_ranked (hc : c.IsA t kind)
    (hkind : kind ∈ ["function_declaration", "generator_function_declaration"]) :
    Yields (Ranked .declaration) (r.functionDeclaration c) := by
  obtain ⟨hname, hbody⟩ := (by decide : ∀ kind ∈ ["function_declaration", "generator_function_declaration"],
    Kind.players? kind "name" = some nameKinds ∧ Kind.players? kind "body" = some ["statement_block"]) kind hkind
  refine .bind (require_plays hc _) fun _ hd => .bind (playedName_ranked hr hd hname (by decide)) fun id hid =>
    .bind (params?_has hr hc) fun params hparams => .bind (require_plays hc _) fun _ hd =>
      .bind (body_has hr hd hbody) fun body hblock => .pure (ranked_uniform rfl rfl rfl rfl rfl ?_)
  simp [Form.children, hid.1.has (p := Rank.isInner) rfl, hparams, hblock]

theorem functionExpression_ranked (hc : c.IsA t kind)
    (hkind : kind ∈ ["function_expression", "function", "generator_function"]) :
    Yields (Ranked .operand) (r.functionExpression c) := by
  obtain ⟨hname, hbody⟩ := (by decide : ∀ kind ∈ ["function_expression", "function", "generator_function"],
    Kind.players? kind "name" = some nameKinds ∧ Kind.players? kind "body" = some ["statement_block"]) kind hkind
  refine .bind (name?_has hr hc hname (by decide)) fun id hid => .bind (params?_has hr hc) fun params hparams =>
    .bind (require_plays hc _) fun _ hd => .bind (body_has hr hd hbody) fun body hblock =>
      .pure (ranked_uniform rfl rfl rfl rfl rfl ?_)
  simp [Form.children, hid, hparams, hblock]

theorem arrowFunction_ranked (hc : c.IsA t "arrow_function") : Yields (Ranked .operand) (r.arrowFunction c) := by
  have hbody (params : List Node) (hparams : AllHave Rank.isInner params) : Yields (Ranked .operand)
      (do return r.node c (.arrowFunctionExpression params (← r.readField c "body") (c.hasToken "async"))) :=
    .bind (readField_has (p := Rank.isInner) hr hc (by decide)) fun _ hbody =>
      .pure (ranked_uniform rfl rfl rfl rfl rfl (by simp [Form.children, hparams, hbody]))
  unfold arrowFunction
  split
  · next d hd =>
    exact .bind (read_plays (p := Rank.isInner) hr (hc.plays hd) (by decide)) fun param hparam =>
      hbody [param] (by simp [hparam])
  · exact .bind (params?_has hr hc) hbody

theorem heritage_has (hc : c.IsA t kind) : Yields (fun n => AllHave Rank.isInner n.toList) (r.heritage c) := by
  refine .option_mapM_of_mem fun d hd => ?_
  have hkind : (d.kind == "class_heritage") = true :=
    List.find?_some (p := fun d : Cst => d.kind == "class_heritage") hd
  have hisA := (hc.belongs (List.mem_of_find?_eq_some hd)).isA (beq_iff_eq.1 hkind)
  exact readFirst_has hr hisA (Kind.isInner_of_admits (by decide))

theorem classBody_ranked (hc : c.Sound t) : Yields (Ranked .part) (r.classBody c) :=
  .bind (readAll_any hr hc) fun _ hbody => .pure (ranked_common rfl rfl rfl rfl hbody.statement hbody)

theorem classDeclaration_ranked (hc : c.IsA t "class_declaration") :
    Yields (Ranked .declaration) (r.classDeclaration c) := by
  refine .step fun _ => .bind (require_plays hc _) fun _ hd =>
    .bind (playedName_ranked hr hd rfl (by decide)) fun id hid =>
    .bind (heritage_has hr hc) fun superclass hsuperclass => .bind (require_plays hc _) fun _ hd =>
      .bind (classBody_ranked hr hd.sound) fun body hbody => .pure (ranked_uniform rfl rfl rfl rfl rfl ?_)
  simp [Form.children, hid.1.has (p := Rank.isInner) rfl, hsuperclass, hbody.has (p := Rank.isInner) rfl]

theorem classExpression_ranked (hc : c.IsA t "class") : Yields (Ranked .operand) (r.classExpression c) := by
  refine .step fun _ => .bind (name?_has hr hc rfl (by decide)) fun id hid => .bind (heritage_has hr hc)
    fun superclass hsuperclass => .bind (require_plays hc _) fun _ hd => .bind (classBody_ranked hr hd.sound)
      fun body hbody => .pure (ranked_uniform rfl rfl rfl rfl rfl ?_)
  simp [Form.children, hid, hsuperclass, hbody.has (p := Rank.isInner) rfl]

theorem methodFunction_stands (hc : c.IsA t "method_definition") :
    Yields (fun n => n.StandsAs .method ∧ n.form.isWhole) (r.methodFunction c) := by
  refine .bind (require_plays hc _) fun first hd => .bind (require_plays hc _) fun last he => .bind (params_has hr hd)
    fun params hparams => .bind (body_has hr he rfl) fun body hbody => .pure ?_
  have hranked : (plain (r.source.span first last)
      (.functionExpression none params body (c.hasToken "async") (c.hasToken "*"))).Ranked .operand :=
    ranked_uniform rfl rfl rfl rfl rfl (by simp [Form.children, hparams, hbody])
  exact ⟨⟨hranked.sound, rfl⟩, rfl⟩

theorem memberName_has (hd : d.Plays t kind field) (hgives : Kind.gives kind field Rank.isInner) :
    Yields (fun name => name.1.Has Rank.isInner) (r.memberName d) := by
  unfold memberName
  split
  · next hkind =>
    have hisA := hd.isA (Kind.not_mem_of_gives hgives) (beq_iff_eq.1 hkind) (by decide)
    exact .bind (readFirst_has hr hisA (Kind.isInner_of_admits (by decide))) fun _ hname => .pure hname
  · exact .bind (read_plays hr hd hgives) fun _ hname => .pure hname

theorem methodDefinition_ranked (hc : c.IsA t "method_definition") : Yields (Ranked .part) (r.methodDefinition c) := by
  refine .step fun _ => .bind (require_plays hc _) fun _ hd =>
    .bind (memberName_has hr hd (by decide)) fun name hname =>
    .bind (methodFunction_stands hr hc) fun value hvalue => .pure (ranked_plain ⟨?_, rfl, ?_, rfl⟩ rfl rfl rfl ?_)
  · exact allStand_cons.2 ⟨hname.inner, allStand_cons.2 ⟨hvalue.1.fits, allStand_nil⟩⟩
  · exact List.all_eq_true.2 (List.forall_mem_cons.2 ⟨hname.whole, List.forall_mem_singleton.2 hvalue.2⟩)
  · exact List.forall_mem_cons.2 ⟨hname.sound, List.forall_mem_singleton.2 hvalue.1.sound⟩

theorem fieldDefinition_ranked (hc : c.IsA t "field_definition") : Yields (Ranked .part) (r.fieldDefinition c) :=
  .step fun _ => .bind (require_plays hc _) fun _ hd => .bind (memberName_has hr hd (by decide)) fun _ hname =>
    .bind (readOptional_has (p := Rank.isInner) hr hc (by decide)) fun _ hvalue =>
      .pure (ranked_uniform rfl rfl rfl rfl rfl (by simp [Form.children, hname, hvalue]))

/-! ### Literals -/

omit hr in
theorem literal_ranked {value : LiteralValue} {raw : String} (hworded : (Form.literal value raw : Form Node).isWorded)
    (hspelled : (Form.literal value raw : Form Node).isSpelled)
    (hnumber : (r.node c (.literal value raw)).isNaN = false) :
    (r.node c (.literal value raw)).Ranked .operand :=
  ranked_plain ⟨allStand_nil, rfl, hworded, hnumber⟩ hspelled rfl rfl fun _ h => nomatch h

theorem string_ranked (hc : c.IsA t "string") : Yields (Ranked .operand) (r.string c) := by
  refine .bind (text_spelled hr hc rfl) fun raw hraw => ?_
  dsimp only
  split
  · exact .pure (literal_ranked rfl hraw rfl)
  · exact .error _

theorem number_ranked (hc : c.IsA t "number") : Yields (Ranked .operand) (r.number c) := by
  refine .bind (text_spelled hr hc rfl) fun raw hraw => ?_
  split
  · next value hvalue =>
    have hhead := (Bool.and_eq_true_iff.1 hraw).1
    refine .pure (literal_ranked ?_ (not_isEmpty_of_head? hhead) ?_)
    · have hword := Grammar.isWord_of_spellsNumber hraw
      rwa [String.ofList_toList] at hword
    · exact Option.isNone_eq_false_iff.2 (place?_of_numberValue hvalue hhead)
  · exact .error _

theorem regex_ranked (hc : c.IsA t "regex") : Yields (Ranked .operand) (r.regex c) :=
  .bind (text_spelled hr hc rfl) fun _ hraw =>
    .pure (literal_ranked hraw (not_isEmpty_of_head? (Bool.and_eq_true_iff.1 hraw).1) rfl)

/-- By induction on the substitutions. -/
theorem templateFrom_has (stop : Nat) : ∀ {cs : List Cst} (start : Nat), (∀ d ∈ cs, d.IsA t "template_substitution") →
    Yields (fun parts => AllHave Rank.isInner parts.2 ∧ parts.1.length = parts.2.length + 1)
    (r.templateFrom stop start cs)
  | [], _, _ => .step fun _ => .pure ⟨allHave_nil, rfl⟩
  | _ :: _, _, h => .step fun _ =>
    .bind (readFirst_has hr (h _ (List.mem_cons_self ..)) (Kind.isInner_of_admits (by decide))) fun _ hexpression =>
      .bind (templateFrom_has stop _ fun d hd => h d (List.mem_cons_of_mem _ hd)) fun _ hparts =>
        .pure ⟨allHave_cons.2 ⟨hexpression, hparts.1⟩, congrArg (· + 1) hparts.2⟩

theorem template_ranked (hc : c.IsA t "template_string") : Yields (Ranked .operand) (r.template c) := by
  refine .bind (templateFrom_has hr _ _ fun d hd => ?_) fun parts hparts =>
    .pure (ranked_uniform rfl rfl (beq_iff_eq.2 hparts.2) rfl rfl hparts.1)
  obtain ⟨hmem, hkind⟩ := List.mem_filter.1 hd
  rw [Bool.and_eq_true, beq_iff_eq] at hkind
  exact ⟨hc.sound.child hmem, hkind.1, hkind.2⟩

/-! ### Meta properties -/

omit hr in
theorem sound_name (name : String) : ∀ m ∈ (r.node c (.identifier name)).preorder, m.IsSound :=
  forall_preorder_iff.2 ⟨⟨allStand_nil, rfl, rfl, rfl⟩, fun _ h => nomatch h⟩

/-- The first name begins like a word, and the second one ends like a word. -/
theorem metaProperty_ranked (hc : c.IsA t "meta_property") : Yields (Ranked .operand) (r.metaProperty c) := by
  refine .bind (text_spelled hr hc rfl) fun raw hraw => .pure ?_
  obtain ⟨⟨a, ha, hfirst⟩, z, hz, hlast⟩ := Kind.names_of_spellsMeta hraw
  have hfirsts : ['n', 'i'].all fun a =>
      decide (Text.isBlank a = false ∧ Spacing.leads a ∧ (Grammar.startsName a || a == '#') = true) := by
    decide +kernel
  have hlasts : ['t', 'a'].all fun z => decide (Text.isBlank z = false ∧ Spacing.trails z) := by decide
  obtain ⟨hblank, hleads, hstarts⟩ := of_decide_eq_true (List.all_eq_true.1 hfirsts a hfirst)
  obtain ⟨hblank', htrails⟩ := of_decide_eq_true (List.all_eq_true.1 hlasts z hlast)
  set head := r.node c (.identifier (String.ofList (Text.trim (raw.toList.takeWhile (· != '.'))))) with hhead
  set target := r.node c (.identifier (String.ofList (Text.trim (raw.toList.dropWhile (· != '.')).tail))) with htarget
  have hworded : (Form.metaProperty head target).isWorded := by
    simp only [Form.isWorded, hhead, htarget, node, plain, Node.form, String.toList_ofList, Text.head?_trim ha hblank,
      Text.getLast?_trim hz hblank', Option.any_some, hleads, htrails, Bool.and_self]
  have hspelled : head.Spelled := forall_preorder_iff.2 ⟨by
    simp only [Form.isSpelled, hhead, node, plain, Node.form, String.toList_ofList, Text.head?_trim ha hblank,
      Option.any_some, hstarts], List.forall_mem_nil _⟩
  have hnodes : ∀ m ∈ [head, target], ∀ k ∈ m.preorder, k.IsSound :=
    List.forall_mem_cons.2 ⟨sound_name _, List.forall_mem_singleton.2 (sound_name _)⟩
  refine ⟨⟨forall_preorder_iff.2 ⟨⟨?_, rfl, hworded, rfl⟩, hnodes⟩, fun htargets => ?_⟩, rfl, rfl⟩
  · exact allStand_of_isUniform rfl (List.forall_mem_cons.2 ⟨rfl, List.forall_mem_singleton.2 rfl⟩)
  · have hown : target.form.isSpelled := (forall_preorder_iff.1 htargets).1
    exact forall_preorder_iff.2 ⟨rfl, List.forall_mem_cons.2 ⟨hspelled, List.forall_mem_singleton.2
      (forall_preorder_iff.2 ⟨hown, List.forall_mem_nil _⟩)⟩⟩

/-! ### Modules -/

/-- A name with a second name. -/
theorem specifier_has {form : Node → Option Node → Form Node} (hc : c.IsA t kind)
    (hform : ∀ name renamed, AllHave Rank.isInner (name :: renamed.toList) →
    (r.node c (form name renamed)).Ranked .part) :
    Yields (Has Rank.isInner) (r.specifier c form) :=
  .bind (readField_has hr hc (Kind.gives_name (by decide) kind)) fun name hname =>
    .bind (readOptional_has hr hc (Kind.gives_name (by decide) kind)) fun renamed hrenamed =>
      .pure ((hform name renamed (allHave_cons.2 ⟨hname, hrenamed⟩)).has rfl)

theorem importPart_has (hd : d.Belongs t kind) : Yields (AllHave Rank.isInner) (r.importPart d) := by
  have hsingle {form : Form Node} (h : (r.node d form).Ranked .part) : AllHave Rank.isInner [r.node d form] := by
    simp [h.has (p := Rank.isInner) rfl]
  unfold importPart
  split
  · next hkind =>
    refine .bind (identifier_ranked hr (hd.isA (beq_iff_eq.1 hkind)) (by decide)) fun name hname => .pure (hsingle ?_)
    exact ranked_uniform rfl rfl rfl rfl rfl (by simp [Form.children, hname.1.has (p := Rank.isInner) rfl])
  · split
    · next hkind =>
      have hisA := hd.isA (beq_iff_eq.1 hkind)
      refine .bind (firstNamed_head d) fun e he => ?_
      have hmem := List.mem_of_mem_head? he
      refine .bind (identifier_ranked hr ((hisA.belongs hmem).isA rfl) (hisA.kind_of_jumps (by decide) hmem))
        fun name hname => .pure (hsingle ?_)
      exact ranked_uniform rfl rfl rfl rfl rfl (by simp [Form.children, hname.1.has (p := Rank.isInner) rfl])
    · split
      · next hkind =>
        have hisA := hd.isA (beq_iff_eq.1 hkind)
        exact .mapM_of_mem fun e he => specifier_has hr ((hisA.belongs he).isA rfl) fun name renamed h =>
          ranked_uniform rfl rfl rfl rfl rfl h
      · exact .error _

theorem importSpecifiers_has (hd : d.Belongs t kind) : Yields (AllHave Rank.isInner) (r.importSpecifiers d) := by
  unfold importSpecifiers
  split
  · next hkind =>
    exact .bind (.mapM_of_mem fun e he => importPart_has hr ((hd.isA (beq_iff_eq.1 hkind)).belongs he)) fun _ hparts =>
      .pure (allHave_flatten hparts)
  · exact .ite (.pure allHave_nil) (.error _)

theorem source_has (hd : d.Plays t kind "source") : Yields (Has Rank.isInner) (r.string d) :=
  (string_ranked hr (hd.isA_player rfl (by decide) (by decide))).imp fun _ h => h.has rfl

theorem importStatement_ranked (hc : c.IsA t "import_statement") :
    Yields (Ranked .declaration) (r.importStatement c) :=
  .bind (.mapM_of_mem fun _ hd => importSpecifiers_has hr (hc.belongs hd)) fun _ hspecifiers =>
    .bind (require_plays hc _) fun _ hd => .bind (source_has hr hd) fun _ hsource =>
      .pure (ranked_uniform rfl rfl rfl rfl rfl (by simp [Form.children, allHave_flatten hspecifiers, hsource]))

theorem exportOfNames_ranked (hc : c.IsA t kind) {source : Option Node} (hsource : AllHave Rank.isInner source.toList) :
    Yields (Ranked .declaration) (r.exportOfNames c source) := by
  unfold exportOfNames
  split
  · next d hd =>
    have hbelongs := hc.belongs (List.mem_of_find?_eq_some hd)
    split
    · next hkind =>
      have hisA := hbelongs.isA (beq_iff_eq.1 hkind)
      have hspecifiers : Yields (AllHave Rank.isInner) (d.named.mapM fun e => r.specifier e .exportSpecifier) :=
        .mapM_of_mem fun e he => specifier_has hr ((hisA.belongs he).isA rfl) fun name renamed h =>
          ranked_uniform rfl rfl rfl rfl rfl h
      exact .bind hspecifiers fun specifiers hspecifiers =>
        .pure (ranked_uniform rfl rfl rfl rfl rfl (by simp [Form.children, hspecifiers, hsource]))
    · next hkind =>
      have hnamespace : d.kind = "namespace_export" := by
        have heither : (d.kind == "export_clause" || d.kind == "namespace_export") = true :=
          List.find?_some (p := fun d : Cst => d.kind == "export_clause" || d.kind == "namespace_export") hd
        exact beq_iff_eq.1 ((Bool.or_eq_true_iff.1 heither).resolve_left hkind)
      split
      · next source =>
        have hsource : source.Has Rank.isInner := hsource source (List.mem_singleton_self source)
        exact .bind (readFirst_has hr (hbelongs.isA hnamespace) (Kind.isInner_of_admits (by decide)))
          fun exported hexported =>
            .pure (ranked_uniform rfl rfl rfl rfl rfl (by simp [Form.children, hexported, hsource]))
      · exact .error _
  · split
    · next source =>
      have hsource : source.Has Rank.isInner := hsource source (List.mem_singleton_self source)
      exact .ite (.pure (ranked_uniform rfl rfl rfl rfl rfl (by simp [Form.children, hsource]))) (.error _)
    · exact .error _

theorem exportStatement_ranked (hc : c.IsA t "export_statement") :
    Yields (Ranked .declaration) (r.exportStatement c) := by
  have hdeclaration {d : Cst} (hd : c.field? "declaration" = some d) : Yields (Has Rank.isInner) (r.read d) :=
    read_plays hr (hc.plays hd) (by decide)
  refine .step fun _ => .ite ?_ ?_
  · split
    · next target htarget =>
      have hread : Yields (Has Rank.isInner) (r.read target) := by
        rcases (Option.orElse_eq_some ..).1 htarget with hd | ⟨-, hd⟩
        · exact hdeclaration hd
        · exact read_plays hr (hc.plays hd) (by decide)
      exact .bind hread fun _ hread => .pure (ranked_uniform rfl rfl rfl rfl rfl (by simp [Form.children, hread]))
    · exact .error _
  · split
    · next target htarget =>
      exact .bind (hdeclaration htarget) fun _ hread =>
        .pure (ranked_uniform rfl rfl rfl rfl rfl (by simp [Form.children, hread]))
    · exact .bind (.option_mapM_of_mem fun _ hd => source_has hr (hc.plays hd)) fun _ hsource =>
        exportOfNames_ranked hr hc hsource

/-! ### Expressions and patterns -/

/-- By induction on what is left of the children. -/
theorem elementsFrom_has (hc : c.IsA t kind) (hkind : kind ∉ Kind.statementHolders) :
    ∀ {cs : List Cst} (expecting : Bool), cs ⊆ c.children →
      Yields (fun elements => AllHave Rank.isInner (elements.filterMap id)) (r.elementsFrom expecting cs)
  | [], _, _ => .pure allHave_nil
  | d :: cs, expecting, hsub => by
    have hrest (expecting : Bool) := elementsFrom_has hc hkind expecting (List.subset_of_cons_subset hsub)
    unfold elementsFrom
    split
    · exact hrest _
    · next hread =>
      refine .ite (.bind (hrest true) fun after hafter => ?_) ?_
      · split <;> exact .pure hafter
      · split
        · next hnamed =>
          have hmem : d ∈ c.named := List.mem_filter.2 ⟨hsub (List.mem_cons_self ..), by
            rw [hnamed, Bool.eq_false_iff.2 hread]; rfl⟩
          exact .bind (read_belongs hr (hc.belongs hmem) (Kind.isInner_of_admits hkind)) fun element helement =>
            .bind (hrest false) fun after hafter => .pure (allHave_cons.2 ⟨helement, hafter⟩)
        · exact hrest _

theorem array_ranked (hc : c.IsA t "array") : Yields (Ranked .operand) (r.array c) :=
  .bind (elementsFrom_has hr hc (by decide) _ (List.Subset.refl _)) fun _ helements =>
    .pure (ranked_uniform rfl rfl rfl rfl rfl helements)

theorem arrayPattern_ranked (hc : c.IsA t "array_pattern") : Yields (Ranked .operand) (r.arrayPattern c) :=
  .bind (elementsFrom_has hr hc (by decide) _ (List.Subset.refl _)) fun _ helements =>
    .pure (ranked_uniform rfl rfl rfl rfl rfl helements)

omit hr in
/-- A member of an object that is not written as a method. -/
theorem property_has {span : Span} {key value : Node} {kind : String} {isMethod isShorthand isComputed : Bool}
    (hvalue : Form.isMethodLike kind isMethod isShorthand = false)
    (hcoherent : (Form.property key value kind isMethod isShorthand isComputed).isCoherent)
    (hparts : AllHave Rank.isInner [key, value]) :
    (plain span (.property key value kind isMethod isShorthand isComputed)).Has Rank.isInner := by
  obtain ⟨hkey, hrest⟩ := allHave_cons.1 hparts
  have hinner := hrest value (List.mem_singleton_self value)
  have hranked : (plain span (.property key value kind isMethod isShorthand isComputed)).Ranked .part := by
    refine ranked_common rfl hcoherent rfl rfl ?_ hparts.any
    show AllStand [(key, .inner), (value, if Form.isMethodLike kind isMethod isShorthand then .method else .inner)]
    simp [hvalue, hkey.inner, hinner.inner]
  exact hranked.has rfl

theorem pair_has (hc : c.IsA t kind) (hkind : kind ∈ ["pair", "pair_pattern"]) :
    Yields (Has Rank.isInner) (r.pair c) := by
  obtain ⟨hkey, hvalue⟩ := (by decide : ∀ kind ∈ ["pair", "pair_pattern"],
    Kind.gives kind "key" Rank.isInner ∧ Kind.gives kind "value" Rank.isInner) kind hkind
  exact .bind (require_plays hc _) fun _ hd => .bind (memberName_has hr hd hkey) fun name hname =>
    .bind (readField_has hr hc hvalue) fun value hvalue => .pure (property_has rfl rfl (by simp [hname, hvalue]))

theorem objectMethod_has (hc : c.IsA t "method_definition") : Yields (Has Rank.isInner) (r.objectMethod c) := by
  refine .step fun _ => .bind (require_plays hc _) fun _ hd =>
    .bind (memberName_has hr hd (by decide)) fun name hname =>
    .bind (methodFunction_stands hr hc) fun value hvalue => .pure ?_
  have hmethod : Form.isMethodLike (if methodKind c == "method" then "init" else methodKind c)
      (methodKind c == "method") false := by
    unfold methodKind
    split
    · decide
    · split <;> decide
  have hranked : (r.node c (.property name.1 value (if methodKind c == "method" then "init" else methodKind c)
      (methodKind c == "method") false name.2)).Ranked .part := by
    refine ranked_plain ⟨?_, rfl, ?_, rfl⟩ rfl rfl rfl ?_
    · show AllStand [(name.1, .inner), (value, if Form.isMethodLike _ _ _ then .method else .inner)]
      rw [if_pos hmethod]
      exact allStand_cons.2 ⟨hname.inner, allStand_cons.2 ⟨hvalue.1.fits, allStand_nil⟩⟩
    · exact List.all_eq_true.2 (List.forall_mem_cons.2 ⟨hname.whole, List.forall_mem_singleton.2 hvalue.2⟩)
    · exact List.forall_mem_cons.2 ⟨hname.sound, List.forall_mem_singleton.2 hvalue.1.sound⟩
  exact hranked.has rfl

theorem shorthand_has (hc : c.IsA t kind) (hkind : kind ∈ nameKinds) : Yields (Has Rank.isInner) (r.shorthand c) := by
  refine .bind (identifier_ranked hr hc hkind) fun name hname => .pure (property_has rfl ?_ ?_)
  · simp only [Form.isCoherent, hname.2, Bool.true_and]
    obtain ⟨info, form⟩ := name
    cases form <;> first | rfl | exact absurd hname.2 Bool.false_ne_true
  · have hinner := hname.1.has (p := Rank.isInner) rfl
    simp [hinner]

theorem shorthandWithDefault_has (hc : c.IsA t "object_assignment_pattern") :
    Yields (Has Rank.isInner) (r.shorthandWithDefault c) := by
  refine .bind (require_plays hc _) fun left hleft => ?_
  split
  · next hkind =>
    refine .bind (require_plays hc _) fun right hright => .bind (identifier_ranked hr
      (hleft.isA (by decide) (beq_iff_eq.1 hkind) (by decide)) (by decide)) fun name hname =>
        .bind (read_plays (p := Rank.isInner) hr hright (by decide)) fun value hvalue => .pure ?_
    have hinner := hname.1.has (p := Rank.isInner) rfl
    have hpattern : (plain (r.source.span left right) (.assignmentPattern name value)).Ranked .part :=
      ranked_uniform rfl rfl rfl rfl rfl (by simp [Form.children, hinner, hvalue])
    exact property_has rfl (Bool.and_eq_true_iff.2 ⟨hname.2, rfl⟩)
      (by simp [hinner, hpattern.has (p := Rank.isInner) rfl])
  · exact .error _

theorem objectMember_has (hd : d.Belongs t "object") : Yields (Has Rank.isInner) (r.objectMember d) := by
  unfold objectMember
  split
  · next hkind => exact pair_has hr (hd.isA (beq_iff_eq.1 hkind)) (by decide)
  · split
    · next hkind => exact objectMethod_has hr (hd.isA (beq_iff_eq.1 hkind))
    · split
      · next hkind => exact shorthand_has hr (hd.isA (beq_iff_eq.1 hkind)) (by decide)
      · exact read_belongs hr hd (Kind.isInner_of_admits (by decide))

theorem object_ranked (hc : c.IsA t "object") : Yields (Ranked .operand) (r.object c) :=
  .bind (.mapM_of_mem fun _ hd => objectMember_has hr (hc.belongs hd)) fun _ hproperties =>
    .pure (ranked_uniform rfl rfl rfl rfl rfl hproperties)

theorem patternMember_has (hd : d.Belongs t "object_pattern") : Yields (Has Rank.isInner) (r.patternMember d) := by
  unfold patternMember
  split
  · next hkind => exact pair_has hr (hd.isA (beq_iff_eq.1 hkind)) (by decide)
  · split
    · next hkind => exact shorthand_has hr (hd.isA (beq_iff_eq.1 hkind)) (by decide)
    · split
      · next hkind => exact shorthandWithDefault_has hr (hd.isA (beq_iff_eq.1 hkind))
      · exact read_belongs hr hd (Kind.isInner_of_admits (by decide))

theorem objectPattern_ranked (hc : c.IsA t "object_pattern") : Yields (Ranked .operand) (r.objectPattern c) :=
  .bind (.mapM_of_mem fun _ hd => patternMember_has hr (hc.belongs hd)) fun _ hproperties =>
    .pure (ranked_uniform rfl rfl rfl rfl rfl hproperties)

theorem callExpression_ranked (hc : c.IsA t "call_expression") : Yields (Ranked .operand) (r.callExpression c) := by
  refine .bind (readField_has (p := Rank.isExpression) hr hc (by decide)) fun callee hcallee =>
    .bind (require_plays hc _)
    fun arguments hd => ?_
  split
  · next hkind =>
    refine .bind (template_ranked hr (hd.isA (by decide) (beq_iff_eq.1 hkind) (by decide))) fun quasi hquasi => .pure ?_
    exact ranked_uniform rfl rfl rfl hcallee.expression rfl
      (by simp [Form.children, hcallee.asInner, hquasi.has (p := Rank.isInner) rfl])
  · next hkind =>
    have harguments : arguments.kind = "arguments" := by
      rcases List.mem_cons.1 (hd.players _ rfl) with heq | hmem
      · exact heq
      · exact absurd (beq_iff_eq.2 (List.mem_singleton.1 hmem)) hkind
    have hisA := hd.isA (by decide) harguments (by decide)
    exact .bind (readAll_has hr hisA (Kind.isInner_of_admits (by decide))) fun args hargs =>
      .pure (ranked_uniform rfl rfl rfl
      hcallee.expression rfl (by simp [Form.children, hcallee.asInner, hargs]))

theorem newExpression_ranked (hc : c.IsA t "new_expression") : Yields (Ranked .operand) (r.newExpression c) := by
  refine .bind (readField_has (p := Rank.isInner) hr hc (by decide)) fun callee hcallee =>
    .bind (P := AllHave Rank.isInner) ?_
    fun args hargs => .pure (ranked_uniform rfl rfl rfl rfl rfl (by simp [Form.children, hcallee, hargs]))
  cases harguments : c.field? "arguments" with
  | none => exact .pure allHave_nil
  | some d =>
    have hd := hc.plays harguments
    -- a template is no list of arguments, but would be read like one
    have hkind : d.kind ∉ Kind.statementHolders ∧ d.kind ≠ "default" :=
      (by decide : ∀ kind ∈ ["arguments", "template_string"], kind ∉ Kind.statementHolders ∧ kind ≠ "default") _
        (hd.players _ rfl)
    exact readAll_has hr (hd.isA (by decide) rfl hkind.2) (Kind.isInner_of_admits hkind.1)

theorem memberExpression_ranked (hc : c.IsA t "member_expression") : Yields (Ranked .operand) (r.memberExpression c) :=
  .bind (readField_has (p := Rank.isExpression) hr hc (by decide)) fun _ hobject =>
    .bind (require_plays hc _) fun _ hd =>
    .bind (playedName_ranked hr hd rfl (by decide)) fun member hmember =>
      have hname : member.Has Rank.isInner := hmember.1.has rfl
      .pure (ranked_uniform rfl rfl rfl hobject.expression rfl (by simp [Form.children, hobject.asInner, hname]))

/-- A node made from two parts that are read one after the other. -/
theorem both_ranked {q : Rank → Bool} {rank : Rank} {form : Node → Node → Form Node} {left right : String}
    (hc : c.IsA t kind) (hleft : Kind.gives kind left p) (hright : Kind.gives kind right q)
    (hform : ∀ n m, n.Has p → m.Has q → (r.node c (form n m)).Ranked rank) : Yields (Ranked rank)
      (do let n ← r.readField c left
          return r.node c (form n (← r.readField c right))) :=
  .bind (readField_has hr hc hleft) fun _ hn => .bind (readField_has hr hc hright) fun _ hm => .pure (hform _ _ hn hm)

theorem subscriptExpression_ranked (hc : c.IsA t "subscript_expression") :
    Yields (Ranked .operand) (r.subscriptExpression c) :=
  both_ranked (p := Rank.isExpression) (q := Rank.isInner) hr hc (by decide) (by decide) fun _ _ hobject hindex =>
    ranked_uniform rfl rfl rfl hobject.expression rfl (by simp [Form.children, hobject.asInner, hindex])

theorem assignment_ranked (hc : c.IsA t "assignment_expression") : Yields (Ranked .assignment) (r.assignment c) :=
  both_ranked (p := Rank.isExpression) (q := Rank.isInner) hr hc (by decide) (by decide) fun _ _ hleft hright =>
    ranked_uniform rfl rfl rfl hleft.expression rfl (by simp [Form.children, hleft.asInner, hright])

theorem augmentedAssignment_ranked (hc : c.IsA t "augmented_assignment_expression") :
    Yields (Ranked .assignment) (r.augmentedAssignment c) :=
  .step fun _ => both_ranked (p := Rank.isExpression) (q := Rank.isInner) hr hc (by decide)
    (by decide) fun _ _ hleft hright =>
    ranked_uniform rfl rfl rfl hleft.expression rfl (by simp [Form.children, hleft.asInner, hright])

theorem assignmentPattern_ranked (hc : c.IsA t "assignment_pattern") : Yields (Ranked .part) (r.assignmentPattern c) :=
  both_ranked (p := Rank.isInner) (q := Rank.isInner) hr hc (by decide) (by decide) fun _ _ hleft hright =>
    ranked_uniform rfl rfl rfl rfl rfl (by simp [Form.children, hleft, hright])

omit hr in
theorem operation_ranked {operator : String} {left right : Node} (hleft : left.Has Rank.isExpression)
    (hright : right.Has Rank.isInner) : (r.node c (operation operator left right)).Ranked .operand := by
  unfold operation
  split <;> exact ranked_uniform rfl rfl rfl hleft.expression rfl (by simp [Form.children, hleft.asInner, hright])

omit hr in
/-- By recursion down the chain, as it is searched. -/
theorem leftSpine_yields (hc : c.IsA t "binary_expression") {above : List Cst}
    (habove : ∀ d ∈ above, d.IsA t "binary_expression") :
    Yields (fun spine => (∀ d ∈ spine.1, d.IsA t "binary_expression") ∧ spine.2.Plays t "binary_expression" "left")
      (r.leftSpine c above) := by
  fun_induction leftSpine r c above with
  | case1 c above hleft => exact .error _
  | case2 c above left hleft hkind ih =>
    exact ih ((hc.plays hleft).isA (by decide) (beq_iff_eq.1 hkind) (by decide)) (List.forall_mem_cons.2 ⟨hc, habove⟩)
  | case3 c above left hleft hkind => exact .pure ⟨List.forall_mem_cons.2 ⟨hc, habove⟩, hc.plays hleft⟩

/-- By induction on the operations of the chain. -/
theorem binaryExpression_ranked (hc : c.IsA t "binary_expression") :
    Yields (Ranked .operand) (r.binaryExpression c) := by
  have hhas : Yields (Has Rank.isExpression) (r.binaryExpression c) :=
    .bind (leftSpine_yields hc fun _ h => nomatch h) fun spine hspine =>
      .bind (read_plays hr hspine.2 (by decide)) fun _ hfirst => .foldlM_of_mem (fun left d hd hleft => .step fun _ =>
        .bind (readField_has (p := Rank.isInner) hr (hspine.1 d hd) (by decide)) fun _ hright =>
          .pure ((operation_ranked hleft hright).has rfl)) hfirst
  exact hhas.imp fun _ h => ⟨h.sound, h.whole, h.expression⟩

/-- A node made from a single part. -/
theorem wrapped_ranked {rank : Rank} {form : Node → Form Node} (hc : c.IsA t kind)
    (hp : ∀ {field r}, Kind.admits kind field r → p r) (hform : ∀ n, n.Has p → (r.node c (form n)).Ranked rank) :
    Yields (Ranked rank) (r.wrapped form c) :=
  .bind (readFirst_has hr hc hp) fun _ hn => .pure (hform _ hn)

theorem unaryExpression_ranked (hc : c.IsA t "unary_expression") : Yields (Ranked .operand) (r.unaryExpression c) := by
  refine .bind (require_plays hc _) fun operator hd => .bind (readField_has (p := Rank.isExpression) hr hc (by decide))
    fun argument hargument => .pure ?_
  obtain ⟨hleads, hspelled⟩ := (by decide : ∀ operator ∈ ["!", "~", "+", "-", "typeof", "void", "delete"],
    operator.toList.head?.any Spacing.leads ∧ (!operator.toList.isEmpty) = true) _ (hd.players _ rfl)
  refine ranked_plain ⟨allStand_of_isUniform rfl (List.forall_mem_singleton.2 hargument.asInner.inner),
    rfl, ?_, rfl⟩ ?_ rfl
    rfl (List.forall_mem_singleton.2 hargument.sound)
  · exact Bool.and_eq_true_iff.2 ⟨hleads, hargument.whole⟩
  · exact Bool.and_eq_true_iff.2 ⟨hspelled, hargument.expression⟩

theorem updateExpression_ranked (hc : c.IsA t "update_expression") :
    Yields (Ranked .operand) (r.updateExpression c) := by
  refine .bind (require_plays hc _) fun operator hd => .bind (readField_has (p := Rank.isExpression) hr hc (by decide))
    fun argument hargument => .step fun _ => .pure ?_
  obtain ⟨hword, hspelled⟩ := (by decide : ∀ operator ∈ ["++", "--"],
    Spacing.isWord operator ∧ (!operator.toList.isEmpty) = true) _ (hd.players _ rfl)
  refine ranked_plain ⟨allStand_of_isUniform rfl (List.forall_mem_singleton.2 hargument.asInner.inner),
    rfl, ?_, rfl⟩ ?_ rfl
    rfl (List.forall_mem_singleton.2 hargument.sound)
  · exact Bool.and_eq_true_iff.2 ⟨hword, hargument.whole⟩
  · exact Bool.and_eq_true_iff.2 ⟨hspelled, hargument.expression⟩

theorem ternaryExpression_ranked (hc : c.IsA t "ternary_expression") :
    Yields (Ranked .operand) (r.ternaryExpression c) :=
  .bind (readField_has (p := Rank.isExpression) hr hc (by decide)) fun _ htest =>
    .bind (readField_has (p := Rank.isInner) hr hc (by decide)) fun _ hconsequent =>
      .bind (readField_has (p := Rank.isInner) hr hc (by decide)) fun _ halternate => .pure (ranked_uniform rfl rfl rfl
        htest.expression rfl (by simp [Form.children, htest.asInner, hconsequent, halternate]))

theorem sequenceExpression_ranked (hc : c.IsA t "sequence_expression") :
    Yields (Ranked .operand) (r.sequenceExpression c) := by
  obtain ⟨hoperands, hne⟩ := isExpression_operandsFrom fun _ => hc.isExpression_of_mem
  have hread : Yields (fun expressions => AllHave Rank.isExpression expressions ∧ expressions ≠ [])
      (r.readAll c.sequenceOperands) := by
    intro expressions h
    refine ⟨Yields.mapM_of_mem (fun d hd => ?_) expressions h, ?_⟩
    · obtain ⟨hsound, hnamed, hrank⟩ := hoperands d hd
      exact (hr.read d hsound (.inl hnamed)).imp fun _ h => h.2.2.has hrank
    · rintro rfl
      exact hne hc.named_ne_nil (List.length_eq_zero_iff.1 (length_of_mapM_ok h).symm)
  refine .bind hread fun expressions ⟨hexpressions, hne⟩ => .pure (ranked_plain ⟨?_, rfl, ?_, rfl⟩ ?_ rfl rfl
    fun m hm => (hexpressions m hm).sound)
  · exact allStand_of_isUniform rfl fun m hm => (hexpressions m hm).asInner.inner
  · refine Bool.and_eq_true_iff.2 ⟨?_, List.all_eq_true.2 fun m hm => (hexpressions m hm).whole⟩
    rwa [Bool.not_eq_true', List.isEmpty_eq_false_iff]
  · obtain ⟨first, rest, rfl⟩ := List.exists_cons_of_ne_nil hne
    exact (hexpressions first (List.mem_cons_self ..)).expression

theorem yieldExpression_ranked (hc : c.IsA t "yield_expression") : Yields (Ranked .operand) (r.yieldExpression c) :=
  .bind (readFirst?_has hr hc (Kind.isInner_of_admits (by decide))) fun _ hargument =>
    .pure (ranked_uniform rfl rfl rfl rfl rfl hargument)

/-! ### Dispatch -/

theorem statementReaders_ranked :
    ∀ e ∈ r.statementReaders, ∀ c : Cst, c.IsA t e.1 → Yields (Ranked (Kind.rank e.1)) (e.2 c) := by
  simp only [statementReaders, List.forall_mem_cons, List.not_mem_nil, false_implies, implies_true, and_true]
  have hleaf {form : Form Node} {c : Cst} (h : (r.node c form).Ranked .statement) :
      Yields (Ranked .statement) (r.leaf form c) := .pure h
  exact ⟨fun _ => expressionStatement_ranked hr, fun _ hc => declaration_ranked hr hc (by decide),
    fun _ => lexicalDeclaration_ranked hr, fun _ => variableDeclarator_ranked hr, fun _ => block_ranked hr,
    fun _ _ => hleaf (ranked_uniform rfl rfl rfl rfl rfl allHave_nil),
    fun _ _ => hleaf (ranked_uniform rfl rfl rfl rfl rfl allHave_nil),
    fun _ => ifStatement_ranked hr, fun _ => whileStatement_ranked hr, fun _ => doStatement_ranked hr,
    fun _ => forStatement_ranked hr, fun _ => forInStatement_ranked hr, fun _ => switchStatement_ranked hr,
    fun _ => tryStatement_ranked hr, fun _ => returnStatement_ranked hr, fun _ => throwStatement_ranked hr,
    fun _ => breakStatement_ranked hr, fun _ => continueStatement_ranked hr, fun _ => labeledStatement_ranked hr,
    fun _ hc => functionDeclaration_ranked hr hc (by decide), fun _ hc => functionDeclaration_ranked hr hc (by decide),
    fun _ => classDeclaration_ranked hr, fun _ => importStatement_ranked hr, fun _ => exportStatement_ranked hr⟩

theorem expressionReaders_ranked :
    ∀ e ∈ r.expressionReaders, ∀ c : Cst, c.IsA t e.1 → Yields (Ranked (Kind.rank e.1)) (e.2 c) := by
  simp only [expressionReaders, List.forall_mem_cons, List.not_mem_nil, false_implies, implies_true, and_true]
  have hleaf {form : Form Node} {c : Cst} (h : (r.node c form).Ranked .operand) :
      Yields (Ranked .operand) (r.leaf form c) := .pure h
  have hwrapped {kind : String} {form : Node → Form Node} {rank : Rank} {c : Cst} (hc : c.IsA t kind)
      (hkind : kind ∉ Kind.statementHolders) (hform : ∀ n, n.Has Rank.isInner → (r.node c (form n)).Ranked rank) :
      Yields (Ranked rank) (r.wrapped form c) := wrapped_ranked hr hc (Kind.isInner_of_admits hkind) hform
  exact ⟨fun _ => memberExpression_ranked hr, fun _ => callExpression_ranked hr, fun _ => string_ranked hr,
    fun _ => number_ranked hr, fun _ => binaryExpression_ranked hr, fun _ => assignment_ranked hr,
    fun _ _ => hleaf (ranked_uniform rfl rfl rfl rfl rfl allHave_nil),
    fun _ _ => hleaf (ranked_uniform rfl rfl rfl rfl rfl allHave_nil),
    fun _ _ => hleaf (literal_ranked (by decide) (by decide) rfl),
    fun _ _ => hleaf (literal_ranked (by decide) (by decide) rfl),
    fun _ _ => hleaf (literal_ranked (by decide) (by decide) rfl),
    fun _ => regex_ranked hr, fun _ => template_ranked hr, fun _ => metaProperty_ranked hr, fun _ => array_ranked hr,
    fun _ => object_ranked hr, fun _ hc => functionExpression_ranked hr hc (by decide),
    fun _ hc => functionExpression_ranked hr hc (by decide), fun _ hc => functionExpression_ranked hr hc (by decide),
    fun _ => arrowFunction_ranked hr, fun _ => classExpression_ranked hr, fun _ hc => classBody_ranked hr hc.sound,
    fun _ => methodDefinition_ranked hr, fun _ => fieldDefinition_ranked hr, fun _ => newExpression_ranked hr,
    fun _ => subscriptExpression_ranked hr, fun _ => augmentedAssignment_ranked hr, fun _ => unaryExpression_ranked hr,
    fun _ => updateExpression_ranked hr, fun _ => ternaryExpression_ranked hr, fun _ => sequenceExpression_ranked hr,
    fun _ hc => hwrapped hc (by decide) fun n hn => ranked_uniform rfl rfl rfl rfl rfl (by simp [Form.children, hn]),
    fun _ hc => hwrapped hc (by decide) fun n hn => ranked_uniform rfl rfl rfl rfl rfl (by simp [Form.children, hn]),
    fun _ hc => hwrapped hc (by decide) fun n hn => ranked_uniform rfl rfl rfl rfl rfl (by simp [Form.children, hn]),
    fun _ => yieldExpression_ranked hr⟩

theorem patternReaders_ranked :
    ∀ e ∈ r.patternReaders, ∀ c : Cst, c.IsA t e.1 → Yields (Ranked (Kind.rank e.1)) (e.2 c) := by
  simp only [patternReaders, List.forall_mem_cons, List.not_mem_nil, false_implies, implies_true, and_true]
  exact ⟨fun _ => arrayPattern_ranked hr, fun _ => objectPattern_ranked hr, fun _ => assignmentPattern_ranked hr,
    fun _ hc => wrapped_ranked hr hc (Kind.isInner_of_admits (by decide)) fun n hn =>
      ranked_uniform rfl rfl rfl rfl rfl (by simp [Form.children, hn])⟩

omit hr in
/-- Neither comments nor the word default are read. -/
theorem ne_of_listed : ∀ e ∈ r.listed, e.1 ≠ "default" ∧ (e.1 == "comment" || e.1 == "html_comment") = false := by
  intro e he
  have hkinds : ∀ kind ∈ r.listed.map (·.1), kind ≠ "default" ∧
    (kind == "comment" || kind == "html_comment") = false := by
    simp only [listed, statementReaders, expressionReaders, patternReaders, List.map_append,
      List.map_cons, List.map_nil]
    decide +kernel
  exact hkinds e.1 (List.mem_map_of_mem he)

/-- If the nodes below are read by their ranks, so is the node. -/
theorem dispatch_ranked (hc : c.Sound t) (hnamed : c.mark.isNamed ∨ c.kind = "default") :
    Yields (fun n => c.mark.isNamed ∧ c.isComment = false ∧ n.Ranked c.rank) (r.dispatch c) := by
  unfold dispatch
  split
  case h_2 => exact .error _
  case h_1 f hf =>
    rcases mem_of_readerFor? hf with ⟨hname, rfl⟩ | hmem
    · obtain ⟨hne, hread, hrank⟩ := (by decide +kernel : ∀ kind ∈ nameKinds,
        kind ≠ "default" ∧ (kind == "comment" || kind == "html_comment") = false ∧
          Kind.rank kind = .operand) c.kind hname
      have hnamed := hnamed.resolve_right hne
      refine (identifier_ranked hr ⟨hc, hnamed, rfl⟩ hname).imp fun n hn => ⟨hnamed, hread, ?_⟩
      rw [Cst.rank, hrank]
      exact hn.1
    · obtain ⟨hne, hread⟩ := ne_of_listed _ hmem
      have hnamed := hnamed.resolve_right hne
      have hisA : c.IsA t c.kind := ⟨hc, hnamed, rfl⟩
      have hranked : Yields (Ranked c.rank) (f c) := by
        rcases List.mem_append.1 hmem with hmem | hmem
        · rcases List.mem_append.1 hmem with hmem | hmem
          · exact statementReaders_ranked hr _ hmem c hisA
          · exact expressionReaders_ranked hr _ hmem c hisA
        · exact patternReaders_ranked hr _ hmem c hisA
      exact hranked.imp fun n hn => ⟨hnamed, hread, hn⟩

end Below

end Reader

/-! ## Programs -/

namespace Source

/-- By induction on the nesting that is allowed. -/
theorem readNode_below (depth : Nat) (t : List Char) :
    Reader.Below t ⟨ofString (String.ofList t), (ofString (String.ofList t)).readNode depth⟩ := by
  induction depth with
  | zero => exact ⟨rfl, fun _ _ _ => .error _⟩
  | succ depth ih => exact ⟨rfl, fun _ hc hnamed => Reader.dispatch_ranked ih hc hnamed⟩

/-- What is read of the parts of a program are statements. -/
theorem readProgram_has {root : Cst} (h : root.IsA t "program") :
    Yields (fun program => ∃ span body, program = plain span (.program body "") ∧ AllHave Rank.isListed body)
      ((ofString (String.ofList t)).readProgram root) := by
  have hr : Reader.Below t (ofString (String.ofList t)).reader := readNode_below maxNesting t
  exact .bind (.mapM_of_mem fun d hd => Reader.read_belongs hr (h.belongs (List.mem_filter.1 hd).1)
    (Kind.isListed_of_admits (by decide))) fun body hbody => .pure ⟨_, body, rfl, hbody⟩

/-- A line comment ends with its line. -/
theorem readComment_line (hc : c.Sound t) (hcomment : c.isComment) :
    Yields (fun comment => comment.kind = .line → '\n' ∉ comment.value.toList)
    ((ofString (String.ofList t)).readComment c) := by
  have hr : Reader.Below t (ofString (String.ofList t)).reader := readNode_below maxNesting t
  refine .bind (Reader.text_yields hr (hc.note hcomment)) fun text htext => ?_
  dsimp only
  split
  · next value hvalue =>
    refine .pure fun _ hmem => htext value hvalue ?_
    rw [String.toList_ofList] at hmem
    exact List.mem_reverse.1 ((List.dropWhile_sublist _).mem (List.mem_reverse.1 hmem))
  · exact .pure fun h => nomatch h
  · exact .error _

/-- By recursion on what is still to be searched. -/
theorem sound_of_commentsFrom {stack : List Cst} (h : ∀ d ∈ stack, d.Sound t) :
    ∀ d ∈ commentsFrom stack, d.Sound t ∧ d.isComment := by
  fun_induction commentsFrom stack with
  | case1 => exact fun _ h => nomatch h
  | case2 c stack hcomment ih =>
    obtain ⟨hc, hstack⟩ := List.forall_mem_cons.1 h
    exact List.forall_mem_cons.2 ⟨⟨hc, hcomment⟩, ih hstack⟩
  | case3 c stack hcomment ih =>
    obtain ⟨hc, hstack⟩ := List.forall_mem_cons.1 h
    exact ih (List.forall_mem_append.2 ⟨fun _ => hc.child, hstack⟩)

theorem readComments_lines {root : Cst} (h : root.Sound t) :
    Yields (fun comments => ∀ c ∈ comments, c.kind = .line → '\n' ∉ c.value.toList)
      ((ofString (String.ofList t)).readComments root) := by
  have hsound := sound_of_commentsFrom (List.forall_mem_singleton.2 h)
  refine .bind (.mapM_of_mem fun d hd => readComment_line (hsound d hd).1 (hsound d hd).2) fun comments hcomments =>
    .pure fun c hc => hcomments c ?_
  exact (List.mergeSort_perm ..).mem_iff.1 hc

end Source

end ScriptTidy
