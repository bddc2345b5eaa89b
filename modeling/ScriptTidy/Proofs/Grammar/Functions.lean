/-
What the parsers of names, templates, patterns, functions, classes and calls give, if the parsers of the
parts below give sound nodes of the rank that is wanted of them.
-/
import ScriptTidy.Grammar.Expression
import ScriptTidy.Proofs.Grammar.Targets

namespace ScriptTidy.Grammar

open Parsing Expression Cst

variable {t : List Char} {p : Rank → Bool} {kind : String} {tok : Token} {c : Cst} {front : List Cst}

/-- The rank of what is read for a goal. -/
def Goal.rank : Goal → Rank → Bool
  | .statement => Rank.isListed
  | .expression _ | .assignment _ => Rank.isExpression
  | .binding | .construction | .markup => Rank.isOperand

/-- The parts below are read as sound nodes. -/
def Below.Sound (t : List Char) (below : Below) : Prop := ∀ goal, Makes t (Free t goal.rank) (below goal)

/-- A name that plays no part yet. -/
structure IsNameNode (t : List Char) (c : Cst) : Prop where
  free : c.Free t Rank.isOperand
  kind : c.kind ∈ Reader.nameKinds

/-- A block that plays no part yet. -/
structure IsBlock (t : List Char) (c : Cst) : Prop where
  free : c.Free t Rank.isDeclaration
  kind : c.kind = "statement_block"

/-- A member of a list of expressions, which may be spread. -/
structure IsMember (t : List Char) (c : Cst) : Prop where
  free : c.Free t Rank.isInner
  rank : c.kind ≠ "spread_element" → c.rank.isExpression

/-! ## Names -/

theorem kind_of_isFreeName (h : tok.isFreeName) : tok.kind = .name := beq_iff_eq.1 (Bool.and_eq_true_iff.1 h).1

theorem solid_of_isFreeName (h : tok.In t) (hname : tok.isFreeName) : tok.Solid t ∧ tok.kind = .name := by
  have hkind := kind_of_isFreeName hname
  exact ⟨h (by simp [hkind]) (by simp [hkind]), hkind⟩

theorem spellsName_of_kind (h : tok.Solid t) (hkind : tok.kind = .name ∨ tok.kind = .privateName) :
    spellsName tok.text.toList := by
  obtain ⟨-, hspells⟩ := h
  rcases hkind with hkind | hkind <;> rwa [hkind] at hspells

/-- A token that is a name as a node for names. -/
theorem isNameNode_leaf (h : tok.Solid t) (hspells : spellsName tok.text.toList) (hkind : kind ∈ Reader.nameKinds) :
    IsNameNode t (tok.leaf kind) := by
  obtain ⟨hrank, hplain⟩ := (show ∀ kind ∈ Reader.nameKinds, (Kind.rank kind).isOperand ∧ kind ∉ Kind.particular by
    decide +kernel) kind hkind
  have hcheck : Kind.spells? kind = some spellsName := if_pos (List.contains_iff_mem.2 hkind)
  refine ⟨free_leaf h hrank ?_ hplain, hkind⟩
  rw [hcheck]
  exact hspells

/-- The current token as a node, of which nothing is asked but what tokens of its kind have anyway. -/
theorem leaf_gives (hrank : p (Kind.rank kind)) (hkind : kind ∉ Kind.particular)
    (hspells : tok.Solid t → (Kind.spells? kind).all (· tok.text.toList)) :
    Gives t (fun s => s.token = tok) (do return (← advance).leaf kind) fun c _ => c.Free t p :=
  Gives.pass fun hsolid => .pure (free_leaf hsolid hrank (hspells hsolid) hkind)

theorem nameLeaf_gives (hname : tok.kind = .name ∨ tok.kind = .privateName) (hkind : kind ∈ Reader.nameKinds) :
    Gives t (fun s => s.token = tok) (do return (← advance).leaf kind) fun c _ => IsNameNode t c :=
  Gives.pass fun hsolid => .pure (isNameNode_leaf hsolid (spellsName_of_kind hsolid hname) hkind)

theorem identifier_makes : Makes t (IsNameNode t) identifier :=
  Gives.of_token fun _ => Gives.ite (fun hfree => nameLeaf_gives (.inl (kind_of_isFreeName hfree)) (by decide))
    fun _ => .refuse

theorem anyName_makes (hkind : kind ∈ Reader.nameKinds) : Makes t (IsNameNode t) (anyName kind) :=
  Gives.of_token fun _ => Gives.ite (fun hname => nameLeaf_gives (.inl hname) hkind) fun _ => .refuse

/-- A name in a place where a name is wanted. -/
theorem IsNameNode.fit {field : String} (h : IsNameNode t c) (htakes : Kind.takes kind (some field) Rank.isOperand)
    (hplayers : (Kind.players? kind field).all (· == Reader.nameKinds)) : (playing field c).Fit t kind := by
  refine h.free.playing_of htakes fun kinds hkinds => ?_
  rw [hkinds, Option.all_some, beq_iff_eq] at hplayers
  exact hplayers ▸ h.kind

theorem IsBlock.fit {field : String} (h : IsBlock t c) (htakes : Kind.takes kind (some field) Rank.isDeclaration)
    (hplayers : (Kind.players? kind field).all (·.contains "statement_block")) : (playing field c).Fit t kind :=
  h.free.playing_kind h.kind htakes hplayers

theorem partName_makes : Makes t (IsNameNode t) partName :=
  Gives.of_token fun _ => Gives.ite (fun hname => nameLeaf_gives (.inr hname) (by decide)) fun _ =>
    Gives.of_makes (anyName_makes (by decide))

theorem memberNode_makes {object : Cst} (hobject : object.Free t Rank.isOperand)
    (hfront : AllFit t "member_expression" front) :
    Makes t (Free t Rank.isOperand) (memberNode object front) :=
  .bind partName_makes fun _ hname => finish_makes (by decide) (allFit_append.2 ⟨allFit_append.2
    ⟨allFit_one (hobject.playing (by decide) rfl), hfront⟩, allFit_one (hname.fit (by decide) (by decide))⟩)

/-! ## Words in front of a member -/

theorem acceptModifier_makes (word : String) : Makes t (AnyFit t) (acceptModifier word) :=
  .step token_makes fun _ => Gives.bind following_gives fun _ => Gives.of_makes (.ite
    (.bind advance_makes fun _ htok => .pure fun kind => allFit_one (fit_toCst htok kind)) (.pure fun _ => allFit_nil))

theorem memberMarks_makes : Makes t (AnyFit t) memberMarks :=
  .bind (acceptModifier_makes "async") fun _ hasync => .bind (acceptToken_makes "*") fun _ hstar => .ite
    (.pure fun kind => allFit_append.2 ⟨hasync kind, hstar kind⟩)
    (.bind (acceptModifier_makes "get") fun _ hget => .ite (.pure hget) (acceptModifier_makes "set"))

section Below

variable {below : Below} (hb : below.Sound t)
include hb

theorem memberName_makes : Makes t (Free t Rank.isOperand) (memberName below) := by
  refine Gives.of_token fun tok => ?_
  split
  · next hname => exact leaf_gives (by decide) (by decide) fun h => spellsName_of_kind h (.inl hname)
  · next hname => exact leaf_gives (by decide) (by decide) fun h => spellsName_of_kind h (.inr hname)
  · next hstring =>
    refine leaf_gives (by decide) (by decide) fun h => ?_
    have hspells := h.2
    rwa [hstring] at hspells
  · next hnumber =>
    refine leaf_gives (by decide) (by decide) fun h => ?_
    have hspells := h.2
    rwa [hnumber] at hspells
  · exact Gives.of_makes (.step (expect_makes "[") fun _ => .bind (hb (.assignment true)) fun inner hinner =>
      .step (expect_makes "]") fun _ => finish_makes (by decide) (allFit_one (hinner.fit (by decide))))

/-! ## Templates -/

/-- By induction on the steps that are allowed. -/
theorem templateParts_makes (isTagged : Bool) (budget : Nat) {c : Cursor} (hc : c.In t) :
    Makes t (AllFit t "template_string") (templateParts below isTagged budget c) := by
  induction budget generalizing c with
  | zero => exact .refuse
  | succ budget ih =>
    unfold templateParts
    split
    · exact .refuse
    · next piece hpiece =>
      have hpast := hc.past ((templatePiece?_eq hpiece).trans (List.append_assoc ..).symm)
      rw [byteLength_append, ← Nat.add_assoc] at hpast
      refine .ite .refuse (Gives.ite (fun hlast => ?_) fun hlast => ?_)
      · rw [hlast] at hpast
        exact Makes.step (moveTo_makes hpast) fun _ => .pure allFit_nil
      · rw [if_neg hlast] at hpast
        refine Makes.step (moveTo_makes hpast) fun _ => .bind (hb (.expression true)) fun inner hinner =>
          .step (sees_makes _) fun _ => .ite (.bind get_makes fun s hs => .bind (ih hs.next) fun parts hparts =>
            .pure (allFit_cons.2 ⟨?_, hparts⟩)) .refuse
        exact (free_makeNode (p := Rank.isOperand) (by decide) (allFit_one (hinner.fit (by decide)))).fit (by decide)

theorem template_makes (isTagged : Bool) :
    Makes t (fun c => c.Free t Rank.isOperand ∧ c.kind = "template_string") (template below isTagged) :=
  .bind get_makes fun _ hs => .bind (templateParts_makes hb isTagged _ hs.next) fun _ hparts => .step get_makes fun _ =>
    .pure ⟨free_makeNode (by decide) hparts, rfl⟩

/-! ## Patterns -/

theorem bindingElement_makes : Makes t (Free t Rank.isInner) (bindingElement below) :=
  .bind (hb .binding) fun target htarget => .step (accept_makes "=") fun _ => .ite
    (.bind (hb (.assignment true)) fun value hvalue => .pure (free_makeNode (by decide)
      (allFit_cons.2 ⟨htarget.playing (by decide) rfl, allFit_one (hvalue.playing (by decide) rfl)⟩)))
    (.pure (htarget.mono fun _ => Rank.isInner_of_isOperand))

theorem lastBindingRest_makes (closing : String) : Makes t (Free t Rank.isInner) (lastBindingRest below closing) := by
  have hrest : Makes t (Free t Rank.isInner) (bindingRest below) :=
    .step startOffset_makes fun _ => .step (expect_makes "...") fun _ => .bind (hb .binding) fun target htarget =>
      finish_makes (by decide) (allFit_one (htarget.fit (by decide)))
  exact .bind hrest fun pattern hpattern => .step (sees_makes closing) fun _ => .ite (.pure hpattern) .refuse

theorem arrayBinding_makes (start : Nat) : Makes t (Free t Rank.isOperand) (arrayBinding below start) := by
  have hfit {c : Cst} (h : c.Free t Rank.isInner) : c.Fit t "array_pattern" := h.fit (by decide)
  have hpart : Makes t (Fit t "array_pattern") (do
      if ← sees "," then return (← advance).toCst
      else if ← sees "..." then lastBindingRest below "]"
      else
        let element ← bindingElement below
        if (← sees ",") || (← sees "]") then return element else refuse) :=
    .step (sees_makes ",") fun _ => .ite (.bind advance_makes fun _ htok => .pure (fit_toCst htok _))
      (.step (sees_makes "...") fun _ => .ite ((lastBindingRest_makes hb "]").mono fun _ => hfit)
        (.bind (bindingElement_makes hb) fun element helement => .step (sees_makes ",") fun _ =>
          .step (sees_makes "]") fun _ => .ite (.pure (hfit helement)) .refuse))
  exact .bind (membersUntil_makes hpart) fun parts hparts => finish_makes (by decide) hparts

theorem propertyBinding_makes : Makes t (Free t Rank.isInner) (propertyBinding below) := by
  refine Gives.of_token fun tok => Gives.ite (fun _ => Gives.of_makes (lastBindingRest_makes hb _)) fun _ =>
    Gives.bind following_gives fun followed => Gives.ite (fun hshort => Gives.pass fun hsolid => ?_) fun _ =>
      Gives.of_makes ?_
  · -- a name alone
    have hname := kind_of_isFreeName (Bool.and_eq_true_iff.1 hshort).1
    have hleaf : IsNameNode t (tok.leaf "shorthand_property_identifier_pattern") :=
      isNameNode_leaf hsolid (spellsName_of_kind hsolid (.inl hname)) (by decide)
    exact .step (accept_makes "=") fun _ => .ite
      (.bind (hb (.assignment true)) fun value hvalue => finish_makes (by decide)
        (allFit_cons.2 ⟨hleaf.free.playing (by decide) rfl, allFit_one (hvalue.playing (by decide) rfl)⟩))
      (.pure (hleaf.free.mono fun _ => Rank.isInner_of_isOperand))
  · exact .bind (memberName_makes hb) fun key hkey => .step (expect_makes ":") fun _ =>
      .bind (bindingElement_makes hb) fun value hvalue => finish_makes (by decide)
        (allFit_cons.2 ⟨hkey.playing (by decide) rfl, allFit_one (hvalue.playing (by decide) rfl)⟩)

theorem binding_makes : Makes t (Free t Rank.isOperand) (binding below) :=
  .step startOffset_makes fun start => .step (accept_makes "[") fun _ => .ite (arrayBinding_makes hb start)
    (.step (accept_makes _) fun _ => .ite
      (.bind (commaList_makes (propertyBinding_makes hb)) fun members hmembers =>
        finish_makes (by decide) (allFit_of_free hmembers (by decide)))
      (identifier_makes.mono fun _ h => h.free))

theorem parameters_makes :
    Makes t (fun c => c.Free t Rank.isOperand ∧ c.kind = "formal_parameters") (parameters below) := by
  have hparam : Makes t (Free t Rank.isInner) (do
      if ← sees "..." then lastBindingRest below ")" else bindingElement below) :=
    .step (sees_makes "...") fun _ => .ite (lastBindingRest_makes hb ")") (bindingElement_makes hb)
  exact .step startOffset_makes fun _ => .step (expect_makes "(") fun _ =>
    .bind (commaList_makes hparam) fun _ hparams =>
    .step get_makes fun _ => .pure ⟨free_makeNode (by decide) (allFit_of_free hparams (by decide)), rfl⟩

/-! ## Functions and classes -/

theorem block_makes : Makes t (IsBlock t) (block below) := by
  have hstatement : Makes t (fun a => ∀ c ∈ a, c.Free t Rank.isListed) (do
      skipMarkupComments
      if ← accept "\x7d" then return none else return some (← below .statement)) :=
    .step skipMarkupComments_makes fun _ => .step (accept_makes _) fun _ => .ite .none (hb .statement).some
  refine .step startOffset_makes fun start => .step (expect_makes _) fun _ =>
    .bind (collect_makes hstatement) fun body hbody =>
    .step get_makes fun _ => .pure ⟨free_makeNode (by decide) (allFit_of_free hbody (by decide)), rfl⟩

/-- The kinds of functions that have parameters and a body of their own. -/
theorem functionParts_makes (hkind : kind ∈ ["function_declaration", "function_expression", "method_definition"]) :
    Makes t (AllFit t kind) (functionParts below) := by
  obtain ⟨hparameters, hplayed, hblock, hbody⟩ := (show
    ∀ kind ∈ ["function_declaration", "function_expression", "method_definition"],
      Kind.takes kind (some "parameters") Rank.isOperand ∧
        (Kind.players? kind "parameters").all (·.contains "formal_parameters") ∧
        Kind.takes kind (some "body") Rank.isDeclaration ∧
          (Kind.players? kind "body").all (·.contains "statement_block") by decide +kernel) kind hkind
  exact .bind (parameters_makes hb) fun params hparams => .bind (block_makes hb) fun body hblocked =>
    .pure (allFit_cons.2 ⟨hparams.1.playing_kind hparams.2 hparameters hplayed, allFit_one (hblocked.fit hblock hbody)⟩)

theorem function_makes (hkind : kind ∈ ["function_declaration", "function_expression"]) (hrank : p (Kind.rank kind))
    (start : Nat) (hfront : AnyFit t front) :
    Makes t (fun c => c.Free t p ∧ c.kind = kind) (function below kind start front) := by
  have hmem : kind ∈ ["function_declaration", "function_expression", "method_definition"] := by
    simp only [List.mem_cons, List.not_mem_nil, or_false] at hkind ⊢
    tauto
  obtain ⟨hplain, hname, hplayers⟩ := (show ∀ kind ∈ ["function_declaration", "function_expression"],
    ((Kind.spells? kind).isNone && !Kind.particular.contains kind) ∧ Kind.takes kind (some "name") Rank.isOperand ∧
      (Kind.players? kind "name").all (· == Reader.nameKinds) by decide +kernel) kind hkind
  have hisPlain : Kind.isPlain kind p := by rw [Kind.isPlain, Bool.and_assoc, hrank, hplain]; rfl
  have hparts (star name : List Cst) (hstar : AnyFit t star) (hname : AllFit t kind name) :
      Makes t (fun c => c.Free t p ∧ c.kind = kind)
        (do finish kind start (front ++ star ++ name ++ (← functionParts below))) :=
    .bind (functionParts_makes hb hmem) fun parts hparts => .step get_makes fun _ =>
      .pure ⟨free_makeNode hisPlain (by simp [hfront kind, hstar kind, hname, hparts]), rfl⟩
  exact .step (expect_makes "function") fun _ => .bind (acceptToken_makes "*") fun star hstar =>
    .step (sees_makes "(") fun _ => .ite (hparts star [] hstar allFit_nil)
      (.bind identifier_makes fun name hident => hparts star _ hstar (allFit_one (hident.fit hname hplayers)))

theorem method_makes (start : Nat) (hfront : AllFit t "method_definition" front) {name : Cst}
    (hname : name.Free t Rank.isOperand) : Makes t (Free t Rank.isInner) (method below start front name) :=
  .bind (functionParts_makes hb (by decide)) fun _ hparts =>
    finish_makes (by decide)
      (allFit_append.2 ⟨allFit_append.2 ⟨hfront, allFit_one (hname.playing (by decide) rfl)⟩, hparts⟩)

theorem decorator_makes : Makes t (Free t Rank.isOperand) (decorator below) := by
  have hfinish (start : Nat) : Makes t (Free t Rank.isOperand) (finish "decorator" start []) :=
    finish_makes (by decide) allFit_nil
  have hpart : Makes t (IsNameNode t) decorator.memberNameAfterPoint := partName_makes
  refine .step startOffset_makes fun start => .step (expect_makes "@") fun _ => .step (accept_makes "(") fun _ => .ite
    (.step (hb (.expression true)) fun _ => .step (expect_makes ")") fun _ => hfinish start)
    (.step identifier_makes fun _ => .step (collect_makes (Q := fun _ => True) ?_) fun _ =>
      .step (accept_makes "(") fun _ => .ite
        (.step (commaList_makes (.step (accept_makes "...") fun _ => hb (.assignment true))) fun _ => hfinish start)
        (hfinish start))
  exact .step (accept_makes ".") fun _ => .ite (.step hpart fun _ => .pure fun _ _ => trivial)
    (.pure fun _ _ => trivial)

theorem decorators_makes : Makes t (fun l => ∀ c ∈ l, c.Free t Rank.isOperand) (decorators below) :=
  collect_makes (.step (sees_makes "@") fun _ => .ite (decorator_makes hb).some .none)

theorem field_makes (start : Nat) (hfront : AllFit t "field_definition" front) {name : Cst}
    (hname : name.Free t Rank.isOperand) : Makes t (Free t Rank.isInner) (field below start front name) := by
  have hrest (value : List Cst) (hvalue : AllFit t "field_definition" value) : Makes t (Free t Rank.isInner) (do
      let node ← finish "field_definition" start (front ++ [playing "property" name] ++ value)
      semicolon
      return node) :=
    .bind
      (finish_makes (by decide) (allFit_append.2 ⟨allFit_append.2 ⟨hfront, allFit_one (hname.playing (by decide) rfl)⟩,
      hvalue⟩)) fun node hnode => .step semicolon_makes fun _ => .pure hnode
  exact .step (accept_makes "=") fun _ => .ite
    (.bind (hb (.assignment true)) fun value hvalue => hrest _ (allFit_one (hvalue.playing (by decide) rfl)))
    (hrest [] allFit_nil)

theorem classMember_makes : Makes t (Free t Rank.isInner) (classMember below) := by
  refine .step startOffset_makes fun start => .bind (decorators_makes hb) fun decorated hdecorated =>
    .bind (acceptModifier_makes "static") fun isStatic hstatic => .step (sees_makes _) fun _ => .ite
      (.bind (block_makes hb) fun body hbody => finish_makes (by decide) (allFit_one (hbody.free.fit (by decide))))
      (.bind memberMarks_makes fun marks hmarks => .bind (memberName_makes hb) fun name hname =>
        .step (sees_makes "(") fun _ => .ite (method_makes hb start ?_ hname) (field_makes hb start ?_ hname))
  · exact allFit_append.2 ⟨allFit_append.2 ⟨allFit_of_free hdecorated (by decide), hstatic _⟩, hmarks _⟩
  · exact allFit_append.2 ⟨allFit_append.2 ⟨allFit_of_free hdecorated (by decide), hstatic _⟩, hmarks _⟩

theorem classBody_makes : Makes t (Free t Rank.isInner) (classBody below) := by
  have hmember : Makes t (AllFit t "class_body")
    (do if ← accept ";" then return [] else return [← classMember below]) :=
    .step (accept_makes ";") fun _ => .ite (.pure allFit_nil)
      (.bind (classMember_makes hb) fun _ hc => .pure (allFit_one (hc.fit (by decide))))
  refine .step startOffset_makes fun start => .step (expect_makes _) fun _ =>
    .bind (membersUntil_makes hmember) fun members hmembers =>
    finish_makes (by decide) fun c hc => ?_
  obtain ⟨l, hl, hc⟩ := List.mem_flatten.1 hc
  exact hmembers l hl c hc

/-! ## Arguments -/

theorem spreadable_makes : Makes t (IsMember t) (spreadable below) :=
  .step startOffset_makes fun _ => .step (accept_makes "...") fun _ => .ite
    (.bind (hb (.assignment true)) fun _ hinner => .step get_makes fun _ => .pure
      ⟨free_makeNode (by decide) (allFit_one (hinner.fit (by decide))), fun hne => absurd rfl hne⟩)
    ((hb (.assignment true)).mono fun _ h => ⟨h.mono fun _ => Rank.isInner_of_isExpression, fun _ => h.rank⟩)

theorem arguments_makes :
    Makes t (fun c => (c.Free t Rank.isOperand ∧ c.kind = "arguments") ∧ ∀ d ∈ c.children, d.Free t Rank.isInner)
      (arguments below) :=
  .step startOffset_makes fun _ => .step (expect_makes "(") fun _ =>
    .bind (commaList_makes (spreadable_makes hb)) fun args hargs =>
    have hfree : ∀ d ∈ args, d.Free t Rank.isInner := fun d hd => (hargs d hd).free
    .step get_makes fun _ => .pure ⟨⟨free_makeNode (by decide) (allFit_of_free hfree (by decide)), rfl⟩, hfree⟩

/-! ## Members and calls -/

section Object

variable {object : Cst} (hobject : object.Free t Rank.isOperand)
include hobject

theorem subscriptNode_makes (hfront : AllFit t "subscript_expression" front) :
    Makes t (Free t Rank.isOperand) (subscriptNode below object front) :=
  .bind (hb (.expression true)) fun _ hindex => .step (expect_makes "]") fun _ =>
    finish_makes (by decide) (allFit_append.2 ⟨allFit_append.2
      ⟨allFit_one (hobject.playing (by decide) rfl), hfront⟩, allFit_one (hindex.playing (by decide) rfl)⟩)

theorem callNode_makes (hfront : AllFit t "call_expression" front) :
    Makes t (Free t Rank.isOperand) (callNode below object front) :=
  .bind (arguments_makes hb) fun _ hargs => finish_makes (by decide) (allFit_append.2 ⟨allFit_append.2
    ⟨allFit_one (hobject.playing (by decide) rfl), hfront⟩,
      allFit_one (hargs.1.1.playing_kind hargs.1.2 (by decide) (by decide))⟩)

theorem extendMember_makes :
    Makes t (fun o => ∀ d ∈ o, d.Free t Rank.isOperand) (extendMember below object) :=
  .step (accept_makes ".") fun _ => .ite (.some (memberNode_makes hobject allFit_nil))
    (.step (accept_makes "[") fun _ => .ite (.some (subscriptNode_makes hb hobject allFit_nil))
      (.step (sees_makes _) fun _ => .ite
        (.bind (template_makes hb true) fun _ hquasi => .some (finish_makes (by decide)
          (allFit_cons.2
            ⟨hobject.playing (by decide) rfl, allFit_one (hquasi.1.playing_kind hquasi.2 (by decide) (by decide))⟩)))
        .none))

theorem extendCall_makes : Makes t (fun o => ∀ d ∈ o, d.Free t Rank.isOperand) (extendCall below object) := by
  have hchain {tok : Token} (h : tok.Solid t) (kind : String) (hplayers : Kind.players? kind "optional_chain" = none) :
      AllFit t kind [playing "optional_chain" tok.toCst] :=
    allFit_one (fit_playing_toCst h (by decide) fun kinds hkinds => by rw [hplayers] at hkinds; cases hkinds)
  exact .ite .none (.step (sees_makes "(") fun _ => .ite (.some (callNode_makes hb hobject allFit_nil))
    (.step (sees_makes "?.") fun _ => .ite
      (.bind advance_makes fun tok htok => .step (sees_makes "(") fun _ => .ite
        (.some (callNode_makes hb hobject (hchain htok _ rfl)))
        (.step (accept_makes "[") fun _ => .ite (.some (subscriptNode_makes hb hobject (hchain htok _ rfl)))
          (.some (memberNode_makes hobject (hchain htok _ rfl)))))
      (extendMember_makes hb hobject)))

end Object

end Below

end ScriptTidy.Grammar
