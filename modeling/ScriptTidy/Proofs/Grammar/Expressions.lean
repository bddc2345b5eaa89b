/-
What the parsers of expressions give: sound nodes that can stand where expressions can, if the parsers of
the parts below give such nodes. Only an assignment is no operand. The name new.target and its like cover
whatever stands between their tokens.
-/
import ScriptTidy.Proofs.Grammar.Functions

namespace ScriptTidy.Grammar

open Parsing Expression Cst

variable {t : List Char} {p q : Rank → Bool} {kind : String} {tok : Token} {c : Cst} {front items : List Cst}

theorem seesArrow_makes : Makes t (fun _ => True) seesArrow := .step token_makes fun _ => .pure trivial

theorem seesBracedLabel_makes : Makes t (fun _ => True) seesBracedLabel := by
  rintro s hs - _ _ ⟨⟩
  exact ⟨hs, trivial⟩

theorem toParameters_makes (start stop : Nat) (hitems : ∀ c ∈ items, c.Free t Rank.isInner) :
    Makes t (fun c => c.Free t Rank.isOperand ∧ c.kind = "formal_parameters") (toParameters start stop items) := by
  unfold toParameters
  split
  · next params hparams =>
    exact .ite
      (.pure ⟨free_makeNode (by decide) (allFit_of_free (Free.toPatterns hitems hparams) (by decide)), rfl⟩) .refuse
  · exact .refuse

theorem sequence_makes (hitems : ∀ c ∈ items, c.Free t Rank.isExpression) :
    Makes t (Free t Rank.isExpression) (sequence items) := by
  unfold Expression.sequence
  split
  · exact .refuse
  · exact .pure (hitems _ (List.mem_cons_self ..))
  · next first rest _ =>
    have hfits : AllFit t "sequence_expression" (first :: rest) := allFit_of_free hitems (by decide)
    have hfirst := hitems first (List.mem_cons_self ..)
    have hall : (first :: rest).all (fits "sequence_expression") = true := List.all_eq_true.2 fun d hd => (hfits d hd).2
    have hmem : first ∈ (first :: rest).filter fun d => d.mark.isNamed && !d.isComment :=
      List.mem_filter.2 ⟨List.mem_cons_self .., by simp [hfirst.named, hfirst.read]⟩
    refine .pure (free_makeNode_of_isRegular (by decide) (by decide) rfl (Bool.and_eq_true_iff.2 ⟨hall, ?_⟩) hfits)
    show (!List.isEmpty _) = true
    rw [Bool.not_eq_true', List.isEmpty_eq_false_iff]
    exact List.ne_nil_of_mem hmem

/-! ## Meta properties -/

/-- What starts with the first name and ends with the second one, and has a point in between, is spelled as a meta
property. -/
theorem spellsMeta_of_append {u v w : List Char} (hu : u.head?.any ['n', 'i'].contains)
    (hw : w.getLast?.any ['t', 'a'].contains) : Kind.spellsMeta (u ++ ('.' :: v) ++ w) := by
  obtain ⟨c, hc, hhead⟩ := (Option.any_eq_true _ _).1 hu
  obtain ⟨d, hd, hlast⟩ := (Option.any_eq_true _ _).1 hw
  rw [Kind.spellsMeta, Bool.and_eq_true, Bool.and_eq_true]
  refine ⟨⟨?_, by simp⟩, ?_⟩
  · rw [List.append_assoc, List.head?_append, hc]
    exact hhead
  · rw [List.getLast?_append, hd]
    exact hlast

theorem metaProperty_gives {name : String} (hname : name.toList.getLast?.any ['t', 'a'].contains) (start : Nat) :
    Gives t (fun s => ∃ w, s.Since t start w ∧ w.head?.any ['n', 'i'].contains) (metaProperty start name)
      fun c _ => c.Free t Rank.isOperand := by
  rintro s hs ⟨w, hsince, hhead⟩
  refine Gives.bind ((expect_since ".").mono (fun _ h => h) fun _ _ h => h.2) (fun _ => ?_) s hs hsince
  rintro s hs ⟨v, hsince⟩
  refine Gives.bind ((expect_since name).mono (fun _ h => h) fun _ _ h => h.1) (fun _ => ?_) s hs hsince
  rintro s hs hcovers c s' h
  cases h
  refine ⟨hs, ?_, rfl, rfl, rfl, rfl⟩
  refine .node (fun _ => isRegular_leaf (by decide)) (fun _ check hcheck => ⟨_, hcovers, ?_⟩)
    (fun hcomment => by cases hcomment)
    fun _ hd => nomatch hd
  cases hcheck
  exact spellsMeta_of_append hhead hname

theorem superWord_makes : Makes t (Free t Rank.isOperand) superWord :=
  .bind advance_makes fun _ htok => .step (sees_makes "(") fun _ => .step (sees_makes ".") fun _ =>
    .step (sees_makes "[") fun _ => .ite (.pure (free_leaf htok (by decide) rfl (by decide))) .refuse

theorem text_of_is {text : String} (h : tok.is text) : tok.text = text := beq_iff_eq.1 (Bool.and_eq_true_iff.1 h).2

theorem importWord_gives (htok : tok.is "import") :
    Gives t (fun s => s.token = tok) importWord fun c _ => c.Free t Rank.isOperand := by
  rintro s hs rfl
  have htext := text_of_is htok
  refine Gives.bind advance_since (fun tok' => Gives.bind (sees_gives ".") fun _ => Gives.ite (fun _ => ?_) fun _ =>
    Gives.bind (sees_gives "(") fun _ => Gives.ite (fun _ => Gives.pure ?_) fun _ => .refuse) s hs ⟨rfl, hs.since⟩
  · rintro s' hs' ⟨⟨⟨rfl, -⟩, -, v, hsince⟩, -⟩
    refine metaProperty_gives (by decide) _ s' hs' ⟨_, hsince, ?_⟩
    rw [htext]
    rfl
  · rintro s' ⟨⟨⟨⟨rfl, hsolid⟩, -⟩, -⟩, -⟩
    refine (isNameNode_leaf hsolid ?_ (by decide)).free
    rw [htext]
    decide +kernel

theorem regex_makes : Makes t (Free t Rank.isOperand) regex := by
  refine .bind get_makes fun s hs => ?_
  split
  · next text rest hregex =>
    obtain ⟨hcut, hspells⟩ := isCut_regex? hregex
    refine .step (moveTo_makes (hs.here.past hcut)) fun _ => .pure ⟨?_, rfl, rfl, rfl, rfl⟩
    refine .node (fun _ => isRegular_leaf (by decide)) (fun _ check hcheck => ⟨text, hs.here.covers hcut, ?_⟩)
      (fun hcomment => by cases hcomment) fun _ hd => nomatch hd
    cases hcheck
    exact hspells
  · exact .refuse

/-! ## Operators -/

/-- The token is an operator that can stand in front of an operand. -/
def IsPrefix (t : List Char) (tok : Token) : Prop := tok.Solid t ∧ (prefixOperators.any tok.is ∨ tok.is "await")

theorem prefixOperator?_makes : Makes t (fun o => ∀ tok ∈ o, IsPrefix t tok) prefixOperator? := by
  refine .step skipMarkupComments_makes fun _ => Gives.of_token fun tok => .ite
    (fun hprefix => Gives.pass fun hsolid => .pure ?_) fun _ => Gives.bind following_gives fun _ => .ite
      (fun hawait => Gives.pass fun hsolid => .pure ?_) fun _ => Gives.of_makes .none
  · intro _ h
    exact Option.some.inj h ▸ ⟨hsolid, .inl hprefix⟩
  · intro _ h
    exact Option.some.inj h ▸ ⟨hsolid, .inr (Bool.and_eq_true_iff.1 hawait).1⟩

theorem prefixed_makes (h : IsPrefix t tok) (hc : c.Free t Rank.isOperand) :
    Makes t (Free t Rank.isOperand) (prefixed tok c) := by
  obtain ⟨hsolid, hprefix⟩ := h
  refine Gives.ite (fun _ => Makes.pure ?_) fun hawait =>
    Gives.ite (fun hupdate => Makes.ite (.pure ?_) .refuse) fun hupdate =>
    Makes.pure ?_
  · exact free_makeNode (by decide) (allFit_cons.2 ⟨fit_toCst hsolid _, allFit_one (hc.fit (by decide))⟩)
  · refine free_makeNode (by decide)
      (allFit_cons.2 ⟨fit_playing_toCst hsolid (by decide) ?_, allFit_one (hc.playing (by decide) rfl)⟩)
    rintro _ ⟨⟩
    rcases Bool.or_eq_true_iff.1 hupdate with h | h <;> rw [text_of_is h] <;> decide
  · refine free_makeNode (by decide)
      (allFit_cons.2 ⟨fit_playing_toCst hsolid (by decide) ?_, allFit_one (hc.playing (by decide) rfl)⟩)
    rintro _ ⟨⟩
    have hany : prefixOperators.any tok.is := hprefix.resolve_right hawait
    rw [Bool.or_eq_true, not_or] at hupdate
    obtain ⟨operator, hmem, his⟩ := List.any_eq_true.1 hany
    rw [text_of_is his]
    simp only [prefixOperators, List.mem_cons, List.not_mem_nil, or_false] at hmem
    rcases hmem with rfl | rfl | rfl | rfl | rfl | rfl | rfl | rfl | rfl
    case inr.inr.inr.inr.inl => exact absurd his hupdate.1
    case inr.inr.inr.inr.inr.inl => exact absurd his hupdate.2
    all_goals decide

/-- What waits for a right operand. -/
def IsPending (t : List Char) (pending : Pending) : Prop := ∀ e ∈ pending, e.1.Free t Rank.isOperand ∧ e.2.Solid t

theorem binaryNode_free {left right : Cst} (hleft : left.Free t Rank.isOperand) (htok : tok.Solid t)
    (hright : right.Free t Rank.isOperand) : (binaryNode left tok right).Free t Rank.isOperand :=
  free_makeNode (by decide) (allFit_cons.2 ⟨hleft.playing (by decide) rfl, allFit_cons.2
    ⟨fit_playing_toCst htok (by decide) (fun kinds hkinds => by cases hkinds),
      allFit_one (hright.playing (by decide) rfl)⟩⟩)

namespace Chain

/-- By induction on what is pending. -/
theorem apply_free (next : Token) : ∀ {pending : Pending} {operand : Cst}, operand.Free t Rank.isOperand →
    IsPending t pending → (apply next operand pending).1.Free t Rank.isOperand ∧
    IsPending t (apply next operand pending).2
  | [], _, hoperand, hpending => ⟨hoperand, hpending⟩
  | (left, operator) :: pending, operand, hoperand, hpending => by
    obtain ⟨⟨hleft, hoperator⟩, hrest⟩ := List.forall_mem_cons.1 hpending
    rw [apply]
    split
    · exact apply_free next (binaryNode_free hleft hoperator hoperand) hrest
    · exact ⟨hoperand, hpending⟩

/-- By induction on what is pending. -/
theorem close_free : ∀ {pending : Pending} {operand : Cst}, operand.Free t Rank.isOperand → IsPending t pending →
    (close operand pending).Free t Rank.isOperand
  | [], _, hoperand, _ => hoperand
  | (left, operator) :: pending, operand, hoperand, hpending => by
    obtain ⟨⟨hleft, hoperator⟩, hrest⟩ := List.forall_mem_cons.1 hpending
    rw [close]
    exact close_free (binaryNode_free hleft hoperator hoperand) hrest

/-- By induction on what is still to be added. -/
theorem tree_free : ∀ {rest : List (Token × Cst)} {pending : Pending} {operand : Cst}, operand.Free t Rank.isOperand →
    IsPending t pending → (∀ e ∈ rest, e.1.Solid t ∧ e.2.Free t Rank.isOperand) →
    (tree operand pending rest).Free t Rank.isOperand
  | [], _, _, hoperand, hpending, _ => close_free hoperand hpending
  | (operator, next) :: rest, pending, operand, hoperand, hpending, hrest => by
    obtain ⟨⟨hoperator, hnext⟩, hrest⟩ := List.forall_mem_cons.1 hrest
    obtain ⟨hleft, hpending⟩ := apply_free operator hoperand hpending
    rw [tree]
    exact tree_free hnext (List.forall_mem_cons.2 ⟨⟨hleft, hoperator⟩, hpending⟩) hrest

end Chain

section Below

variable {below : Below} (hb : below.Sound t)
include hb

theorem braces_makes {withObject : Parsing Cst} (h : Makes t (Free t p) withObject) (hp : ∀ r, p r → q r)
    (hq : ∀ r, Rank.isDeclaration r → q r) : Makes t (Free t q) (braces below withObject) := by
  have hblock : Makes t (Free t q) (block below) := (block_makes hb).mono fun _ hc => hc.free.mono hq
  have hobject : Makes t (Free t q) (do
      let c ← withObject
      if holdsStrayDefault c then refuse else return c) :=
    .bind h fun _ hc => .ite .refuse (.pure (hc.mono hp))
  exact .step seesBracedLabel_makes fun _ => .ite (either_makes hobject hblock) hblock

theorem arrow_makes (around : Surroundings) (start : Nat) (hfront : AllFit t "arrow_function" front) :
    Makes t (Free t Rank.isOperand) (arrow below around start front) := by
  have hbody (body : Cst) (h : body.Free t Rank.isInner) :
      Makes t (Free t Rank.isOperand) (finish "arrow_function" start (front ++ [playing "body" body])) :=
    finish_makes (by decide) (allFit_append.2 ⟨hfront, allFit_one (h.playing (by decide) rfl)⟩)
  have hvalue := hb (.assignment around.allowIn)
  exact .step (expect_makes "=>") fun _ => .step (sees_makes _) fun _ => .ite
    (.bind (braces_makes hb hvalue (fun _ => Rank.isInner_of_isExpression) fun _ => Rank.isInner_of_isDeclaration)
      hbody)
    (.bind (hvalue.mono fun _ h => h.mono fun _ => Rank.isInner_of_isExpression) hbody)

theorem parenthesized_makes (around : Surroundings) : Makes t (Free t Rank.isOperand) (parenthesized below around) := by
  have hitem : Makes t (fun i : Cst × Bool => IsMember t i.1) (do
      let item ← spreadable below
      return (item, ← sees ",")) :=
    .bind (spreadable_makes hb) fun _ hitem => .step (sees_makes ",") fun _ => .pure hitem
  refine .step startOffset_makes fun start => .step (expect_makes "(") fun _ =>
    .bind (commaList_makes hitem) fun items hitems =>
    .step get_makes fun s => .step seesArrow_makes fun _ => .ite
      (.bind (toParameters_makes start s.last fun c hc => ?_) fun params hparams => arrow_makes hb around start
        (allFit_one (hparams.1.playing_kind hparams.2 (by decide) (by decide))))
      (Gives.ite (fun _ => .refuse) fun hspread => Makes.bind (sequence_makes fun c hc => ?_) fun inner hinner =>
        .pure (free_makeNode (by decide) (allFit_one (hinner.fit (by decide)))))
  · obtain ⟨i, hi, rfl⟩ := List.mem_map.1 hc
    exact (hitems i hi).free
  · -- nothing is spread here
    obtain ⟨i, hi, rfl⟩ := List.mem_map.1 hc
    have hmember := hitems i hi
    refine { hmember.free with rank := hmember.rank fun hkind => hspread ?_ }
    rw [Bool.or_eq_true, List.any_eq_true]
    exact .inl ⟨i, hi, beq_iff_eq.2 hkind⟩

theorem array_makes : Makes t (Free t Rank.isOperand) (array below) := by
  have hpart : Makes t (Fit t "array") (do
      if ← sees "," then return (← advance).toCst
      else
        let element ← spreadable below
        if (← sees ",") || (← sees "]") then return element else refuse) :=
    .step (sees_makes ",") fun _ => .ite (.bind advance_makes fun _ htok => .pure (fit_toCst htok _))
      (.bind (spreadable_makes hb) fun _ helement => .step (sees_makes ",") fun _ => .step (sees_makes "]") fun _ =>
        .ite (.pure (helement.free.fit (by decide))) .refuse)
  exact .step startOffset_makes fun _ => .step (expect_makes "[") fun _ =>
    .bind (membersUntil_makes hpart) fun _ hparts =>
    finish_makes (by decide) hparts

theorem objectMember_makes : Makes t (Free t Rank.isInner) (objectMember below) := by
  refine .step token_makes fun tok => .ite ((spreadable_makes hb).mono fun _ h => h.free)
    (.bind memberMarks_makes fun marks hmarks => .bind token_makes fun mark hmark =>
      .bind (memberName_makes hb) fun name hname =>
      .step (sees_makes "(") fun _ => .ite (method_makes hb tok.start (hmarks _) hname)
        (.step (accept_makes ":") fun _ => .ite
          (.bind (hb (.assignment true)) fun value hvalue => finish_makes (by decide)
            (allFit_cons.2 ⟨hname.playing (by decide) rfl, allFit_one (hvalue.playing (by decide) rfl)⟩))
          (Gives.ite (fun _ => .refuse) fun hfree => ?_)))
  -- a name alone
  rw [Bool.not_eq_true, Bool.not_eq_false'] at hfree
  obtain ⟨hsolid, hkind⟩ := solid_of_isFreeName hmark hfree
  have hspells := spellsName_of_kind hsolid (.inl hkind)
  refine Makes.step (accept_makes "=") fun _ => .ite (.bind (hb (.assignment true)) fun value hvalue =>
    finish_makes (by decide) (allFit_cons.2 ⟨?_, allFit_one (hvalue.playing (by decide) rfl)⟩)) (.pure ?_)
  · exact (isNameNode_leaf hsolid hspells (by decide)).fit (by decide) (by decide)
  · exact (isNameNode_leaf hsolid hspells (by decide)).free.mono fun _ => Rank.isInner_of_isOperand

theorem object_makes : Makes t (Free t Rank.isOperand) (object below) :=
  .step startOffset_makes fun _ => .step (expect_makes _) fun _ =>
    .bind (commaList_makes (objectMember_makes hb)) fun _ hmembers =>
    finish_makes (by decide) (allFit_of_free hmembers (by decide))

theorem heritage_makes : Makes t (fun l => ∀ c ∈ l, c.Free t Rank.isOperand) (heritage below) :=
  .step startOffset_makes fun _ => .step (accept_makes "extends") fun _ => .ite
    (.bind (hb .construction) fun _ hfirst =>
      .bind (grow_makes (fun _ hc => extendCall_makes hb hc) hfirst) fun _ hsuperclass =>
      .bind (finish_makes (by decide) (allFit_one (hsuperclass.fit (by decide)))) fun _ hc =>
        .pure (List.forall_mem_singleton.2 hc))
    (.pure fun _ h => nomatch h)

theorem classNode_makes (hkind : kind ∈ ["class", "class_declaration"]) (hrank : p (Kind.rank kind)) (start : Nat)
    (hfront : ∀ c ∈ front, c.Free t Rank.isOperand) :
    Makes t (fun c => c.Free t p ∧ c.kind = kind) (classNode below kind start front) := by
  obtain ⟨hplain, hpart, hname, hplayers, hbody, hnone⟩ := (show ∀ kind ∈ ["class", "class_declaration"],
    ((Kind.spells? kind).isNone && !Kind.particular.contains kind) ∧ Kind.takes kind none Rank.isOperand ∧
      Kind.takes kind (some "name") Rank.isOperand ∧ (Kind.players? kind "name").all (· == Reader.nameKinds) ∧
      Kind.takes kind (some "body") Rank.isInner ∧ Kind.players? kind "body" = none by decide +kernel) kind hkind
  have hisPlain : Kind.isPlain kind p := by rw [Kind.isPlain, Bool.and_assoc, hrank, hplain]; rfl
  have hrest (name : List Cst) (hname : AllFit t kind name) : Makes t (fun c => c.Free t p ∧ c.kind = kind) (do
      let superclass ← heritage below
      let body ← classBody below
      finish kind start (front ++ name ++ superclass ++ [playing "body" body])) :=
    .bind (heritage_makes hb) fun superclass hsuperclass => .bind (classBody_makes hb) fun body hclass =>
      .step get_makes fun _ => .pure ⟨free_makeNode hisPlain (by
        simp [allFit_of_free hfront hpart, hname, allFit_of_free hsuperclass hpart, hclass.playing hbody hnone]), rfl⟩
  exact .step (expect_makes "class") fun _ => .step (sees_makes _) fun _ => .step (sees_makes "extends") fun _ => .ite
    (hrest [] allFit_nil)
    (.bind identifier_makes fun name hident => hrest _ (allFit_one (hident.fit hname hplayers)))

theorem creation_makes : Makes t (Free t Rank.isOperand) (creation below) := by
  refine Gives.bind startOffset_gives fun start =>
    Gives.bind ((expect_since "new").mono (fun _ h => h) fun _ _ h => h.2)
    fun _ => Gives.bind (sees_gives ".") fun _ => Gives.ite (fun _ => ?_) fun _ => Gives.of_makes ?_
  · refine (metaProperty_gives (by decide) start).mono ?_ fun _ _ h => h
    rintro s ⟨⟨v, hsince⟩, -⟩
    exact ⟨_, hsince, rfl⟩
  · have hrest {callee : Cst} (hcallee : callee.Free t Rank.isOperand) (args : List Cst)
        (hargs : AllFit t "new_expression" args) : Makes t (Free t Rank.isOperand)
        (finish "new_expression" start ([playing "constructor" callee] ++ args)) :=
      finish_makes (by decide) (allFit_append.2 ⟨allFit_one (hcallee.playing (by decide) rfl), hargs⟩)
    exact .bind (hb .construction) fun _ hfirst => .bind (grow_makes (fun _ hc => extendMember_makes hb hc) hfirst)
      fun _ hcallee => .step (sees_makes "(") fun _ => .ite
        (.bind (arguments_makes hb) fun _ hargs =>
          hrest hcallee _ (allFit_one (hargs.1.1.playing_kind hargs.1.2 (by decide) (by decide))))
        (hrest hcallee [] allFit_nil)

theorem singleArrow_makes (around : Surroundings) (start : Nat) (hfront : AllFit t "arrow_function" front) :
    Makes t (Free t Rank.isOperand) (singleArrow below around start front) :=
  .bind identifier_makes fun _ hname => .step seesArrow_makes fun _ => .ite
    (arrow_makes hb around start (allFit_append.2 ⟨hfront, allFit_one (hname.fit (by decide) (by decide))⟩)) .refuse

theorem asyncExpression_gives (around : Surroundings) (htok : tok.is "async") :
    Gives t (fun s => s.token = tok) (asyncExpression below around) fun c _ => c.Free t Rank.isOperand := by
  have hname : Makes t (Free t Rank.isOperand) identifier := identifier_makes.mono fun _ h => h.free
  refine Gives.token_again (Gives.bind following_gives fun followed => Gives.ite
    (fun _ => Gives.pass fun hsolid =>
      (function_makes hb (by decide) (by decide) _ fun kind => allFit_one (fit_toCst hsolid kind)).mono
      fun _ h => h.1)
    fun _ => Gives.ite (fun _ => Gives.bind secondFollowing_gives fun _ => Gives.ite
      (fun _ => Gives.pass fun hsolid => singleArrow_makes hb around _ (allFit_one (fit_toCst hsolid _)))
      fun _ => Gives.ite
        (fun _ => Gives.pass fun hsolid => .bind (arguments_makes hb) fun args hargs =>
          .step seesArrow_makes fun _ => .ite
          (.bind (toParameters_makes _ _ hargs.2) fun params hparams => arrow_makes hb around _
            (allFit_cons.2 ⟨fit_toCst hsolid _, allFit_one (hparams.1.playing_kind hparams.2 (by decide) (by decide))⟩))
          (finish_makes (by decide)
            (allFit_cons.2 ⟨?_, allFit_one (hargs.1.1.playing_kind hargs.1.2 (by decide) (by decide))⟩)))
        fun _ => Gives.ite (fun _ => Gives.of_makes (singleArrow_makes hb around _ allFit_nil)) fun _ =>
          Gives.of_makes hname)
      fun _ => Gives.of_makes hname)
  refine (isNameNode_leaf hsolid ?_ (by decide)).fit (by decide) (by decide)
  rw [text_of_is htok]
  decide +kernel

theorem wordExpression_gives (around : Surroundings) :
    Gives t (fun s => s.token = tok) (wordExpression below around tok) fun c _ => c.Free t Rank.isOperand := by
  have hname : Makes t (Free t Rank.isOperand) identifier := identifier_makes.mono fun _ h => h.free
  have hword {kind : String} (hkind : (Kind.rank kind).isOperand ∧ kind ∉ Kind.particular ∧ Kind.spells? kind = none) :
      Gives t (fun s => s.token = tok) (do return (← advance).leaf kind) fun c _ => c.Free t Rank.isOperand :=
    leaf_gives hkind.1 hkind.2.1 fun _ => by rw [hkind.2.2]; rfl
  unfold wordExpression
  exact .ite (fun _ => hword (by decide)) fun _ => .ite (fun _ => hword (by decide)) fun _ =>
    .ite (fun _ => hword (by decide))
    fun _ => .ite (fun _ => hword (by decide)) fun _ => .ite
      (fun _ => Gives.of_makes ((function_makes hb (by decide) (by decide) _ fun _ => allFit_nil).mono fun _ h => h.1))
    fun _ =>
      .ite
        (fun _ => Gives.of_makes
          ((classNode_makes hb (by decide) (by decide) _ fun _ h => absurd h List.not_mem_nil).mono fun _ h => h.1))
    fun _ => .ite (fun _ => Gives.of_makes (creation_makes hb)) fun _ => .ite (fun _ => Gives.of_makes superWord_makes)
    fun _ => .ite importWord_gives fun _ => .ite (asyncExpression_gives hb around) fun _ =>
    Gives.bind following_gives fun _ => .ite
      (fun _ => Gives.of_makes (singleArrow_makes hb around _ allFit_nil)) fun _ => Gives.of_makes hname

theorem primary_makes (around : Surroundings) : Makes t (Free t Rank.isOperand) (primary below around) := by
  refine .step skipMarkupComments_makes fun _ => Gives.of_token fun tok => ?_
  split
  · next hnumber =>
    refine leaf_gives (by decide) (by decide) fun h => ?_
    have hspells := h.2
    rwa [hnumber] at hspells
  · next hstring =>
    refine leaf_gives (by decide) (by decide) fun h => ?_
    have hspells := h.2
    rwa [hstring] at hspells
  · exact wordExpression_gives hb around
  · next hprivate =>
    exact Gives.bind following_gives fun _ => .ite
      (fun _ => (nameLeaf_gives (.inr hprivate) (by decide)).mono (fun _ h => h) fun _ _ h => h.free) fun _ => .refuse
  · exact Gives.of_makes (.ite (parenthesized_makes hb around) (.ite (array_makes hb) (.ite (object_makes hb)
      (.ite ((template_makes hb false).mono fun _ h => h.1)
      (.ite regex_makes (.ite
        (.bind (hb .markup) fun _ hnode => .step advance_makes fun _ => .pure hnode)
        (.ite (.bind (decorators_makes hb) fun _ hdecorated =>
          (classNode_makes hb (by decide) (by decide) _ hdecorated).mono fun _ h => h.1) .refuse)))))))
  · exact .refuse

/-! ## Operations -/

theorem unary_makes (around : Surroundings) : Makes t (Free t Rank.isOperand) (unary below around) := by
  refine .bind (collect_makes prefixOperator?_makes) fun operators hoperators =>
    .bind (primary_makes hb around) fun first hfirst =>
    .bind (grow_makes (fun _ hc => extendCall_makes hb hc) hfirst) fun operand hoperand => Gives.of_token fun tok => ?_
  have hrest (inner : Cst) (hinner : inner.Free t Rank.isOperand) :
      Makes t (Free t Rank.isOperand) (operators.foldrM prefixed inner) :=
    foldrM_makes (fun _ htok _ hc => prefixed_makes (hoperators _ htok) hc) hinner
  refine Gives.ite (fun hafter => Gives.pass fun hsolid => .bind (finish_makes (by decide) (allFit_cons.2
    ⟨hoperand.playing (by decide) rfl, allFit_one (fit_playing_toCst hsolid (by decide) ?_)⟩)) hrest)
    fun _ => Gives.of_makes (hrest operand hoperand)
  rintro _ ⟨⟩
  obtain ⟨hoperator, -⟩ := Bool.and_eq_true_iff.1 (Bool.and_eq_true_iff.1 hafter).1
  rcases Bool.or_eq_true_iff.1 hoperator with h | h <;> rw [text_of_is h] <;> decide

theorem chain_makes (around : Surroundings) : Makes t (Free t Rank.isOperand) (chain below around) := by
  have hoperation : Makes t (fun o : Option (Token × Cst) => ∀ e ∈ o, e.1.Solid t ∧ e.2.Free t Rank.isOperand) (do
      let t ← token
      if isBinaryOperator around.allowIn t then
        let operator ← advance
        return some (operator, ← unary below ⟨around.allowIn, none⟩)
      else return none) :=
    .step token_makes fun _ => .ite (.bind advance_makes fun _ htok => .bind (unary_makes hb _) fun _ hc =>
      .pure fun _ h => Option.some.inj h ▸ ⟨htok, hc⟩) .none
  exact .bind (unary_makes hb around) fun first hfirst =>
    .ite (.pure hfirst) (.bind (collect_makes hoperation) fun rest hrest =>
      .ite (.pure (Chain.tree_free hfirst (fun _ h => nomatch h) hrest)) .refuse)

theorem conditional_makes (around : Surroundings) : Makes t (Free t Rank.isOperand) (conditional below around) :=
  have hassignment (allowIn : Bool) : Makes t (Free t Rank.isExpression) (below (.assignment allowIn)) := hb _
  .bind (chain_makes hb around) fun test htest => .step (accept_makes "?") fun _ => .ite
    (.bind (hassignment true) fun _ hconsequent => .step (expect_makes ":") fun _ =>
      .bind (hassignment around.allowIn) fun _ halternate => finish_makes (by decide) (allFit_cons.2
        ⟨htest.playing (by decide) rfl, allFit_cons.2
          ⟨hconsequent.playing (by decide) rfl, allFit_one (halternate.playing (by decide) rfl)⟩⟩))
    (.pure htest)

/-! ## Assignments -/

theorem yieldExpression_makes (allowIn : Bool) :
    Makes t (Free t Rank.isExpression) (yieldExpression below allowIn) := by
  have hinner : Makes t (Free t Rank.isExpression) (below (.assignment allowIn)) := hb _
  refine .bind advance_makes fun word hword => .step token_makes fun _ => ?_
  have hparts (cs : List Cst) (hcs : AllFit t "yield_expression" cs) :
      Makes t (Free t Rank.isExpression) (finish "yield_expression" word.start (word.toCst :: cs)) :=
    finish_makes (by decide) (allFit_cons.2 ⟨fit_toCst hword _, hcs⟩)
  exact .ite (hparts [] allFit_nil) (.ite
    (.bind advance_makes fun star hstar => .bind hinner fun inner hinner =>
      hparts _ (allFit_cons.2 ⟨fit_toCst hstar _, allFit_one (hinner.fit (by decide))⟩))
    (.ite (hparts [] allFit_nil) (.bind hinner fun inner hinner => hparts _ (allFit_one (hinner.fit (by decide))))))

theorem assignment_makes (allowIn : Bool) : Makes t (Free t Rank.isExpression) (assignment below allowIn) := by
  refine .step skipMarkupComments_makes fun _ => .step token_makes fun tok => .ite (yieldExpression_makes hb allowIn)
    (.bind (conditional_makes hb _) fun left hleft => Gives.of_token fun operator => ?_)
  have hassignment : Makes t (Free t Rank.isExpression) (below (.assignment allowIn)) := hb _
  have hsame : left.Free t Rank.isExpression := hleft.mono fun _ => Rank.isExpression_of_isOperand
  refine .ite (fun _ => Gives.pure fun _ _ => hsame) fun _ => .ite (fun _ => ?_) fun _ =>
    .ite (fun _ => .ite (fun _ => ?_)
    fun _ => .refuse) fun _ => Gives.pure fun _ _ => hsame
  · split
    · next target htarget =>
      have htarget := hleft.toTarget? htarget
      exact Gives.pass fun hsolid => .bind hassignment fun right hright => finish_makes (by decide)
        (allFit_cons.2 ⟨htarget.playing (by decide) rfl, allFit_cons.2
          ⟨fit_toCst hsolid _, allFit_one (hright.playing (by decide) rfl)⟩⟩)
    · exact .refuse
  · exact Gives.pass fun hsolid => .bind hassignment fun right hright => finish_makes (by decide)
      (allFit_cons.2 ⟨hleft.playing (by decide) rfl, allFit_cons.2
        ⟨fit_playing_toCst hsolid (by decide) (fun _ h => by cases h), allFit_one (hright.playing (by decide) rfl)⟩⟩)

theorem expression_makes (allowIn : Bool) : Makes t (Free t Rank.isExpression) (expression below allowIn) :=
  .bind (assignment_makes hb allowIn) fun _ hfirst => .bind (collect_makes (.step (accept_makes ",") fun _ =>
    .ite (.some (assignment_makes hb allowIn)) .none)) fun _ hrest =>
      sequence_makes (List.forall_mem_cons.2 ⟨hfirst, hrest⟩)

theorem construction_makes : Makes t (Free t Rank.isOperand) (construction below) := primary_makes hb _

end Below

end ScriptTidy.Grammar
