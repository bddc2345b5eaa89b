/-
What parsers keep and what they give. A parser that succeeds leaves a state whose cursors, token and
comments lie in the text, and gives a value with a property. This is settled parser by parser: for the
steps through the text, for repetition and alternatives, and for the nodes that are made from parts.
-/
import ScriptTidy.Proofs.Grammar.Kinds

namespace ScriptTidy.Grammar

open Parsing

variable {t : List Char} {α β : Type}

/-! ## States -/

/-- The cursors of the state stand in the text, its token covers what is between them, and its comments are notes. -/
structure State.Valid (t : List Char) (s : State) : Prop where
  here : s.here.In t
  next : s.next.In t
  token : s.token.In t
  start : s.token.start = s.here.offset
  stop : s.next.offset = s.token.stop
  forward : s.here.offset ≤ s.next.offset
  comments : ∀ c ∈ s.comments, c.IsNote t

theorem isRegular_leaf {kind : String} {start stop : Nat} (hkind : kind ≠ "sequence_expression") :
    (makeNode kind start stop []).isRegular := by
  have hkind : (kind == "sequence_expression") = false := beq_eq_false_iff_ne.2 hkind
  simp [Cst.isRegular, Cst.suits, makeNode, Cst.children, Cst.kind, Cst.mark, Cst.named, hkind]

theorem spells?_comment {kind : String} (h : kind = "comment" ∨ kind = "html_comment") : Kind.spells? kind = none := by
  rcases h with rfl | rfl <;> decide +kernel

/-- The node of a comment. -/
theorem isNote_comment {kind : String} (hkind : kind = "comment" ∨ kind = "html_comment") {e : Extent}
    (h : e.IsNote t) : (e.comment kind).IsNote t := by
  have hne : kind ≠ "sequence_expression" := by rcases hkind with rfl | rfl <;> decide
  have hcomment : (e.comment kind).isComment := by rcases hkind with rfl | rfl <;> rfl
  refine ⟨hcomment, .node (fun _ => isRegular_leaf hne) (fun _ p hp => ?_) (fun _ => h) fun _ hd => (nomatch hd), rfl⟩
  rw [show Kind.spells? (e.comment kind).kind = none from spells?_comment hkind] at hp
  cases hp

theorem stateAt_valid {s : State} {c : Cursor} {last : Nat} (hcursor : c.In t)
    (hcomments : ∀ d ∈ s.comments, d.IsNote t) : (stateAt s c last).Valid t := by
  obtain ⟨hskip, -, hnotes⟩ := hcursor.skip
  have hall : ∀ d ∈ c.skip.comments.map (Extent.comment "comment") ++ s.comments, d.IsNote t := by
    refine List.forall_mem_append.2 ⟨?_, hcomments⟩
    intro d hd
    obtain ⟨e, he, rfl⟩ := List.mem_map.1 hd
    exact isNote_comment (.inl rfl) (hnotes e he)
  unfold stateAt
  dsimp only
  split
  · obtain ⟨htoken, hnext, hstart, hstop, hforward⟩ := hskip.tokenAt c.skip.hasLineEnd
    exact ⟨hskip, hnext, htoken, hstart, hstop, hstop.symm ▸ hforward, hall⟩
  · exact ⟨hskip, hskip, fun _ hinvalid => absurd rfl hinvalid, rfl, rfl, Nat.le_refl _, hall⟩

/-! ## Parsers -/

/-- From every valid state with the first property the parser can only reach valid states, and values with the second
property there. -/
def Gives (t : List Char) (P : State → Prop) (p : Parsing α) (Q : α → State → Prop) : Prop :=
  ∀ s, s.Valid t → P s → ∀ a s', p s = .ok (a, s') → s'.Valid t ∧ Q a s'

/-- The parser keeps states valid and gives values with the property only. -/
def Makes (t : List Char) (Q : α → Prop) (p : Parsing α) : Prop := Gives t (fun _ => True) p fun a _ => Q a

namespace Gives

variable {P : State → Prop} {R : α → State → Prop} {Q : β → State → Prop}

theorem bind {p : Parsing α} {f : α → Parsing β} (hp : Gives t P p R) (hf : ∀ a, Gives t (R a) (f a) Q) :
    Gives t P (p >>= f) Q := by
  intro s hs hP b s' h
  obtain ⟨⟨a, s''⟩, ha, hb⟩ := exists_of_bind_ok (show (p s >>= fun r => f r.1 r.2) = .ok (b, s') from h)
  obtain ⟨hs'', hR⟩ := hp s hs hP a s'' ha
  exact hf a s'' hs'' hR b s' hb

theorem pure {b : β} (h : ∀ s, P s → Q b s) : Gives t P (pure b) Q := by
  rintro s hs hP _ _ ⟨⟩
  exact ⟨hs, h s hP⟩

theorem mono {P' : State → Prop} {Q' : β → State → Prop} {p : Parsing β} (h : Gives t P p Q) (hP : ∀ s, P' s → P s)
    (hQ : ∀ b s, Q b s → Q' b s) : Gives t P' p Q' := by
  intro s hs hpre b s' hb
  obtain ⟨hs', hpost⟩ := h s hs (hP s hpre) b s' hb
  exact ⟨hs', hQ b s' hpost⟩

theorem ite {c : Prop} [Decidable c] {p q : Parsing β} (hp : c → Gives t P p Q) (hq : ¬ c → Gives t P q Q) :
    Gives t P (if c then p else q) Q := by
  split
  · exact hp ‹c›
  · exact hq ‹¬ c›

/-- A parser that fails gives nothing. -/
theorem refuse : Gives t P (refuse : Parsing β) Q := by
  rintro s - - _ _ ⟨⟩

theorem and {Q' : β → State → Prop} {p : Parsing β} (h : Gives t P p Q) (h' : Gives t P p Q') :
    Gives t P p fun b s => Q b s ∧ Q' b s := by
  intro s hs hP b s' hb
  obtain ⟨hs', hQ⟩ := h s hs hP b s' hb
  exact ⟨hs', hQ, (h' s hs hP b s' hb).2⟩

/-- What is known of the state does not matter to the parser. -/
theorem of_makes {Q : β → Prop} {p : Parsing β} (h : Makes t Q p) : Gives t P p fun b _ => Q b :=
  h.mono (fun _ _ => trivial) fun _ _ h => h

/-- A first step of which only its value matters. -/
theorem after {p : Parsing α} {f : α → Parsing β} {R : α → Prop} (hp : Makes t R p)
    (hf : ∀ a, R a → Gives t (fun _ => True) (f a) Q) : Gives t P (p >>= f) Q :=
  bind (hp.mono (fun _ _ => trivial) fun _ _ h => h) fun a s hs hR => hf a hR s hs trivial

end Gives

namespace Makes

variable {R : α → Prop} {Q : β → Prop}

theorem bind {p : Parsing α} {f : α → Parsing β} (hp : Makes t R p) (hf : ∀ a, R a → Makes t Q (f a)) :
    Makes t Q (p >>= f) :=
  Gives.after hp hf

/-- A first step of which nothing needs to be known. -/
theorem step {p : Parsing α} {f : α → Parsing β} (hp : Makes t R p) (hf : ∀ a, Makes t Q (f a)) : Makes t Q (p >>= f) :=
  hp.bind fun a _ => hf a

theorem pure {b : β} (h : Q b) : Makes t Q (Pure.pure b) := Gives.pure fun _ _ => h

theorem mono {Q' : β → Prop} {p : Parsing β} (h : Makes t Q p) (hQ : ∀ b, Q b → Q' b) : Makes t Q' p :=
  Gives.mono h (fun _ h => h) fun b _ => hQ b

theorem ite {c : Prop} [Decidable c] {p q : Parsing β} (hp : Makes t Q p) (hq : Makes t Q q) :
    Makes t Q (if c then p else q) :=
  Gives.ite (fun _ => hp) fun _ => hq

/-- One more value of a list. -/
theorem some {p : Parsing α} (h : Makes t R p) : Makes t (fun o => ∀ a ∈ o, R a) (do return Option.some (← p)) :=
  h.bind fun _ ha => .pure fun _ hb => Option.some.inj hb ▸ ha

/-- The end of a list. -/
theorem none : Makes t (fun o : Option α => ∀ a ∈ o, R a) (Pure.pure Option.none) := .pure fun _ h => nomatch h

theorem refuse : Makes t Q (refuse : Parsing β) := Gives.refuse

end Makes

/-! ## Tokens -/

/-- The token covers its text, which is one of its kind. -/
def Token.Solid (t : List Char) (tok : Token) : Prop :=
  Covers t tok.start tok.stop tok.text.toList ∧ tok.kind.spells tok.text.toList

/-- The current token is looked at, and known from then on. -/
theorem Gives.of_token {P : State → Prop} {Q : α → State → Prop} {f : Token → Parsing α}
    (h : ∀ tok, Gives t (fun s => s.token = tok) (f tok) Q) : Gives t P (token >>= f) Q :=
  fun s hs _ => h s.token s hs rfl

/-- The current token is looked at again. -/
theorem Gives.token_again {tok : Token} {Q : α → State → Prop} {f : Token → Parsing α}
    (h : Gives t (fun s => s.token = tok) (f tok) Q) : Gives t (fun s => s.token = tok) (token >>= f) Q := by
  rintro s hs rfl
  exact h s hs rfl

theorem token_makes : Makes t (Token.In t) token := by
  rintro s hs - _ _ ⟨⟩
  exact ⟨hs, hs.token⟩

theorem get_gives {P : State → Prop} : Gives t P (get : Parsing State) fun r s => P s ∧ r = s := by
  rintro s hs hP _ _ ⟨⟩
  exact ⟨hs, hP, rfl⟩

theorem get_makes : Makes t (State.Valid t) (get : Parsing State) := by
  rintro s hs - _ _ ⟨⟩
  exact ⟨hs, hs⟩

theorem following_gives {P : State → Prop} : Gives t P following fun _ s => P s := by
  rintro s hs hP _ _ ⟨⟩
  exact ⟨hs, hP⟩

theorem secondFollowing_gives {P : State → Prop} : Gives t P secondFollowing fun _ s => P s := by
  rintro s hs hP _ _ ⟨⟩
  exact ⟨hs, hP⟩

theorem sees_gives {P : State → Prop} (text : String) : Gives t P (sees text) fun b s => P s ∧ b = s.token.is text := by
  rintro s hs hP _ _ ⟨⟩
  exact ⟨hs, hP, rfl⟩

theorem sees_makes (text : String) : Makes t (fun _ => True) (sees text) :=
  (sees_gives text).mono (fun _ h => h) fun _ _ _ => trivial

theorem startOffset_makes : Makes t (fun _ => True) startOffset := by
  rintro s hs - _ _ ⟨⟩
  exact ⟨hs, trivial⟩

theorem moveTo_makes {c : Cursor} (h : c.In t) : Makes t (fun _ => True) (moveTo c) := by
  rintro s hs - _ _ ⟨⟩
  exact ⟨stateAt_valid h hs.comments, trivial⟩

/-- Passing the current token leads to the token behind it. -/
theorem advance_eq_ok {s s' : State} {tok : Token} (h : advance s = .ok (tok, s')) :
    s.token.kind ≠ .finish ∧ s.token.kind ≠ .invalid ∧ tok = s.token ∧ s' = stateAt s s.next s.next.offset := by
  have heq : advance s = (if s.token.kind = .finish ∨ s.token.kind = .invalid then refuse
      else moveTo s.next >>= fun _ => pure s.token : Parsing Token) s := rfl
  rw [heq] at h
  split at h
  · cases h
  · next hsome =>
    obtain ⟨hfinish, hinvalid⟩ := not_or.1 hsome
    cases h
    exact ⟨hfinish, hinvalid, rfl, rfl⟩

/-- Passing the current token gives it. -/
theorem advance_gives (tok : Token) :
    Gives t (fun s => s.token = tok) advance fun tok' _ => tok' = tok ∧ tok.Solid t := by
  rintro s hs rfl a s' h
  obtain ⟨hfinish, hinvalid, rfl, rfl⟩ := advance_eq_ok h
  exact ⟨stateAt_valid hs.next hs.comments, rfl, hs.token hfinish hinvalid⟩

/-- The current token is passed, and what follows does not look back. -/
theorem Gives.pass {tok : Token} {Q : α → Prop} {f : Token → Parsing α} (h : tok.Solid t → Makes t Q (f tok)) :
    Gives t (fun s => s.token = tok) (advance >>= f) fun a _ => Q a := by
  refine Gives.bind (advance_gives tok) fun tok' => ?_
  rintro s hs ⟨rfl, hsolid⟩
  exact h hsolid s hs trivial

theorem advance_makes : Makes t (Token.Solid t) advance := by
  intro s hs _ a s' h
  obtain ⟨hs', rfl, hsolid⟩ := advance_gives s.token s hs rfl a s' h
  exact ⟨hs', hsolid⟩

theorem expect_makes (text : String) : Makes t (fun tok => tok.Solid t ∧ tok.is text) (expect text) := by
  refine Gives.bind (sees_gives text) fun b => Gives.ite (fun hb => ?_) fun _ => Gives.refuse
  rintro s hs ⟨-, rfl⟩ a s' h
  obtain ⟨hs', rfl, hsolid⟩ := advance_gives s.token s hs rfl a s' h
  exact ⟨hs', hsolid, hb⟩

theorem accept_makes (text : String) : Makes t (fun _ => True) (accept text) :=
  .step (sees_makes text) fun _ => .ite (.step advance_makes fun _ => .pure trivial) (.pure trivial)

/-- A token that is passed stands between the cursors of the state. -/
theorem State.Valid.reads {s : State} (h : s.Valid t) (hfinish : s.token.kind ≠ .finish)
    (hinvalid : s.token.kind ≠ .invalid) :
    s.here.chars = s.token.text.toList ++ s.next.chars := by
  obtain ⟨w, hw, hoffset⟩ := h.here.exists_append h.next h.forward
  have hcovers := (h.token hfinish hinvalid).1
  rw [h.start, ← h.stop, hoffset] at hcovers
  rw [hcovers.unique (h.here.covers hw), hw]

/-- The piece of the text has been read since the offset. -/
def State.Since (t : List Char) (start : Nat) (w : List Char) (s : State) : Prop :=
  ∃ c : Cursor, c.In t ∧ c.offset = start ∧ c.chars = w ++ s.here.chars

theorem State.Valid.since {s : State} (h : s.Valid t) : s.Since t s.token.start [] :=
  ⟨s.here, h.here, h.start.symm, rfl⟩

theorem startOffset_gives : Gives t (fun _ => True) startOffset fun start s => s.Since t start [] := by
  rintro s hs - _ _ ⟨⟩
  exact ⟨hs, hs.since⟩

/-- Passing a token adds it to what has been read, and with it whatever there is before the next one. -/
theorem advance_since {start : Nat} {w : List Char} {tok : Token} :
    Gives t (fun s => s.token = tok ∧ s.Since t start w) advance fun tok' s => (tok' = tok ∧ tok.Solid t) ∧
      Covers t start s.last (w ++ tok.text.toList) ∧ ∃ v, s.Since t start (w ++ (tok.text.toList ++ v)) := by
  rintro s hs ⟨rfl, c, hc, rfl, hw⟩ tok' s' h
  obtain ⟨hfinish, hinvalid, rfl, rfl⟩ := advance_eq_ok h
  have hvalid : (stateAt s s.next s.next.offset).Valid t := stateAt_valid hs.next hs.comments
  have hread : c.chars = w ++ s.token.text.toList ++ s.next.chars := by
    rw [hw, hs.reads hfinish hinvalid, List.append_assoc]
  obtain ⟨v, hv, -⟩ := hs.next.exists_append hvalid.here hs.next.skip.forward
  refine ⟨hvalid, ⟨rfl, hs.token hfinish hinvalid⟩, ?_, v, c, hc, rfl, ?_⟩
  · have hcovers := hc.covers hread
    rwa [← hc.offset_eq hs.next hread] at hcovers
  · rw [hread, hv]
    simp

theorem expect_since {start : Nat} {w : List Char} (text : String) :
    Gives t (State.Since t start w) (expect text) fun _ s => Covers t start s.last (w ++ text.toList) ∧
      ∃ v, s.Since t start (w ++ (text.toList ++ v)) := by
  refine Gives.bind (sees_gives text) fun b => Gives.ite (fun hb => ?_) fun _ => Gives.refuse
  rintro s hs ⟨hsince, rfl⟩ tok s' h
  obtain ⟨hs', -, hread⟩ := advance_since s hs ⟨rfl, hsince⟩ tok s' h
  have htext : s.token.text = text := beq_iff_eq.1 (Bool.and_eq_true_iff.1 hb).2
  rw [htext] at hread
  exact ⟨hs', hread⟩

/-! ## Repetition and alternatives -/

/-- By induction on the steps that are allowed. -/
theorem collectUpTo_makes {Q : α → Prop} {step : Parsing (Option α)} (h : Makes t (fun a => ∀ b ∈ a, Q b) step)
    (budget : Nat) : Makes t (fun l => ∀ a ∈ l, Q a) (collectUpTo budget step) := by
  induction budget with
  | zero => exact .refuse
  | succ budget ih =>
    refine .bind h fun a ha => ?_
    cases a with
    | none => exact .pure fun _ hb => nomatch hb
    | some a => exact .bind ih fun l hl => .pure (List.forall_mem_cons.2 ⟨ha a rfl, hl⟩)

theorem collect_makes {Q : α → Prop} {step : Parsing (Option α)} (h : Makes t (fun a => ∀ b ∈ a, Q b) step) :
    Makes t (fun l => ∀ a ∈ l, Q a) (collect step) :=
  .step get_makes fun s => collectUpTo_makes h s.budget

/-- What ends a repetition holds at its end. -/
theorem collect_leaves {E : State → Prop} {step : Parsing (Option α)}
    (h : Gives t (fun _ => True) step fun o s => o = none → E s) :
    Gives t (fun _ => True) (collect step) fun _ s => E s := by
  have hall (budget : Nat) : Gives t (fun _ => True) (collectUpTo budget step) fun _ s => E s := by
    induction budget with
    | zero => exact .refuse
    | succ budget ih =>
      refine .bind h fun a => ?_
      cases a with
      | none => exact .pure fun _ hnone => hnone rfl
      | some a => exact .bind (ih.mono (fun _ _ => trivial) fun _ _ h => h) fun _ => .pure fun _ h => h
  exact .bind get_makes fun s => (hall s.budget).mono (fun _ _ => trivial) fun _ _ h => h

/-- By induction on the steps that are allowed. -/
theorem growUpTo_makes {Q : Cst → Prop} {step : Cst → Parsing (Option Cst)}
    (h : ∀ c, Q c → Makes t (fun o => ∀ d ∈ o, Q d) (step c)) (budget : Nat) {c : Cst} (hc : Q c) :
    Makes t Q (growUpTo budget step c) := by
  induction budget generalizing c with
  | zero => exact .refuse
  | succ budget ih =>
    refine .bind (h c hc) fun a ha => ?_
    cases a with
    | none => exact .pure hc
    | some d => exact ih (ha d rfl)

theorem grow_makes {Q : Cst → Prop} {step : Cst → Parsing (Option Cst)}
    (h : ∀ c, Q c → Makes t (fun o => ∀ d ∈ o, Q d) (step c)) {c : Cst} (hc : Q c) : Makes t Q (grow step c) :=
  .step get_makes fun s => growUpTo_makes h s.budget hc

/-- By induction on the list, from its end. -/
theorem foldrM_makes {Q : β → Prop} {f : α → β → Parsing β} : ∀ {l : List α}, (∀ a ∈ l, ∀ b, Q b → Makes t Q (f a b)) →
    ∀ {b : β}, Q b → Makes t Q (l.foldrM f b)
  | [], _, _, hb => .pure hb
  | a :: l, h, _, hb => by
    rw [List.foldrM_cons]
    exact .bind (foldrM_makes (fun a ha => h a (List.mem_cons_of_mem _ ha)) hb) fun b hb =>
    h a (List.mem_cons_self ..) b hb

theorem membersUntil_makes {Q : α → Prop} {closing : String} {member : Parsing α} (h : Makes t Q member) :
    Makes t (fun l => ∀ a ∈ l, Q a) (membersUntil closing member) :=
  collect_makes (.step (accept_makes closing) fun _ => .ite .none h.some)

theorem commaList_makes {Q : α → Prop} {closing : String} {member : Parsing α} (h : Makes t Q member) :
    Makes t (fun l => ∀ a ∈ l, Q a) (commaList closing member) := by
  have hsome (a : α) (ha : Q a) : Makes t (fun b => ∀ c ∈ b, Q c) (pure (some a) : Parsing (Option α)) :=
    .pure fun b hb => Option.some.inj hb ▸ ha
  exact collect_makes (.step (accept_makes closing) fun _ => .ite .none
    (.bind h fun a ha => .step (sees_makes closing) fun _ =>
      .ite (.step (expect_makes ",") fun _ => hsome a ha) (hsome a ha)))

theorem either_makes {Q : Cst → Prop} {first second : Parsing Cst} (hfirst : Makes t Q first)
    (hsecond : Makes t Q second) : Makes t Q (either first second) := by
  intro s hs _ c s' h
  unfold either at h
  split at h
  · exact hsecond s hs trivial c s' h
  · exact hfirst s hs trivial c s' h

theorem semicolon_makes : Makes t (fun _ => True) semicolon :=
  .step (accept_makes ";") fun _ => .ite (.step token_makes fun _ => .ite .refuse (.pure trivial)) (.pure trivial)

/-! ## Comments in markup style -/

theorem not_startsMarkupComment (rest : List Char) : startsMarkupComment ('/' :: '/' :: rest) = false := rfl

theorem skipMarkupComments_makes : Makes t (fun _ => True) skipMarkupComments := by
  refine .step (collect_makes (Q := fun _ => True) ?_) fun _ => .pure trivial
  refine Gives.bind (get_gives (P := fun _ => True)) fun r => Gives.ite (fun hstarts => ?_) fun _ =>
    Gives.pure fun _ _ _ _ => trivial
  rintro s hs ⟨-, rfl⟩ a s' h
  have hcut := isCut_takeWhile (fun c => !isLineEnd c) r.here.chars
  have hnote : Extent.IsNote t
    ⟨r.here.offset, r.here.offset + byteLength (r.here.chars.takeWhile fun c => !isLineEnd c)⟩ := by
    refine ⟨_, hs.here.covers hcut, fun value heq => ?_⟩
    rw [hcut, heq] at hstarts
    rw [List.cons_append, List.cons_append, not_startsMarkupComment] at hstarts
    cases hstarts
  cases h
  exact ⟨stateAt_valid (hs.here.past hcut) (List.forall_mem_cons.2 ⟨isNote_comment (.inr rfl) hnote, hs.comments⟩),
    fun _ _ => trivial⟩

end ScriptTidy.Grammar
