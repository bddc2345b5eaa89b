/-
Nodes and the parts they are made from. A parser gives a node that plays no part yet; it can be put into
another node if one of that kind can hold it, by its rank and by the part that it is to play. So a node is
sound if its parts are, and can be where they are.
-/
import ScriptTidy.Proofs.Grammar.Parsers

namespace ScriptTidy

open Grammar

variable {t : List Char} {p q : Rank → Bool} {c d : Cst} {cs ds : List Cst} {kind field : String}

namespace Cst

/-- What part a node plays does not matter to it. -/
theorem Sound.playing (h : c.Sound t) (field : String) : (playing field c).Sound t := by
  cases h with
  | node hregular hspelled hnote hchildren =>
    obtain ⟨mark, children⟩ := c
    exact .node hregular hspelled hnote hchildren

/-! ## Parts -/

/-- A node that is read, with a rank of the property, and that plays no part yet. -/
structure Free (t : List Char) (p : Rank → Bool) (c : Cst) : Prop where
  sound : c.Sound t
  named : c.mark.isNamed
  read : c.isComment = false
  field : c.mark.field = none
  rank : p c.rank

/-- A part that a node of the kind can hold. -/
def Fit (t : List Char) (kind : String) (c : Cst) : Prop := c.Sound t ∧ c.fits kind

/-- Parts that a node of the kind can hold. -/
def AllFit (t : List Char) (kind : String) (cs : List Cst) : Prop := ∀ c ∈ cs, c.Fit t kind

/-- Parts that a node of any kind can hold. -/
def AnyFit (t : List Char) (cs : List Cst) : Prop := ∀ kind, AllFit t kind cs

@[simp] theorem allFit_nil : AllFit t kind [] := fun _ h => nomatch h

@[simp] theorem allFit_cons : AllFit t kind (c :: cs) ↔ c.Fit t kind ∧ AllFit t kind cs := List.forall_mem_cons

@[simp] theorem allFit_append : AllFit t kind (cs ++ ds) ↔ AllFit t kind cs ∧ AllFit t kind ds := List.forall_mem_append

namespace Free

theorem mono (h : c.Free t p) (hpq : ∀ r, p r → q r) : c.Free t q := { h with rank := hpq _ h.rank }

theorem fit (h : c.Free t p) (htakes : Kind.takes kind none p) : c.Fit t kind := by
  refine ⟨h.sound, ?_⟩
  rw [fits, h.field, Kind.admits_of_takes htakes h.rank]
  simp

/-- The node can play a part that anything can play. -/
theorem playing_of (h : c.Free t p) (htakes : Kind.takes kind (some field) p)
    (hplayers : ∀ kinds, Kind.players? kind field = some kinds → c.kind ∈ kinds) : (playing field c).Fit t kind := by
  obtain ⟨mark, children⟩ := c
  have hnamed : mark.isNamed = true := h.named
  have hadmits : Kind.admits kind (some field) (Kind.rank mark.kind) := Kind.admits_of_takes htakes h.rank
  refine ⟨h.sound.playing field, ?_⟩
  simp only [fits, playing, Cst.mark, Cst.rank, Cst.kind, hadmits, hnamed, Bool.or_true, Bool.true_or, Option.all_some,
    Bool.true_and]
  cases hkinds : Kind.players? kind field with
  | none => rfl
  | some kinds => simpa [Cst.kind, Cst.mark] using hplayers kinds hkinds

/-- The node can play a part that nodes of its kind can play. -/
theorem playing_kind {name : String} (h : c.Free t p) (hname : c.kind = name) (htakes : Kind.takes kind (some field) p)
    (hplayers : (Kind.players? kind field).all (·.contains name)) : (playing field c).Fit t kind := by
  refine h.playing_of htakes fun kinds hkinds => ?_
  rw [hkinds, Option.all_some, List.contains_iff_mem] at hplayers
  exact hname ▸ hplayers

theorem playing (h : c.Free t p) (htakes : Kind.takes kind (some field) p)
    (hplayers : Kind.players? kind field = none) : (playing field c).Fit t kind :=
  h.playing_of htakes fun kinds hkinds => by
    rw [hplayers] at hkinds
    cases hkinds

end Free

theorem allFit_one (h : c.Fit t kind) : AllFit t kind [c] := allFit_cons.2 ⟨h, allFit_nil⟩

/-- Parts that are members of a list. -/
theorem allFit_of_free (h : ∀ c ∈ cs, c.Free t p) (htakes : Kind.takes kind none p) : AllFit t kind cs :=
  fun c hc => (h c hc).fit htakes

/-! ## Tokens -/

theorem sound_toCst {tok : Token} (h : tok.Solid t) : tok.toCst.Sound t := by
  refine .node (fun hnamed => nomatch hnamed) (fun hnamed => nomatch hnamed) (fun hcomment => ?_) fun _ hd => nomatch hd
  refine ⟨_, h.1, fun value heq => ?_⟩
  -- a token that is called a comment is not one
  have hkind : tok.text = "comment" ∨ tok.text = "html_comment" := by
    rcases Bool.or_eq_true_iff.1 hcomment with hkind | hkind
    · exact .inl (beq_iff_eq.1 hkind)
    · exact .inr (beq_iff_eq.1 hkind)
  rcases hkind with hkind | hkind <;> rw [hkind] at heq <;> cases heq

theorem fit_toCst {tok : Token} (h : tok.Solid t) (kind : String) : tok.toCst.Fit t kind := ⟨sound_toCst h, rfl⟩

/-- An operator or the like in its place. -/
theorem fit_playing_toCst {tok : Token} (h : tok.Solid t) (hfield : field ∈ Kind.tokenFields)
    (hplayers : ∀ kinds, Kind.players? kind field = some kinds → tok.text ∈ kinds) :
    (playing field tok.toCst).Fit t kind := by
  refine ⟨(sound_toCst h).playing field, ?_⟩
  have hfield : Kind.tokenFields.contains field = true := by simpa using hfield
  simp only [fits, playing, Token.toCst, Cst.mark, Cst.kind, Bool.not_false, Bool.true_or, Bool.true_and,
    Option.all_some, hfield, Bool.or_true]
  cases hkinds : Kind.players? kind field with
  | none => rfl
  | some kinds => simpa using hplayers kinds hkinds

/-- A node that is a single token. -/
theorem free_leaf {tok : Token} (h : tok.Solid t) (hrank : p (Kind.rank kind))
    (hspells : (Kind.spells? kind).all (· tok.text.toList)) (hkind : kind ∉ Kind.particular) :
    (tok.leaf kind).Free t p := by
  have hne : kind ≠ "comment" ∧ kind ≠ "html_comment" ∧ kind ≠ "sequence_expression" := by
    refine ⟨?_, ?_, ?_⟩ <;> rintro rfl <;> exact hkind (by decide)
  have hread : (tok.leaf kind).isComment = false := by
    simp [Token.leaf, isComment, makeNode, Cst.kind, Cst.mark, hne]
  have hsound : (tok.leaf kind).Sound t := by
    refine .node (fun _ => isRegular_leaf hne.2.2) (fun _ check hcheck => ⟨_, h.1, ?_⟩) (fun hcomment => ?_)
      (List.forall_mem_nil _)
    · rw [show Kind.spells? kind = some check from hcheck] at hspells
      exact hspells
    · rw [hread] at hcomment
      cases hcomment
  exact ⟨hsound, rfl, hread, rfl, hrank⟩

/-! ## Nodes -/

theorem isRegular_of_fits (hfits : AllFit t c.kind c.children) (hkind : c.kind ∉ Kind.particular) : c.isRegular := by
  have hall : c.children.all (fits c.kind) = true := List.all_eq_true.2 fun d hd => (hfits d hd).2
  simp only [Kind.particular, Kind.jumps, List.mem_append, List.mem_cons, List.not_mem_nil, or_false, not_or] at hkind
  simp [isRegular, suits, Kind.jumps, hall, hkind]

/-- The kind of a node can be changed with its parts, if its text is as nodes of the kind have it. -/
theorem Sound.withKind {mark : Mark} (h : (Cst.node mark cs).Sound t) (hnamed : mark.isNamed)
    (hkind : kind ∉ Kind.particular) (hspells : Kind.spells? kind = Kind.spells? mark.kind)
    (hfits : AllFit t kind ds) : (Cst.node { mark with kind := kind } ds).Sound t := by
  refine .node (fun _ => isRegular_of_fits hfits hkind) (fun _ check hcheck => ?_) (fun hcomment => ?_)
    fun d hd => (hfits d hd).1
  · exact h.spelled hnamed (hspells.symm.trans hcheck)
  · have hcomment : (kind == "comment" || kind == "html_comment") = true := hcomment
    rcases Bool.or_eq_true_iff.1 hcomment with heq | heq <;> rw [beq_iff_eq.1 heq] at hkind <;>
      exact absurd (by decide) hkind

/-- A node is sound if it is regular and its parts are sound, and nothing is asked of its text. -/
theorem free_makeNode_of_isRegular {start stop : Nat} (hrank : p (Kind.rank kind)) (hspells : Kind.spells? kind = none)
    (hread : (makeNode kind start stop cs).isComment = false) (hregular : (makeNode kind start stop cs).isRegular)
    (hfits : AllFit t kind cs) : (makeNode kind start stop cs).Free t p where
  sound := by
    refine .node (fun _ => hregular) (fun _ check hcheck => ?_) (fun hcomment => ?_) fun d hd => (hfits d hd).1
    · rw [show Kind.spells? (makeNode kind start stop cs).kind = none from hspells] at hcheck
      cases hcheck
    · rw [hread] at hcomment
      cases hcomment
  named := rfl
  read := hread
  field := rfl
  rank := hrank

/-- A node is made from parts that it can hold. -/
theorem free_makeNode {start stop : Nat} (hkind : Kind.isPlain kind p) (hfits : AllFit t kind cs) :
    (makeNode kind start stop cs).Free t p := by
  simp only [Kind.isPlain, Bool.and_eq_true, Bool.not_eq_true', List.contains_eq_mem, decide_eq_false_iff_not,
    Option.isNone_iff_eq_none] at hkind
  obtain ⟨⟨hrank, hspells⟩, hplain⟩ := hkind
  refine free_makeNode_of_isRegular hrank hspells ?_ (isRegular_of_fits hfits hplain) hfits
  have hne : kind ≠ "comment" ∧ kind ≠ "html_comment" := by
    refine ⟨?_, ?_⟩ <;> rintro rfl <;> exact hplain (by decide)
  simp [isComment, makeNode, Cst.kind, Cst.mark, hne]

end Cst

namespace Grammar

open Parsing Cst

variable {α β : Type}

theorem finish_makes {start : Nat} (hkind : Kind.isPlain kind p) (hfits : AllFit t kind cs) :
    Makes t (Free t p) (finish kind start cs) :=
  .step get_makes fun _ => .pure (free_makeNode hkind hfits)

theorem acceptToken_makes (text : String) : Makes t (AnyFit t) (acceptToken text) :=
  .step (sees_makes text) fun _ => .ite (.bind advance_makes fun _ htok => .pure fun _ => by simp [fit_toCst htok])
    (.pure fun _ => allFit_nil)

end Grammar

end ScriptTidy
