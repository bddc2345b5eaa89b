/-
Expressions that are turned into patterns. A pattern can stand wherever the expression could that it was
made from, except that an assignment, of which a pattern with a default is made, is one only where a member
of a list or of a larger pattern is wanted.
-/
import ScriptTidy.Grammar.Target
import ScriptTidy.Proofs.Grammar.Parts

namespace ScriptTidy

open Grammar

variable {t : List Char} {isBinding : Bool} {c d : Cst} {cs ds : List Cst} {kind kind' field field' : String}

namespace Kind

/-- The kinds of nodes that change when they become patterns, with the kinds of the patterns. -/
def turned : List (String × String) :=
  [("shorthand_property_identifier", "shorthand_property_identifier_pattern"), ("array", "array_pattern"),
    ("object", "object_pattern"), ("pair", "pair_pattern"), ("spread_element", "rest_pattern"),
    ("assignment_expression", "assignment_pattern")]

/-- A node of the first kind can become a pattern of the second kind. -/
def Turns (kind kind' : String) : Prop := kind' = kind ∨ (kind, kind') ∈ turned

/-- The kinds of patterns that are not expressions as well. -/
def patterns : List String :=
  ["shorthand_property_identifier_pattern", "array_pattern", "object_pattern", "pair_pattern", "rest_pattern",
    "assignment_pattern"]

/-- The kinds of expressions that can be assigned to as they are. -/
def simpleTargets : List String :=
  ["identifier", "member_expression", "subscript_expression", "parenthesized_expression"]

theorem turns_of_patternKind? (h : patternKind? kind = some kind') : Turns kind kind' ∧ kind' ∈ patterns := by
  unfold patternKind? at h
  split_ifs at h with harray hobject hpair hspread hassignment <;> obtain rfl := Option.some.inj h
  · rcases Bool.or_eq_true_iff.1 harray with heq | heq <;> rw [beq_iff_eq.1 heq] <;> simp [Turns, turned, patterns]
  · rcases Bool.or_eq_true_iff.1 hobject with heq | heq <;> rw [beq_iff_eq.1 heq] <;> simp [Turns, turned, patterns]
  · rcases Bool.or_eq_true_iff.1 hpair with heq | heq <;> rw [beq_iff_eq.1 heq] <;> simp [Turns, turned, patterns]
  · rcases Bool.or_eq_true_iff.1 hspread with heq | heq <;> rw [beq_iff_eq.1 heq] <;> simp [Turns, turned, patterns]
  · rcases Bool.or_eq_true_iff.1 hassignment with heq | heq <;> rw [beq_iff_eq.1 heq] <;> simp [Turns, turned, patterns]

theorem mem_simpleTargets (h : isSimpleTarget c) : c.kind ∈ simpleTargets := by
  unfold isSimpleTarget at h
  split at h
  · simp [Cst.kind, Cst.mark, simpleTargets]
  · simp [Cst.kind, Cst.mark, simpleTargets]
  · simp [Cst.kind, Cst.mark, simpleTargets]
  · simp [Cst.kind, Cst.mark, simpleTargets]
  · cases h

/-- Where only some kinds can play a part, none of them becomes another pattern. -/
theorem mem_of_turns {kinds : List String} (h : Turns kind kind') (hplayers : players? field' field = some kinds)
    (hmem : kind ∈ kinds) : kind' ∈ kinds := by
  rcases h with rfl | hturned
  · exact hmem
  · have hcheck : ∀ kinds ∈ [["!", "~", "+", "-", "typeof", "void", "delete"], ["++", "--"], ["statement_block"],
        Reader.nameKinds] ++ playersOf.map (·.2), ∀ e ∈ turned, e.1 ∈ kinds → e.2 ∈ kinds := by decide +kernel
    refine hcheck kinds ?_ (kind, kind') hturned hmem
    unfold players? at hplayers
    split_ifs at hplayers
    case neg =>
      obtain ⟨before, after, hsplit, -⟩ := List.lookup_eq_some_iff.1 hplayers
      exact List.mem_append_right _ (List.mem_map.2 ⟨(field, kinds), by simp [hsplit], rfl⟩)
    all_goals
      obtain rfl := Option.some.inj hplayers
      simp

/-- A pattern can hold what the node could that it was made from. -/
theorem admits_of_patterns (hkind : kind' ∈ patterns) (field : Option String) (rank : Rank) :
    admits kind' field rank = rank.isInner := by
  have habsorb (a b : Bool) : ((a || b) && b) = b := by cases a <;> cases b <;> rfl
  simp only [patterns, List.mem_cons, List.not_mem_nil, or_false] at hkind
  rcases hkind with rfl | rfl | rfl | rfl | rfl | rfl <;> exact habsorb ..

/-- In a pattern the same kinds can play a part as in the node that it was made from. -/
theorem players?_turns (h : Turns kind kind') (field : String) : players? kind' field = players? kind field := by
  rcases h with rfl | hturned
  · rfl
  · simp only [turned, List.mem_cons, Prod.mk.injEq, List.not_mem_nil, or_false] at hturned
    rcases hturned with ⟨rfl, rfl⟩ | ⟨rfl, rfl⟩ | ⟨rfl, rfl⟩ | ⟨rfl, rfl⟩ | ⟨rfl, rfl⟩ | ⟨rfl, rfl⟩ <;> rfl

theorem spells?_turns (h : Turns kind kind') : spells? kind' = spells? kind := by
  rcases h with rfl | hturned
  · rfl
  · simp only [turned, List.mem_cons, Prod.mk.injEq, List.not_mem_nil, or_false] at hturned
    rcases hturned with ⟨rfl, rfl⟩ | ⟨rfl, rfl⟩ | ⟨rfl, rfl⟩ | ⟨rfl, rfl⟩ | ⟨rfl, rfl⟩ | ⟨rfl, rfl⟩ <;> rfl

/-- What is not a statement does not become one. -/
theorem isInner_of_turns (h : Turns kind kind') (hrank : (rank kind).isInner) : (rank kind').isInner := by
  rcases h with rfl | hturned
  · exact hrank
  · exact (show ∀ e ∈ turned, (rank e.2).isInner by decide +kernel) (kind, kind') hturned

/-- An operand stays one. -/
theorem isOperand_of_turns (h : Turns kind kind') (hrank : (rank kind).isOperand) : (rank kind').isOperand := by
  rcases h with rfl | hturned
  · exact hrank
  · exact (show ∀ e ∈ turned, (rank e.1).isOperand → (rank e.2).isOperand by decide +kernel) (kind, kind') hturned hrank

/-- Of a node that becomes a pattern with parts no part is a statement. -/
theorem isInner_of_admits_turns (h : Turns kind kind') (hkind : kind' ∈ patterns) {field : Option String} {r : Rank}
    (hadmits : admits kind field r) : r.isInner := by
  rcases h with rfl | hturned
  · rwa [admits_of_patterns hkind] at hadmits
  · have hcheck : ∀ e ∈ turned, e.1 ∉ statementHolders := by decide +kernel
    exact isInner_of_admits (hcheck _ hturned) hadmits

end Kind

namespace Cst

/-- The second node is the first one as a pattern. -/
structure Becomes (t : List Char) (c d : Cst) : Prop where
  sound : d.Sound t
  named : d.mark.isNamed
  read : d.isComment = false
  field : d.mark.field = c.mark.field
  kind : Kind.Turns c.kind d.kind

theorem Sound.allFit (h : c.Sound t) (hnamed : c.mark.isNamed) : AllFit t c.kind c.children := by
  intro d hd
  have hregular := h.regular hnamed
  rw [isRegular, Bool.and_eq_true] at hregular
  exact ⟨h.child hd, List.all_eq_true.1 hregular.1 d hd⟩

/-- Comments do not become patterns. -/
theorem Becomes.isComment (h : c.Becomes t d) : c.isComment = false := by
  have hread := h.read
  rcases h.kind with heq | hturned
  · rwa [Cst.isComment, heq] at hread
  · have hnot :=
      (show ∀ e ∈ Kind.turned, (e.1 == "comment" || e.1 == "html_comment") = false by decide +kernel) _ hturned
    exact hnot

section Turns

variable (hturns : Kind.Turns kind kind') (hkind : kind' ∈ Kind.patterns)
include hturns hkind

/-- A part of a node can be a part of the pattern as it is. -/
theorem Fit.of_turns (h : c.Fit t kind) : c.Fit t kind' := by
  refine ⟨h.1, ?_⟩
  have hfits := h.2
  simp only [fits, Bool.and_eq_true, Bool.or_eq_true, Kind.players?_turns hturns] at hfits ⊢
  refine ⟨hfits.1.imp_right fun hadmits => ?_, hfits.2⟩
  rw [Kind.admits_of_patterns hkind]
  exact Kind.isInner_of_admits_turns hturns hkind hadmits

/-- A part of a node can be a part of the pattern as a pattern. -/
theorem Becomes.fit (h : c.Becomes t d) (hc : c.Fit t kind) (hnamed : c.mark.isNamed) : d.Fit t kind' := by
  refine ⟨h.sound, ?_⟩
  have hfits := hc.2
  simp only [fits, hnamed, h.isComment, h.named, h.read, h.field, Kind.players?_turns hturns,
    Kind.admits_of_patterns hkind,
    Bool.not_true, Bool.false_or, Bool.or_self, Bool.true_or, Bool.true_and, Bool.and_eq_true] at hfits ⊢
  refine ⟨Kind.isInner_of_turns h.kind (Kind.isInner_of_admits_turns hturns hkind hfits.1), ?_⟩
  cases hfield : c.mark.field with
  | none => rfl
  | some field =>
    have hplayers := hfits.2
    rw [hfield, Option.all_some] at hplayers
    rw [Option.all_some]
    cases hkinds : Kind.players? kind field with
    | none => rfl
    | some kinds =>
      rw [hkinds, Option.all_some, List.contains_iff_mem] at hplayers
      rw [Option.all_some, List.contains_iff_mem]
      exact Kind.mem_of_turns h.kind hkinds hplayers

end Turns

/-- A node that is a pattern as it is. -/
theorem becomes_self (hsound : c.Sound t) (hnamed : c.mark.isNamed)
    (hkind : c.kind ∈ "object_assignment_pattern" :: "shorthand_property_identifier_pattern" :: Kind.simpleTargets) :
    c.Becomes t c where
  sound := hsound
  named := hnamed
  read := (show ∀ kind ∈ "object_assignment_pattern" :: "shorthand_property_identifier_pattern" :: Kind.simpleTargets,
    (kind == "comment" || kind == "html_comment") = false by decide +kernel) _ hkind
  field := rfl
  kind := .inl rfl

/-- A node of another kind, with other parts. -/
theorem becomes_withKind {mark : Mark} (hsound : (node mark cs).Sound t) (hnamed : mark.isNamed)
    (hturns : Kind.Turns mark.kind kind') (hkind : kind' ∈ Kind.patterns) (hfits : AllFit t kind' ds) :
    (node mark cs).Becomes t (node { mark with kind := kind' } ds) := by
  obtain ⟨hplain, hread⟩ := (show ∀ kind ∈ Kind.patterns,
    kind ∉ Kind.particular ∧ (kind == "comment" || kind == "html_comment") = false by decide +kernel) _ hkind
  exact ⟨hsound.withKind hnamed hplain (Kind.spells?_turns hturns) hfits, hnamed, hread, rfl, hturns⟩

end Cst

open Cst

mutual

theorem becomes_of_toPattern? :
    ∀ {c d : Cst}, c.Sound t → c.mark.isNamed → toPattern? isBinding c = some d → c.Becomes t d
  | .node mark children, d, hsound, hnamed, h => by
    have hfits := hsound.allFit hnamed
    rw [toPattern?] at h
    split at h
    · next hself =>
      cases h
      refine becomes_self hsound hnamed ?_
      simp only [Bool.or_eq_true, beq_iff_eq] at hself
      simp only [Cst.kind, Cst.mark, List.mem_cons, Kind.simpleTargets]
      tauto
    · split at h
      · next hname =>
        cases h
        have hturns : Kind.Turns mark.kind "shorthand_property_identifier_pattern" := by
          rw [beq_iff_eq.1 hname]
          exact .inr (by decide)
        exact becomes_withKind hsound hnamed hturns (by decide) fun d hd =>
          (hfits d hd).of_turns hturns (by decide)
      · split at h
        · next kind hkind =>
          obtain ⟨hturns, hpattern⟩ := Kind.turns_of_patternKind? hkind
          obtain ⟨parts, hparts, h⟩ := Option.bind_eq_some_iff.1 h
          split at h
          · cases h
            exact becomes_withKind hsound hnamed hturns hpattern (allFit_of_toPatterns? hturns hpattern hfits hparts)
          · cases h
        · split at h
          · next hsimple =>
            cases h
            exact becomes_self hsound hnamed
              (List.mem_cons_of_mem _
                (List.mem_cons_of_mem _ (Kind.mem_simpleTargets (Bool.and_eq_true_iff.1 hsimple).2)))
          · cases h

theorem allFit_of_toPatterns? : ∀ {kind kind' : String} {cs ds : List Cst}, Kind.Turns kind kind' →
    kind' ∈ Kind.patterns → AllFit t kind cs → toPatterns? isBinding cs = some ds → AllFit t kind' ds
  | _, _, [], _, _, _, _, h => by
    cases h
    exact allFit_nil
  | _, _, c :: cs, ds, hturns, hkind, hcs, h => by
    obtain ⟨hc, hcs⟩ := allFit_cons.1 hcs
    rw [toPatterns?] at h
    split at h
    · obtain ⟨rest, hrest, rfl⟩ := Option.map_eq_some_iff.1 h
      exact allFit_cons.2 ⟨hc.of_turns hturns hkind, allFit_of_toPatterns? hturns hkind hcs hrest⟩
    · next hfixed =>
      obtain ⟨d, hd, h⟩ := Option.bind_eq_some_iff.1 h
      obtain ⟨rest, hrest, rfl⟩ := Option.map_eq_some_iff.1 h
      have hnamed : c.mark.isNamed := by
        simp only [isFixed, Bool.or_eq_true, not_or, Bool.not_eq_true', Bool.not_eq_false] at hfixed
        exact hfixed.1.1
      have hbecomes := becomes_of_toPattern? hc.1 hnamed hd
      exact allFit_cons.2 ⟨hbecomes.fit hturns hkind hc hnamed, allFit_of_toPatterns? hturns hkind hcs hrest⟩

end

namespace Cst.Free

/-- The pattern of a member of a list is such a member. -/
theorem toPattern? (h : c.Free t Rank.isInner) (hd : Grammar.toPattern? isBinding c = some d) :
    d.Free t Rank.isInner := by
  have hbecomes := becomes_of_toPattern? h.sound h.named hd
  exact ⟨hbecomes.sound, hbecomes.named, hbecomes.read, hbecomes.field.trans h.field,
    Kind.isInner_of_turns hbecomes.kind h.rank⟩

/-- The pattern of an operand is one. -/
theorem toTarget? (h : c.Free t Rank.isOperand) (hd : Grammar.toPattern? isBinding c = some d) :
    d.Free t Rank.isOperand :=
  { (h.mono fun _ => Rank.isInner_of_isOperand).toPattern? hd with
    rank := Kind.isOperand_of_turns (becomes_of_toPattern? h.sound h.named hd).kind h.rank }

/-- The patterns of the members of a list. -/
theorem toPatterns : ∀ {cs ds : List Cst}, (∀ c ∈ cs, c.Free t Rank.isInner) →
    cs.mapM (Grammar.toPattern? isBinding) = some ds → ∀ d ∈ ds, d.Free t Rank.isInner
  | [], _, _, h => by
    cases h
    exact fun _ hd => nomatch hd
  | c :: cs, ds, hcs, h => by
    obtain ⟨hc, hcs⟩ := List.forall_mem_cons.1 hcs
    rw [List.mapM_cons] at h
    obtain ⟨d, hd, h⟩ := Option.bind_eq_some_iff.1 h
    obtain ⟨rest, hrest, h⟩ := Option.bind_eq_some_iff.1 h
    cases h
    exact List.forall_mem_cons.2 ⟨hc.toPattern? hd, toPatterns hcs hrest⟩

end Cst.Free

end ScriptTidy
