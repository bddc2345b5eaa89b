/-
Whole scripts. The grammar is tied together by induction on how deeply a script nests, so that every
concrete tree that it gives is sound: a program of statements, with comments among them.
-/
import ScriptTidy.Grammar.Script
import ScriptTidy.Proofs.Grammar.Markup
import ScriptTidy.Proofs.Grammar.Statements

namespace ScriptTidy.Grammar

open Parsing Cst

variable {t : List Char}

theorem step_sound {below : Below} (hb : below.Sound t) (hdeclares : below.Declares t) : Below.Sound t (step below)
  | .statement =>
    fun s hs _ => (statement_gives hb hdeclares s.token).mono (fun _ h => h) (fun _ _ h => h.free) s hs rfl
  | .expression allowIn => expression_makes hb allowIn
  | .assignment allowIn => assignment_makes hb allowIn
  | .binding => binding_makes hb
  | .construction => construction_makes hb
  | .markup => markup_makes hb

theorem step_declares {below : Below} (hb : below.Sound t) (hdeclares : below.Declares t) :
    Below.Declares t (step below) := by
  intro s hs hword
  exact (statement_gives hb hdeclares s.token).mono (fun _ h => h) (fun _ _ h => h.declarative hword) s hs rfl

/-- By induction on how deeply the part may nest. -/
theorem parseGoal_sound (depth : Nat) : Below.Sound t (parseGoal depth) ∧ Below.Declares t (parseGoal depth) := by
  induction depth with
  | zero => exact ⟨fun _ _ _ _ _ _ h => (nomatch h), fun _ _ _ _ _ h => (nomatch h)⟩
  | succ depth ih => exact ⟨step_sound ih.1 ih.2, step_declares ih.1 ih.2⟩

theorem statements_makes (depth : Nat) : Makes t (fun l => ∀ c ∈ l, c.Free t Rank.isListed) (statements depth) :=
  collect_makes (.step skipMarkupComments_makes fun _ => .step token_makes fun _ => .ite .none
    (.some ((parseGoal_sound depth).1 .statement)))

theorem initial_valid (text : List Char) : (State.initial text).Valid text :=
  stateAt_valid ⟨[], rfl, rfl⟩ fun _ h => nomatch h

/-- A concrete tree that the grammar gives is a sound program. -/
theorem concreteTree_sound {depth : Nat} {text : String} {root : Cst} (h : concreteTree depth text = .ok root) :
    root.Sound text.toList ∧ root.kind = "program" ∧ root.mark.isNamed := by
  obtain ⟨⟨body, s⟩, hbody, h⟩ := exists_of_bind_ok h
  obtain ⟨hs, hstatements⟩ := statements_makes depth _ (initial_valid text.toList) trivial body s hbody
  have hnotes : ∀ c ∈ s.comments.reverse, c.IsNote text.toList := fun c hc => hs.comments c (List.mem_reverse.1 hc)
  have hfits : AllFit text.toList "program" (body ++ s.comments.reverse) := by
    refine allFit_append.2 ⟨allFit_of_free hstatements (by decide), fun c hc => ⟨(hnotes c hc).sound, ?_⟩⟩
    simp [fits, (hnotes c hc).comment, (hnotes c hc).field]
  dsimp only at h
  split at h
  · cases h
  · cases h
    exact ⟨(free_makeNode (p := Rank.isOperand) (by decide) hfits).sound, rfl, rfl⟩

end ScriptTidy.Grammar
