/-
Pieces and segments. The pieces of a script fall into stretches of plain text and the verbatim pieces
between them. Every stretch is spaced as one text, whatever pieces it is made of, and every verbatim
piece is kept; so what is known of a text without verbatim pieces carries over to all of them.
-/
import ScriptTidy.Proofs.Layout.Pieces
import ScriptTidy.Proofs.Layout.Runs

namespace ScriptTidy

open Spacing

namespace Spacing

/-- The text of segments that follow something. -/
def spacedAfter (before : Before) : List Segment → List Char
  | [] => []
  | first :: rest => normalizeSegment before first ++ rest.flatMap (normalizeSegment .seam)

theorem spaced_eq (segments : List Segment) : spaced segments = spacedAfter .start segments := by
  cases segments <;> rfl

theorem flatMap_normalizeSegment (segments : List Segment) :
    segments.flatMap (normalizeSegment .seam) = spacedAfter .seam segments := by
  cases segments <;> rfl

theorem spacedAfter_append_cons {v : Segment} (hv : v.isVerbatim = true) (before : Before) (a b : List Segment) :
    spacedAfter before (a ++ v :: b) = spacedAfter before a ++ (v.text ++ spacedAfter .seam b) := by
  have hkept (before : Before) : normalizeSegment before v = v.text := if_pos hv
  cases a with
  | nil =>
    rw [List.nil_append, ← flatMap_normalizeSegment, ← hkept before]
    rfl
  | cons first rest =>
    rw [List.cons_append, spacedAfter, spacedAfter, List.flatMap_append, List.flatMap_cons, hkept,
      flatMap_normalizeSegment b, List.append_assoc]

end Spacing

namespace Piece

variable {unit : String} {p : Piece} {ps : List Piece}

/-- The verbatim segment that the piece is. -/
def verbatim? : Piece → Option Segment
  | verbatim s => if s.toList.isEmpty then none else some ⟨s.toList, true⟩
  | comment c => if c.kind == .block then some ⟨c.text.toList, true⟩ else none
  | _ => none

/-- The piece is spaced with what stands around it. -/
def isPlain (p : Piece) : Bool := p.verbatim?.isNone

theorem isPlain_iff : p.isPlain ↔ p.verbatim? = none := Option.isNone_iff_eq_none

theorem segment_of_verbatim? {v : Segment} (unit : String) (h : p.verbatim? = some v) :
    p.segment unit = v ∧ v.isVerbatim = true ∧ v.text ≠ [] := by
  cases p with
  | verbatim s =>
    obtain ⟨hne, hv⟩ := Option.ite_none_left_eq_some.1 h
    cases hv
    exact ⟨rfl, rfl, mt List.isEmpty_iff.2 hne⟩
  | comment c =>
    obtain ⟨hkind, hv⟩ := Option.ite_none_right_eq_some.1 h
    cases hv
    exact ⟨by rw [segment, hkind], rfl, c.text_ne_nil⟩
  | _ => cases h

/-- A plain piece becomes part of the text around it. -/
theorem join_segment_of_isPlain (h : p.isPlain) (rest : List Segment) :
    (p.segment unit).text = [] ∧ join (p.segment unit) rest = rest ∨
      join (p.segment unit) rest = join ⟨(p.segment unit).text, false⟩ rest := by
  cases p with
  | verbatim s =>
    have hempty : s.toList.isEmpty = true := by
      by_contra hne
      rw [isPlain, verbatim?, if_neg hne] at h
      cases h
    exact .inl ⟨List.isEmpty_iff.1 hempty, by simp [join, segment, hempty]⟩
  | comment c =>
    have hkind : (c.kind == .block) = false := by
      by_contra hkind
      rw [isPlain, verbatim?, if_pos (by simpa using hkind)] at h
      cases h
    exact .inr (by rw [segment, hkind])
  | _ => exact .inr rfl

/-- The segments of plain pieces are the text that they write, if there are any. -/
theorem segments_of_isPlain (h : ∀ p ∈ ps, p.isPlain) :
    segments unit ps = [] ∧ written unit ps = [] ∨ segments unit ps = [⟨written unit ps, false⟩] := by
  induction ps with
  | nil => exact .inl ⟨rfl, rfl⟩
  | cons p ps ih =>
    obtain ⟨hp, hps⟩ := List.forall_mem_cons.1 h
    rw [segments, List.foldr_cons, ← segments, written_cons]
    rcases join_segment_of_isPlain hp (segments unit ps) with ⟨htext, hjoin⟩ | hjoin
    · rw [hjoin, htext]
      exact ih hps
    · rw [hjoin]
      rcases ih hps with ⟨hnil, hwritten⟩ | hone
      · rw [hnil, hwritten, List.append_nil]
        exact .inr rfl
      · rw [hone]
        exact .inr rfl

theorem spacedAfter_of_isPlain (h : ∀ p ∈ ps, p.isPlain) (before : Before) :
    spacedAfter before (segments unit ps) = normalizeSegment before ⟨written unit ps, false⟩ := by
  rcases segments_of_isPlain h with ⟨hnil, hwritten⟩ | hone
  · rw [hnil, hwritten]
    rfl
  · rw [hone]
    exact List.append_nil _

/-- Around a verbatim piece the pieces are spaced each side for itself. -/
theorem spacedAfter_cut {v : Segment} (h : p.verbatim? = some v) (before : Before) (front back : List Piece) :
    spacedAfter before (segments unit (front ++ p :: back)) =
      spacedAfter before (segments unit front) ++ (v.text ++ spacedAfter .seam (segments unit back)) := by
  obtain ⟨rfl, hverbatim, hne⟩ := segment_of_verbatim? unit h
  rw [segments_append_cons hverbatim hne, spacedAfter_append_cons hverbatim]

/-- What holds of plain pieces and is kept by putting plain pieces and a verbatim one in front holds of all pieces. -/
theorem induction_verbatim {motive : List Piece → Prop} (plain : ∀ ps, (∀ p ∈ ps, p.isPlain) → motive ps)
    (cut : ∀ front p v back, (∀ p ∈ front, p.isPlain) → p.verbatim? = some v → motive back →
      motive (front ++ p :: back)) (ps : List Piece) : motive ps := by
  -- the plain pieces in front are told, until a verbatim one is found
  suffices h : ∀ front, (∀ p ∈ front, p.isPlain) → motive (front ++ ps) from h [] fun _ hp => nomatch hp
  induction ps with
  | nil =>
    intro front hfront
    rw [List.append_nil]
    exact plain front hfront
  | cons p ps ih =>
    intro front hfront
    cases hp : p.verbatim? with
    | some v => exact cut front p v ps hfront hp (ih [] fun _ hp => nomatch hp)
    | none =>
      have hmore : ∀ q ∈ front ++ [p], q.isPlain :=
        List.forall_mem_append.2 ⟨hfront, List.forall_mem_singleton.2 (isPlain_iff.2 hp)⟩
      have h := ih (front ++ [p]) hmore
      rwa [List.append_assoc, List.singleton_append] at h

/-- Pieces are plain ones only, or plain ones, a verbatim one and others. -/
theorem isPlain_or_exists_cut (ps : List Piece) : (∀ p ∈ ps, p.isPlain) ∨
    ∃ front p v back, ps = front ++ p :: back ∧ (∀ p ∈ front, p.isPlain) ∧ p.verbatim? = some v := by
  induction ps using induction_verbatim with
  | plain ps hps => exact .inl hps
  | cut front p v back hfront hp _ => exact .inr ⟨front, p, v, back, rfl, hfront, hp⟩

end Piece

end ScriptTidy
