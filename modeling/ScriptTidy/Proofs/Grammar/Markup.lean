/-
What the parsers of markup give. Their steps go by characters, not by tokens: brackets, quotes and braces
are characters of one byte, so that the cursors that are made past them stand in the text.
-/
import ScriptTidy.Grammar.Markup
import ScriptTidy.Proofs.Grammar.Functions

namespace ScriptTidy.Grammar

open Parsing Markup Cst

variable {t rest : List Char} {d : Char}

namespace Cursor.In

variable {c : Cursor}

/-- The cursor past a character of one byte. -/
theorem past_one (h : c.In t) (hchars : c.chars = d :: rest) (hsize : d.utf8Size = 1) : (c.past 1).In t := by
  have hpast := h.past (w := [d]) hchars
  rw [byteLength_cons, hsize] at hpast
  rw [Cursor.past, hchars]
  exact hpast

theorem upTo (h : c.In t) (stops : List Char) : (c.upTo stops).In t := h.past (isCut_takeWhile _ c.chars)

end Cursor.In

/-- A cursor stops at one of the characters that it stops at. -/
theorem Cursor.mem_of_upTo {c : Cursor} {stops : List Char} (h : (c.upTo stops).chars = d :: rest) : d ∈ stops := by
  have hdrop : (c.upTo stops).chars = c.chars.dropWhile fun d => !stops.contains d :=
    List.append_cancel_left ((isCut_takeWhile _ c.chars).symm.trans List.takeWhile_append_dropWhile.symm)
  rw [hdrop] at h
  have hhead := List.head?_dropWhile_not (fun d => !stops.contains d) c.chars
  rw [h] at hhead
  simpa using hhead

/-- A mark of one byte becomes the current token. -/
theorem pointTo_gives {c : Cursor} {text : String} (hc : c.In t) (hchars : c.chars = d :: rest) (hsize : d.utf8Size = 1)
    (htext : text.toList = [d]) : Gives t (fun _ => True) (pointTo text c) fun _ s => s.next.chars = rest := by
  rintro s hs - _ _ ⟨⟩
  have hcovers : Covers t c.offset (c.offset + 1) text.toList := by
    rw [htext]
    have hcovers := hc.covers (w := [d]) hchars
    rwa [byteLength_cons, hsize] at hcovers
  refine ⟨⟨hc, hc.past_one hchars hsize, fun _ _ => ⟨hcovers, rfl⟩, rfl, rfl, Nat.le_succ _, hs.comments⟩, ?_⟩
  show c.chars.drop 1 = rest
  rw [hchars]
  rfl

theorem bracket_makes {text : String} (htext : text.toList = [d]) (hsize : d.utf8Size = 1) :
    Makes t (fun _ => True) (bracket text) := by
  refine .bind get_makes fun s hs => Gives.ite (fun hstarts => ?_) fun _ => .refuse
  obtain ⟨hkind, hstarts⟩ := hstarts
  obtain ⟨more, hmore⟩ := String.startsWith_string_iff.1 hstarts
  have hreads := hs.reads (by simp [hkind]) (by simp [hkind])
  rw [← hmore, htext] at hreads
  exact (pointTo_gives hs.here hreads hsize htext).mono (fun _ h => h) fun _ _ _ => trivial

/-! ## Names and attributes -/

theorem hyphenatedName_makes : Makes t (fun _ => True) hyphenatedName :=
  .bind get_makes fun _ hs => .ite (moveTo_makes (hs.here.past (isCut_takeWhile _ _))) .refuse

theorem name_makes : Makes t (fun _ => True) Markup.name := by
  have hmore : Makes t (fun o : Option Unit => ∀ a ∈ o, True) (do
      if (← accept ".") || (← accept ":") then
        hyphenatedName
        return some ()
      else return none) :=
    .step (accept_makes ".") fun _ => .step (accept_makes ":") fun _ => .ite
      (.step hyphenatedName_makes fun _ => .pure fun _ _ => trivial) .none
  exact .step hyphenatedName_makes fun _ => .step (collect_makes hmore) fun _ => .pure trivial

theorem rawString_makes : Makes t (fun _ => True) rawString := by
  refine .bind get_makes fun s hs => ?_
  split
  · next quote rest hchars =>
    refine Gives.ite (fun hquote => ?_) fun _ => .refuse
    obtain ⟨hquote, hend⟩ := Bool.and_eq_true_iff.1 hquote
    have hsize : quote.utf8Size = 1 := by
      rcases Bool.or_eq_true_iff.1 hquote with h | h <;> rw [beq_iff_eq.1 h] <;> rfl
    have hstop := (hs.here.past_one hchars hsize).upTo [quote]
    cases hstopped : ((s.here.past 1).upTo [quote]).chars with
    | nil =>
      rw [hstopped] at hend
      cases hend
    | cons d rest =>
      obtain rfl := List.mem_singleton.1 (Cursor.mem_of_upTo hstopped)
      exact moveTo_makes (hstop.past_one hstopped hsize)
  · exact .refuse

section Below

variable {below : Below} (hb : below.Sound t)
include hb

theorem container_makes : Makes t (fun _ => True) (container below) := by
  have hend : Makes t (fun _ => True) (do if !(← sees "\x7d") then refuse : Parsing Unit) :=
    .step (sees_makes _) fun _ => .ite .refuse (.pure trivial)
  exact .step (expect_makes _) fun _ => .step (accept_makes "...") fun _ => .step (sees_makes _) fun _ => .ite
    (.step (hb (.expression true)) fun _ => hend) hend

theorem attributeValue_makes : Makes t (fun _ => True) (attributeValue below) :=
  .step get_makes fun _ => .ite (.step (container_makes hb) fun _ => .step advance_makes fun _ => .pure trivial)
    (.ite (.step (hb .markup) fun _ => .step advance_makes fun _ => .pure trivial) rawString_makes)

theorem attribute?_makes : Makes t (fun _ => True) (attribute? below) :=
  .step (sees_makes _) fun _ => .ite (.step (container_makes hb) fun _ => .step advance_makes fun _ => .pure trivial)
    (.step token_makes fun _ => .ite
      (.step name_makes fun _ => .step (sees_makes "=") fun _ => .ite
        (.bind get_makes fun _ hs => .step (moveTo_makes hs.next) fun _ =>
          .step (attributeValue_makes hb) fun _ => .pure trivial)
        (.pure trivial))
      (.pure trivial))

/-! ## Elements -/

/-- The content ends where a slash follows the bracket that is the current token. -/
theorem content?_gives :
    Gives t (fun _ => True) (content? below) fun o s => o = none → ∃ rest, s.next.chars = '/' :: rest := by
  refine .after get_makes fun s hs => ?_
  have hstop := hs.next.upTo ['<', '>', '{', '}']
  dsimp only
  split
  · next rest hchars =>
    exact .bind (pointTo_gives hstop hchars rfl rfl) fun _ => .after (container_makes hb) fun _ _ =>
      .pure fun _ _ h => nomatch h
  · next rest hchars =>
    refine .bind (pointTo_gives hstop hchars rfl rfl) fun _ => .ite (fun hslash => .pure ?_) fun _ =>
      .after (hb .markup) fun _ _ => .pure fun _ _ h => nomatch h
    rintro s hnext -
    obtain ⟨more, rfl⟩ := List.head?_eq_some_iff.1 (beq_iff_eq.1 hslash)
    exact ⟨more, hnext⟩
  · exact .refuse

theorem contentAndClosing_makes : Makes t (fun _ => True) (contentAndClosing below) := by
  refine Gives.bind (collect_leaves (content?_gives hb)) fun _ => Gives.bind get_gives fun s => ?_
  rintro _ hs ⟨⟨rest, hrest⟩, rfl⟩
  exact Makes.step (moveTo_makes (hs.next.past_one hrest rfl)) (fun _ => .step token_makes fun _ => .ite
    (.step name_makes fun _ => bracket_makes rfl rfl) (bracket_makes rfl rfl)) s hs trivial

theorem markup_makes : Makes t (Free t Rank.isOperand) (markup below) := by
  have helement (kind : String) (hkind : Kind.isPlain kind Rank.isOperand) (start : Nat) :
      Makes t (Free t Rank.isOperand) (element kind start) :=
    .step token_makes fun _ => .pure (free_makeNode hkind allFit_nil)
  have hcontent (start : Nat) : Makes t (Free t Rank.isOperand) (do
      bracket ">"
      contentAndClosing below
      element "jsx_element" start) :=
    .step (bracket_makes rfl rfl) fun _ => .step (contentAndClosing_makes hb) fun _ => helement _ (by decide) start
  exact .step startOffset_makes fun start => .step (bracket_makes rfl rfl) fun _ => .bind get_makes fun _ hs =>
    .step (moveTo_makes hs.next) fun _ => .step token_makes fun _ => .ite
      (.step name_makes fun _ => .step (collect_makes ((attribute?_makes hb).mono fun _ _ _ _ => trivial)) fun _ =>
        .step (accept_makes "/") fun _ => .ite
          (.step (bracket_makes rfl rfl) fun _ => helement _ (by decide) start) (hcontent start))
      (hcontent start)

end Below

end ScriptTidy.Grammar
