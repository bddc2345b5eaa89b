/-
Sessions. What a session remembers never shows in its answers: a text comes to what it would come to in
a new session, whatever has been formatted before it. A text that cannot be formatted leaves the session
as it was. The texts that are remembered are the ones used last among those that could be formatted, as
many as there is room for: using a text brings it to the front, whether it was remembered or not, and
the texts behind it keep their order.
-/
import Mathlib.Data.List.Dedup
import ScriptTidy.Proofs.Lists
import ScriptTidy.Session

namespace ScriptTidy

namespace Session

/-! ## What is remembered is right -/

/-- What the session remembers is what formatting gives, and there is room for it. -/
structure Sound (s : Session) : Prop where
  room : s.capacity ≠ 0
  remembered : ∀ m ∈ s.memories, formatted s.options m.text = .ok m.result

theorem sound_new (options : Options) {capacity : Nat} (h : capacity ≠ 0) : (new options capacity).Sound :=
  ⟨h, nofun⟩

theorem standardCapacity_ne_zero : standardCapacity ≠ 0 := by decide

variable {s : Session} {text : String}

/-- What is remembered of a text is among the memories. -/
theorem remembered?_eq_some {m : Memory} (h : s.remembered? text = some m) : m ∈ s.memories ∧ m.text = text :=
  ⟨List.mem_of_find?_eq_some h, by simpa using List.find?_some h⟩

/-- A text that cannot be formatted is not remembered, and leaves the session as it was. -/
theorem Sound.format_of_error (h : s.Sound) {fault : FormatFault} (hfault : formatted s.options text = .error fault) :
    s.format text = (.error (.format fault), s) := by
  unfold Session.format
  cases hfind : s.remembered? text with
  | some m =>
    obtain ⟨hmem, rfl⟩ := remembered?_eq_some hfind
    have hm := h.remembered m hmem
    rw [hfault] at hm
    cases hm
  | none => simp only [hfault]

/-- A text that can be formatted is recalled, or formatted and remembered; either way it comes to what formatting
gives. -/
theorem Sound.format_cases (h : s.Sound) {result : Formatted} (hresult : formatted s.options text = .ok result) :
    (∃ m, s.remembered? text = some m ∧ m.result = result ∧ s.format text = (.ok m, s.refresh m)) ∨
      s.remembered? text = none ∧ s.format text = (.ok ⟨text, result, s.count⟩, s.remember text result) := by
  unfold Session.format
  cases hfind : s.remembered? text with
  | some m =>
    obtain ⟨hmem, rfl⟩ := remembered?_eq_some hfind
    exact .inl ⟨m, rfl, Except.ok.inj ((h.remembered m hmem).symm.trans hresult), rfl⟩
  | none =>
    refine .inr ⟨rfl, ?_⟩
    simp only [hresult, if_neg h.room]

theorem Sound.refresh (h : s.Sound) {m : Memory} (hm : s.remembered? text = some m) : (s.refresh m).Sound :=
  ⟨h.room, List.forall_mem_cons.2
    ⟨h.remembered m (remembered?_eq_some hm).1, fun k hk => h.remembered k (List.mem_filter.1 hk).1⟩⟩

theorem Sound.remember (h : s.Sound) {result : Formatted} (hresult : formatted s.options text = .ok result) :
    (s.remember text result).Sound :=
  ⟨h.room, List.forall_mem_cons.2 ⟨hresult, fun k hk => h.remembered k (List.mem_of_mem_take hk)⟩⟩

/-- A sound session gives what formatting gives, remembered or not, and stays sound. -/
theorem Sound.format_of_ok (h : s.Sound) {result : Formatted} (hresult : formatted s.options text = .ok result) :
    ∃ m after, s.format text = (.ok m, after) ∧ m.result = result ∧ after.Sound ∧ after.options = s.options := by
  rcases h.format_cases hresult with ⟨m, hm, hmresult, heq⟩ | ⟨-, heq⟩
  · exact ⟨m, s.refresh m, heq, hmresult, h.refresh hm, rfl⟩
  · exact ⟨_, _, heq, rfl, h.remember hresult, rfl⟩

/-! ## Texts by their last use -/

section Recency

variable {α : Type} [DecidableEq α]

/-- A member that is used again comes last, and the others keep their order. -/
theorem dedup_append_singleton (a : α) : ∀ l : List α, (l ++ [a]).dedup = l.dedup.filter (· ≠ a) ++ [a]
  | [] => rfl
  | b :: l => by
    have ih := dedup_append_singleton a l
    by_cases hb : b ∈ l
    · rw [List.cons_append, List.dedup_cons_of_mem (List.mem_append_left _ hb), ih, List.dedup_cons_of_mem hb]
    · rw [List.dedup_cons_of_notMem hb]
      by_cases hba : b = a
      · rw [List.cons_append, List.dedup_cons_of_mem (by simp [hba]), ih, List.filter_cons_of_neg (by simpa using hba)]
      · rw [List.cons_append, List.dedup_cons_of_notMem (by simp [hb, hba]), ih,
          List.filter_cons_of_pos (by simpa using hba), List.cons_append]

/-- To keep one member less of a list, it makes no difference whether a given member is taken out before or
after the list is cut. -/
theorem take_filter_take {l : List α} (hl : l.Nodup) (a : α) (n : Nat) :
    ((l.take (n + 1)).filter (· ≠ a)).take n = (l.filter (· ≠ a)).take n := by
  rcases Nat.lt_or_ge (n + 1) l.length with hlength | hlength
  · have hfront : n ≤ ((l.take (n + 1)).filter (· ≠ a)).length := by
      -- at most one member of the front is taken out
      have hcount := List.length_eq_length_filter_add (l := l.take (n + 1)) (· ≠ a)
      have hone : ((l.take (n + 1)).filter fun b => !decide (b ≠ a)).length ≤ 1 := by
        have h := List.nodup_iff_count_le_one.1 (hl.sublist (List.take_sublist (n + 1) l)) a
        simpa [List.count, List.countP_eq_length_filter, BEq.beq] using h
      rw [List.length_take, Nat.min_eq_left (Nat.le_of_lt hlength)] at hcount
      omega
    conv => rhs; rw [← List.take_append_drop (n + 1) l, List.filter_append, List.take_append_of_le_length hfront]
  · rw [List.take_of_length_le hlength]

end Recency

/-- The texts that can be formatted, each once, the one used last first. -/
def recent (options : Options) (texts : List String) : List String :=
  (texts.filter fun text => (formatted options text).isOk).dedup.reverse

theorem nodup_recent (options : Options) (texts : List String) : (recent options texts).Nodup :=
  List.nodup_reverse.2 (List.nodup_dedup _)

/-- The text used last comes first. -/
theorem recent_append_of_ok {options : Options} {result : Formatted} (h : formatted options text = .ok result)
    (texts : List String) : recent options (texts ++ [text]) = text :: (recent options texts).filter (· ≠ text) := by
  have hok : (formatted options text).isOk := by rw [h]; rfl
  rw [recent, List.filter_append, List.filter_singleton, hok, cond_true, dedup_append_singleton, List.reverse_append,
    List.reverse_singleton, List.singleton_append, ← List.filter_reverse, recent]

theorem recent_append_of_error {options : Options} {fault : FormatFault} (h : formatted options text = .error fault)
    (texts : List String) : recent options (texts ++ [text]) = recent options texts := by
  have herror : (formatted options text).isOk = false := by rw [h]; rfl
  rw [recent, List.filter_append, List.filter_singleton, herror, cond_false, List.append_nil, recent]

/-! ## One text after another -/

/-- The session remembers the texts that were used last, as many as there is room for. -/
structure Recalls (s : Session) (texts : List String) : Prop extends s.Sound where
  recalled : s.memories.map Memory.text = (recent s.options texts).take s.capacity

theorem recalls_new (options : Options) {capacity : Nat} (h : capacity ≠ 0) : (new options capacity).Recalls [] :=
  ⟨sound_new options h, List.take_nil.symm⟩

variable {texts : List String}

/-- The texts other than the one in use that there is room for. -/
theorem Recalls.take_recent (h : s.Recalls texts) (text : String) :
    (text :: (recent s.options texts).filter (· ≠ text)).take s.capacity =
      text :: ((s.memories.map Memory.text).filter (· ≠ text)).take (s.capacity - 1) := by
  obtain ⟨n, hn⟩ := Nat.exists_eq_succ_of_ne_zero h.room
  rw [h.recalled, hn, List.take_succ_cons, Nat.succ_sub_one, take_filter_take (nodup_recent ..)]

/-- A text that is remembered comes to the front. -/
theorem Recalls.refresh (h : s.Recalls texts) {m : Memory} (hm : s.remembered? text = some m) :
    (s.refresh m).Recalls (texts ++ [text]) := by
  refine ⟨h.toSound.refresh hm, ?_⟩
  obtain ⟨hmem, rfl⟩ := remembered?_eq_some hm
  -- without the text there is one less than there is room for, so that nothing is forgotten
  have hfits : ((s.memories.map Memory.text).filter (· ≠ m.text)).length ≤ s.capacity - 1 := by
    have hlength : (s.memories.map Memory.text).length ≤ s.capacity := by
      rw [h.recalled]
      exact List.length_take_le ..
    have hless : ((s.memories.map Memory.text).filter (· ≠ m.text)).length < (s.memories.map Memory.text).length :=
      List.length_filter_lt_length_iff_exists.2 ⟨m.text, List.mem_map_of_mem hmem, by simp⟩
    omega
  show _ = (recent s.options _).take s.capacity
  rw [recent_append_of_ok (h.remembered m hmem), h.take_recent, List.take_of_length_le hfits, List.filter_map]
  show m.text :: _ = _
  congr 2
  exact List.filter_congr fun k _ => Bool.eq_iff_iff.2 (by simp)

/-- A text that is not remembered comes to the front, and the one used longest ago is forgotten if there is no
room left. -/
theorem Recalls.remember (h : s.Recalls texts) (hnone : s.remembered? text = none) {result : Formatted}
    (hresult : formatted s.options text = .ok result) : (s.remember text result).Recalls (texts ++ [text]) := by
  refine ⟨h.toSound.remember hresult, ?_⟩
  have hother : ∀ other ∈ s.memories.map Memory.text, decide (other ≠ text) := by
    intro other hmem
    obtain ⟨k, hk, rfl⟩ := List.mem_map.1 hmem
    simpa using List.find?_eq_none.1 hnone k hk
  show _ = (recent s.options _).take s.capacity
  rw [recent_append_of_ok hresult, h.take_recent, List.filter_eq_self.2 hother, ← List.map_take]
  rfl

/-- What becomes of a session and a text: the text comes to what formatting it gives, and the session goes on
remembering the texts that were used last. -/
theorem Recalls.format (h : s.Recalls texts) (text : String) :
    (s.format text).1.map (fun m => (m.text, m.result)) =
        ((formatted s.options text).mapError .format).map (fun result => (text, result)) ∧
      (s.format text).2.Recalls (texts ++ [text]) ∧ (s.format text).2.options = s.options ∧
      (s.format text).2.capacity = s.capacity := by
  cases hresult : formatted s.options text with
  | error fault =>
    rw [h.format_of_error hresult]
    refine ⟨rfl, ⟨h.toSound, ?_⟩, rfl, rfl⟩
    rw [recent_append_of_error hresult]
    exact h.recalled
  | ok result =>
    rcases h.format_cases hresult with ⟨m, hm, rfl, heq⟩ | ⟨hnone, heq⟩
    · rw [heq, ← (remembered?_eq_some hm).2]
      refine ⟨rfl, ?_, rfl, rfl⟩
      rw [(remembered?_eq_some hm).2]
      exact h.refresh hm
    · rw [heq]
      exact ⟨rfl, h.remember hnone hresult, rfl, rfl⟩

/-! ## Whole sessions -/

/-- The session after texts have been formatted one after another. -/
def after (s : Session) (texts : List String) : Session := texts.foldl (fun s text => (s.format text).2) s

theorem Recalls.after (h : s.Recalls texts) (more : List String) :
    (s.after more).Recalls (texts ++ more) ∧ (s.after more).options = s.options ∧
      (s.after more).capacity = s.capacity := by
  induction more generalizing s texts with
  | nil =>
    rw [List.append_nil]
    exact ⟨h, rfl, rfl⟩
  | cons text more ih =>
    obtain ⟨-, hnext, hoptions, hcapacity⟩ := h.format text
    obtain ⟨hafter, hoptions', hcapacity'⟩ := ih hnext
    rw [List.append_assoc, List.singleton_append] at hafter
    exact ⟨hafter, hoptions'.trans hoptions, hcapacity'.trans hcapacity⟩

/-- Whatever texts a session has been given, the next one comes to what it comes to in a new session. If that is a
fault, the session is left as it was. Afterwards the texts that can be formatted and were used last are
remembered, as many as there is room for, and no others. -/
theorem format_after (options : Options) {capacity : Nat} (hroom : 1 ≤ capacity) (texts : List String) (text : String) :
    let s := (new options capacity).after texts
    (s.format text).1.map (fun m => (m.text, m.result)) =
        ((new options capacity).format text).1.map (fun m => (m.text, m.result)) ∧
      (∀ fault, (s.format text).1 = .error fault → (s.format text).2 = s) ∧
      (s.format text).2.memories.map Memory.text = (recent options (texts ++ [text])).take capacity ∧
      (s.format text).2.memories.length ≤ capacity := by
  intro s
  have hnew := recalls_new options (Nat.one_le_iff_ne_zero.1 hroom)
  obtain ⟨hs, hoptions, hcapacity⟩ := hnew.after texts
  rw [List.nil_append] at hs
  have hoptions : s.options = options := hoptions
  have hcapacity : s.capacity = capacity := hcapacity
  obtain ⟨hanswer, hnext, hoptions', hcapacity'⟩ := hs.format text
  have hrecalled := hnext.recalled
  rw [hoptions', hcapacity', hoptions, hcapacity] at hrecalled
  refine ⟨?_, fun fault hfault => ?_, hrecalled, ?_⟩
  · rw [hanswer, (hnew.format text).1, hoptions]
    rfl
  · cases hresult : formatted s.options text with
    | error _ => rw [hs.format_of_error hresult]
    | ok result =>
      obtain ⟨m, _, heq, -⟩ := hs.format_of_ok hresult
      rw [heq] at hfault
      cases hfault
  · rw [← List.length_map Memory.text, hrecalled]
    exact List.length_take_le ..

/-- A text that is used again is kept, and the one used longest ago is forgotten. -/
theorem format_after_a_b_a : 1 ≤ 2 ∧
    (((new .standard 2).after ["a", "b", "(", "a"]).format "c").2.memories.map Memory.text = ["c", "a"] :=
  ⟨by decide, (format_after .standard (by decide) ["a", "b", "(", "a"] "c").2.2.1.trans (by decide +kernel)⟩

end Session

end ScriptTidy
