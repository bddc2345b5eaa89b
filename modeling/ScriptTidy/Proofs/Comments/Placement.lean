/-
Where a comment ends up. On a program whose spans are nested intervals, a comment that lies inside,
before or after every node goes to the innermost node around it, or to the root if there is none. It
then belongs before the first child that starts after it, and if there is no such child before the
closing bracket of the node or, if it has none, before the node itself. A comment that belongs before
a node is held by the nearest owner on the way from that node to the root.

The comments are pending in the order of their starts, so whatever is pending before a comment is
taken wherever the comment is. A node without any part of a comment leaves it pending: association
drops just the comments that start before the node ends.
-/
import ScriptTidy.Proofs.Comments.Conservation

namespace ScriptTidy

/-! ## Comments and spans -/

/-- The comment stands within the span. -/
def Span.Covers (s : Span) (c : Comment) : Prop := s.start ≤ c.start ∧ c.stop ≤ s.stop

/-- The comment stands within the span, before it or after it. -/
def Span.Clears (s : Span) (c : Comment) : Prop := s.Covers c ∨ c.stop ≤ s.start ∨ s.stop ≤ c.start

instance (s : Span) (c : Comment) : Decidable (s.Covers c) := inferInstanceAs (Decidable (_ ∧ _))

instance (s : Span) (c : Comment) : Decidable (s.Clears c) := inferInstanceAs (Decidable (_ ∨ _))

/-! ## Taking from pending comments -/

/-- A comment is taken if all that start no later may be taken. -/
theorem Comment.mem_takeWhile {p : Comment → Bool} {c : Comment} : ∀ {s : List Comment}, InOrder s → c ∈ s →
    (∀ a ∈ s, a.start ≤ c.start → p a) → c ∈ s.takeWhile p
  | a :: s, hs, hc, hp => by
    rw [InOrder, List.pairwise_cons] at hs
    have ha : p a := by
      refine hp a (List.mem_cons_self ..) ?_
      rcases List.mem_cons.1 hc with rfl | hc
      · exact le_rfl
      · exact hs.1 c hc
    rw [List.takeWhile_cons_of_pos ha]
    rcases List.mem_cons.1 hc with rfl | hc
    · exact List.mem_cons_self ..
    · exact List.mem_cons_of_mem _ (mem_takeWhile hs.2 hc fun b hb => hp b (List.mem_cons_of_mem _ hb))

namespace Node

open Comment

/-! ## Nested spans -/

/-- The span of a node is an interval, and those of its children lie in it one after another. -/
structure Nests (n : Node) : Prop where
  interval : n.span.start ≤ n.span.stop
  within : ∀ m ∈ n.children, n.span.start ≤ m.span.start ∧ m.span.stop ≤ n.span.stop
  apart : n.children.IsChain fun a b => a.span.stop ≤ b.span.start

/-- The spans of a tree are nested intervals. -/
def Nested (root : Node) : Prop := ∀ path n, root.at? path = some n → n.Nests

namespace Nested

variable {n m : Node} {i : Nat} {path : List Nat}

theorem root (h : n.Nested) : n.Nests := h [] n rfl

theorem child (h : n.Nested) (hm : n.children[i]? = some m) : m.Nested :=
  fun path _ hat => h (i :: path) _ (at?_cons.2 ⟨m, hm, hat⟩)

theorem of_mem (h : n.Nested) (hm : m ∈ n.children) : m.Nested := by
  obtain ⟨i, hi⟩ := List.mem_iff_getElem?.1 hm
  exact h.child hi

/-- Whatever is at an address lies within the root. -/
theorem covers_of_at (h : n.Nested) (hat : n.at? path = some m) {c : Comment} (hc : m.span.Covers c) :
    n.span.Covers c := by
  induction path generalizing n with
  | nil =>
    obtain rfl := Option.some.inj hat
    exact hc
  | cons i path ih =>
    obtain ⟨k, hk, hat⟩ := at?_cons.1 hat
    obtain ⟨hstart, hstop⟩ := ih (h.child hk) hat
    have hin := h.root.within k (List.mem_of_getElem? hk)
    exact ⟨by omega, by omega⟩

theorem pairwise_of_isChain : ∀ {ms : List Node}, (∀ m ∈ ms, m.span.start ≤ m.span.stop) →
    (ms.IsChain fun a b => a.span.stop ≤ b.span.start) → ms.Pairwise fun a b => a.span.stop ≤ b.span.start
  | [], _, _ => List.Pairwise.nil
  | [_], _, _ => List.pairwise_singleton ..
  | a :: b :: ms, h, hc => by
    rw [List.isChain_cons_cons] at hc
    have hb := pairwise_of_isChain (fun m hm => h m (List.mem_cons_of_mem _ hm)) hc.2
    refine List.Pairwise.cons ?_ hb
    intro k hk
    rcases List.mem_cons.1 hk with rfl | hk
    · exact hc.1
    · have := List.rel_of_pairwise_cons hb hk
      have := h b (by simp)
      omega

/-- The children before a child stop before it starts. -/
theorem stop_le_start (h : n.Nested) (hm : n.children[i]? = some m) {k : Node}
    (hk : k ∈ n.children.take i) : k.span.stop ≤ m.span.start := by
  have hpair := pairwise_of_isChain (fun m hm => (h.of_mem hm).root.interval) h.root.apart
  rw [← List.take_append_drop i n.children, List.pairwise_append] at hpair
  refine hpair.2.2 k hk m ?_
  rw [List.mem_iff_getElem?]
  exact ⟨0, by rw [List.getElem?_drop]; exact hm⟩

end Nested

/-! ## Association in nested spans -/

/-- What can be pending at a node: comments that have some text, in the order of their starts, each
inside, before or after every node of the tree. -/
structure Awaits (n : Node) (s : List Comment) : Prop where
  ordered : InOrder s
  nonempty : ∀ c ∈ s, c.start < c.stop
  clear : ∀ c ∈ s, ∀ {path m}, n.at? path = some m → m.span.Clears c

theorem Awaits.suffix {n : Node} {s t : List Comment} (h : n.Awaits s) (ht : t <:+ s) : n.Awaits t where
  ordered := h.ordered.sublist ht.sublist
  nonempty c hc := h.nonempty c (ht.subset hc)
  clear c hc := h.clear c (ht.subset hc)

theorem Awaits.child {n m : Node} {s : List Comment} {i : Nat} (h : n.Awaits s) (hm : n.children[i]? = some m) :
    m.Awaits s where
  ordered := h.ordered
  nonempty := h.nonempty
  clear c hc _ _ hat := h.clear c hc (at?_cons.2 ⟨m, hm, hat⟩)

/-- Nodes that stop by a place leave pending what starts there or later. -/
theorem dropWhile_mapM_associate {b : Nat} : ∀ {ms : List Node},
    (∀ m ∈ ms, m.span.stop ≤ b ∧
      ∀ s, (∀ c ∈ s, c.start < c.stop) → (m.associate s).2 = s.dropWhile fun c => c.start < m.span.stop) →
    ∀ {s : List Comment}, (∀ c ∈ s, c.start < c.stop) →
      ((ms.mapM associate s).2.dropWhile fun c => c.start < b) = s.dropWhile fun c => c.start < b
  | [], _, _, _ => rfl
  | m :: ms, hms, s, hs => by
    obtain ⟨hb, hm⟩ := hms m (List.mem_cons_self ..)
    have hs' : ∀ c ∈ (m.associate s).2, c.start < c.stop := fun c hc => hs c ((associate_suffix m s).subset hc)
    rw [mapM_associate_cons]
    show (List.dropWhile _ (ms.mapM associate (m.associate s).2).2) = _
    rw [dropWhile_mapM_associate (fun k hk => hms k (List.mem_cons_of_mem _ hk)) hs', hm s hs]
    refine dropWhile_dropWhile fun c _ hc => ?_
    rw [decide_eq_true_eq] at hc ⊢
    omega

/-- A node leaves pending just what starts at its end or later. -/
theorem Nested.associate_rest {n : Node} (h : n.Nested) : ∀ s, (∀ c ∈ s, c.start < c.stop) →
    (n.associate s).2 = s.dropWhile fun c => c.start < n.span.stop := by
  induction n using byChildren with
  | node n ih =>
    intro s hs
    have hkids : ∀ m ∈ n.children, m.span.stop ≤ n.span.stop ∧
        ∀ s, (∀ c ∈ s, c.start < c.stop) → (m.associate s).2 = s.dropWhile fun c => c.start < m.span.stop :=
      fun m hm => ⟨(h.root.within m hm).2, ih m hm (h.of_mem hm)⟩
    have hs' : ∀ c ∈ s.dropWhile (fun c => c.stop ≤ n.span.start), c.start < c.stop :=
      fun c hc => hs c ((List.dropWhile_suffix _).subset hc)
    rw [Node.associate_rest, inner, dropWhile_mapM_associate hkids hs']
    refine dropWhile_dropWhile fun c hc hbefore => ?_
    have := hs c hc
    have := h.root.interval
    rw [decide_eq_true_eq] at hbefore ⊢
    omega

/-- A comment after some nodes is still pending after them. -/
theorem mem_mapM_associate {c : Comment} : ∀ {ms : List Node},
    (∀ m ∈ ms, m.Nested ∧ m.span.stop ≤ c.start) → ∀ {s : List Comment}, (∀ c ∈ s, c.start < c.stop) → c ∈ s →
      c ∈ (ms.mapM associate s).2
  | [], _, _, _, hc => hc
  | m :: ms, hms, s, hs, hc => by
    obtain ⟨hm, hafter⟩ := hms m (List.mem_cons_self ..)
    rw [mapM_associate_cons]
    refine mem_mapM_associate (fun k hk => hms k (List.mem_cons_of_mem _ hk))
      (fun b hb => hs b ((associate_suffix m s).subset hb)) ?_
    rw [hm.associate_rest s hs]
    exact mem_dropWhile_of_not hc (decide_eq_false (by omega))

/-! ## The innermost node -/

/-- The node at an address is the innermost one around a comment, or the root if there is none. -/
structure Innermost (root : Node) (c : Comment) (path : List Nat) (n : Node) : Prop where
  reached : root.at? path = some n
  around : path = [] ∨ n.span.Covers c
  deepest : ∀ {below m}, below ≠ [] → n.at? below = some m → ¬ m.span.Covers c

theorem Innermost.child {root n m : Node} {c : Comment} {path : List Nat} (h : root.Innermost c path n)
    (hm : m ∈ n.children) : ¬ m.span.Covers c := by
  obtain ⟨i, hi⟩ := List.mem_iff_getElem?.1 hm
  exact h.deepest (List.cons_ne_nil i []) (at?_cons.2 ⟨m, hi, at?_nil m⟩)

theorem Nested.exists_innermost {n : Node} (h : n.Nested) (c : Comment) : ∃ path m, n.Innermost c path m := by
  induction n using byChildren with
  | node n ih =>
    by_cases hc : ∃ m ∈ n.children, m.span.Covers c
    · obtain ⟨m, hm, hc⟩ := hc
      obtain ⟨i, hi⟩ := List.mem_iff_getElem?.1 hm
      obtain ⟨path, k, hk⟩ := ih m hm (h.child hi)
      refine ⟨i :: path, k, at?_cons.2 ⟨m, hi, hk.reached⟩, Or.inr ?_, hk.deepest⟩
      rcases hk.around with rfl | hk'
      · rwa [← Option.some.inj hk.reached]
      · exact hk'
    · refine ⟨[], n, at?_nil n, Or.inl rfl, ?_⟩
      intro below m hne hat hcovers
      cases below with
      | nil => exact hne rfl
      | cons i below =>
        obtain ⟨k, hk, hat⟩ := at?_cons.1 hat
        exact hc ⟨k, List.mem_of_getElem? hk, (h.child hk).covers_of_at hat hcovers⟩

/-- What holds of a comment at the innermost node around it: it stands before the first child that
starts after it, otherwise at the end of the node if that can have comments there, otherwise before
the node. What it is to stand before the node at an address below, and at the end, is told. -/
def Belongs (n : Node) (c : Comment) (before : List Nat → Prop) (atEnd : Prop) : Prop :=
  match n.children.findIdx? fun m => c.stop ≤ m.span.start with
  | some i => before [i]
  | none => if n.form.isContainer then atEnd else before []

theorem Belongs.imp {n : Node} {c : Comment} {before before' : List Nat → Prop} {atEnd atEnd' : Prop}
    (hbefore : ∀ p, before p → before' p) (hend : atEnd → atEnd') (h : n.Belongs c before atEnd) :
    n.Belongs c before' atEnd' := by
  unfold Belongs at *
  split at h
  · exact hbefore _ h
  · by_cases hc : n.form.isContainer
    · rw [if_pos hc] at h ⊢
      exact hend h
    · rw [if_neg hc] at h ⊢
      exact hbefore _ h

/-! ## Where association leaves a comment -/

section Inner

variable {n : Node} {c : Comment} {s : List Comment}

theorem Awaits.stop_le_start (hs : n.Awaits s) (hc : c ∈ s) {m : Node} (hm : m ∈ n.children)
    (hout : ¬ m.span.Covers c) (hnot : ¬ c.stop ≤ m.span.start) : m.span.stop ≤ c.start := by
  obtain ⟨i, hi⟩ := List.mem_iff_getElem?.1 hm
  rcases hs.clear c hc (at?_cons.2 ⟨m, hi, at?_nil m⟩) with h | h | h
  · exact absurd h hout
  · exact absurd h hnot
  · exact h

/-- Every comment that starts no later than one before a node is before the node. -/
theorem Awaits.mem_leading (hn : n.Nested) (hs : n.Awaits s) (hc : c ∈ s) (hbefore : c.stop ≤ n.span.start) :
    c ∈ n.leading s := by
  refine Comment.mem_takeWhile hs.ordered hc fun a ha hac => ?_
  have := hn.root.interval
  have := hs.nonempty a ha
  have := hs.nonempty c hc
  rw [decide_eq_true_eq]
  rcases hs.clear a ha (at?_nil n) with ⟨h, -⟩ | h | h
  · omega
  · exact h
  · omega

/-- A comment that starts after the children before one is still pending at that child. -/
theorem Awaits.mem_pendingAt (hn : n.Nested) (hs : n.Awaits s) (hc : c ∈ s) (hstart : n.span.start < c.stop) {i : Nat}
    (hafter : ∀ k ∈ n.children.take i, k.span.stop ≤ c.start) : c ∈ n.pendingAt s i := by
  have hs' : n.Awaits (s.dropWhile fun c => c.stop ≤ n.span.start) := hs.suffix (List.dropWhile_suffix _)
  refine mem_mapM_associate (fun k hk => ⟨hn.of_mem (List.mem_of_mem_take hk), hafter k hk⟩) hs'.nonempty ?_
  exact mem_dropWhile_of_not hc (decide_eq_false (by omega))

/-- A comment that no child covers goes to the first child after it, or is pending after them all. -/
theorem Awaits.mem_inner (hn : n.Nested) (hs : n.Awaits s) (hc : c ∈ s) (hstart : n.span.start < c.stop)
    (hout : ∀ m ∈ n.children, ¬ m.span.Covers c) :
    match n.children.findIdx? fun m => c.stop ≤ m.span.start with
    | some i => ∃ m, (n.inner s).1[i]? = some m ∧ c ∈ m.comments
    | none => c ∈ (n.inner s).2 := by
  split
  next i hfound =>
    rw [List.findIdx?_eq_some_iff_getElem] at hfound
    obtain ⟨hi, hbefore, hfirst⟩ := hfound
    rw [decide_eq_true_eq] at hbefore
    have hm : n.children[i]? = some n.children[i] := List.getElem?_eq_getElem hi
    refine ⟨_, by rw [getElem?_inner, hm]; rfl, ?_⟩
    -- the children before the first one after the comment end before it
    have hpending : c ∈ n.pendingAt s i := by
      refine hs.mem_pendingAt hn hc hstart fun m hm => ?_
      obtain ⟨j, hj, rfl⟩ := List.mem_take_iff_getElem.1 hm
      have hmem : n.children[j] ∈ n.children := List.getElem_mem _
      refine hs.stop_le_start hc hmem (hout _ hmem) ?_
      simpa only [decide_eq_true_eq] using hfirst j (by omega)
    have hawaits := (hs.child hm).suffix (pendingAt_suffix n s i)
    rw [associate_comments]
    exact List.mem_append_left _ (List.mem_append_right _ (hawaits.mem_leading (hn.child hm) hpending hbefore))
  next hnone =>
    rw [List.findIdx?_eq_none_iff] at hnone
    have hpending : c ∈ n.pendingAt s n.children.length := by
      refine hs.mem_pendingAt hn hc hstart fun m hm => ?_
      have hmem := List.mem_of_mem_take hm
      exact hs.stop_le_start hc hmem (hout m hmem) (of_decide_eq_false (hnone m hmem))
    rwa [pendingAt, List.take_length] at hpending

/-- A comment that no child covers belongs to the node, if the node takes it when it is pending after
the children. -/
theorem Awaits.belongs (hn : n.Nested) (hs : n.Awaits s) (hc : c ∈ s) (hstart : n.span.start < c.stop)
    (hout : ∀ m ∈ n.children, ¬ m.span.Covers c) {t : Node} (hchildren : t.children = (n.inner s).1)
    (htaken : c ∈ (n.inner s).2 → if n.form.isContainer then c ∈ t.trailing else c ∈ t.comments) :
    n.Belongs c (fun p => ∃ m, t.at? p = some m ∧ c ∈ m.comments) (∃ m, t.at? [] = some m ∧ c ∈ m.trailing) := by
  have hinner := hs.mem_inner hn hc hstart hout
  unfold Belongs
  split at hinner
  next i _ =>
    obtain ⟨m, hm, hmem⟩ := hinner
    refine ⟨m, ?_, hmem⟩
    rw [at?_cons, hchildren]
    exact ⟨m, hm, at?_nil m⟩
  next =>
    have ht := htaken hinner
    by_cases hcont : n.form.isContainer
    · rw [if_pos hcont] at ht ⊢
      exact ⟨t, at?_nil t, ht⟩
    · rw [if_neg hcont] at ht ⊢
      exact ⟨t, at?_nil t, ht⟩

end Inner

/-- Below a node that covers a comment, association gives the comment to where it belongs at the
innermost node around it. -/
theorem belongs_associate {c : Comment} {k : Node} {path : List Nat} : ∀ {n : Node} {s : List Comment},
    n.Nested → n.Awaits s → c ∈ s → n.at? path = some k → k.span.Covers c → (∀ m ∈ k.children, ¬ m.span.Covers c) →
      k.Belongs c (fun p => ∃ m, (n.associate s).1.at? (path ++ p) = some m ∧ c ∈ m.comments)
        (∃ m, (n.associate s).1.at? path = some m ∧ c ∈ m.trailing) := by
  induction path with
  | nil =>
    intro n s hn hs hc hat hcovers hout
    obtain rfl := Option.some.inj hat
    have hlt := hs.nonempty c hc
    obtain ⟨hstart, hstop⟩ := hcovers
    refine hs.belongs hn hc (by omega) hout (associate_children n s) fun hinner => ?_
    have hclosing : c ∈ n.closing s := by
      refine Comment.mem_takeWhile (hs.suffix (inner_suffix n s)).ordered hinner fun a _ ha => ?_
      rw [decide_eq_true_eq]
      omega
    rw [associate_trailing, associate_comments]
    by_cases hcont : n.form.isContainer
    · rw [if_pos hcont, if_pos hcont]
      exact List.mem_append_right _ hclosing
    · rw [if_neg hcont, if_neg hcont]
      exact List.mem_append_right _ hclosing
  | cons i path ih =>
    intro n s hn hs hc hat hcovers hout
    obtain ⟨m, hm, hat⟩ := at?_cons.1 hat
    have hlt := hs.nonempty c hc
    obtain ⟨hstart, hstop⟩ := (hn.child hm).covers_of_at hat hcovers
    have hin := hn.root.within m (List.mem_of_getElem? hm)
    -- neither the node nor the children before the one that covers the comment take it
    have hpending : c ∈ n.pendingAt s i := by
      refine hs.mem_pendingAt hn hc (by omega) fun k hk => ?_
      have := hn.stop_le_start hm hk
      omega
    have hawaits := (hs.child hm).suffix (pendingAt_suffix n s i)
    have hchild : (n.associate s).1.children[i]? = some (m.associate (n.pendingAt s i)).1 := by
      rw [associate_children, getElem?_inner, hm]
      rfl
    refine (ih (hn.child hm) hawaits hpending hat hcovers hout).imp ?_ ?_
    · rintro p ⟨r, hr, hmem⟩
      exact ⟨r, at?_cons.2 ⟨_, hchild, hr⟩, hmem⟩
    · rintro ⟨r, hr, hmem⟩
      exact ⟨r, at?_cons.2 ⟨_, hchild, hr⟩, hmem⟩

/-! ## Moving up to an owner -/

/-- The owner at an address is the nearest one on the way from a node to the root. Whether the root
is an owner has to be told. -/
structure NearestOwner (root : Node) (owned : Bool) (path owner : List Nat) : Prop where
  above : owner <+: path
  owns : root.ownedAt owned owner
  nearest : ∀ {p}, p <+: path → root.ownedAt owned p → p <+: owner

theorem mem_settle {n : Node} {c : Comment} (hc : c ∈ n.arriving) : c ∈ (n.settle true).1.comments := by
  rw [settle_comments, if_pos rfl]
  exact (sorted_perm _).mem_iff.2 hc

/-- A comment of a node moves to the nearest owner or, if there is none, to the parent of the root. -/
theorem exists_settle {c : Comment} {k : Node} {path : List Nat} : ∀ {n : Node} (owned : Bool),
    n.at? path = some k → c ∈ k.comments →
      (∃ owner m, n.NearestOwner owned path owner ∧ (n.settle owned).1.at? owner = some m ∧ c ∈ m.comments) ∨
        ((∀ p, p <+: path → n.ownedAt owned p = false) ∧ c ∈ n.arriving) := by
  induction path with
  | nil =>
    intro n owned hat hc
    obtain rfl := Option.some.inj hat
    have harriving : c ∈ n.arriving := List.mem_append_left _ hc
    cases owned with
    | false => exact Or.inr ⟨fun p hp => by rw [List.prefix_nil.1 hp]; rfl, harriving⟩
    | true =>
      exact Or.inl ⟨[], _, ⟨List.nil_prefix, rfl, fun hp _ => hp⟩, at?_nil _, mem_settle harriving⟩
  | cons i path ih =>
    intro n owned hat hc
    obtain ⟨m, hm, hat⟩ := at?_cons.1 hat
    rw [getElem?_children] at hm
    obtain ⟨⟨m, flag⟩, hflag, rfl⟩ := Option.map_eq_some_iff.1 hm
    have hdown : ∀ p, n.ownedAt owned (i :: p) = m.ownedAt flag p := by
      intro p
      rw [ownedAt, hflag, Option.any_some]
    have hchild : (n.settle owned).1.children[i]? = some (m.settle flag).1 := by
      rw [settle_children, List.getElem?_map, hflag]
      rfl
    rcases ih flag hat hc with ⟨owner, r, hnear, hr, hmem⟩ | ⟨hnone, harriving⟩
    · refine Or.inl ⟨i :: owner, r, ⟨?_, ?_, ?_⟩, at?_cons.2 ⟨_, hchild, hr⟩, hmem⟩
      · exact List.cons_prefix_cons.2 ⟨rfl, hnear.above⟩
      · rw [hdown]
        exact hnear.owns
      · intro p hp howns
        cases p with
        | nil => exact List.nil_prefix
        | cons j p =>
          obtain ⟨rfl, hp'⟩ := List.cons_prefix_cons.1 hp
          rw [hdown] at howns
          exact List.cons_prefix_cons.2 ⟨rfl, hnear.nearest hp' howns⟩
    · have hnot : flag = false := hnone [] List.nil_prefix
      have harriving' : c ∈ n.arriving := by
        refine List.mem_append_right _ (List.mem_flatMap.2 ⟨_, List.mem_of_getElem? hflag, ?_⟩)
        show c ∈ (m.settle flag).2
        rw [settle_rest, hnot]
        exact harriving
      cases owned with
      | false =>
        refine Or.inr ⟨fun p hp => ?_, harriving'⟩
        cases p with
        | nil => rfl
        | cons j p =>
          obtain ⟨rfl, hp'⟩ := List.cons_prefix_cons.1 hp
          rw [hdown]
          exact hnone p hp'
      | true =>
        refine Or.inl ⟨[], _, ⟨List.nil_prefix, rfl, fun {p} hp howns => ?_⟩, at?_nil _, mem_settle harriving'⟩
        cases p with
        | nil => exact List.nil_prefix
        | cons j p =>
          obtain ⟨rfl, hp'⟩ := List.cons_prefix_cons.1 hp
          rw [hdown, hnone p hp'] at howns
          cases howns

/-! ## Attachment to a program -/

/-- A program holds a comment before the nearest owner of a node. -/
def HeldAbove (root result : Node) (c : Comment) (path : List Nat) : Prop :=
  ∃ owner m, root.NearestOwner false path owner ∧ result.at? owner = some m ∧ c ∈ m.comments

/-- A program holds a comment where it belongs at the node at an address. -/
def Placed (root result : Node) (c : Comment) (path : List Nat) (n : Node) : Prop :=
  n.Belongs c (fun p => root.HeldAbove result c (path ++ p)) (∃ m, result.at? path = some m ∧ c ∈ m.trailing)

section Program

variable {root : Node} {body : List Node} {hashbang : String} {comments : List Comment}

theorem NearestOwner.of_uncommented_eq {a b : Node} (h : a.uncommented = b.uncommented) {owned : Bool}
    {path owner : List Nat} (hn : a.NearestOwner owned path owner) : b.NearestOwner owned path owner where
  above := hn.above
  owns := by
    rw [← ownedAt_of_uncommented_eq h]
    exact hn.owns
  nearest := by
    intro p hp howns
    rw [← ownedAt_of_uncommented_eq h] at howns
    exact hn.nearest hp howns

theorem belongs_associateAll (hprogram : root.form = .program body hashbang) (hempty : root.allComments = [])
    (hnested : root.Nested) (hawaits : root.Awaits (sorted comments)) {c : Comment} (hc : c ∈ sorted comments)
    (hstart : root.span.start < c.stop) {path : List Nat} {n : Node} (hn : root.Innermost c path n) :
    n.Belongs c (fun p => ∃ m, (root.associateAll comments).at? (path ++ p) = some m ∧ c ∈ m.comments)
      (∃ m, (root.associateAll comments).at? path = some m ∧ c ∈ m.trailing) := by
  have hroot : root.form.isContainer := by rw [hprogram]; rfl
  cases path with
  | nil =>
    obtain rfl := Option.some.inj hn.reached
    refine hawaits.belongs hnested hc hstart (fun m hm => hn.child hm) (associate_children _ _) fun hinner => ?_
    rwa [if_pos hroot, trailing_root hroot hempty]
  | cons i path =>
    have hcovers := hn.around.resolve_left (List.cons_ne_nil i path)
    have hbelongs := belongs_associate hnested hawaits hc hn.reached hcovers fun m hm => hn.child hm
    simpa only [List.cons_append, associateAll_at_cons] using hbelongs

/-- A comment that ends before the program starts has no owner. -/
theorem early_arriving (hnested : root.Nested) (hawaits : root.Awaits (sorted comments)) {c : Comment}
    (hc : c ∈ sorted comments) (hearly : c.stop ≤ root.span.start) : c ∈ (root.associateAll comments).arriving := by
  refine List.mem_append_left _ ?_
  rw [associateAll_comments, associate_comments]
  exact List.mem_append_left _ (List.mem_append_right _ (hawaits.mem_leading hnested hc hearly))

/-- On a program with nested spans, with comments that lie inside, before or after every node: if one of
them ends before the program starts, attachment fails. Otherwise it leaves the program as it is, and
holds every comment where it belongs at the innermost node around it. -/
theorem attach_places (hprogram : root.form = .program body hashbang) (hempty : root.allComments = [])
    (hnested : root.Nested) (hnonempty : ∀ c ∈ comments, c.start < c.stop)
    (hclear : ∀ c ∈ comments, ∀ path n, root.at? path = some n → n.span.Clears c) :
    ((∃ c ∈ comments, c.stop ≤ root.span.start) →
        ∃ count, root.attach comments = .error (.stray count "program" root.span.line)) ∧
      ((∀ c ∈ comments, root.span.start < c.stop) →
        ∃ result, root.attach comments = .ok result ∧ result.uncommented = root.uncommented ∧
          ∀ c ∈ comments, (∃ path n, root.Innermost c path n) ∧
            ∀ path n, root.Innermost c path n → root.Placed result c path n) := by
  have hsorted : ∀ {a}, a ∈ sorted comments ↔ a ∈ comments := (sorted_perm comments).mem_iff
  have hawaits : root.Awaits (sorted comments) := by
    refine ⟨inOrder_sorted comments, fun a ha => hnonempty a (hsorted.1 ha), ?_⟩
    exact fun a ha path m hat => hclear a (hsorted.1 ha) path m hat
  constructor
  · rintro ⟨c, hc, hearly⟩
    have harriving := early_arriving hnested hawaits (hsorted.2 hc) hearly
    refine ⟨(root.associateAll comments).arriving.length, ?_⟩
    rw [attach_eq_error (List.ne_nil_of_mem harriving), tag, hprogram]
    rfl
  · intro hstart
    have hsame := uncommented_associateAll root comments
    refine ⟨_, (attach_eq hprogram hempty hstart).1, (uncommented_settle _ _).trans hsame, fun c hc => ?_⟩
    refine ⟨hnested.exists_innermost c, fun path n hn => ?_⟩
    have hbelongs := belongs_associateAll hprogram hempty hnested hawaits (hsorted.2 hc) (hstart c hc) hn
    refine hbelongs.imp ?_ ?_
    · rintro p ⟨m, hat, hmem⟩
      -- nothing arrives at the root, so there is an owner on the way to it
      rcases exists_settle false hat hmem with ⟨owner, r, hnear, hr, hheld⟩ | ⟨-, harriving⟩
      · exact ⟨owner, r, hnear.of_uncommented_eq hsame, hr, hheld⟩
      · rw [arriving_associateAll hprogram hempty hstart] at harriving
        cases harriving
    · rintro ⟨m, hat, hmem⟩
      refine ⟨_, by rw [at?_settle, hat]; rfl, ?_⟩
      rwa [settle_trailing]

end Program

/-! ## A comment in an array -/

/-- The array of `/*a*/[/*b*/];`, without its comments. -/
def emptyArray : Node := plain ⟨5, 12, 1⟩ (.arrayExpression [])

theorem at_emptyArrayProgram : ∀ path n, emptyArrayProgram.at? path = some n →
    n.Nests ∧ ∀ c ∈ [⟨.block, "a", 0, 5, 1⟩, ⟨.block, "b", 6, 11, 1⟩], n.span.Clears c := by
  refine forall_at_iff.2 ⟨⟨⟨by decide, by decide, by decide⟩, by decide⟩, fun m hm => ?_⟩
  obtain rfl := List.mem_singleton.1 hm
  refine forall_at_iff.2 ⟨⟨⟨by decide, by decide, by decide⟩, by decide⟩, fun m hm => ?_⟩
  obtain rfl := List.mem_singleton.1 hm
  exact forall_at_iff.2 ⟨⟨⟨by decide, by decide, by decide⟩, by decide⟩, fun m hm => absurd hm List.not_mem_nil⟩

theorem attach_places_emptyArray :
    ∃ result m, emptyArrayProgram.attach [⟨.block, "a", 0, 5, 1⟩, ⟨.block, "b", 6, 11, 1⟩] = .ok result ∧
      result.at? [0, 0] = some m ∧ ⟨.block, "b", 6, 11, 1⟩ ∈ m.trailing := by
  have hinnermost : emptyArrayProgram.Innermost ⟨.block, "b", 6, 11, 1⟩ [0, 0] emptyArray := by
    refine ⟨rfl, Or.inr (by decide), ?_⟩
    intro below m hne hat
    cases below with
    | nil => exact absurd rfl hne
    | cons i below =>
      obtain ⟨k, hk, -⟩ := at?_cons.1 hat
      cases hk
  obtain ⟨-, hplaced⟩ := attach_places (by rfl) allComments_emptyArrayProgram
    (fun path n hat => (at_emptyArrayProgram path n hat).1) (by decide)
    (fun c hc path n hat => (at_emptyArrayProgram path n hat).2 c hc)
  obtain ⟨result, hok, -, hall⟩ := hplaced (by decide)
  obtain ⟨m, hat, hm⟩ := (hall _ (by decide)).2 [0, 0] emptyArray hinnermost
  exact ⟨result, m, hok, hat, hm⟩

/-! ## Programs that start late, and spans that are no intervals -/

/-- A program that starts after a comment. -/
def lateProgram : Node :=
  plain ⟨5, 10, 1⟩ (.program [plain ⟨5, 8, 1⟩ .debuggerStatement] "")

/-- A program with a statement that stops before it starts. -/
def invertedProgram : Node :=
  plain ⟨0, 10, 1⟩ (.program [plain ⟨7, 3, 1⟩ .debuggerStatement, plain ⟨4, 6, 1⟩ .debuggerStatement] "")

theorem innermost_invertedProgram :
    invertedProgram.Innermost ⟨.block, "x", 4, 5, 1⟩ [1] (plain ⟨4, 6, 1⟩ .debuggerStatement) := by
  refine ⟨rfl, Or.inr (by decide), ?_⟩
  intro below m hne hat
  cases below with
  | nil => exact absurd rfl hne
  | cons i below =>
    obtain ⟨k, hk, -⟩ := at?_cons.1 hat
    cases hk

/-- Nested spans alone do not place comments: one that ends before the program starts has no owner, and
one within the second statement goes to the first if that stops before it starts. -/
theorem attach_misplaces :
    ((∀ path n, lateProgram.at? path = some n → n.Nests ∧ n.span.Clears ⟨.block, "x", 0, 4, 1⟩) ∧
      lateProgram.attach [⟨.block, "x", 0, 4, 1⟩] = .error (.stray 1 "program" 1)) ∧
    ((∀ path n, invertedProgram.at? path = some n →
        (∀ m ∈ n.children, n.span.start ≤ m.span.start ∧ m.span.stop ≤ n.span.stop) ∧
        (n.children.IsChain fun a b => a.span.stop ≤ b.span.start) ∧ n.span.Clears ⟨.block, "x", 4, 5, 1⟩) ∧
      invertedProgram.Innermost ⟨.block, "x", 4, 5, 1⟩ [1] (plain ⟨4, 6, 1⟩ .debuggerStatement) ∧
      ∃ result, invertedProgram.attach [⟨.block, "x", 4, 5, 1⟩] = .ok result ∧
        ¬ invertedProgram.Placed result ⟨.block, "x", 4, 5, 1⟩ [1] (plain ⟨4, 6, 1⟩ .debuggerStatement)) := by
  have harriving : (lateProgram.associateAll [⟨.block, "x", 0, 4, 1⟩]).arriving.length = 1 := by decide +kernel
  have hlate := attach_eq_error (List.ne_nil_of_length_eq_add_one harriving)
  rw [harriving] at hlate
  refine ⟨⟨?_, hlate⟩, ?_, innermost_invertedProgram, ?_⟩
  · refine forall_at_iff.2 ⟨⟨⟨by decide, by decide, by decide⟩, by decide⟩, fun m hm => ?_⟩
    obtain rfl := List.mem_singleton.1 hm
    exact forall_at_iff.2 ⟨⟨⟨by decide, by decide, by decide⟩, by decide⟩, fun m hm => absurd hm List.not_mem_nil⟩
  · refine forall_at_iff.2 ⟨⟨by decide, by decide, by decide⟩, fun m hm => ?_⟩
    rcases List.mem_cons.1 hm with rfl | hm
    · exact forall_at_iff.2 ⟨⟨by decide, by decide, by decide⟩, fun m hm => absurd hm List.not_mem_nil⟩
    · obtain rfl := List.mem_singleton.1 hm
      exact forall_at_iff.2 ⟨⟨by decide, by decide, by decide⟩, fun m hm => absurd hm List.not_mem_nil⟩
  · have hsecond : ((invertedProgram.attach [⟨.block, "x", 4, 5, 1⟩]).toOption.bind (·.at? [1])).map (·.comments) =
        some [] := by decide +kernel
    obtain ⟨result, hok⟩ : ∃ result, invertedProgram.attach [⟨.block, "x", 4, 5, 1⟩] = .ok result := by
      cases h : invertedProgram.attach [⟨.block, "x", 4, 5, 1⟩] with
      | error _ => rw [h] at hsecond; cases hsecond
      | ok result => exact ⟨result, rfl⟩
    rw [hok] at hsecond
    refine ⟨result, hok, ?_⟩
    rintro ⟨owner, m, hnear, hat, hmem⟩
    -- the root is no owner, so the statement itself is the nearest one
    have howner : owner = [1] := by
      rcases List.prefix_cons_iff.1 hnear.above with rfl | ⟨t, rfl, ht⟩
      · cases hnear.owns
      · rw [List.prefix_nil.1 ht]
    rw [howner] at hat
    obtain ⟨k, hk, hnone⟩ := Option.map_eq_some_iff.1 hsecond
    obtain rfl := Option.some.inj (hat.symm.trans hk)
    rw [show m.comments = [] from hnone] at hmem
    cases hmem

end Node

end ScriptTidy
