/-
Giving comments to nodes neither loses nor doubles any: on a program whose start no comment ends
before, attachment succeeds, the tree holds the given comments and no others, each once, only owners
hold leading comments and only containers trailing ones, and every list of comments is in the order
of the starts. Comments with different starts may be given in any order.

Both passes are shown to keep the number of times that each comment is held or still to be given
out. Where a comment ends up follows from what a pass does at one address.
-/
import Mathlib.Data.List.Nodup
import ScriptTidy.Proofs.Comments.Passes

namespace ScriptTidy

/-! ## Sorted comments -/

namespace Comment

/-- The comments are in the order of their starts. -/
def InOrder (comments : List Comment) : Prop := comments.Pairwise fun a b => a.start ≤ b.start

theorem inOrder_sorted (comments : List Comment) : InOrder (sorted comments) := by
  have htrans : ∀ a b c : Comment, startsBy a b → startsBy b c → startsBy a c := by
    intro a b c hab hbc
    simp only [startsBy, decide_eq_true_eq] at *
    omega
  have htotal : ∀ a b : Comment, startsBy a b || startsBy b a := by
    intro a b
    simp only [startsBy, Bool.or_eq_true, decide_eq_true_eq]
    omega
  exact (List.pairwise_mergeSort htrans htotal comments).imp fun h => by
    simpa only [startsBy, decide_eq_true_eq] using h

theorem sorted_perm (comments : List Comment) : (sorted comments).Perm comments :=
  List.mergeSort_perm ..

theorem eq_of_start_eq {comments : List Comment} (hd : (comments.map (·.start)).Nodup) {a b : Comment}
    (ha : a ∈ comments) (hb : b ∈ comments) (h : a.start = b.start) : a = b :=
  List.inj_on_of_nodup_map hd ha hb h

/-- Comments with different starts are sorted in one way. -/
theorem sorted_eq_of_perm {comments other : List Comment} (hd : (comments.map (·.start)).Nodup)
    (hp : other.Perm comments) : sorted other = sorted comments := by
  refine List.Perm.eq_of_pairwise (fun a b ha hb hab hba => ?_) (inOrder_sorted other)
    (inOrder_sorted comments) (((sorted_perm other).trans hp).trans (sorted_perm comments).symm)
  have ha' := hp.mem_iff.1 ((sorted_perm other).mem_iff.1 ha)
  exact eq_of_start_eq hd ha' ((sorted_perm comments).mem_iff.1 hb) (by omega)

end Comment

namespace Node

open Comment

/-! ## Counting comments -/

theorem count_mapM_associate {c : Comment} : ∀ {ms : List Node},
    (∀ m ∈ ms, ∀ s, (m.associate s).1.allComments.count c + (m.associate s).2.count c =
      m.allComments.count c + s.count c) →
    ∀ s, ((ms.mapM associate s).1.flatMap allComments).count c + (ms.mapM associate s).2.count c =
      (ms.flatMap allComments).count c + s.count c
  | [], _, _ => rfl
  | m :: ms, h, s => by
    have hm := h m (List.mem_cons_self ..) s
    have ih := count_mapM_associate (fun k hk => h k (List.mem_cons_of_mem _ hk)) (m.associate s).2
    rw [mapM_associate_cons]
    simp only [List.flatMap_cons, List.count_append]
    omega

/-- Association keeps the number of times that a comment is held or pending. -/
theorem count_associate (n : Node) (c : Comment) : ∀ s,
    (n.associate s).1.allComments.count c + (n.associate s).2.count c =
      n.allComments.count c + s.count c := by
  induction n using byChildren with
  | node n ih =>
    intro s
    have hlead := count_takeWhile_add (fun c => c.stop ≤ n.span.start) s c
    have hkids : ((n.inner s).1.flatMap allComments).count c + (n.inner s).2.count c = _ :=
      count_mapM_associate ih (s.dropWhile fun c => c.stop ≤ n.span.start)
    have hclose := count_takeWhile_add (fun c => c.start < n.span.stop) (n.inner s).2 c
    rw [allComments_eq (n.associate s).1, allComments_eq n, associate_rest, associate_children, heldComments,
      heldComments, associate_comments, associate_trailing]
    simp only [List.count_append]
    unfold leading closing
    cases n.form.isContainer
    · simp only [Bool.false_eq_true, if_false, List.count_nil]
      omega
    · simp only [if_true, List.count_nil]
      omega

theorem count_settle_children {c : Comment} : ∀ {l : List (Node × Bool)},
    (∀ m ∈ l, ∀ owned, (m.1.settle owned).1.allComments.count c + (m.1.settle owned).2.count c =
      m.1.allComments.count c) →
    ((l.map fun m => (m.1.settle m.2).1).flatMap allComments).count c +
        (l.flatMap fun m => (m.1.settle m.2).2).count c =
      ((l.map (·.1)).flatMap allComments).count c
  | [], _ => rfl
  | m :: l, h => by
    have hm := h m (List.mem_cons_self ..) m.2
    have ih := count_settle_children fun k hk => h k (List.mem_cons_of_mem _ hk)
    simp only [List.map_cons, List.flatMap_cons, List.count_append] at *
    omega

/-- Settling keeps the number of times that a comment is held or passed on. -/
theorem count_settle (n : Node) (c : Comment) : ∀ owned,
    (n.settle owned).1.allComments.count c + (n.settle owned).2.count c = n.allComments.count c := by
  induction n using byChildren with
  | node n ih =>
    intro owned
    have hkids := count_settle_children (c := c) (l := n.ownedChildren) fun m hm =>
      ih m.1 (mem_children_of_owned hm)
    have hsorted : (sorted n.arriving).count c = n.comments.count c + _ :=
      ((sorted_perm n.arriving).count_eq c).trans List.count_append
    have harriving : n.arriving.count c = n.comments.count c + _ := List.count_append
    rw [allComments_eq (n.settle owned).1, allComments_eq n, settle_rest, settle_children, heldComments,
      heldComments, settle_comments, settle_trailing, children_eq_map]
    cases owned
    · simp only [List.count_append, Bool.false_eq_true, if_false, List.count_nil]
      omega
    · simp only [List.count_append, if_true, List.count_nil]
      omega

/-! ## Where comments may stand -/

/-- No comment of a program stands where none may be: leading comments stand at owners and trailing
ones in containers, all of them in the order of their starts. -/
structure Settled (root : Node) : Prop where
  /-- Only owners have comments before them. -/
  owned : ∀ {path n}, root.at? path = some n → n.comments ≠ [] → root.ownedAt false path
  /-- Only containers have trailing comments. -/
  contained : ∀ {path n}, root.at? path = some n → n.trailing ≠ [] → n.form.isContainer
  /-- The comments of a node are in the order of the text. -/
  ordered : ∀ {path n}, root.at? path = some n → InOrder n.comments ∧ InOrder n.trailing

/-- The check finds nothing wrong with a program whose comments stand where they may. -/
theorem Settled.attachFault?_eq_none {root : Node} (h : root.Settled) {expected : Nat}
    (hlen : root.allComments.length = expected) : root.attachFault? expected = none := by
  have hnone : ((root.preorder.zip root.owners).findSome? fun n => n.1.commentFault? n.2) = none := by
    rw [List.findSome?_eq_none_iff]
    intro m hm
    obtain ⟨path, hat, how⟩ := exists_at_of_mem_zip root hm
    unfold commentFault?
    rw [if_neg, if_neg]
    · intro hc
      rw [Bool.and_eq_true, Bool.not_eq_true', Bool.not_eq_true', List.isEmpty_eq_false_iff] at hc
      rw [h.contained hat hc.1] at hc
      exact absurd hc.2 (by decide)
    · intro hc
      rw [Bool.and_eq_true, Bool.not_eq_true', Bool.not_eq_true', List.isEmpty_eq_false_iff] at hc
      rw [← how, h.owned hat hc.1] at hc
      exact absurd hc.2 (by decide)
  unfold attachFault?
  rw [hnone]
  exact if_pos hlen

theorem comments_eq_nil {root n : Node} {path : List Nat} (h : root.allComments = [])
    (hat : root.at? path = some n) : n.comments = [] ∧ n.trailing = [] := by
  induction path generalizing root with
  | nil =>
    rw [← Option.some.inj hat]
    rw [allComments_eq, List.append_eq_nil_iff] at h
    exact List.append_eq_nil_iff.1 h.1
  | cons i path ih =>
    obtain ⟨k, hk, hat⟩ := at?_cons.1 hat
    rw [allComments_eq, List.append_eq_nil_iff, List.flatMap_eq_nil_iff] at h
    exact ih (h.2 k (List.mem_of_getElem? hk)) hat

/-! ## Association of all comments -/

section Program

variable {root : Node} {comments : List Comment}

/-- A container that is the root takes all that its children leave. -/
theorem trailing_root (hroot : root.form.isContainer) (hempty : root.allComments = []) :
    (root.associateAll comments).trailing = (root.inner (sorted comments)).2 := by
  rw [← closing_append_rest, associateAll_trailing, associate_trailing, (comments_eq_nil hempty (at?_nil root)).2,
    if_pos hroot, List.nil_append]

theorem trailing_associateAll (hroot : root.form.isContainer) (hempty : root.allComments = []) {path : List Nat}
    {r : Node} (hat : (root.associateAll comments).at? path = some r) :
    (r.trailing ≠ [] → r.form.isContainer) ∧ InOrder r.trailing := by
  cases path with
  | nil =>
    obtain rfl := Option.some.inj hat
    refine ⟨fun _ => ?_, ?_⟩
    · rwa [isContainer_of_uncommented_eq (uncommented_associateAll root comments)]
    · rw [trailing_root hroot hempty]
      exact (inOrder_sorted comments).sublist (inner_suffix root _).sublist
  | cons i path =>
    -- the leftovers change nothing below the root
    rw [associateAll_at_cons] at hat
    obtain ⟨n, s, hn, hs, rfl⟩ := associate_at hat
    rw [associate_trailing, (comments_eq_nil hempty hn).2, List.nil_append,
      isContainer_of_uncommented_eq (uncommented_associate n s)]
    by_cases hc : n.form.isContainer
    · rw [if_pos hc]
      have hclosing : (n.closing s).Sublist (sorted comments) :=
        (List.takeWhile_sublist _).trans ((inner_suffix n s).trans hs).sublist
      exact ⟨fun _ => hc, (inOrder_sorted comments).sublist hclosing⟩
    · rw [if_neg hc]
      exact ⟨fun h => absurd rfl h, List.Pairwise.nil⟩

/-- Association gives out every comment once. -/
theorem allComments_associateAll (hempty : root.allComments = []) :
    (root.associateAll comments).allComments.Perm comments := by
  refine List.Perm.trans (List.perm_iff_count.2 fun c => ?_) (sorted_perm comments)
  have h := count_associate root c (sorted comments)
  rw [hempty, List.count_nil, Nat.zero_add, allComments_eq] at h
  rw [← h, allComments_eq]
  simp only [heldComments, List.count_append, associateAll_comments, associateAll_trailing,
    associateAll_children]
  omega

/-! ## Settling of all comments -/

theorem allComments_settleAll {n : Node} (h : n.arriving = []) :
    n.settleAll.allComments.Perm n.allComments := by
  refine List.perm_iff_count.2 fun c => ?_
  rw [settleAll_eq h, ← count_settle n c false, settle_rest, h, if_neg (by decide), List.count_nil, Nat.add_zero]

/-- Nothing arrives at a node without comments of its own whose children are all owners. -/
theorem arriving_eq_nil {n : Node} (hc : n.comments = []) (hall : ∀ m ∈ n.ownedChildren, m.2 = true) :
    n.arriving = [] := by
  unfold arriving
  rw [hc, List.nil_append, List.flatMap_eq_nil_iff]
  intro m hm
  rw [settle_rest, if_pos (hall m hm)]

theorem owned_of_uncommented_eq {a b : Node} (h : a.uncommented = b.uncommented) :
    a.ownedChildren.map (·.2) = b.ownedChildren.map (·.2) := by
  have hmap := ownedChildren_uncommented a
  rw [h, ownedChildren_uncommented] at hmap
  have := congrArg (List.map (·.2)) hmap
  simpa only [List.map_map, Function.comp_def] using this.symm

/-! ## Attachment to a program -/

variable {body : List Node} {hashbang : String}

theorem ownedChildren_program (hprogram : root.form = .program body hashbang) :
    root.ownedChildren = body.map (·, true) := by
  unfold ownedChildren
  rw [hprogram]
  rfl

/-- No comment ends before the root starts. -/
theorem leading_sorted (hstart : ∀ c ∈ comments, root.span.start < c.stop) : root.leading (sorted comments) = [] := by
  unfold leading
  cases hs : sorted comments with
  | nil => rfl
  | cons c rest =>
    have hmem : c ∈ comments := (sorted_perm comments).mem_iff.1 (by rw [hs]; exact List.mem_cons_self ..)
    have hc := hstart c hmem
    rw [List.takeWhile_cons_of_neg]
    rw [decide_eq_true_eq]
    omega

theorem arriving_associateAll (hprogram : root.form = .program body hashbang) (hempty : root.allComments = [])
    (hstart : ∀ c ∈ comments, root.span.start < c.stop) : (root.associateAll comments).arriving = [] := by
  refine arriving_eq_nil ?_ fun m hm => ?_
  · -- the root takes all comments as trailing ones
    rw [associateAll_comments, associate_comments, leading_sorted hstart, (comments_eq_nil hempty (at?_nil root)).1,
      hprogram]
    rfl
  · have hflag := List.mem_map_of_mem (f := (·.2)) hm
    rw [owned_of_uncommented_eq (uncommented_associateAll root comments), ownedChildren_program hprogram,
      List.map_map, List.mem_map] at hflag
    obtain ⟨_, _, h⟩ := hflag
    exact h.symm

theorem settled_settle (hroot : root.form.isContainer) (hempty : root.allComments = []) :
    ((root.associateAll comments).settle false).1.Settled where
  owned := by
    intro path n hat hne
    rw [at?_settle] at hat
    obtain ⟨m, hm, rfl⟩ := Option.map_eq_some_iff.1 hat
    rw [ownedAt_of_uncommented_eq (uncommented_settle _ false)]
    rw [settle_comments] at hne
    by_contra hnot
    exact hne (if_neg hnot)
  contained := by
    intro path n hat hne
    rw [at?_settle] at hat
    obtain ⟨m, hm, rfl⟩ := Option.map_eq_some_iff.1 hat
    rw [settle_trailing] at hne
    rw [isContainer_of_uncommented_eq (uncommented_settle m _)]
    exact (trailing_associateAll hroot hempty hm).1 hne
  ordered := by
    intro path n hat
    rw [at?_settle] at hat
    obtain ⟨m, hm, rfl⟩ := Option.map_eq_some_iff.1 hat
    rw [settle_comments, settle_trailing]
    refine ⟨?_, (trailing_associateAll hroot hempty hm).2⟩
    split
    · exact inOrder_sorted _
    · exact List.Pairwise.nil

/-- Attachment to a program succeeds if no comment ends before the program starts. -/
theorem attach_eq (hprogram : root.form = .program body hashbang) (hempty : root.allComments = [])
    (hstart : ∀ c ∈ comments, root.span.start < c.stop) :
    root.attach comments = .ok ((root.associateAll comments).settle false).1 ∧
      ((root.associateAll comments).settle false).1.allComments.Perm comments := by
  have hroot : root.form.isContainer := by rw [hprogram]; rfl
  have harriving := arriving_associateAll hprogram hempty hstart
  have hperm : ((root.associateAll comments).settle false).1.allComments.Perm comments := by
    rw [← settleAll_eq harriving]
    exact (allComments_settleAll harriving).trans (allComments_associateAll hempty)
  refine ⟨?_, hperm⟩
  unfold attach
  simp only [settleAll_eq harriving, (settled_settle hroot hempty).attachFault?_eq_none hperm.length_eq]

/-- What arrives at a program has no owner. -/
theorem attach_eq_error (harriving : (root.associateAll comments).arriving ≠ []) : root.attach comments =
    .error (.stray (root.associateAll comments).arriving.length root.tag root.span.line) := by
  have hsame : (root.associateAll comments).settleAll.uncommented = root.uncommented :=
    (uncommented_settleAll _).trans (uncommented_associateAll root comments)
  have hfault : (root.associateAll comments).settleAll.commentFault? false =
      some (.stray (root.associateAll comments).arriving.length root.tag root.span.line) := by
    unfold commentFault?
    rw [settleAll_comments, tag_eq_of_uncommented_eq hsame, span_eq_of_uncommented_eq hsame, if_pos]
    rw [Bool.not_false, Bool.and_true, Bool.not_eq_true', List.isEmpty_eq_false_iff]
    exact harriving
  have hcheck : (root.associateAll comments).settleAll.attachFault? comments.length =
      some (.stray (root.associateAll comments).arriving.length root.tag root.span.line) := by
    unfold attachFault? owners
    rw [zip_ownership, List.findSome?_cons, hfault]
  unfold attach
  simp only [hcheck]

/-- Attachment to a program that starts at 0 always succeeds. It gives every comment to one place,
where it may stand, and leaves the tree as it is otherwise; comments with different starts may be
given in any order. -/
theorem attach_conserves (hprogram : root.form = .program body hashbang) (hempty : root.allComments = [])
    (hzero : root.span.start = 0) (hends : ∀ c ∈ comments, 0 < c.stop) :
    ∃ result, root.attach comments = .ok result ∧ result.allComments.Perm comments ∧ result.Settled ∧
      result.uncommented = root.uncommented ∧
      ((comments.map (·.start)).Nodup → ∀ other, other.Perm comments → root.attach other = .ok result) := by
  have hroot : root.form.isContainer := by rw [hprogram]; rfl
  rw [← hzero] at hends
  obtain ⟨hok, hperm⟩ := attach_eq hprogram hempty hends
  refine ⟨_, hok, hperm, settled_settle hroot hempty, ?_, ?_⟩
  · rw [uncommented_settle, uncommented_associateAll]
  · intro hdistinct other hother
    have hends' : ∀ c ∈ other, root.span.start < c.stop := fun c hc => hends c (hother.mem_iff.1 hc)
    rw [(attach_eq hprogram hempty hends').1]
    unfold associateAll
    rw [sorted_eq_of_perm hdistinct hother]

end Program

/-- The program `/*a*/[/*b*/];` without its comments. -/
def emptyArrayProgram : Node :=
  plain ⟨0, 13, 1⟩ (.program
    [plain ⟨5, 13, 1⟩ (.expressionStatement (plain ⟨5, 12, 1⟩ (.arrayExpression [])))] "")

theorem allComments_emptyArrayProgram : emptyArrayProgram.allComments = [] := by
  rw [allComments_eq]
  simp only [emptyArrayProgram, plain, children, form, Form.children, List.flatMap_cons, List.flatMap_nil,
    allComments_eq (.mk _ _), heldComments, comments, trailing, info, List.append_nil, List.filterMap_nil]

theorem attach_conserves_emptyArray :
    ∃ result, emptyArrayProgram.attach [⟨.block, "b", 6, 11, 1⟩, ⟨.block, "a", 0, 5, 1⟩] = .ok result ∧
      result.Settled ∧
      emptyArrayProgram.attach [⟨.block, "a", 0, 5, 1⟩, ⟨.block, "b", 6, 11, 1⟩] = .ok result := by
  have hends : ∀ c ∈ [⟨.block, "b", 6, 11, 1⟩, ⟨.block, "a", 0, 5, 1⟩], 0 < Comment.stop c := by decide
  obtain ⟨result, hok, -, hsettled, -, hany⟩ := attach_conserves (by rfl) allComments_emptyArrayProgram rfl hends
  exact ⟨result, hok, hsettled, hany (by decide) _ (List.Perm.swap ..)⟩

end Node

end ScriptTidy
