/-
The two passes that give comments to nodes, one node at a time. Association hands a node the pending
comments that end before it, then goes through its children, then hands it those that start before
its end; settling sorts what arrives at an owner and passes on what arrives at any other node. Both
leave the tree as it is apart from its comments, and below an address both do what they do to the
node there.
-/
import ScriptTidy.Proofs.Syntax.Addresses

namespace ScriptTidy

namespace Node

/-! ## Trees that differ in their comments only -/

theorem uncommented_span (n : Node) : n.uncommented.span = n.span := by
  rw [uncommented_eq]; rfl

theorem uncommented_form (n : Node) : n.uncommented.form = n.form.map uncommented := by
  rw [uncommented_eq]; rfl

theorem ownedChildren_uncommented (n : Node) :
    n.uncommented.ownedChildren = n.ownedChildren.map fun m => (m.1.uncommented, m.2) := by
  unfold ownedChildren
  rw [uncommented_form, Form.markOwned_map, Form.children_map]
  simp only [uncommented_form, Form.isVariableDeclaration_map]

theorem ownedAt_uncommented {n : Node} {owned : Bool} {path : List Nat} :
    n.uncommented.ownedAt owned path = n.ownedAt owned path := by
  induction path generalizing n owned with
  | nil => rfl
  | cons i path ih =>
    rw [ownedAt, ownedAt, ownedChildren_uncommented, List.getElem?_map]
    cases n.ownedChildren[i]? with
    | none => rfl
    | some m => exact ih

theorem ownedAt_of_uncommented_eq {a b : Node} (h : a.uncommented = b.uncommented) (owned : Bool)
    (path : List Nat) : a.ownedAt owned path = b.ownedAt owned path := by
  rw [← ownedAt_uncommented, h, ownedAt_uncommented]

/-- Trees that differ in their comments only have the same kinds of nodes in the same places. -/
theorem isContainer_of_uncommented_eq {a b : Node} (h : a.uncommented = b.uncommented) :
    a.form.isContainer = b.form.isContainer := by
  rw [← Form.isContainer_map uncommented, ← uncommented_form, h, uncommented_form, Form.isContainer_map]

theorem tag_eq_of_uncommented_eq {a b : Node} (h : a.uncommented = b.uncommented) : a.tag = b.tag := by
  unfold tag
  rw [← Form.tag_map uncommented, ← uncommented_form, h, uncommented_form, Form.tag_map]

theorem span_eq_of_uncommented_eq {a b : Node} (h : a.uncommented = b.uncommented) : a.span = b.span := by
  rw [← uncommented_span, h, uncommented_span]

/-! ## Association at one node -/

/-- The comments that a node takes before its children, those that end before it starts. -/
def leading (n : Node) (pending : List Comment) : List Comment :=
  pending.takeWhile fun c => c.stop ≤ n.span.start

/-- The children with their comments, and the comments that are pending after them. -/
def inner (n : Node) (pending : List Comment) : List Node × List Comment :=
  n.children.mapM associate (pending.dropWhile fun c => c.stop ≤ n.span.start)

/-- The comments that a node takes after its children, those that start before it ends. -/
def closing (n : Node) (pending : List Comment) : List Comment :=
  (n.inner pending).2.takeWhile fun c => c.start < n.span.stop

theorem associate_mk (info : Info) (form : Form Node) (s : List Comment) :
    (Node.mk info form).associate s =
      let r := form.traverse associate (s.dropWhile fun c => c.stop ≤ info.span.start)
      let before := s.takeWhile fun c => c.stop ≤ info.span.start
      let inside := r.2.takeWhile fun c => c.start < info.span.stop
      (if form.isContainer then .mk ⟨info.span, info.comments ++ before, info.trailing ++ inside⟩ r.1
        else .mk ⟨info.span, info.comments ++ before ++ inside, info.trailing⟩ r.1,
        r.2.dropWhile fun c => c.start < info.span.stop) := by
  unfold associate
  rw [para_mk, Form.isContainer_map, Form.traverse_map]
  cases form.isContainer <;> rfl

theorem inner_mk (info : Info) (form : Form Node) (s : List Comment) :
    (Node.mk info form).inner s =
      let r := form.traverse associate (s.dropWhile fun c => c.stop ≤ info.span.start)
      (r.1.children, r.2) :=
  (congrFun (Form.children_traverse associate form) _).symm

theorem associate_comments (n : Node) (s : List Comment) :
    (n.associate s).1.comments =
      n.comments ++ n.leading s ++ if n.form.isContainer then [] else n.closing s := by
  obtain ⟨info, form⟩ := n
  rw [associate_mk, closing, inner_mk, show (Node.mk info form).form = form from rfl]
  cases form.isContainer
  · rfl
  · exact (List.append_nil _).symm

theorem associate_trailing (n : Node) (s : List Comment) :
    (n.associate s).1.trailing = n.trailing ++ if n.form.isContainer then n.closing s else [] := by
  obtain ⟨info, form⟩ := n
  rw [associate_mk, closing, inner_mk, show (Node.mk info form).form = form from rfl]
  cases form.isContainer
  · exact (List.append_nil _).symm
  · rfl

theorem associate_children (n : Node) (s : List Comment) :
    (n.associate s).1.children = (n.inner s).1 := by
  obtain ⟨info, form⟩ := n
  rw [associate_mk, inner_mk]
  cases form.isContainer <;> rfl

theorem associate_rest (n : Node) (s : List Comment) :
    (n.associate s).2 = (n.inner s).2.dropWhile fun c => c.start < n.span.stop := by
  obtain ⟨info, form⟩ := n
  rw [associate_mk, inner_mk]
  rfl

/-- Association leaves the tree as it is apart from its comments. -/
theorem uncommented_associate (n : Node) : ∀ s, (n.associate s).1.uncommented = n.uncommented := by
  induction n using byChildren with
  | node n ih =>
    obtain ⟨info, form⟩ := n
    intro s
    rw [associate_mk, uncommented_eq (.mk info form)]
    show _ = Node.plain info.span (form.map uncommented)
    rw [← Form.map_traverse form _ ih]
    cases form.isContainer
    · exact uncommented_eq _
    · exact uncommented_eq _

/-! ## Association below an address -/

theorem mapM_associate_cons (m : Node) (ms : List Node) (s : List Comment) :
    (m :: ms).mapM associate s =
      ((m.associate s).1 :: (ms.mapM associate (m.associate s).2).1,
        (ms.mapM associate (m.associate s).2).2) := by
  rw [List.mapM_cons]; rfl

/-- Every child finds the comments that the children before it leave. -/
theorem getElem?_mapM_associate : ∀ (ms : List Node) (s : List Comment) (i : Nat),
    (ms.mapM associate s).1[i]? = ms[i]?.map fun m => (m.associate ((ms.take i).mapM associate s).2).1
  | [], _, _ => rfl
  | m :: ms, s, 0 => by rw [mapM_associate_cons]; rfl
  | m :: ms, s, i + 1 => by
    rw [mapM_associate_cons, List.getElem?_cons_succ, List.getElem?_cons_succ, List.take_succ_cons,
      mapM_associate_cons, getElem?_mapM_associate ms]

/-- The comments that a child finds pending. -/
def pendingAt (n : Node) (s : List Comment) (i : Nat) : List Comment :=
  ((n.children.take i).mapM associate (s.dropWhile fun c => c.stop ≤ n.span.start)).2

theorem getElem?_inner (n : Node) (s : List Comment) (i : Nat) :
    (n.inner s).1[i]? = n.children[i]?.map fun m => (m.associate (n.pendingAt s i)).1 :=
  getElem?_mapM_associate n.children _ i

theorem mapM_associate_suffix : ∀ {ms : List Node}, (∀ m ∈ ms, ∀ s, (m.associate s).2 <:+ s) →
    ∀ s, (ms.mapM associate s).2 <:+ s
  | [], _, s => List.suffix_refl s
  | m :: ms, h, s => by
    rw [mapM_associate_cons]
    exact (mapM_associate_suffix (fun k hk => h k (List.mem_cons_of_mem _ hk)) _).trans
      (h m (List.mem_cons_self ..) s)

/-- What a node leaves pending are the last ones of the comments it found. -/
theorem associate_suffix (n : Node) : ∀ s, (n.associate s).2 <:+ s := by
  induction n using byChildren with
  | node n ih =>
    intro s
    rw [associate_rest]
    exact (List.dropWhile_suffix _).trans ((mapM_associate_suffix ih _).trans (List.dropWhile_suffix _))

theorem inner_suffix (n : Node) (s : List Comment) : (n.inner s).2 <:+ s :=
  (mapM_associate_suffix (fun m _ => associate_suffix m) _).trans (List.dropWhile_suffix _)

theorem pendingAt_suffix (n : Node) (s : List Comment) (i : Nat) : n.pendingAt s i <:+ s :=
  (mapM_associate_suffix (fun m _ => associate_suffix m) _).trans (List.dropWhile_suffix _)

/-- At every address association does what it does to the node there, with some last ones of the
comments that it found at the root. -/
theorem associate_at {n r : Node} {path : List Nat} : ∀ {s : List Comment},
    (n.associate s).1.at? path = some r →
      ∃ m s', n.at? path = some m ∧ s' <:+ s ∧ r = (m.associate s').1 := by
  induction path generalizing n with
  | nil =>
    intro s h
    exact ⟨n, s, rfl, List.suffix_refl s, (Option.some.inj h).symm⟩
  | cons i path ih =>
    intro s h
    obtain ⟨k, hk, hr⟩ := at?_cons.1 h
    rw [associate_children, getElem?_inner] at hk
    obtain ⟨m, hm, rfl⟩ := Option.map_eq_some_iff.1 hk
    obtain ⟨k, s', hat, hs', rfl⟩ := ih hr
    exact ⟨k, s', at?_cons.2 ⟨m, hm, hat⟩, hs'.trans (pendingAt_suffix n _ i), rfl⟩

theorem closing_append_rest (n : Node) (s : List Comment) : n.closing s ++ (n.associate s).2 = (n.inner s).2 := by
  rw [associate_rest]
  exact List.takeWhile_append_dropWhile

/-! ## Association of all comments -/

theorem associateAll_comments (root : Node) (comments : List Comment) :
    (root.associateAll comments).comments = (root.associate (Comment.sorted comments)).1.comments := rfl

theorem associateAll_trailing (root : Node) (comments : List Comment) :
    (root.associateAll comments).trailing = (root.associate (Comment.sorted comments)).1.trailing ++
      (root.associate (Comment.sorted comments)).2 := rfl

theorem associateAll_children (root : Node) (comments : List Comment) :
    (root.associateAll comments).children = (root.associate (Comment.sorted comments)).1.children := rfl

theorem uncommented_associateAll (root : Node) (comments : List Comment) :
    (root.associateAll comments).uncommented = root.uncommented := by
  rw [← uncommented_associate root (Comment.sorted comments), uncommented_eq, uncommented_eq (root.associate _).1]
  rfl

theorem associateAll_at_cons (root : Node) (comments : List Comment) (i : Nat) (path : List Nat) :
    (root.associateAll comments).at? (i :: path) =
      (root.associate (Comment.sorted comments)).1.at? (i :: path) := by
  rw [at?, at?, associateAll_children]

/-! ## Settling at one node -/

/-- The comments that arrive at a node: its own, then those that its children pass on. -/
def arriving (n : Node) : List Comment :=
  n.comments ++ n.ownedChildren.flatMap fun m => (m.1.settle m.2).2

theorem settle_mk (info : Info) (form : Form Node) (owned : Bool) :
    (Node.mk info form).settle owned =
      let settled := (form.markOwned fun m => m.form.isVariableDeclaration).map fun m => m.1.settle m.2
      let held := info.comments ++ settled.children.flatMap (·.2)
      if owned then (.mk ⟨info.span, Comment.sorted held, info.trailing⟩ (settled.map (·.1)), [])
      else (.mk ⟨info.span, [], info.trailing⟩ (settled.map (·.1)), held) := by
  unfold settle
  rw [para_mk, Form.markOwned_map, Form.map_map]

theorem arriving_mk (info : Info) (form : Form Node) :
    (Node.mk info form).arriving =
      info.comments ++ ((form.markOwned fun m => m.form.isVariableDeclaration).map
        fun m => m.1.settle m.2).children.flatMap (·.2) := by
  rw [Form.children_map, List.flatMap_map]
  rfl

theorem settle_children (n : Node) (owned : Bool) :
    (n.settle owned).1.children = n.ownedChildren.map fun m => (m.1.settle m.2).1 := by
  obtain ⟨info, form⟩ := n
  rw [settle_mk]
  cases owned <;> exact (Form.children_map _ _).trans (by rw [Form.children_map, List.map_map]; rfl)

theorem settle_trailing (n : Node) (owned : Bool) : (n.settle owned).1.trailing = n.trailing := by
  obtain ⟨info, form⟩ := n
  rw [settle_mk]
  cases owned <;> rfl

/-- An owner keeps what arrives, in the order of the starts. -/
theorem settle_comments (n : Node) (owned : Bool) :
    (n.settle owned).1.comments = if owned then Comment.sorted n.arriving else [] := by
  obtain ⟨info, form⟩ := n
  rw [settle_mk, arriving_mk]
  cases owned <;> rfl

/-- Every other node passes it on. -/
theorem settle_rest (n : Node) (owned : Bool) :
    (n.settle owned).2 = if owned then [] else n.arriving := by
  obtain ⟨info, form⟩ := n
  rw [settle_mk, arriving_mk]
  cases owned <;> rfl

/-- Settling leaves the tree as it is apart from its comments. -/
theorem uncommented_settle (n : Node) : ∀ owned, (n.settle owned).1.uncommented = n.uncommented := by
  induction n using byChildren with
  | node n ih =>
    obtain ⟨info, form⟩ := n
    intro owned
    have hform : (((form.markOwned fun m => m.form.isVariableDeclaration).map
        fun m => m.1.settle m.2).map (·.1)).map uncommented = form.map uncommented := by
      conv_rhs => rw [← Form.map_fst_markOwned (fun m : Node => m.form.isVariableDeclaration) form]
      rw [Form.map_map, Form.map_map, Form.map_map]
      exact Form.map_congr fun m hm => ih m.1 (mem_children_of_owned hm) m.2
    rw [settle_mk, uncommented_eq (.mk info form)]
    show _ = Node.plain info.span (form.map uncommented)
    rw [← hform]
    cases owned
    · exact uncommented_eq _
    · exact uncommented_eq _

/-- At every address settling does what it does to the node there. -/
theorem at?_settle (n : Node) (owned : Bool) (path : List Nat) :
    (n.settle owned).1.at? path = (n.at? path).map fun m => (m.settle (n.ownedAt owned path)).1 := by
  induction path generalizing n owned with
  | nil => rfl
  | cons i path ih =>
    rw [at?, at?, ownedAt, settle_children, getElem?_children, List.getElem?_map]
    cases n.ownedChildren[i]? with
    | none => rfl
    | some m => exact ih m.1 m.2

/-! ## Settling of all comments -/

theorem settleAll_comments (n : Node) : n.settleAll.comments = n.arriving := settle_rest n false

theorem uncommented_settleAll (n : Node) : n.settleAll.uncommented = n.uncommented := by
  rw [← uncommented_settle n false, uncommented_eq, uncommented_eq (n.settle false).1]
  rfl

/-- Nothing is left over if nothing arrives at the root. -/
theorem settleAll_eq {n : Node} (h : n.arriving = []) : n.settleAll = (n.settle false).1 := by
  have hsettle : n.settle false = ((n.settle false).1, []) := by
    rw [Prod.ext_iff, settle_rest, h]
    exact ⟨rfl, rfl⟩
  unfold settleAll
  rw [hsettle]
  obtain ⟨info, form⟩ := n
  rw [settle_mk]
  rfl

end Node

end ScriptTidy
