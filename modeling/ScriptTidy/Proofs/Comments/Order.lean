/-
Attachment looks at the order of places only. Where comments end before nodes start, and start before
nodes end, decides which node takes them; so a tree and its comments can be moved to other places,
and as long as these stand in the same order the moved nodes take the moved comments.
-/
import ScriptTidy.Proofs.Comments.Conservation
import ScriptTidy.Proofs.Syntax.Replacing
import ScriptTidy.Proofs.Syntax.Respelling

namespace ScriptTidy

/-! ## Forms -/

namespace Form

variable {α β γ σ τ : Type}

/-- Every child is the one of its number. -/
theorem map_some_eq (form : Form α) :
    form.map some = (form.map fun _ => ()).numbered.map fun p => form.children[p.1]? := by
  rw [numbered_map, map_map]
  conv_lhs => rw [← form.map_snd_numbered, map_map]
  refine map_congr fun p hp => ?_
  obtain ⟨i, hi⟩ := List.mem_iff_getElem?.1 hp
  rw [getElem?_children_numbered] at hi
  obtain ⟨a, ha, rfl⟩ := Option.map_eq_some_iff.1 hi
  exact ha.symm

/-- A form is known by its shape and its children. -/
theorem eq_of_children [Nonempty α] {f g : Form α} (hshape : f.map (fun _ => ()) = g.map fun _ => ())
    (hchildren : f.children = g.children) : f = g := by
  obtain ⟨default⟩ := ‹Nonempty α›
  -- with `none` for what is not there, a child can be read off the list of all by its number
  have hsome : f.map some = g.map some := by rw [map_some_eq, map_some_eq, hshape, hchildren]
  have hback (form : Form α) : (form.map some).map (·.getD default) = form := by
    rw [map_map]
    exact map_eq_self fun _ _ => rfl
  rw [← hback f, hsome, hback]

/-- An action that does in other states what a first one does, with other results, does so on a whole form. -/
theorem traverse_simulates [Nonempty γ] {f : α → StateM σ β} {f' : α → StateM τ γ} {g : β → γ} {state : σ → τ}
    {form : Form α} (h : ∀ a ∈ form.children, ∀ s, f' a (state s) = (g (f a s).1, state (f a s).2)) (s : σ) :
    form.traverse f' (state s) = ((form.traverse f s).1.map g, state (form.traverse f s).2) := by
  have hlist (as : List α) (has : ∀ a ∈ as, ∀ s, f' a (state s) = (g (f a s).1, state (f a s).2)) (s : σ) :
      as.mapM f' (state s) = ((as.mapM f s).1.map g, state (as.mapM f s).2) := by
    induction as generalizing s with
    | nil => rfl
    | cons a as ih =>
      obtain ⟨ha, has⟩ := List.forall_mem_cons.1 has
      rw [List.mapM_cons, List.mapM_cons, bind_apply, bind_apply, bind_apply, bind_apply, ha, ih has]
      rfl
  have hkids : ((form.traverse f s).1.children, (form.traverse f s).2) = form.children.mapM f s :=
    congrFun (children_traverse f form) s
  have hkids' : ((form.traverse f' (state s)).1.children, (form.traverse f' (state s)).2) =
      form.children.mapM f' (state s) :=
    congrFun (children_traverse f' form) (state s)
  rw [hlist _ h, ← hkids] at hkids'
  obtain ⟨hchildren, hstate⟩ := Prod.mk.inj hkids'
  refine Prod.ext (eq_of_children ?_ ?_) hstate
  · rw [map_map, map_traverse form s (h := fun _ => ()) fun _ _ _ => rfl,
      map_traverse form (state s) (h := fun _ => ()) fun _ _ _ => rfl]
  · rw [hchildren, children_map]

end Form

/-! ## Order -/

namespace Relabeling

/-- The change keeps the order of comments and nodes. -/
structure KeepsOrder (r : Relabeling) : Prop where
  before : ∀ (c : Comment) (span : Span), (r.comment c).stop ≤ (r.span span).start ↔ c.stop ≤ span.start
  inside : ∀ (c : Comment) (span : Span), (r.comment c).start < (r.span span).stop ↔ c.start < span.stop
  startsBy : ∀ c d : Comment, (r.comment c).startsBy (r.comment d) = c.startsBy d

variable {r : Relabeling}

theorem KeepsOrder.sorted (h : r.KeepsOrder) (comments : List Comment) :
    Comment.sorted (comments.map r.comment) = (Comment.sorted comments).map r.comment :=
  (List.map_mergeSort fun c _ d _ => (h.startsBy c d).symm).symm

end Relabeling

namespace Node

variable {r : Relabeling}

instance : Nonempty Node := ⟨plain ⟨0, 0, 0⟩ .emptyStatement⟩

/-- A moved tree takes the moved comments that the tree takes, and leaves the others. -/
theorem associate_relabeled (h : r.KeepsOrder) (n : Node) : ∀ comments,
    (r.node n).associate (comments.map r.comment) =
      (r.node (n.associate comments).1, (n.associate comments).2.map r.comment) := by
  induction n using byChildren with
  | node n ih =>
    obtain ⟨info, form⟩ := n
    intro comments
    -- each child starts from what the one before it leaves, so the induction is needed for all comments
    have htraverse (s : List Comment) : form.traverse (fun m => (r.node m).associate) (s.map r.comment) =
        ((form.traverse associate s).1.map r.node, (form.traverse associate s).2.map r.comment) :=
      Form.traverse_simulates ih s
    rw [Relabeling.node_mk, associate_mk, associate_mk]
    simp only [List.dropWhile_map, List.takeWhile_map, Function.comp_def, h.before, h.inside, Form.traverse_map,
      htraverse, Form.isContainer_map]
    cases form.isContainer <;> simp [Relabeling.node_mk]

theorem mapM_associate_relabeled (h : r.KeepsOrder) (ns : List Node) (comments : List Comment) :
    (ns.map r.node).mapM associate (comments.map r.comment) =
      ((ns.mapM associate comments).1.map r.node, (ns.mapM associate comments).2.map r.comment) := by
  induction ns generalizing comments with
  | nil => rfl
  | cons n ns ih =>
    rw [List.map_cons, mapM_associate_cons, mapM_associate_cons, associate_relabeled h, ih]
    rfl

/-- The moved comments of a moved tree settle where the comments of the tree do. -/
theorem settle_relabeled (h : r.KeepsOrder) (n : Node) : ∀ owned,
    (r.node n).settle owned = (r.node (n.settle owned).1, (n.settle owned).2.map r.comment) := by
  induction n using byChildren with
  | node n ih =>
    obtain ⟨info, form⟩ := n
    intro owned
    have hsettled : ((form.map r.node).markOwned fun m => m.form.isVariableDeclaration).map
          (fun m => m.1.settle m.2) =
        ((form.markOwned fun m => m.form.isVariableDeclaration).map fun m => m.1.settle m.2).map
          fun m => (r.node m.1, m.2.map r.comment) := by
      simp only [Form.markOwned_map, isVariableDeclaration_relabeled, Form.map_map]
      refine Form.map_congr fun m hm => ih m.1 ?_ m.2
      show m.1 ∈ form.children
      rw [← Form.children_markOwned (fun m => m.form.isVariableDeclaration) form]
      exact List.mem_map_of_mem hm
    rw [Relabeling.node_mk, settle_mk, settle_mk, hsettled]
    simp only [Form.children_map, Form.map_map, List.flatMap_map, ← List.map_flatMap, ← List.map_append, h.sorted]
    cases owned <;> simp [Relabeling.node_mk, Form.map_map]

/-! ## Programs -/

section Program

variable {span : Span} {body : List Node} {hashbang : String} {comments : List Comment}

/-- The statements of a program with the comments that they and the nodes below them own, and the comments that are
left at the end. -/
def populated (body : List Node) (comments : List Comment) : List Node × List Comment :=
  ((body.mapM associate (Comment.sorted comments)).1.map fun n => (n.settle true).1,
    (body.mapM associate (Comment.sorted comments)).2)

theorem associateAll_program (hstart : ∀ c ∈ comments, span.start < c.stop) :
    (plain span (.program body hashbang)).associateAll comments =
      .mk ⟨span, [], (body.mapM associate (Comment.sorted comments)).2⟩
        (.program (body.mapM associate (Comment.sorted comments)).1 hashbang) := by
  have hlead : (plain span (.program body hashbang)).leading (Comment.sorted comments) = [] := leading_sorted hstart
  have hrest : (Comment.sorted comments).dropWhile (fun c => c.stop ≤ span.start) = Comment.sorted comments := by
    have happend : (plain span (.program body hashbang)).leading (Comment.sorted comments) ++
        (Comment.sorted comments).dropWhile (fun c => c.stop ≤ span.start) = Comment.sorted comments :=
      List.takeWhile_append_dropWhile
    rwa [hlead, List.nil_append] at happend
  rw [associateAll, plain, associate_mk, hrest]
  simp only [Form.traverse, Form.bind_apply, Form.isContainer, if_true]
  generalize body.mapM associate (Comment.sorted comments) = r
  show Node.mk ⟨span, [] ++ (plain span (.program body hashbang)).leading (Comment.sorted comments),
    ([] ++ r.2.takeWhile fun c => c.start < span.stop) ++ r.2.dropWhile fun c => c.start < span.stop⟩
      (.program r.1 hashbang) = _
  rw [hlead, List.nil_append, List.nil_append, List.takeWhile_append_dropWhile]

theorem settle_program (info : Info) (body : List Node) (hashbang : String) :
    ((Node.mk info (.program body hashbang)).settle false).1 =
      .mk { info with comments := [] } (.program (body.map fun n => (n.settle true).1) hashbang) := by
  rw [settle_mk]
  simp only [Form.markOwned, Form.map, List.map_map, Function.comp_def, Bool.false_eq_true, if_false]

/-- A program that is read takes all comments that no statement of it takes. -/
theorem attach_program (hempty : (plain span (.program body hashbang)).allComments = [])
    (hstart : ∀ c ∈ comments, span.start < c.stop) : (plain span (.program body hashbang)).attach comments =
      .ok (.mk ⟨span, [], (populated body comments).2⟩ (.program (populated body comments).1 hashbang)) := by
  rw [(attach_eq rfl hempty hstart).1, associateAll_program hstart, settle_program]
  rfl

theorem populated_relabeled (h : r.KeepsOrder) (body : List Node) (comments : List Comment) :
    populated (body.map r.node) (comments.map r.comment) =
      ((populated body comments).1.map r.node, (populated body comments).2.map r.comment) := by
  simp only [populated, h.sorted, mapM_associate_relabeled h, List.map_map, Function.comp_def, settle_relabeled h]

end Program

end Node

end ScriptTidy
