/-
Which comments a tree is printed with. A node is not printed with its own comments: those are written
by the list that it is a member of, and the comments of a declaration in the head of a loop by the
list or body that the loop is in. So every role has its own account of what has been written once a
node is done, and by induction over the tree every comment has been written once, by somebody.
-/
import ScriptTidy.Proofs.Layout.Lines
import ScriptTidy.Proofs.Layout.Marks
import ScriptTidy.Proofs.Layout.Shape

namespace ScriptTidy

open Layout

/-! ## What the role of a node tells -/

namespace Node

variable {semicolons : Bool} {n : Node}

/-- The comments of a tree, as marks. -/
def marks (n : Node) : Multiset Piece := Comment.marks n.allComments

theorem marks_eq (n : Node) :
    n.marks = Comment.marks n.comments + (Comment.marks n.trailing + (n.children.map marks).sum) := by
  rw [marks, allComments_eq, heldComments, List.append_assoc, Comment.marks_append, Comment.marks_append,
    Comment.marks_flatMap]
  rfl

/-- The node is written in full by whoever writes a node in the given role: its comments are written before it, and
for a statement also those of the declaration in the head of a loop; of a catch clause or a method the core is
written. -/
def WrittenAs (semicolons : Bool) (n : Node) : Role → Prop
  | .statement => ∀ depth, Comment.marks n.comments +
      (Comment.marks n.headerComments + (n.printed semicolons).whole.marks depth) = n.marks
  | .case | .inner => ∀ depth, Comment.marks n.comments + (n.printed semicolons).whole.marks depth = n.marks
  | .handler | .method => ∀ depth, Comment.marks n.comments + (n.printed semicolons).core.marks depth = n.marks

end Node

/-! ## Lists and bodies -/

namespace Child

variable {semicolons : Bool} {ns : List Node} {n : Node}

/-- A semicolon standing alone has no text in a list. -/
theorem marks_of_emptyStatement (h : n.WrittenAs semicolons .statement) (hform : n.form = .emptyStatement) :
    n.marks = Comment.marks n.comments := by
  rw [← h 0, Node.printed_eq, hform]
  obtain ⟨info, form⟩ := n
  subst hform
  exact add_zero _

theorem marks_members (h : ∀ n ∈ ns, n.WrittenAs semicolons .statement) : ∀ (before : Option Node) (depth : Nat),
    (members semicolons before (ns.map (Node.child semicolons))).marks depth = (ns.map Node.marks).sum := by
  induction ns with
  | nil => exact fun _ _ => rfl
  | cons n ns ih =>
    intro before depth
    have hn := h n (List.mem_cons_self ..)
    have ih := ih fun m hm => h m (List.mem_cons_of_mem _ hm)
    rw [List.map_cons, List.map_cons, List.sum_cons]
    unfold members
    split
    case h_1 hempty =>
      rw [marks_of_emptyStatement hn hempty]
      simp [ih, Node.child]
    case h_2 =>
      rw [← hn depth]
      simp [ih, Node.child, marks_statement, add_assoc]

theorem marks_braced (h : ∀ n ∈ ns, n.WrittenAs semicolons .statement) (trailing : List Comment) (depth : Nat) :
    (braced semicolons (ns.map (Node.child semicolons)) trailing).marks depth =
      Comment.marks trailing + (ns.map Node.marks).sum := by
  unfold braced
  split
  case isTrue hempty =>
    obtain ⟨htrailing, hstray⟩ := Bool.and_eq_true_iff.1 hempty
    have hmarks : (ns.map Node.marks).sum = 0 := by
      refine List.sum_eq_zero fun marks hmarks => ?_
      obtain ⟨n, hn, rfl⟩ := List.mem_map.1 hmarks
      have hn' := List.all_eq_true.1 hstray (n.child semicolons) (List.mem_map_of_mem hn)
      unfold Node.isStray Node.child at hn'
      split at hn'
      case h_1 hform => rw [marks_of_emptyStatement (h n hn) hform, List.isEmpty_iff.1 hn', Comment.marks_nil]
      case h_2 => cases hn'
    rw [hmarks, List.isEmpty_iff.1 htrailing]
    rfl
  case isFalse => simp [marks_members h, add_comm]

theorem marks_body (h : n.WrittenAs semicolons .statement) (hbare : n.comments = []) (depth : Nat) :
    (body semicolons (n.child semicolons)).marks depth = n.marks := by
  unfold body
  split
  case isTrue hblock =>
    have hheader : n.headerComments = [] := by
      obtain ⟨info, form⟩ := n
      cases form <;> first | rfl | exact absurd hblock Bool.false_ne_true
    simpa [Node.child, hbare, hheader] using h depth
  case isFalse => simpa [Node.child, hbare, marks_statement] using h (depth + 1)

theorem marks_elseBranch (h : n.WrittenAs semicolons .statement) (hbare : n.comments = []) (depth : Nat) :
    (elseBranch semicolons (n.child semicolons)).marks depth = n.marks := by
  unfold elseBranch
  split
  case h_1 hform =>
    have hheader : n.headerComments = [] := by
      obtain ⟨info, form⟩ := n
      cases form <;> first | rfl | cases hform
    simpa [Node.child, hbare, hheader] using h depth
  case h_2 => simp [marks_body h hbare]

theorem marks_caseLines (h : n.WrittenAs semicolons .case) (depth : Nat) :
    (caseLines (n.child semicolons)).marks depth = n.marks := by
  rw [← h depth]
  simp [caseLines, Node.child]

theorem marks_element (h : n.WrittenAs semicolons .inner) (depth : Nat) :
    (element (some (n.child semicolons))).marks depth = n.marks := by
  rw [← h depth]
  simp [element, Node.child]

theorem marks_member (h : n.WrittenAs semicolons .inner) (depth : Nat) :
    (member (n.child semicolons)).marks depth = n.marks := by
  rw [← h depth]
  simp [member, Node.child]

end Child

/-! ## One node -/

namespace Node

variable {semicolons : Bool} {n : Node} {info : Info} {form : Form Node}

theorem marks_of_inner (h : n.WrittenAs semicolons .inner) (hbare : n.comments = []) (depth : Nat) :
    (n.child semicolons).2.whole.marks depth = n.marks := by
  rw [← h depth, hbare, Comment.marks_nil, zero_add]
  rfl

theorem marks_of_handler (h : n.WrittenAs semicolons .handler) (hbare : n.comments = []) (depth : Nat) :
    (n.child semicolons).2.core.marks depth = n.marks := by
  rw [← h depth, hbare, Comment.marks_nil, zero_add]
  rfl

theorem marks_of_method (h : n.WrittenAs semicolons .method) (hbare : n.comments = []) (depth : Nat) :
    (n.child semicolons).2.core.marks depth = n.marks :=
  marks_of_handler h hbare depth

theorem sum_marks_of_inner {ns : List Node} (h : ∀ n ∈ ns, n.WrittenAs semicolons .inner)
    (hbare : ∀ n ∈ ns, n.comments = []) (depth : Nat) :
    ((ns.map (child semicolons)).map (·.2.whole.marks depth)).sum = (ns.map marks).sum := by
  rw [List.map_map]
  exact congrArg List.sum (List.map_congr_left fun n hn => marks_of_inner (h n hn) (hbare n hn) depth)

/-- Nothing is written above a node but its comments, unless it is a loop, with labels or not. -/
theorem WrittenAs.of_headerComments (h : n.WrittenAs semicolons .statement) (hheader : n.headerComments = []) :
    n.WrittenAs semicolons .inner := by
  intro depth
  have hn := h depth
  rwa [hheader, Comment.marks_nil, zero_add] at hn

theorem headerComments_of_not_isStatement (h : form.isStatement = false) : (mk info form).headerComments = [] := by
  cases form <;> first | rfl | cases h

/-- A name has no comments in it. -/
theorem marks_of_identifier (h : n.WrittenAs semicolons .inner) (hbare : n.comments = []) (hname : n.isIdentifier) :
    n.marks = 0 := by
  rw [← marks_of_inner h hbare 0, child, printed_eq]
  obtain ⟨info, form⟩ := n
  cases form <;> first | rfl | exact absurd hname Bool.false_ne_true

/-- What is known of the children of a node: each of them can stand where it stands and is written in full, and
those that do not own comments have none. -/
structure Settles (semicolons : Bool) (form : Form Node) : Prop where
  fits : ∀ m ∈ form.markRoles.children, m.1.form.fits m.2
  written : ∀ m ∈ form.markRoles.children, m.1.WrittenAs semicolons m.2
  bare : Bare form

section Settles

variable {m : Node}

theorem Settles.marks_inner (h : Settles semicolons form) (hrole : (m, .inner) ∈ form.markRoles.children)
    (hfree : (m, false) ∈ (form.markOwned fun m => m.form.isVariableDeclaration).children) (depth : Nat) :
    (m.child semicolons).2.whole.marks depth = m.marks :=
  marks_of_inner (h.written _ hrole) (h.bare _ hfree rfl) depth

theorem Settles.marks_body (h : Settles semicolons form) (hrole : (m, .statement) ∈ form.markRoles.children)
    (hfree : (m, false) ∈ (form.markOwned fun m => m.form.isVariableDeclaration).children) (depth : Nat) :
    (Child.body semicolons (m.child semicolons)).marks depth = m.marks :=
  Child.marks_body (h.written _ hrole) (h.bare _ hfree rfl) depth

theorem Settles.marks_elseBranch (h : Settles semicolons form) (hrole : (m, .statement) ∈ form.markRoles.children)
    (hfree : (m, false) ∈ (form.markOwned fun m => m.form.isVariableDeclaration).children) (depth : Nat) :
    (Child.elseBranch semicolons (m.child semicolons)).marks depth = m.marks :=
  Child.marks_elseBranch (h.written _ hrole) (h.bare _ hfree rfl) depth

theorem Settles.marks_handler (h : Settles semicolons form) (hrole : (m, .handler) ∈ form.markRoles.children)
    (hfree : (m, false) ∈ (form.markOwned fun m => m.form.isVariableDeclaration).children) (depth : Nat) :
    (m.child semicolons).2.core.marks depth = m.marks :=
  marks_of_handler (h.written _ hrole) (h.bare _ hfree rfl) depth

theorem Settles.marks_method (h : Settles semicolons form) (hrole : (m, .method) ∈ form.markRoles.children)
    (hfree : (m, false) ∈ (form.markOwned fun m => m.form.isVariableDeclaration).children) (depth : Nat) :
    (m.child semicolons).2.core.marks depth = m.marks :=
  marks_of_method (h.written _ hrole) (h.bare _ hfree rfl) depth

end Settles

/-- A node that is no container, and no loop with comments in its head, is written by its layout alone. -/
theorem written_of_layout (hheader : (mk info form).headerComments = []) (htrailing : info.trailing = [])
    (h : ∀ depth, ((form.map (child semicolons)).layout semicolons []).marks depth = (form.children.map marks).sum) :
    (mk info form).WrittenAs semicolons .statement := by
  intro depth
  rw [hheader, marks_eq, printed_eq]
  simp only [Node.form, trailing, Node.info, htrailing, children, h, Comment.marks_nil, zero_add]

theorem markOwned_of_isPlain (h : form.isPlain) (declares : Node → Bool) :
    form.markOwned declares = form.map (·, false) := by
  cases form <;> first | rfl | exact absurd h Bool.false_ne_true

theorem markRoles_of_isPlain (h : form.isPlain) : form.markRoles = form.map (·, .inner) := by
  cases form <;> first | rfl | exact absurd h Bool.false_ne_true

theorem written_of_isPlain (hplain : form.isPlain) (htrailing : info.trailing = []) (h : Settles semicolons form) :
    (mk info form).WrittenAs semicolons .statement := by
  have hheader : (mk info form).headerComments = [] := by
    cases form <;> first | rfl | exact absurd hplain Bool.false_ne_true
  refine written_of_layout hheader htrailing fun depth => ?_
  obtain ⟨-, hwritten, hbare⟩ := h
  rw [markRoles_of_isPlain hplain, Form.children_map] at hwritten
  rw [Bare, markOwned_of_isPlain hplain, Form.children_map] at hbare
  rw [Form.marks_layout_of_isPlain (by rwa [Form.isPlain_map]), Form.children_map, sum_marks_of_inner]
  · exact fun m hm => hwritten (m, .inner) (List.mem_map_of_mem hm)
  · exact fun m hm => hbare (m, false) (List.mem_map_of_mem hm) rfl

/-! ### Statements -/

theorem written_ifStatement {test consequent : Node} {alternate : Option Node} (htrailing : info.trailing = [])
    (h : Settles semicolons (.ifStatement test consequent alternate)) :
    (mk info (.ifStatement test consequent alternate)).WrittenAs semicolons .statement := by
  refine written_of_layout rfl htrailing fun depth => ?_
  have htest := h.marks_inner (m := test) (.head _) (.head _) depth
  have hconsequent := h.marks_body (m := consequent) (.tail _ (.head _)) (.tail _ (.head _)) depth
  cases alternate with
  | none => simp [Form.map, Form.layout, Form.children, htest, hconsequent]
  | some alternate =>
    have halternate := h.marks_elseBranch (m := alternate) (.tail _ (.tail _ (.head _))) (.tail _ (.tail _ (.head _)))
      depth
    simp [Form.map, Form.layout, Form.children, Child.marks_afterBody, htest, hconsequent, halternate]

theorem written_whileStatement {test body : Node} (htrailing : info.trailing = [])
    (h : Settles semicolons (.whileStatement test body)) :
    (mk info (.whileStatement test body)).WrittenAs semicolons .statement := by
  refine written_of_layout rfl htrailing fun depth => ?_
  have htest := h.marks_inner (m := test) (.head _) (.head _) depth
  have hbody := h.marks_body (m := body) (.tail _ (.head _)) (.tail _ (.head _)) depth
  simp [Form.map, Form.layout, Form.children, htest, hbody]

theorem written_doWhileStatement {test body : Node} (htrailing : info.trailing = [])
    (h : Settles semicolons (.doWhileStatement body test)) :
    (mk info (.doWhileStatement body test)).WrittenAs semicolons .statement := by
  refine written_of_layout rfl htrailing fun depth => ?_
  have hbody := h.marks_body (m := body) (.head _) (.head _) depth
  have htest := h.marks_inner (m := test) (.tail _ (.head _)) (.tail _ (.head _)) depth
  simp [Form.map, Form.layout, Form.children, Child.marks_afterBody, htest, hbody]

theorem written_forInStatement {left right body : Node} (htrailing : info.trailing = [])
    (h : Settles semicolons (.forInStatement left right body)) :
    (mk info (.forInStatement left right body)).WrittenAs semicolons .statement := by
  refine written_of_layout rfl htrailing fun depth => ?_
  have hleft := h.marks_inner (m := left) (.head _) (.head _) depth
  have hright := h.marks_inner (m := right) (.tail _ (.head _)) (.tail _ (.head _)) depth
  have hbody := h.marks_body (m := body) (.tail _ (.tail _ (.head _))) (.tail _ (.tail _ (.head _))) depth
  simp [Form.map, Form.layout, Form.children, hleft, hright, hbody]

theorem written_forOfStatement {left right body : Node} {isAwait : Bool} (htrailing : info.trailing = [])
    (h : Settles semicolons (.forOfStatement left right body isAwait)) :
    (mk info (.forOfStatement left right body isAwait)).WrittenAs semicolons .statement := by
  refine written_of_layout rfl htrailing fun depth => ?_
  have hleft := h.marks_inner (m := left) (.head _) (.head _) depth
  have hright := h.marks_inner (m := right) (.tail _ (.head _)) (.tail _ (.head _)) depth
  have hbody := h.marks_body (m := body) (.tail _ (.tail _ (.head _))) (.tail _ (.tail _ (.head _))) depth
  simp [Form.map, Form.layout, Form.children, hleft, hright, hbody]

theorem written_forStatement {init test update : Option Node} {body : Node} (htrailing : info.trailing = [])
    (h : Settles semicolons (.forStatement init test update body)) :
    (mk info (.forStatement init test update body)).WrittenAs semicolons .statement := by
  obtain ⟨-, hwritten, hbare⟩ := h
  simp only [Bare, Form.markRoles, Form.markOwned, Form.children, Option.toList_map, List.mem_append, List.mem_map,
    List.mem_singleton, Option.mem_toList] at hwritten hbare
  have hinner (clause : Option Node) (hclause : ∀ m ∈ clause, m.WrittenAs semicolons .inner ∧ m.comments = [])
      (depth : Nat) : ((clause.map (child semicolons)).toList.map (·.2.whole.marks depth)).sum =
        (clause.toList.map marks).sum := by
    rw [Option.toList_map]
    exact sum_marks_of_inner (fun m hm => (hclause m (by simpa using hm)).1)
      (fun m hm => (hclause m (by simpa using hm)).2) depth
  have htest := hinner test fun m hm => ⟨hwritten (m, .inner) (.inl (.inl (.inr ⟨m, hm, rfl⟩))),
    hbare (m, false) (.inl (.inl (.inr ⟨m, hm, rfl⟩))) rfl⟩
  have hupdate := hinner update fun m hm => ⟨hwritten (m, .inner) (.inl (.inr ⟨m, hm, rfl⟩)),
    hbare (m, false) (.inl (.inr ⟨m, hm, rfl⟩)) rfl⟩
  have hbody := Child.marks_body (hwritten (body, .statement) (.inr rfl)) (hbare (body, false) (.inr rfl) rfl)
  -- the comments of a declaration in the head are written above the loop
  have hinit (depth : Nat) : Comment.marks (mk info (.forStatement init test update body)).headerComments +
      ((init.map (child semicolons)).toList.map (·.2.whole.marks depth)).sum = (init.toList.map marks).sum := by
    cases init with
    | none => rfl
    | some init =>
      have hwhole := hwritten (init, .inner) (.inl (.inl (.inl ⟨init, rfl, rfl⟩))) depth
      have hfree := hbare (init, init.form.isVariableDeclaration) (.inl (.inl (.inl ⟨init, rfl, rfl⟩)))
      cases hdeclares : init.form.isVariableDeclaration with
      | true => simpa [headerComments, hdeclares, child] using hwhole
      | false => simpa [headerComments, hdeclares, child, hfree hdeclares] using hwhole
  intro depth
  rw [marks_eq, printed_eq]
  simp [form, trailing, Node.info, htrailing, Form.map, Form.layout, Form.children, children, Child.marks_optional,
    Child.marks_after, htest, hupdate, hbody, ← hinit depth, add_assoc]

theorem written_labeledStatement {label body : Node} (htrailing : info.trailing = [])
    (h : Settles semicolons (.labeledStatement label body)) :
    (mk info (.labeledStatement label body)).WrittenAs semicolons .statement := by
  intro depth
  have hlabel := h.marks_inner (m := label) (.head _) (.head _) depth
  have hbody := h.written (body, .statement) (.tail _ (.head _)) depth
  have hbare := h.bare (body, false) (.tail _ (.head _)) rfl
  rw [marks_eq, printed_eq]
  simp [form, trailing, Node.info, htrailing, Form.map, Form.layout, Form.children, children, Child.marks_statement,
    hlabel, ← hbody, hbare, headerComments]
  exact add_left_comm ..

theorem written_switchStatement {discriminant : Node} {cases : List Node}
    (h : Settles semicolons (.switchStatement discriminant cases)) :
    (mk info (.switchStatement discriminant cases)).WrittenAs semicolons .statement := by
  intro depth
  have hdiscriminant := h.marks_inner (m := discriminant) (.head _) (.head _) depth
  have hcases (depth : Nat) : (cases.map fun m => (Child.caseLines (m.child semicolons)).marks depth).sum =
      (cases.map marks).sum := by
    refine congrArg List.sum (List.map_congr_left fun m hm => Child.marks_caseLines ?_ depth)
    exact h.written (m, .case) (List.mem_cons_of_mem _ (List.mem_map_of_mem hm))
  rw [marks_eq, printed_eq]
  simp [form, trailing, Node.info, Form.map, Form.layout, Form.children, children, hdiscriminant, hcases,
    headerComments, Function.comp_def]
  split
  case isTrue hempty => simp [hempty]
  case isFalse => rw [add_comm ((cases.map marks).sum), add_left_comm]

theorem written_switchCase {test : Option Node} {consequent : List Node} (htrailing : info.trailing = [])
    (h : Settles semicolons (.switchCase test consequent)) :
    (mk info (.switchCase test consequent)).WrittenAs semicolons .statement := by
  refine written_of_layout rfl htrailing fun depth => ?_
  have hmembers : ∀ m ∈ consequent, m.WrittenAs semicolons .statement := fun m hm =>
    h.written (m, .statement) (List.mem_append_right _ (List.mem_map_of_mem hm))
  cases test with
  | none => simp [Form.map, Form.layout, Form.children, Child.marks_members hmembers]
  | some test =>
    have htest := h.marks_inner (m := test) (.head _) (.head _) depth
    simp [Form.map, Form.layout, Form.children, htest, Child.marks_members hmembers]

theorem written_tryStatement {block : Node} {handler finalizer : Option Node} (htrailing : info.trailing = [])
    (h : Settles semicolons (.tryStatement block handler finalizer)) :
    (mk info (.tryStatement block handler finalizer)).WrittenAs semicolons .statement := by
  refine written_of_layout rfl htrailing fun depth => ?_
  have hblock := h.marks_inner (m := block) (.head _) (.head _) depth
  have hhandler (m : Node) (hm : handler = some m) : (m.child semicolons).2.core.marks depth = m.marks := by
    subst hm
    exact h.marks_handler (.tail _ (.head _)) (.tail _ (.head _)) depth
  have hfinalizer (m : Node) (hm : finalizer = some m) : (m.child semicolons).2.whole.marks depth = m.marks := by
    subst hm
    exact h.marks_inner (List.mem_append_right _ (.head _)) (List.mem_append_right _ (.head _)) depth
  cases handler <;> cases finalizer <;>
    simp [Form.map, Form.layout, Form.children, Child.after, hblock, hhandler, hfinalizer]

/-! ### Members -/

theorem written_methodDefinition {key value : Node} {kind : String} {isStatic isComputed : Bool}
    (htrailing : info.trailing = [])
    (h : Settles semicolons (.methodDefinition key value kind isStatic isComputed)) :
    (mk info (.methodDefinition key value kind isStatic isComputed)).WrittenAs semicolons .statement := by
  refine written_of_layout rfl htrailing fun depth => ?_
  have hkey := h.marks_inner (m := key) (.head _) (.head _) depth
  have hvalue := h.marks_method (m := value) (.tail _ (.head _)) (.tail _ (.head _)) depth
  simp [Form.map, Form.layout, Form.children, Child.marks_method, Child.marks_key, hkey, hvalue]

theorem written_property {key value : Node} {kind : String} {isMethod isShorthand isComputed : Bool}
    (htrailing : info.trailing = [])
    (hcoherent : (Form.property key value kind isMethod isShorthand isComputed).isCoherent)
    (h : Settles semicolons (.property key value kind isMethod isShorthand isComputed)) :
    (mk info (.property key value kind isMethod isShorthand isComputed)).WrittenAs semicolons .statement := by
  refine written_of_layout rfl htrailing fun depth => ?_
  have hkey := h.marks_inner (m := key) (.head _) (.head _) depth
  have hvalue := h.written _ (.tail _ (.head _))
  have hfits := h.fits _ (.tail _ (.head _))
  have hvalueBare := h.bare (value, false) (.tail _ (.head _)) rfl
  change (Child.property (key.child semicolons) (value.child semicolons) kind isMethod isShorthand isComputed).marks
    depth = key.marks + (value.marks + 0)
  rw [add_zero]
  unfold Child.property
  cases isShorthand with
  | true =>
    -- of a shorthand only the name is written, or the pattern that begins with it
    obtain ⟨hname, hform⟩ := Bool.and_eq_true_iff.1 hcoherent
    have hnone := marks_of_identifier (h.written (key, .inner) (.head _)) (h.bare (key, false) (.head _) rfl) hname
    rw [if_pos rfl]
    split
    case h_1 => rw [marks_of_inner hvalue hvalueBare depth, hnone, zero_add]
    case h_2 hpattern =>
      have hvalueNone : value.marks = 0 := by
        refine marks_of_identifier hvalue hvalueBare ?_
        obtain ⟨info, form⟩ := value
        cases form <;> first | rfl | exact absurd rfl (hpattern _ _) | exact absurd hform Bool.false_ne_true
      rw [hkey, hvalueNone, add_zero]
  | false =>
    rw [if_neg Bool.false_ne_true]
    cases hmethod : Form.isMethodLike kind isMethod false with
    | true =>
      rw [hmethod] at hvalue hfits
      have hfunction : value.isFunctionExpression := by
        obtain ⟨info, form⟩ := value
        cases form <;> first | rfl | exact absurd hfits Bool.false_ne_true
      have hwritten : ((isMethod || kind != "init") && (value.child semicolons).1.isFunctionExpression) = true :=
        Bool.and_eq_true_iff.2 ⟨hmethod, hfunction⟩
      rw [if_pos hwritten, Child.marks_method, Child.marks_key, hkey, marks_of_method hvalue hvalueBare]
    | false =>
      rw [hmethod] at hvalue
      have hmethod : (isMethod || kind != "init") = false := hmethod
      simp [hmethod, Child.marks_key, hkey, marks_of_inner hvalue hvalueBare]

theorem written_exportDeclaration {declaration : Node} {specifiers : List Node} {source : Option Node}
    (htrailing : info.trailing = [])
    (hcoherent : (Form.exportNamedDeclaration (some declaration) specifiers source).isCoherent)
    (h : Settles semicolons (.exportNamedDeclaration (some declaration) specifiers source)) :
    (mk info (.exportNamedDeclaration (some declaration) specifiers source)).WrittenAs semicolons .statement := by
  refine written_of_layout rfl htrailing fun depth => ?_
  have hdeclaration := h.marks_inner (m := declaration) (.head _) (.head _) depth
  simp only [Form.isCoherent, Bool.and_eq_true, List.isEmpty_iff, Option.isNone_iff_eq_none] at hcoherent
  obtain ⟨rfl, rfl⟩ := hcoherent
  simp [Form.map, Form.layout, Form.children, Child.exportNamed, hdeclaration]

theorem written_templateLiteral {quasis : List String} {expressions : List Node} (htrailing : info.trailing = [])
    (hcoherent : (Form.templateLiteral quasis expressions).isCoherent)
    (h : Settles semicolons (.templateLiteral quasis expressions)) :
    (mk info (.templateLiteral quasis expressions)).WrittenAs semicolons .statement := by
  refine written_of_layout rfl htrailing fun depth => ?_
  obtain ⟨-, hwritten, hbare⟩ := h
  have hlength : quasis.length = (expressions.map (child semicolons)).length + 1 := by
    rw [List.length_map]
    exact beq_iff_eq.1 hcoherent
  rw [Form.map, Form.layout, Child.marks_template hlength, sum_marks_of_inner]
  · rfl
  · exact fun m hm => hwritten (m, .inner) (List.mem_map_of_mem hm)
  · exact fun m hm => hbare (m, false) (List.mem_map_of_mem hm) rfl

/-! ### Containers -/

/-- A container is written by its layout, with the comments at its end. -/
theorem written_of_container (hheader : (mk info form).headerComments = [])
    (h : ∀ depth, ((form.map (child semicolons)).layout semicolons info.trailing).marks depth =
      Comment.marks info.trailing + (form.children.map marks).sum) :
    (mk info form).WrittenAs semicolons .statement := by
  intro depth
  rw [hheader, marks_eq, printed_eq]
  simp only [Node.form, trailing, Node.info, children, h, Comment.marks_nil, zero_add]

theorem written_blockStatement {body : List Node} (h : Settles semicolons (.blockStatement body)) :
    (mk info (.blockStatement body)).WrittenAs semicolons .statement :=
  written_of_container rfl fun depth =>
    Child.marks_braced (fun m hm => h.written (m, .statement) (List.mem_map_of_mem hm)) info.trailing depth

theorem written_classBody {body : List Node} (h : Settles semicolons (.classBody body)) :
    (mk info (.classBody body)).WrittenAs semicolons .statement :=
  written_of_container rfl fun depth =>
    Child.marks_braced (fun m hm => h.written (m, .statement) (List.mem_map_of_mem hm)) info.trailing depth

theorem written_objectExpression {properties : List Node} (h : Settles semicolons (.objectExpression properties)) :
    (mk info (.objectExpression properties)).WrittenAs semicolons .statement := by
  refine written_of_container rfl fun depth => ?_
  rw [Form.map, Form.layout, Child.marks_lines, List.map_map, List.map_map]
  refine congrArg (_ + List.sum ·) (List.map_congr_left fun m hm => Child.marks_member ?_ (depth + 1))
  exact h.written (m, .inner) (List.mem_map_of_mem hm)

theorem written_arrayExpression {elements : List (Option Node)} (h : Settles semicolons (.arrayExpression elements)) :
    (mk info (.arrayExpression elements)).WrittenAs semicolons .statement := by
  refine written_of_container rfl fun depth => ?_
  have hwritten : ∀ m, some m ∈ elements → m.WrittenAs semicolons .inner := fun m hm =>
    h.written (m, .inner) (by simpa [Form.markRoles, Form.map, Form.children] using hm)
  rw [Form.map, Form.layout, Child.marks_lines, List.map_map, List.map_map, Form.children]
  congr 1
  clear h
  induction elements with
  | nil => rfl
  | cons element elements ih =>
    have ih := ih fun m hm => hwritten m (List.mem_cons_of_mem _ hm)
    rw [List.map_cons, List.sum_cons, ih]
    cases element with
    | none => simp [Child.element]
    | some m => simp [Child.marks_element (hwritten m (List.mem_cons_self ..))]

/-! ## A whole tree -/

/-- A node is written in full if its children are. -/
theorem written_of_settles (hfragment : form.isFragment = false) (hcoherent : form.isCoherent)
    (htrailing : info.trailing ≠ [] → form.isContainer) (h : Settles semicolons form) :
    (mk info form).WrittenAs semicolons .statement := by
  have hnone (hform : form.isContainer = false) : info.trailing = [] := by
    by_contra hne
    rw [htrailing hne] at hform
    cases hform
  cases form
  case program | catchClause => cases hfragment
  case blockStatement => exact written_blockStatement h
  case classBody => exact written_classBody h
  case objectExpression => exact written_objectExpression h
  case arrayExpression => exact written_arrayExpression h
  case switchStatement => exact written_switchStatement h
  case switchCase => exact written_switchCase (hnone rfl) h
  case ifStatement => exact written_ifStatement (hnone rfl) h
  case forStatement => exact written_forStatement (hnone rfl) h
  case whileStatement test body => exact written_whileStatement (hnone rfl) h
  case doWhileStatement body test => exact written_doWhileStatement (hnone rfl) h
  case forInStatement left right body => exact written_forInStatement (hnone rfl) h
  case forOfStatement left right body isAwait => exact written_forOfStatement (hnone rfl) h
  case labeledStatement => exact written_labeledStatement (hnone rfl) h
  case tryStatement => exact written_tryStatement (hnone rfl) h
  case methodDefinition => exact written_methodDefinition (hnone rfl) h
  case property => exact written_property (hnone rfl) hcoherent h
  case templateLiteral => exact written_templateLiteral (hnone rfl) hcoherent h
  case exportNamedDeclaration declaration specifiers source =>
    cases declaration with
    | some declaration => exact written_exportDeclaration (hnone rfl) hcoherent h
    | none => exact written_of_isPlain rfl (hnone rfl) h
  all_goals exact written_of_isPlain rfl (hnone rfl) h

theorem isContainer_of_fits_core (hform : form.fits .handler ∨ form.fits .method) : form.isContainer = false := by
  cases form <;> first | rfl | (rcases hform with h | h <;> cases h)

/-- The core of a catch clause or a method is what is written of it. -/
theorem marks_core (hform : form.fits .handler ∨ form.fits .method) (htrailing : info.trailing = [])
    (h : Settles semicolons form) (depth : Nat) :
    Comment.marks (mk info form).comments + ((mk info form).printed semicolons).core.marks depth =
      (mk info form).marks := by
  have hno : (mk info form).trailing = [] := htrailing
  rw [marks_eq, printed_eq, hno, Comment.marks_nil, zero_add]
  congr 1
  cases form
  case catchClause param body =>
    have hbody := h.marks_inner (m := body) (List.mem_append_right _ (.head _)) (List.mem_append_right _ (.head _))
      depth
    cases param with
    | none => simp [Form.map, Form.core, Form.children, children, Node.form, hbody]
    | some param =>
      have hparam := h.marks_inner (m := param) (.head _) (.head _) depth
      simp [Form.map, Form.core, Form.children, children, Node.form, hparam, hbody]
  case functionExpression id params body isAsync isGenerator =>
    cases id with
    | some id => rcases hform with h | h <;> cases h
    | none =>
      have hparams := sum_marks_of_inner
        (fun m hm => h.written (m, .inner) (List.mem_append_left _ (List.mem_map_of_mem hm)))
        (fun m hm => h.bare (m, false) (List.mem_append_left _ (List.mem_map_of_mem hm)) rfl) depth
      have hbody := h.marks_inner (m := body) (List.mem_append_right _ (.head _)) (List.mem_append_right _ (.head _))
        depth
      change (Child.functionCore _ _).marks depth = ((params ++ [body]).map marks).sum
      rw [Child.marks_functionCore, hparams, hbody, List.map_append, List.sum_append, List.map_singleton,
        List.sum_singleton]
  all_goals rcases hform with h | h <;> cases h

/-- Every node is written in full in the roles that it fits. -/
theorem writtenAs (n : Node) (hroles : ∀ m ∈ n.preorder, ∀ k ∈ m.form.markRoles.children, k.1.form.fits k.2)
    (hcoherent : ∀ m ∈ n.preorder, m.form.isCoherent) (hstrays : ∀ m ∈ n.preorder, m.strays = []) :
    ∀ role, n.form.fits role → n.WrittenAs semicolons role := by
  -- all roles at once: a child stands in a role of its own, whatever the role of the node
  induction n using byChildren with
  | node n ih =>
    obtain ⟨hfits, hroles⟩ := forall_preorder_iff.1 hroles
    obtain ⟨hself, hcoherent⟩ := forall_preorder_iff.1 hcoherent
    obtain ⟨hbare, hstrays⟩ := forall_preorder_iff.1 hstrays
    obtain ⟨hbare, htrailing⟩ := strays_eq_nil_iff.1 hbare
    have hsettles : Settles semicolons n.form := {
      fits := hfits
      bare := hbare
      written := fun m hm => by
        have hchild : m.1 ∈ n.children := by
          rw [children, ← Form.children_markRoles]
          exact List.mem_map_of_mem hm
        exact ih m.1 hchild (hroles m.1 hchild) (hcoherent m.1 hchild) (hstrays m.1 hchild) m.2 (hfits m hm) }
    obtain ⟨info, form⟩ := n
    have hstatement (hfragment : form.isFragment = false) : (mk info form).WrittenAs semicolons .statement :=
      written_of_settles hfragment hself htrailing hsettles
    have hcore (hform : form.fits .handler ∨ form.fits .method) (depth : Nat) :
        Comment.marks (mk info form).comments + ((mk info form).printed semicolons).core.marks depth =
          (mk info form).marks := by
      refine marks_core hform ?_ hsettles depth
      by_contra hne
      have hcontainer : form.isContainer := htrailing hne
      rw [isContainer_of_fits_core hform] at hcontainer
      cases hcontainer
    intro role hrole
    cases role with
    | statement => exact hstatement (by simpa [Form.fits, Node.form] using hrole)
    | inner =>
      obtain ⟨hfragment, hinner⟩ : form.isFragment = false ∧ form.isStatement = false := by
        simpa [Form.fits, Node.form] using hrole
      exact (hstatement hfragment).of_headerComments (headerComments_of_not_isStatement hinner)
    | case =>
      cases form
      case switchCase => exact (hstatement rfl).of_headerComments rfl
      all_goals cases hrole
    | handler => exact hcore (.inl hrole)
    | method => exact hcore (.inr hrole)

/-- The comments of a program are written once, each by the list that it stands in, and nothing else is written as a
comment or cannot be printed. -/
theorem marks_pieces {root : Node} (hshaped : root.Shaped) (hhoused : root.Housed) :
    ((root.pieces semicolons).filter Piece.isMark).Perm (root.allComments.map Piece.comment) := by
  obtain ⟨hcomments, hstrays⟩ := housed_iff.1 hhoused
  obtain ⟨body, hashbang, hform⟩ := hshaped.program
  have hbody : ∀ m ∈ body, m.WrittenAs semicolons .statement := by
    intro m hm
    have hchild : m ∈ root.children := by rw [children, hform]; exact hm
    have hmem {k : Node} (hk : k ∈ m.preorder) := mem_preorder_trans (mem_preorder_of_mem_children hchild) hk
    refine writtenAs m (fun k hk => hshaped.roles k (hmem hk)) (fun k hk => hshaped.coherent k (hmem hk))
      (fun k hk => hstrays k (hmem hk)) .statement ?_
    refine hshaped.roles root (mem_preorder_self root) (m, .statement) ?_
    rw [hform]
    exact List.mem_map_of_mem hm
  have hpieces : root.pieces semicolons = seq [onlyIf (hashbang != "") (seq [hashbang, newline, newline]),
      Child.members semicolons none (body.map (child semicolons)), commentLines root.trailing] 0 := by
    unfold pieces
    rw [hform]
    rfl
  -- the program owns no comments before it, and those at its end are written after its statements
  refine Multiset.coe_eq_coe.1 ?_
  change _ = root.marks
  rw [hpieces, marks_eq, hcomments, children, hform]
  change (seq _).marks 0 = _
  simp [Child.marks_members hbody, Form.children, add_comm]

end Node

end ScriptTidy
