/-
Where a node is printed. In the pieces of a tree of the shape that is read stand the pieces of every node
of it, at the depth at which the node is indented. Of the function of a method and of a catch clause only
the core is written, of a shorthand member only the name or the name with its default value, and an
empty statement leaves nothing in a list.
-/
import ScriptTidy.Proofs.Layout.Faults

namespace ScriptTidy

namespace Layout

/-- At every depth what the second layout prints, at some depth, stands in what the first one prints. -/
def Contains (l m : Layout) : Prop := ∀ depth, ∃ deep, m deep <:+: l depth

variable {l m n : Layout} {ls : List Layout}

@[simp] theorem Contains.refl (l : Layout) : l.Contains l := fun depth => ⟨depth, List.infix_rfl⟩

theorem Contains.trans (h : l.Contains m) (h' : m.Contains n) : l.Contains n := by
  intro depth
  obtain ⟨deep, hm⟩ := h depth
  obtain ⟨deeper, hn⟩ := h' deep
  exact ⟨deeper, hn.trans hm⟩

theorem infix_seq (hl : l ∈ ls) (depth : Nat) : l depth <:+: seq ls depth := by
  obtain ⟨before, after, rfl⟩ := List.append_of_mem hl
  exact ⟨before.flatMap (· depth), after.flatMap (· depth), by simp [seq]⟩

@[simp] theorem Contains.seq (h : ∃ l ∈ ls, l.Contains m) : (seq ls).Contains m := by
  obtain ⟨l, hl, h⟩ := h
  intro depth
  obtain ⟨deep, hm⟩ := h depth
  exact ⟨deep, hm.trans (infix_seq hl depth)⟩

@[simp] theorem Contains.deeper (h : l.Contains m) : (deeper l).Contains m := fun depth => h (depth + 1)

theorem Contains.commas : ∀ {ls : List Layout}, l ∈ ls → l.Contains m → (commas ls).Contains m
  | [only], hl, h => by rwa [List.mem_singleton.1 hl] at h
  | first :: second :: rest, hl, h => by
    rcases List.mem_cons.1 hl with rfl | hl
    · exact .seq (by simp [h])
    · exact .seq (by simp [commas hl h])

end Layout

open Layout

namespace Node

/-- The node is printed wherever it stands. -/
def isVisible (n : Node) : Bool :=
  match n.form with
  | .identifier _ | .emptyStatement => false
  | _ => true

theorem form_ne_emptyStatement {n : Node} (h : n.isVisible) : n.form ≠ .emptyStatement := by
  intro hform
  rw [isVisible, hform] at h
  cases h

theorem isIdentifier_eq_false {n : Node} (h : n.isVisible) : n.isIdentifier = false := by
  obtain ⟨info, form⟩ := n
  cases form <;> first | rfl | cases h

end Node

namespace Child

variable {semicolons : Bool} {child : Child} {children : List Child} {m : Layout}

@[simp] theorem contains_optional {slot : Option Child} (hchild : child ∈ slot) (h : child.2.whole.Contains m) :
    (optional slot).Contains m := by
  rw [Option.mem_def.1 hchild]
  exact h

@[simp] theorem contains_after (keyword : String) {slot : Option Child} (hchild : child ∈ slot)
    (h : child.2.whole.Contains m) : (after keyword slot).Contains m := by
  rw [Option.mem_def.1 hchild]
  exact .seq (by simp [h])

theorem contains_list (hchild : child ∈ children) (h : child.2.whole.Contains m) : (list children).Contains m :=
  .commas (List.mem_map_of_mem hchild) h

theorem contains_parenthesized (hchild : child ∈ children) (h : child.2.whole.Contains m) :
    (parenthesized children).Contains m :=
  .seq (by simp [contains_list hchild h])

theorem contains_slots {slots : List (Option Child)} (hchild : child ∈ slots.filterMap id)
    (h : child.2.whole.Contains m) : (Child.slots slots).Contains m := by
  obtain ⟨slot, hslot, hsome⟩ := List.mem_filterMap.1 hchild
  exact .commas (List.mem_map_of_mem hslot) (contains_optional hsome h)

@[simp] theorem contains_key (h : child.2.whole.Contains m) (isComputed : Bool) :
    (child.key isComputed).Contains m := by
  unfold key
  split
  · exact .seq (by simp [h])
  · exact h

@[simp] theorem contains_statement (h : child.2.whole.Contains m) : (statement semicolons child).Contains m :=
  .seq (by simp [h])

/-- Every member of a list is printed, if it is no empty statement. -/
theorem contains_members (hchild : child ∈ children) (hempty : child.1.form ≠ .emptyStatement)
    (h : child.2.whole.Contains m) : ∀ before, (members semicolons before children).Contains m := by
  induction children with
  | nil => cases hchild
  | cons first children ih =>
    intro before
    unfold members
    rcases List.mem_cons.1 hchild with rfl | hchild
    · split
      · next hform => exact absurd hform hempty
      · exact .seq (by simp [h])
    · split
      · exact .seq (by simp [ih hchild])
      · exact .seq (by simp [ih hchild])

/-- Braces around something else than empty statements are written around its lines. -/
theorem members_infix_braced (hchild : child ∈ children) (hempty : child.1.form ≠ .emptyStatement)
    (trailing : List Comment) (depth : Nat) :
    members semicolons none children (depth + 1) <:+: braced semicolons children trailing depth := by
  have hstray : children.all (·.1.isStray) = false := by
    refine List.all_eq_false.2 ⟨child, hchild, ?_⟩
    unfold Node.isStray
    split
    · next hform => exact absurd hform hempty
    · exact Bool.false_ne_true
  rw [braced, hstray, Bool.and_false, if_neg Bool.false_ne_true]
  exact infix_seq (l := deeper (members semicolons none children)) (.tail _ (.tail _ (.head _))) depth

theorem contains_braced (trailing : List Comment) (hchild : child ∈ children)
    (hempty : child.1.form ≠ .emptyStatement) (h : child.2.whole.Contains m) :
    (braced semicolons children trailing).Contains m := by
  intro depth
  obtain ⟨deep, hm⟩ := contains_members hchild hempty h none (depth + 1)
  exact ⟨deep, hm.trans (members_infix_braced hchild hempty trailing depth)⟩

@[simp] theorem contains_body (h : child.2.whole.Contains m) : (body semicolons child).Contains m := by
  have hline : (seq [commentLines child.1.headerComments, pad, statement semicolons child]).Contains m :=
    .seq (by simp [h])
  unfold body
  split
  · exact .seq (by simp [h])
  · exact .seq (by simp [hline])

@[simp] theorem contains_elseBranch (h : child.2.whole.Contains m) : (elseBranch semicolons child).Contains m := by
  unfold elseBranch
  split
  · exact .seq (by simp [h])
  · exact .seq (by simp [h])

theorem contains_functionCore {body : Child} (hchild : child ∈ children ∨ child = body)
    (h : child.2.whole.Contains m) : (functionCore children body).Contains m := by
  rcases hchild with hchild | rfl
  · exact .seq (by simp [contains_parenthesized hchild h])
  · exact .seq (by simp [h])

theorem contains_function {id : Option Child} {core : Layout} (isAsync isGenerator : Bool)
    (h : (∃ name ∈ id, name.2.whole.Contains m) ∨ core.Contains m) :
    (function id core isAsync isGenerator).Contains m := by
  rcases h with ⟨name, hname, h⟩ | h
  · exact .seq (by simp [contains_optional hname h])
  · exact .seq (by simp [h])

theorem contains_classLike {id superclass : Option Child} {body : Child}
    (hchild : child ∈ id ∨ child ∈ superclass ∨ child = body) (h : child.2.whole.Contains m) :
    (classLike id superclass body).Contains m := by
  rcases hchild with hchild | hchild | rfl
  · exact .seq (by simp [contains_after " " hchild h])
  · exact .seq (by simp [contains_after " extends " hchild h])
  · exact .seq (by simp [h])

theorem contains_method (kind : String) {key : Layout} (h : key.Contains m ∨ child.2.core.Contains m) :
    (method kind key child).Contains m := by
  rcases h with h | h
  · exact .seq (by simp [h])
  · exact .seq (by simp [h])

theorem contains_importDeclaration {source : Child} (hchild : child ∈ children ∨ child = source)
    (h : child.2.whole.Contains m) : (Child.importDeclaration children source).Contains m := by
  rcases hchild with hchild | rfl
  · cases hclause : importClause? child with
    | some clause =>
      have heq : clause = child.2.whole := by
        unfold importClause? at hclause
        split at hclause <;> cases hclause <;> rfl
      have hclauses : (commas (children.filterMap importClause?)).Contains m :=
        .commas (List.mem_filterMap.2 ⟨child, hchild, hclause⟩) (heq ▸ h)
      exact .seq (by simp [hclauses])
    | none =>
      have hnamed : child ∈ children.filter fun c => (importClause? c).isNone :=
        List.mem_filter.2 ⟨hchild, by rw [hclause]; rfl⟩
      have hnames : (onlyIf (!(children.filter fun c => (importClause? c).isNone).isEmpty)
          (seq ["\x7b", list (children.filter fun c => (importClause? c).isNone), "\x7d"])).Contains m := by
        rw [List.isEmpty_eq_false_iff.2 (List.ne_nil_of_mem hnamed)]
        exact .seq (by simp [contains_list hnamed h])
      exact .seq (by simp [hnames])
  · exact .seq (by simp [h])

theorem contains_templateRest : ∀ {quasis : List String} {expressions : List Child},
    expressions.length = quasis.length → child ∈ expressions → child.2.whole.Contains m →
      ∃ l ∈ templateRest quasis expressions, l.Contains m
  | [], [], _, hchild, _ => nomatch hchild
  | quasi :: quasis, expression :: expressions, hlength, hchild, h => by
    rcases List.mem_cons.1 hchild with rfl | hchild
    · exact ⟨_, List.mem_cons_self, .seq (by simp [h])⟩
    · obtain ⟨l, hl, hcontains⟩ := contains_templateRest (Nat.succ.inj hlength) hchild h
      exact ⟨l, List.mem_cons_of_mem _ hl, hcontains⟩

theorem contains_template {quasis : List String} (hlength : quasis.length = children.length + 1)
    (hchild : child ∈ children) (h : child.2.whole.Contains m) : (template quasis children).Contains m := by
  cases quasis with
  | nil => cases hlength
  | cons quasi quasis =>
    have hrest : (seq (templateRest quasis children)).Contains m :=
      .seq (contains_templateRest (Nat.succ.inj hlength).symm hchild h)
    exact .seq (by simp [hrest])

theorem contains_lines (opening closing : String) {l : Layout} {ls : List Layout} (trailing : List Comment)
    (hl : l ∈ ls) (h : l.Contains m) : (lines opening closing ls trailing).Contains m := by
  have hls : (seq ls).Contains m := .seq ⟨l, hl, h⟩
  rw [lines, List.isEmpty_eq_false_iff.2 (List.ne_nil_of_mem hl), Bool.false_and, if_neg Bool.false_ne_true]
  exact .seq (by simp [hls])

/-- What is printed of a child in a role. -/
def shown (role : Role) (child : Child) : Layout :=
  match role with
  | .handler | .method => child.2.core
  | _ => child.2.whole

theorem shown_eq_whole {role : Role} (hhandler : role ≠ .handler) (hmethod : role ≠ .method) (child : Child) :
    child.shown role = child.2.whole := by
  cases role <;> first | rfl | exact absurd rfl hhandler | exact absurd rfl hmethod

theorem contains_property_key {key : Child} (value : Child) (kind : String) (isMethod isComputed : Bool)
    (h : key.2.whole.Contains m) : (Child.property key value kind isMethod false isComputed).Contains m := by
  have hkey : (key.key isComputed).Contains m := contains_key h isComputed
  unfold Child.property
  rw [if_neg Bool.false_ne_true]
  split
  · exact contains_method kind (.inl hkey)
  · exact .seq (by simp [hkey])

theorem contains_property_value {value : Child} {kind : String} {isMethod : Bool}
    (hfits : value.1.form.fits (if Form.isMethodLike kind isMethod false then .method else .inner)) (key : Child)
    (isComputed : Bool) : (Child.property key value kind isMethod false isComputed).Contains
      (value.shown (if Form.isMethodLike kind isMethod false then .method else .inner)) := by
  have hlike : (isMethod || kind != "init") = Form.isMethodLike kind isMethod false := rfl
  unfold Child.property
  rw [if_neg Bool.false_ne_true, hlike]
  cases hmethod : Form.isMethodLike kind isMethod false with
  | true =>
    rw [hmethod] at hfits
    have hfunction : value.1.isFunctionExpression = true := by
      obtain ⟨⟨info, form⟩, _⟩ := value
      cases form <;> first | rfl | cases hfits
    rw [hfunction]
    exact contains_method kind (.inr (.refl _))
  | false => exact .seq (by simp [shown])

theorem contains_property_shorthand {value : Child} (hvisible : value.1.isVisible)
    (hvalue : (match value.1.form with
      | .identifier _ | .assignmentPattern .. => true
      | _ => false) = true) (key : Child) (kind : String) (isMethod isComputed : Bool) :
    (Child.property key value kind isMethod true isComputed).Contains value.2.whole := by
  obtain ⟨⟨info, form⟩, printed⟩ := value
  cases form
  case identifier => cases hvisible
  case assignmentPattern => exact .refl _
  all_goals cases hvalue

end Child

/-! ## Forms -/

namespace Form

variable {m : Layout} {child : Child}

theorem markRoles_map {α β : Type} (f : α → β) (form : Form α) :
    (form.map f).markRoles = form.markRoles.map fun part => (f part.1, part.2) := by
  cases form <;> simp [map, markRoles, Function.comp_def]

theorem isFragment_map {α β : Type} (f : α → β) (form : Form α) : (form.map f).isFragment = form.isFragment := by
  cases form <;> rfl

theorem fits_map {α β : Type} (f : α → β) (form : Form α) (role : Role) : (form.map f).fits role = form.fits role := by
  cases form
  case functionExpression id params body isAsync isGenerator => cases id <;> cases role <;> rfl
  all_goals cases role <;> rfl

theorem isFragment_eq_false {α : Type} {form : Form α} {role : Role} (hfits : form.fits role)
    (hrole : role ≠ .handler) : form.isFragment = false := by
  cases form
  case program => cases role <;> cases hfits
  case catchClause => cases role <;> first | exact absurd rfl hrole | cases hfits
  all_goals rfl

/-- Of a part of the node only the core may be printed. -/
def hasCore {α : Type} : Form α → Bool
  | .tryStatement .. | .methodDefinition .. | .property .. => true
  | _ => false

/-- The parts of most nodes are printed whole. -/
theorem contains_of_mem_children {form : Form Child} (hfragment : form.isFragment = false)
    (hcore : form.hasCore = false)
    (hcoherent : (form.map (·.1)).isCoherent) (hchild : child ∈ form.children) (hvisible : child.1.isVisible)
    (h : child.2.whole.Contains m) (semicolons : Bool) (trailing : List Comment) :
    (form.layout semicolons trailing).Contains m := by
  have hempty := Node.form_ne_emptyStatement hvisible
  cases form
  all_goals
    simp only [children, List.mem_append, List.mem_cons, List.not_mem_nil, or_false, Option.mem_toList] at hchild
  case program | catchClause => cases hfragment
  case tryStatement | methodDefinition | property => cases hcore
  case blockStatement | classBody => exact Child.contains_braced trailing hchild hempty h
  case ifStatement test consequent alternate =>
    rcases hchild with (rfl | rfl) | halternate
    · exact .seq (by simp [h])
    · exact .seq (by simp [h])
    · cases halternate
      have helse : (seq [consequent.afterBody, child.elseBranch semicolons]).Contains m := .seq (by simp [h])
      exact .seq (by simp [helse])
  case forStatement init test update body =>
    rcases hchild with ((hchild | hchild) | hchild) | rfl
    · exact .seq (by simp [Child.contains_optional hchild h])
    · exact .seq (by simp [Child.contains_after " " hchild h])
    · exact .seq (by simp [Child.contains_after " " hchild h])
    · exact .seq (by simp [h])
  case switchStatement discriminant cases =>
    rcases hchild with rfl | hchild
    · exact .seq (by simp [h])
    · have hlines : (seq (cases.map Child.caseLines)).Contains m :=
        .seq ⟨child.caseLines, List.mem_map_of_mem hchild, .seq (by simp [h])⟩
      have hbraced : (seq ["\x7b", newline, seq (cases.map Child.caseLines), deeper (commentLines trailing), pad,
          "\x7d"]).Contains m := .seq (by simp [hlines])
      have hcases : cases.isEmpty = false := List.isEmpty_eq_false_iff.2 (List.ne_nil_of_mem hchild)
      exact .seq (by simp [hcases, hbraced])
  case switchCase test consequent =>
    rcases hchild with hchild | hchild
    · cases hchild
      have htest : (seq ["case ", child.2.whole, ":"]).Contains m := .seq (by simp [h])
      exact .seq (by simp [htest])
    · exact .seq (by simp [Child.contains_members hchild hempty h])
  case returnStatement argument | breakStatement argument | continueStatement argument =>
    exact .seq (by simp [Child.contains_after " " hchild h])
  case yieldExpression argument isDelegate => exact .seq (by simp [Child.contains_after " " hchild h])
  case variableDeclarator id init =>
    rcases hchild with rfl | hchild
    · exact .seq (by simp [h])
    · exact .seq (by simp [Child.contains_after " = " hchild h])
  case propertyDefinition key value isStatic isComputed =>
    rcases hchild with rfl | hchild
    · exact .seq (by simp [h])
    · exact .seq (by simp [Child.contains_after " = " hchild h])
  case importSpecifier imported name | exportSpecifier imported name =>
    rcases hchild with rfl | hchild
    · exact .seq (by simp [h])
    · exact .seq (by simp [Child.contains_after " as " hchild h])
  case exportAllDeclaration exported source =>
    rcases hchild with hchild | rfl
    · exact .seq (by simp [Child.contains_after " as " hchild h])
    · exact .seq (by simp [h])
  case variableDeclaration kind declarations => exact .seq (by simp [Child.contains_list hchild h])
  case sequenceExpression expressions => exact Child.contains_list hchild h
  case objectPattern properties => exact .seq (by simp [Child.contains_list hchild h])
  case arrayPattern elements => exact .seq (by simp [Child.contains_slots hchild h])
  case importDeclaration specifiers source => exact Child.contains_importDeclaration hchild h
  case exportNamedDeclaration declaration specifiers source =>
    cases declaration with
    | some declaration =>
      obtain ⟨hspecifiers, hsource⟩ := Bool.and_eq_true_iff.1 hcoherent
      rw [List.isEmpty_iff, List.map_eq_nil_iff] at hspecifiers
      rw [Option.isNone_iff_eq_none, Option.map_eq_none_iff] at hsource
      subst hspecifiers hsource
      simp only [Option.some.injEq, List.not_mem_nil, or_false, reduceCtorEq] at hchild
      subst hchild
      exact .seq (by simp [h])
    | none =>
      rcases hchild with (hchild | hchild) | hchild
      · cases hchild
      · exact .seq (by simp [Child.contains_list hchild h])
      · exact .seq (by simp [Child.contains_after " from " hchild h])
  case templateLiteral quasis expressions =>
    have hlength : quasis.length = (expressions.map (·.1)).length + 1 := beq_iff_eq.1 hcoherent
    rw [List.length_map] at hlength
    exact Child.contains_template hlength hchild h
  case functionDeclaration id params body isAsync isGenerator =>
    rcases hchild with (rfl | hchild) | hchild
    · exact Child.contains_function _ _ (.inl ⟨child, rfl, h⟩)
    · exact Child.contains_function _ _ (.inr (Child.contains_functionCore (.inl hchild) h))
    · exact Child.contains_function _ _ (.inr (Child.contains_functionCore (.inr hchild) h))
  case functionExpression id params body isAsync isGenerator =>
    rcases hchild with (hchild | hchild) | hchild
    · exact Child.contains_function _ _ (.inl ⟨child, hchild, h⟩)
    · exact Child.contains_function _ _ (.inr (Child.contains_functionCore (.inl hchild) h))
    · exact Child.contains_function _ _ (.inr (Child.contains_functionCore (.inr hchild) h))
  case classDeclaration id superclass body =>
    rcases hchild with (rfl | hchild) | hchild
    · exact Child.contains_classLike (.inl rfl) h
    · exact Child.contains_classLike (.inr (.inl hchild)) h
    · exact Child.contains_classLike (.inr (.inr hchild)) h
  case classExpression id superclass body =>
    rcases hchild with (hchild | hchild) | hchild
    · exact Child.contains_classLike (.inl hchild) h
    · exact Child.contains_classLike (.inr (.inl hchild)) h
    · exact Child.contains_classLike (.inr (.inr hchild)) h
  case arrowFunctionExpression params body isAsync =>
    rcases hchild with hchild | rfl
    · have hparams : (Child.arrowParams params).Contains m := by
        unfold Child.arrowParams
        split
        · exact Child.contains_list hchild h
        · exact Child.contains_parenthesized hchild h
      exact .seq (by simp [hparams])
    · exact .seq (by simp [h])
  case callExpression callee arguments isOptional =>
    rcases hchild with rfl | hchild
    · exact .seq (by simp [h])
    · exact .seq (by simp [Child.contains_parenthesized hchild h])
  case newExpression callee arguments =>
    rcases hchild with rfl | hchild
    · exact .seq (by simp [h])
    · exact .seq (by simp [Child.contains_parenthesized hchild h])
  case arrayExpression elements =>
    obtain ⟨slot, hslot, hsome⟩ := List.mem_filterMap.1 hchild
    cases hsome
    exact Child.contains_lines _ _ trailing (List.mem_map_of_mem hslot) (.seq (by simp [h]))
  case objectExpression properties =>
    exact Child.contains_lines _ _ trailing (List.mem_map_of_mem hchild) (.seq (by simp [h]))
  case updateExpression operator argument isPrefix =>
    subst hchild
    cases isPrefix
    · exact .seq (by simp [h])
    · exact .seq (by simp [h])
  case memberExpression object name isComputed isOptional =>
    rcases hchild with rfl | rfl
    · exact .seq (by simp [h])
    · have hname : (if isComputed then seq ["[", child.2.whole, "]"]
          else seq [onlyIf (!isOptional) ".", child.2.whole]).Contains m := by
        split
        · exact .seq (by simp [h])
        · exact .seq (by simp [h])
      exact .seq (by simp [hname])
  case whileStatement | doWhileStatement | labeledStatement | taggedTemplateExpression | metaProperty
      | binaryExpression | logicalExpression | assignmentExpression | assignmentPattern =>
    rcases hchild with rfl | rfl
    · exact .seq (by simp [h])
    · exact .seq (by simp [h])
  case forInStatement | forOfStatement | conditionalExpression =>
    rcases hchild with rfl | rfl | rfl
    · exact .seq (by simp [h])
    · exact .seq (by simp [h])
    · exact .seq (by simp [h])
  case expressionStatement | importDefaultSpecifier =>
    subst hchild
    exact h
  case throwStatement | importNamespaceSpecifier | exportDefaultDeclaration | unaryExpression | parenthesizedExpression
      | spreadElement | awaitExpression | restElement =>
    subst hchild
    exact .seq (by simp [h])

/-- What is printed of a part of a node in its role stands in what is printed of the node. -/
theorem contains_shown {form : Form Child} {role : Role} (hfragment : form.isFragment = false)
    (hcoherent : (form.map (·.1)).isCoherent) (hchild : (child, role) ∈ form.markRoles.children)
    (hfits : child.1.form.fits role) (hvisible : child.1.isVisible) (semicolons : Bool) (trailing : List Comment) :
    (form.layout semicolons trailing).Contains (child.shown role) := by
  cases hcore : form.hasCore with
  | false =>
    have hpart : child ∈ form.children := by
      rw [← children_markRoles]
      exact List.mem_map_of_mem hchild
    have hrole : role ≠ .handler ∧ role ≠ .method := by
      constructor
      all_goals
        rintro rfl
        cases form
        case tryStatement | methodDefinition | property => cases hcore
        all_goals simp [markRoles, children, map] at hchild
    rw [Child.shown_eq_whole hrole.1 hrole.2]
    exact contains_of_mem_children hfragment hcore hcoherent hpart hvisible (.refl _) semicolons trailing
  | true =>
    cases form
    case tryStatement block handler finalizer =>
      simp only [markRoles, children, List.mem_append, List.mem_cons, List.not_mem_nil, or_false, Option.mem_toList,
        Option.map_eq_some_iff, Prod.mk.injEq] at hchild
      rcases hchild with (⟨rfl, rfl⟩ | ⟨clause, rfl, rfl, rfl⟩) | ⟨clause, rfl, rfl, rfl⟩
      · exact .seq (by simp [Child.shown])
      · have hcatch : (seq [" catch ", clause.2.core]).Contains clause.2.core := .seq (by simp)
        exact .seq (by simp [hcatch, Child.shown])
      · exact .seq (by simp [Child.contains_after " finally " rfl (.refl clause.2.whole), Child.shown])
    case methodDefinition key value kind isStatic isComputed =>
      simp only [markRoles, children, List.mem_cons, List.not_mem_nil, or_false, Prod.mk.injEq] at hchild
      rcases hchild with ⟨rfl, rfl⟩ | ⟨rfl, rfl⟩
      · exact .seq (by simp [Child.contains_method kind (.inl (Child.contains_key (.refl _) isComputed)), Child.shown])
      · exact .seq (by simp [Child.contains_method kind (.inr (.refl _)), Child.shown])
    case property key value kind isMethod isShorthand isComputed =>
      simp only [markRoles, children, List.mem_cons, List.not_mem_nil, or_false, Prod.mk.injEq] at hchild
      cases isShorthand with
      | true =>
        -- a shorthand member has a name for its key, and is written with its default value if it has one
        obtain ⟨hkey, hvalue⟩ := Bool.and_eq_true_iff.1 hcoherent
        rcases hchild with ⟨rfl, rfl⟩ | ⟨rfl, rfl⟩
        · rw [Node.isIdentifier_eq_false hvisible] at hkey
          cases hkey
        · exact Child.contains_property_shorthand hvisible hvalue key kind isMethod isComputed
      | false =>
        rcases hchild with ⟨rfl, rfl⟩ | ⟨rfl, rfl⟩
        · exact Child.contains_property_key value kind isMethod isComputed (.refl _)
        · exact Child.contains_property_value hfits key isComputed
    all_goals cases hcore

/-- What follows the name of a function, or the keyword of a catch clause, has the other parts. -/
theorem contains_core {form : Form Child} {role role' : Role} (hfits : form.fits role)
    (hcore : role = .handler ∨ role = .method) (hchild : (child, role') ∈ form.markRoles.children) :
    form.core.Contains (child.shown role') := by
  rcases hcore with rfl | rfl
  · cases form
    case catchClause param body =>
      simp only [markRoles, map, children, List.mem_append, List.mem_cons, List.not_mem_nil, or_false,
        Option.mem_toList, Option.map_eq_some_iff, Prod.mk.injEq] at hchild
      rcases hchild with ⟨param, rfl, rfl, rfl⟩ | ⟨rfl, rfl⟩
      · have hparam : (seq ["(", param.2.whole, ") "]).Contains param.2.whole := .seq (by simp)
        exact .seq (by simp [hparam, Child.shown])
      · exact .seq (by simp [Child.shown])
    all_goals cases hfits
  · cases form
    case functionExpression id params body isAsync isGenerator =>
      cases id with
      | some id => cases hfits
      | none =>
        simp only [markRoles, map, children, List.mem_append, List.mem_cons, List.not_mem_nil, or_false,
          Option.map_none, Option.toList_none, false_or, List.mem_map, Prod.mk.injEq] at hchild
        rcases hchild with ⟨_, hparam, rfl, rfl⟩ | ⟨rfl, rfl⟩
        · exact Child.contains_functionCore (.inl hparam) (.refl _)
        · exact Child.contains_functionCore (.inr rfl) (.refl _)
    all_goals cases hfits

end Form

/-! ## Trees -/

namespace Node

variable {root n m : Node} {role : Role} {semicolons : Bool}

/-- Every part of a node of the tree can stand where it stands, and the parts of every node belong together. -/
structure Fitting (n : Node) : Prop where
  roles : ∀ m ∈ n.preorder, ∀ part ∈ m.form.markRoles.children, part.1.form.fits part.2
  coherent : ∀ m ∈ n.preorder, m.form.isCoherent

theorem Shaped.fitting (h : root.Shaped) : root.Fitting := ⟨h.roles, h.coherent⟩

theorem Fitting.of_mem (h : n.Fitting) (hm : m ∈ n.preorder) : m.Fitting :=
  ⟨fun k hk => h.roles k (mem_preorder_trans hm hk), fun k hk => h.coherent k (mem_preorder_trans hm hk)⟩

theorem Fitting.child (h : n.Fitting) (hm : m ∈ n.children) : m.Fitting := h.of_mem (mem_preorder_of_mem_children hm)

theorem mem_children_of_mem_markRoles (h : (m, role) ∈ n.form.markRoles.children) : m ∈ n.children := by
  rw [children, ← Form.children_markRoles]
  exact List.mem_map_of_mem h

/-- What is printed of a part of a node stands in what is printed of the node. -/
theorem contains_child (h : n.Fitting) (hfits : n.form.fits role) {role' : Role}
    (hm : (m, role') ∈ n.form.markRoles.children) (hvisible : m.isVisible) :
    ((n.child semicolons).shown role).Contains ((m.child semicolons).shown role') := by
  have hpart : (m.child semicolons, role') ∈ (n.form.map (child semicolons)).markRoles.children := by
    rw [Form.markRoles_map, Form.children_map]
    exact List.mem_map_of_mem (f := fun part : Node × Role => (part.1.child semicolons, part.2)) hm
  have hmap : (n.form.map (child semicolons)).map (·.1) = n.form := by
    rw [Form.map_map]
    exact Form.map_eq_self fun _ _ => rfl
  have hprinted : (n.child semicolons).2 =
      ⟨(n.form.map (child semicolons)).layout semicolons n.trailing, (n.form.map (child semicolons)).core⟩ :=
    printed_eq n
  by_cases hcore : role = .handler ∨ role = .method
  · have hshown : (n.child semicolons).shown role = (n.form.map (child semicolons)).core := by
      rcases hcore with rfl | rfl
      · exact congrArg Printed.core hprinted
      · exact congrArg Printed.core hprinted
    rw [hshown]
    exact Form.contains_core (by rw [Form.fits_map]; exact hfits) hcore hpart
  · obtain ⟨hhandler, hmethod⟩ := not_or.1 hcore
    rw [Child.shown_eq_whole hhandler hmethod, hprinted]
    refine Form.contains_shown ?_ ?_ hpart (h.roles n (mem_preorder_self n) _ hm) hvisible semicolons n.trailing
    · rw [Form.isFragment_map]
      exact Form.isFragment_eq_false hfits hhandler
    · rw [hmap]
      exact h.coherent n (mem_preorder_self n)

theorem children_of_not_isVisible (h : n.isVisible = false) : n.children = [] := by
  obtain ⟨info, form⟩ := n
  cases form <;> first | rfl | cases h

/-- A node that is not printed has nothing below it that is. -/
theorem isVisible_of_mem_preorder (hm : m ∈ n.preorder) (hvisible : m.isVisible) : n.isVisible := by
  by_contra hnot
  rw [preorder_eq, children_of_not_isVisible (Bool.eq_false_iff.2 hnot), List.flatMap_nil, List.mem_singleton] at hm
  exact hnot (hm ▸ hvisible)

/-- Every visible node of a tree is printed in a role that it can have, in what is printed of the tree. -/
theorem exists_contains (semicolons : Bool) (h : n.Fitting) (hfits : n.form.fits role) (hm : m ∈ n.preorder)
    (hvisible : m.isVisible) :
    ∃ role', m.form.fits role' ∧ ((n.child semicolons).shown role).Contains ((m.child semicolons).shown role') := by
  induction n using byChildren generalizing role with
  | node n ih =>
    rw [preorder_eq, List.mem_cons, List.mem_flatMap] at hm
    rcases hm with rfl | ⟨k, hk, hm⟩
    · exact ⟨role, hfits, .refl _⟩
    · have hchild := hk
      rw [children, ← Form.children_markRoles, List.mem_map] at hchild
      obtain ⟨⟨part, role'⟩, hrole, heq⟩ := hchild
      obtain rfl : part = k := heq
      have hprinted := isVisible_of_mem_preorder hm hvisible
      obtain ⟨role'', hfits'', hcontains⟩ := ih part hk (h.child hk) (h.roles n (mem_preorder_self n) _ hrole) hm
      exact ⟨role'', hfits'', (contains_child h hfits hrole hprinted).trans hcontains⟩

/-- The members of a program stand in its pieces. -/
theorem members_infix_pieces {body : List Node} {hashbang : String} (hform : root.form = .program body hashbang) :
    Child.members semicolons none (body.map (child semicolons)) 0 <:+: root.pieces semicolons := by
  have hpieces : root.pieces semicolons = seq [onlyIf (hashbang != "") (seq [hashbang, newline, newline]),
      Child.members semicolons none (body.map (child semicolons)), commentLines root.trailing] 0 := by
    rw [pieces, hform]
    rfl
  rw [hpieces]
  refine ⟨onlyIf (hashbang != "") (seq [hashbang, newline, newline]) 0, commentLines root.trailing 0, ?_⟩
  simp [seq]

/-- Every visible node below the root is printed, as a whole unless it is the function of a method or a catch clause. -/
theorem Shaped.exists_infix (h : root.Shaped) (hm : m ∈ root.preorder) (hvisible : m.isVisible)
    (semicolons : Bool) : m = root ∨ ∃ role, m.form.fits role ∧
      ∃ depth, (m.child semicolons).shown role depth <:+: root.pieces semicolons := by
  obtain ⟨body, hashbang, hform⟩ := h.program
  rw [preorder_eq, List.mem_cons, List.mem_flatMap] at hm
  rcases hm with rfl | ⟨k, hk, hm⟩
  · exact .inl rfl
  · right
    have hrole : (k, Role.statement) ∈ root.form.markRoles.children := by
      rw [children, hform] at hk
      rw [hform]
      exact List.mem_map_of_mem hk
    obtain ⟨role, hfits, hcontains⟩ :=
      exists_contains semicolons (h.fitting.child hk) (h.roles root (mem_preorder_self root) _ hrole) hm hvisible
    have hbody : k.child semicolons ∈ body.map (child semicolons) := by
      rw [children, hform] at hk
      exact List.mem_map_of_mem hk
    have hempty := form_ne_emptyStatement (isVisible_of_mem_preorder hm hvisible)
    have hmembers : (Child.members semicolons none (body.map (child semicolons))).Contains
        ((m.child semicolons).shown role) := Child.contains_members hbody hempty hcontains none
    obtain ⟨depth, hinfix⟩ := hmembers 0
    exact ⟨role, hfits, depth, hinfix.trans (members_infix_pieces hform)⟩

/-- A node that is printed whole wherever it stands. -/
theorem Shaped.exists_whole_infix (h : root.Shaped) (hm : m ∈ root.preorder) (hvisible : m.isVisible)
    (hfragment : m.form.isFragment = false) (hfunction : m.isFunctionExpression = false) (semicolons : Bool) :
    ∃ depth, (m.printed semicolons).whole depth <:+: root.pieces semicolons := by
  rcases h.exists_infix hm hvisible semicolons with rfl | ⟨role, hfits, hinfix⟩
  · obtain ⟨body, hashbang, hform⟩ := h.program
    rw [hform] at hfragment
    cases hfragment
  · have hshown : (m.child semicolons).shown role = (m.printed semicolons).whole := by
      obtain ⟨info, form⟩ := m
      cases form
      case program | catchClause => cases hfragment
      case functionExpression => cases hfunction
      all_goals exact Child.shown_eq_whole (by rintro rfl; cases hfits) (by rintro rfl; cases hfits) _
    rwa [hshown] at hinfix

end Node

end ScriptTidy
