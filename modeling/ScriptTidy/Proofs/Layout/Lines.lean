/-
Comments have lines of their own. Whatever a tree looks like, its layout is built from texts, line
ends and indents, and of comments it writes whole lists only. Each comment of such a list is written
after the indent of a new line, and the line ends after it.

Faults come into a layout from few kinds of node. A node that is none of these is printed without a
fault if its parts are; of the handler of a try statement only the core is printed, so that it can be
printed although a catch clause by itself cannot.
-/
import ScriptTidy.Layout.Print
import ScriptTidy.Proofs.Layout.Pieces
import ScriptTidy.Proofs.Syntax.Addresses

namespace ScriptTidy

/-! ## Lists of pieces -/

namespace Piece

theorem lined_nil : Lined [] := fun before c after h => by simp at h

theorem lined_singleton {p : Piece} (h : ∀ c, p ≠ comment c) : Lined [p] := by
  intro before c after hp
  rcases before with _ | ⟨q, before⟩
  · exact absurd (List.cons.inj hp).1 (h c)
  · simp at hp

theorem Lined.append {a b : List Piece} (ha : Lined a) (hb : Lined b) : Lined (a ++ b) := by
  intro before c after h
  -- the comment stands in one of the two lists; were it the first of the second, nothing would stand before it
  rcases List.append_eq_append_iff.1 h with ⟨more, rfl, rfl⟩ | ⟨more, rfl, hmore⟩
  · obtain ⟨⟨front, depth, rfl⟩, hafter⟩ := hb more c after rfl
    exact ⟨⟨a ++ front, depth, (List.append_assoc ..).symm⟩, hafter⟩
  · rcases more with _ | ⟨p, more⟩
    · obtain ⟨⟨front, depth, hfront⟩, -⟩ := hb [] c after hmore.symm
      simp at hfront
    · obtain ⟨rfl, rfl⟩ := List.cons.inj hmore
      obtain ⟨hbefore, rest, rfl⟩ := ha before _ more rfl
      exact ⟨hbefore, rest ++ b, rfl⟩

/-- A comment after an indent may stand before what begins with a newline. -/
theorem Lined.cons_comment {ps : List Piece} (h : Lined (newline :: ps)) (depth : Nat) (c : Comment) :
    Lined (newline :: indent depth :: comment c :: newline :: ps) := by
  intro before c' after hp
  rcases before with _ | ⟨p, _ | ⟨q, _ | ⟨r, before⟩⟩⟩
  · cases hp
  · cases hp
  · cases hp
    exact ⟨⟨[], depth, rfl⟩, ps, rfl⟩
  · simp only [List.cons_append, List.cons.injEq] at hp
    obtain ⟨rfl, rfl, rfl, hp⟩ := hp
    obtain ⟨⟨front, depth', rfl⟩, hafter⟩ := h before c' after hp
    exact ⟨⟨newline :: indent depth :: comment c :: front, depth', rfl⟩, hafter⟩

theorem fault?_eq_none {pieces : List Piece} (h : ∀ f, fault f ∉ pieces) : fault? pieces = none := by
  refine List.findSome?_eq_none_iff.2 fun p hp => ?_
  cases p <;> first | rfl | exact absurd hp (h _)

end Piece

/-! ## Layouts -/

namespace Layout

/-- What layouts with only faults of the given kinds are built from. Comments are written in whole lists only. -/
inductive Built (F : PrintFault → Prop) : Layout → Prop
  | text (s : String) : Built F (text s)
  | nothing : Built F nothing
  | newline : Built F newline
  | pad : Built F pad
  /-- A raw text stands behind the mark with which a template begins or goes on. -/
  | raw {mark : String} (hmark : mark ∈ ["\x60", "\x7d"]) (s : String) : Built F (seq [mark, verbatim s])
  | fault {f : PrintFault} : F f → Built F (fault f)
  | commentLines (comments : List Comment) : Built F (commentLines comments)
  | seq {ls : List Layout} : (∀ l ∈ ls, Built F l) → Built F (seq ls)
  | deeper {l : Layout} : Built F l → Built F (deeper l)

attribute [simp] Built.text Built.nothing Built.newline Built.pad Built.fault Built.commentLines Built.seq Built.deeper

variable {F : PrintFault → Prop} {l m : Layout} {ls : List Layout}

@[simp] theorem Built.ite (b : Prop) [Decidable b] (hl : Built F l) (hm : Built F m) :
    Built F (if b then l else m) := by
  split
  · exact hl
  · exact hm

@[simp] theorem Built.onlyIf (b : Bool) (h : Built F l) : Built F (onlyIf b l) := .ite _ h .nothing

theorem Built.commas : ∀ {ls : List Layout}, (∀ l ∈ ls, Built F l) → Built F (commas ls)
  | [], _ => .nothing
  | [only], h => h only (List.mem_cons_self ..)
  | first :: second :: rest, h => by
    have hrest : Built F (Layout.commas (second :: rest)) := commas fun l hl => h l (List.mem_cons_of_mem _ hl)
    exact .seq (by simp [h first (List.mem_cons_self ..), hrest])

theorem lined_commentLines (comments : List Comment) (depth : Nat) : Piece.Lined (commentLines comments depth) := by
  unfold commentLines
  split
  case isTrue => exact Piece.lined_nil
  case isFalse hne =>
    clear hne
    induction comments with
    | nil => exact Piece.lined_singleton fun _ h => nomatch h
    | cons c comments ih => exact ih.cons_comment depth c

theorem lined_seq {depth : Nat} (h : ∀ l ∈ ls, Piece.Lined (l depth)) : Piece.Lined (seq ls depth) := by
  induction ls with
  | nil => exact Piece.lined_nil
  | cons l ls ih => exact (h l (List.mem_cons_self ..)).append (ih fun m hm => h m (List.mem_cons_of_mem _ hm))

/-- What is built gives every comment a line of its own. -/
theorem Built.lined (h : Built F l) : ∀ depth, Piece.Lined (l depth) := by
  induction h with
  | text | newline | pad | fault _ => exact fun _ => Piece.lined_singleton fun _ h => nomatch h
  | nothing => exact fun _ => Piece.lined_nil
  | raw =>
    exact fun _ => .append (Piece.lined_singleton fun _ h => nomatch h) (Piece.lined_singleton fun _ h => nomatch h)
  | commentLines comments => exact lined_commentLines comments
  | seq _ ih => exact fun depth => lined_seq fun l hl => ih l hl depth
  | deeper _ ih => exact fun depth => ih (depth + 1)

end Layout

open Layout

/-! ## Children -/

namespace Child

/-- What the child is printed as is built. -/
structure IsBuilt (F : PrintFault → Prop) (child : Child) : Prop where
  whole : Built F child.2.whole
  core : Built F child.2.core

/-- All children are built. -/
def AllBuilt (F : PrintFault → Prop) (children : List Child) : Prop := ∀ child ∈ children, child.IsBuilt F

variable {F : PrintFault → Prop} {semicolons : Bool} {child : Child} {children : List Child}

@[simp] theorem allBuilt_nil : AllBuilt F [] := fun _ h => nomatch h

@[simp] theorem allBuilt_cons : AllBuilt F (child :: children) ↔ child.IsBuilt F ∧ AllBuilt F children :=
  List.forall_mem_cons

@[simp] theorem allBuilt_append {others : List Child} :
    AllBuilt F (children ++ others) ↔ AllBuilt F children ∧ AllBuilt F others :=
  List.forall_mem_append

theorem allBuilt_of_parts (hcore : ∀ child ∈ children, Built F child.2.core)
    (hwhole : ∀ child ∈ children, Built F child.2.whole) : AllBuilt F children :=
  fun child hchild => ⟨hwhole child hchild, hcore child hchild⟩

@[simp] theorem built_optional {child : Option Child} (h : AllBuilt F child.toList) : Built F (optional child) := by
  cases child with
  | none => exact .nothing
  | some child => exact (h child (List.mem_singleton_self _)).whole

@[simp] theorem built_after (keyword : String) {child : Option Child} (h : AllBuilt F child.toList) :
    Built F (after keyword child) := by
  cases child with
  | none => exact .nothing
  | some child => exact .seq (by simp [(h child (List.mem_singleton_self _)).whole])

@[simp] theorem built_list (h : AllBuilt F children) : Built F (list children) := by
  refine .commas fun l hl => ?_
  obtain ⟨child, hchild, rfl⟩ := List.mem_map.1 hl
  exact (h child hchild).whole

@[simp] theorem built_slots {children : List (Option Child)} (h : AllBuilt F (children.filterMap id)) :
    Built F (slots children) := by
  refine .commas fun l hl => ?_
  obtain ⟨child, hchild, rfl⟩ := List.mem_map.1 hl
  refine built_optional fun c hc => h c (List.mem_filterMap.2 ⟨child, hchild, ?_⟩)
  exact Option.mem_toList.1 hc

@[simp] theorem built_parenthesized (h : AllBuilt F children) : Built F (parenthesized children) := .seq (by simp [h])

@[simp] theorem built_key (h : child.IsBuilt F) (isComputed : Bool) : Built F (child.key isComputed) :=
  .ite _ (.seq (by simp [h.whole])) h.whole

@[simp] theorem built_functionCore (hchildren : AllBuilt F children) (h : child.IsBuilt F) :
    Built F (functionCore children child) :=
  .seq (by simp [hchildren, h.whole])

@[simp] theorem built_statement (h : child.IsBuilt F) : Built F (statement semicolons child) := by
  have hterminator : Built F (child.1.terminator semicolons) := by
    unfold Node.terminator
    split
    · exact .text _
    · exact .onlyIf _ (.text _)
  exact .seq (by simp [h.whole, hterminator])

@[simp] theorem built_members (h : AllBuilt F children) : ∀ before, Built F (members semicolons before children) := by
  induction children with
  | nil => exact fun _ => .nothing
  | cons child children ih =>
    intro before
    obtain ⟨hchild, hchildren⟩ := allBuilt_cons.1 h
    unfold members
    split
    · exact .seq (by simp [ih hchildren])
    · exact .seq (by simp [ih hchildren, hchild])

@[simp] theorem built_braced (h : AllBuilt F children) (trailing : List Comment) :
    Built F (braced semicolons children trailing) :=
  .ite _ (.text _) (.seq (by simp [h]))

@[simp] theorem built_body (h : child.IsBuilt F) : Built F (body semicolons child) := by
  have hline : Built F (seq [commentLines child.1.headerComments, pad, statement semicolons child]) :=
    .seq (by simp [h])
  exact .ite _ (.seq (by simp [h.whole])) (.seq (by simp [hline]))

@[simp] theorem built_afterBody (child : Child) : Built F child.afterBody := .ite _ (.text _) (.seq (by simp))

@[simp] theorem built_elseBranch (h : child.IsBuilt F) : Built F (elseBranch semicolons child) := by
  unfold elseBranch
  split
  · exact .seq (by simp [h.whole])
  · exact .seq (by simp [h])

@[simp] theorem built_binary (operator : String) {left right : Child} (hleft : left.IsBuilt F)
    (hright : right.IsBuilt F) : Built F (binary operator left right) :=
  .seq (by simp [hleft.whole, hright.whole])

@[simp] theorem built_memberOf {object name : Child} (hobject : object.IsBuilt F) (hname : name.IsBuilt F)
    (isComputed isOptional : Bool) : Built F (object.memberOf name isComputed isOptional) := by
  have hafter : Built F (if isComputed then seq ["[", name, "]"] else seq [onlyIf (!isOptional) ".", name]) :=
    .ite _ (.seq (by simp [hname.whole])) (.seq (by simp [hname.whole]))
  exact .seq (by simp [hobject.whole, hafter])

@[simp] theorem built_arrowParams (h : AllBuilt F children) : Built F (arrowParams children) :=
  .ite _ (built_list h) (built_parenthesized h)

@[simp] theorem built_function {id : Option Child} {core : Layout} (hid : AllBuilt F id.toList) (hcore : Built F core)
    (isAsync isGenerator : Bool) : Built F (function id core isAsync isGenerator) :=
  .seq (by simp [hid, hcore])

@[simp] theorem built_classLike {id superclass : Option Child} (hid : AllBuilt F id.toList)
    (hsuperclass : AllBuilt F superclass.toList) (h : child.IsBuilt F) : Built F (classLike id superclass child) :=
  .seq (by simp [hid, hsuperclass, h.whole])

@[simp] theorem built_method (kind : String) {key : Layout} (hkey : Built F key) (h : child.IsBuilt F) :
    Built F (method kind key child) :=
  .seq (by simp [hkey, h.core])

@[simp] theorem built_importDeclaration (hchildren : AllBuilt F children) (h : child.IsBuilt F) :
    Built F (Child.importDeclaration children child) := by
  have hclauses : Built F (commas (children.filterMap importClause?)) := by
    refine .commas fun l hl => ?_
    obtain ⟨c, hc, hclause⟩ := List.mem_filterMap.1 hl
    unfold importClause? at hclause
    split at hclause
    · cases hclause
      exact (hchildren c hc).whole
    · cases hclause
      exact (hchildren c hc).whole
    · cases hclause
  have hnamed : AllBuilt F (children.filter fun c => (importClause? c).isNone) := fun c hc =>
    hchildren c (List.mem_of_mem_filter hc)
  have hbraced : Built F (seq ["\x7b", list (children.filter fun c => (importClause? c).isNone), "\x7d"]) :=
    .seq (by simp [hnamed])
  exact .seq (by simp [hclauses, hbraced, h.whole])

@[simp] theorem built_exportNamed {declaration source : Option Child} (hdeclaration : AllBuilt F declaration.toList)
    (hchildren : AllBuilt F children) (hsource : AllBuilt F source.toList) :
    Built F (exportNamed declaration children source) := by
  cases declaration with
  | none => exact .seq (by simp [hchildren, hsource])
  | some declaration => exact .seq (by simp [(allBuilt_cons.1 hdeclaration).1.whole])

theorem built_templateRest : ∀ {quasis : List String} {expressions : List Child}, AllBuilt F expressions →
    (expressions.length < quasis.length → F .missingExpression) → ∀ l ∈ templateRest quasis expressions, Built F l
  | [], _, _, _ => fun l hl => nomatch hl
  | _ :: _, [], _, hmissing => by simp [templateRest, hmissing]
  | quasi :: quasis, expression :: expressions, h, hmissing => by
    obtain ⟨hexpression, hexpressions⟩ := allBuilt_cons.1 h
    have hrest : ∀ l ∈ templateRest quasis expressions, Built F l :=
      built_templateRest hexpressions fun hlt => hmissing (Nat.succ_lt_succ hlt)
    have hraw : Built F (seq ["\x7d", verbatim quasi]) := .raw (by decide) quasi
    have hfirst : seq ["$\x7b", expression, "\x7d", verbatim quasi] =
        seq ["$\x7b", expression, seq ["\x7d", verbatim quasi]] := by
      funext depth
      simp [seq]
    refine List.forall_mem_cons.2 ⟨?_, hrest⟩
    rw [hfirst]
    exact .seq (by simp [hexpression.whole, hraw])

theorem built_template {quasis : List String} (h : AllBuilt F children)
    (hmissing : children.length + 1 < quasis.length → F .missingExpression) : Built F (template quasis children) := by
  cases quasis with
  | nil => exact .text _
  | cons quasi quasis =>
    have hrest : Built F (seq (templateRest quasis children)) :=
      .seq (built_templateRest h fun hlt => hmissing (Nat.succ_lt_succ hlt))
    have hraw : Built F (seq ["\x60", verbatim quasi]) := .raw (by decide) quasi
    have hwhole : template (quasi :: quasis) children =
        seq [seq ["\x60", verbatim quasi], seq (templateRest quasis children), "\x60"] := by
      funext depth
      simp [template, seq]
    rw [hwhole]
    exact .seq (by simp [hraw, hrest])

theorem built_lines (opening closing : String) {ls : List Layout} (h : ∀ l ∈ ls, Built F l)
    (trailing : List Comment) : Built F (lines opening closing ls trailing) := by
  have hls : Built F (seq ls) := .seq h
  exact .ite _ (.seq (by simp)) (.seq (by simp [hls]))

theorem built_elements {elements : List (Option Child)} (h : AllBuilt F (elements.filterMap id)) :
    ∀ l ∈ elements.map element, Built F l := by
  intro l hl
  obtain ⟨slot, hslot, rfl⟩ := List.mem_map.1 hl
  cases slot with
  | none => exact .seq (by simp)
  | some child => exact .seq (by simp [(h child (List.mem_filterMap.2 ⟨some child, hslot, rfl⟩)).whole])

theorem built_memberLines (h : AllBuilt F children) : ∀ l ∈ children.map member, Built F l := by
  intro l hl
  obtain ⟨child, hchild, rfl⟩ := List.mem_map.1 hl
  exact .seq (by simp [(h child hchild).whole])

theorem built_caseLines (h : AllBuilt F children) : Built F (seq (children.map caseLines)) := by
  refine .seq fun l hl => ?_
  obtain ⟨child, hchild, rfl⟩ := List.mem_map.1 hl
  exact .seq (by simp [(h child hchild).whole])

@[simp] theorem built_property {key value : Child} (hkey : key.IsBuilt F) (hvalue : value.IsBuilt F) (kind : String)
    (isMethod isShorthand isComputed : Bool) :
    Built F (Child.property key value kind isMethod isShorthand isComputed) := by
  unfold Child.property
  split
  · split
    · exact hvalue.whole
    · exact hkey.whole
  · exact .ite _ (built_method kind (built_key hkey isComputed) hvalue) (.seq (by simp [hkey, hvalue.whole]))

end Child

/-! ## Forms -/

namespace Form

variable {α : Type}

/-- What cannot be printed of the node, however its parts are printed. -/
def fault? : Form α → Option PrintFault
  | .program body hashbang => some (.unprintable (tag (.program body hashbang)))
  | .catchClause param body => some (.unprintable (tag (.catchClause param body)))
  | .templateLiteral quasis expressions =>
    if expressions.length + 1 < quasis.length then some .missingExpression else none
  | _ => none

/-- The parts that are printed whole: all but the handler of a try statement. -/
def written : Form α → List α
  | .tryStatement block _ finalizer => block :: finalizer.toList
  | form => form.children

@[simp] theorem fault?_map {β : Type} (f : α → β) (form : Form α) : (form.map f).fault? = form.fault? := by
  cases form <;> simp [fault?, map, tag]

theorem written_map {β : Type} (f : α → β) (form : Form α) : (form.map f).written = form.written.map f := by
  cases form <;> simp [map, written, children, List.filterMap_map, List.map_filterMap, Option.toList_map]

theorem mem_children_of_mem_written {form : Form α} {a : α} (h : a ∈ form.written) : a ∈ form.children := by
  cases form
  case tryStatement block handler finalizer =>
    simp only [written, List.mem_cons, children, List.mem_append] at h ⊢
    tauto
  all_goals exact h

variable {F : PrintFault → Prop}

theorem built_layout {form : Form Child} (hfault : ∀ f, form.fault? = some f → F f)
    (hwhole : ∀ child ∈ form.written, Built F child.2.whole)
    (hcore : ∀ child ∈ form.children, Built F child.2.core) (semicolons : Bool) (trailing : List Comment) :
    Built F (form.layout semicolons trailing) := by
  cases form
  case program | catchClause => exact .fault (hfault _ rfl)
  case tryStatement block handler finalizer =>
    have hblock : Built F block.2.whole := hwhole block (List.mem_cons_self ..)
    have hfinalizer : Built F (Child.after " finally " finalizer) := by
      cases finalizer with
      | none => exact .nothing
      | some finalizer => exact .seq (by simp [hwhole finalizer (List.mem_cons_of_mem _ (List.mem_singleton_self _))])
    cases handler with
    | none => exact .seq (by simp [hblock, hfinalizer])
    | some handler =>
      have hhandler : Built F handler.2.core := hcore handler (by simp [children])
      have hcatch : Built F (seq [" catch ", handler.2.core]) := .seq (by simp [hhandler])
      exact .seq (by simp [hblock, hcatch, hfinalizer])
  -- every other node is printed with its parts whole
  all_goals have h := Child.allBuilt_of_parts hcore hwhole
  case ifStatement test consequent alternate =>
    simp only [children, Child.allBuilt_append, Child.allBuilt_cons] at h
    cases alternate with
    | none => exact .seq (by simp [h, Child.IsBuilt.whole])
    | some alternate =>
      have helse : Built F (seq [consequent.afterBody, alternate.elseBranch semicolons]) :=
        .seq (by simp [(Child.allBuilt_cons.1 h.2).1])
      exact .seq (by simp [h, Child.IsBuilt.whole, helse])
  case switchStatement discriminant cases =>
    simp only [children, Child.allBuilt_append, Child.allBuilt_cons] at h
    have hbraced : Built F (seq ["\x7b", newline, seq (cases.map Child.caseLines), deeper (commentLines trailing), pad,
        "\x7d"]) := .seq (by simp [Child.built_caseLines h.2])
    exact .seq (by simp [h, Child.IsBuilt.whole, hbraced])
  case switchCase test consequent =>
    simp only [children, Child.allBuilt_append] at h
    have hmembers : Built F (Child.members semicolons none consequent) := Child.built_members h.2 none
    cases test with
    | none => exact .seq (by simp [hmembers])
    | some test =>
      have htest : Built F (seq ["case ", test, ":"]) := .seq (by simp [(Child.allBuilt_cons.1 h.1).1.whole])
      exact .seq (by simp [htest, hmembers])
  case functionDeclaration id params body isAsync isGenerator =>
    simp only [children, Child.allBuilt_append] at h
    have hid : Child.AllBuilt F (some id).toList := h.1.1
    exact Child.built_function hid (Child.built_functionCore h.1.2 (Child.allBuilt_cons.1 h.2).1) isAsync isGenerator
  case classDeclaration id superclass body =>
    simp only [children, Child.allBuilt_append] at h
    have hid : Child.AllBuilt F (some id).toList := h.1.1
    exact Child.built_classLike hid h.1.2 (Child.allBuilt_cons.1 h.2).1
  case methodDefinition key value kind isStatic isComputed =>
    simp only [children, Child.allBuilt_cons] at h
    exact .seq (by simp [Child.built_method kind (Child.built_key h.1 isComputed) h.2.1])
  case literal value raw => cases value <;> exact .text _
  case templateLiteral quasis expressions =>
    exact Child.built_template h fun hlt => hfault _ (if_pos hlt)
  case arrayExpression elements => exact Child.built_lines _ _ (Child.built_elements h) _
  case objectExpression properties => exact Child.built_lines _ _ (Child.built_memberLines h) _
  case arrayPattern elements => exact .seq (by simp [Child.built_slots h])
  case updateExpression operator argument isPrefix =>
    have hwhole := (h argument (List.mem_singleton_self _)).whole
    exact .ite _ (.seq (by simp [hwhole])) (.seq (by simp [hwhole]))
  all_goals
    simp only [children, Child.allBuilt_append, Child.allBuilt_cons] at h
    simp [layout, h, Child.IsBuilt.whole]

theorem built_core {form : Form Child} (hwhole : ∀ child ∈ form.written, Built F child.2.whole)
    (hcore : ∀ child ∈ form.children, Built F child.2.core) : Built F form.core := by
  cases form
  case functionExpression id params body isAsync isGenerator =>
    have h := Child.allBuilt_of_parts hcore hwhole
    simp only [children, Child.allBuilt_append, Child.allBuilt_cons] at h
    exact Child.built_functionCore h.1.2 h.2.1
  case catchClause param body =>
    have h := Child.allBuilt_of_parts hcore hwhole
    simp only [children, Child.allBuilt_append, Child.allBuilt_cons] at h
    cases param with
    | none => exact .seq (by simp [h.2.1.whole])
    | some param => exact .seq (by simp [h.2.1.whole, (Child.allBuilt_cons.1 h.1).1.whole])
  all_goals exact .nothing

end Form

/-! ## Trees -/

namespace Node

variable {F : PrintFault → Prop} {semicolons : Bool}

/-- A node next to what it is printed as. -/
def child (semicolons : Bool) (n : Node) : Child := (n, n.printed semicolons)

/-- What follows a chain is written behind the whole chain. -/
theorem before_eq (chain : Chain) : ∀ rest, chain.before rest = seq [chain.before [], seq rest] := by
  induction chain with
  | operand first =>
    intro rest
    funext depth
    simp [Chain.before, seq]
  | operation operator left right ih =>
    intro rest
    rw [Chain.before, ih, Chain.before, ih [_, right]]
    funext depth
    simp [seq]

/-- Every node is printed as the chain that it is the end of. -/
theorem before_chained (n : Node) : (n.chained semicolons).2.before [] = (n.printed semicolons).whole := by
  obtain ⟨info, form⟩ := n
  have hone (l : Layout) : (Chain.operand l).before [] = l := by
    funext depth
    simp [Chain.before, seq]
  rw [printed, chained, para_mk]
  cases form <;> first | rfl | exact hone _

/-- A node is printed from what its children are printed as. -/
theorem printed_eq (n : Node) : n.printed semicolons =
    ⟨(n.form.map (child semicolons)).layout semicolons n.trailing, (n.form.map (child semicolons)).core⟩ := by
  obtain ⟨info, form⟩ := n
  have hchildren : (form.map fun m => (m, m.chained semicolons)).map (fun c => (c.1, c.2.1)) =
      form.map (child semicolons) := Form.map_map ..
  have hchain (operator : String) (left right : Node) :
      (Chain.operation operator (left.chained semicolons).2 (right.printed semicolons).whole).before [] =
        Child.binary operator (left.child semicolons) (right.child semicolons) := by
    rw [Chain.before, before_eq, before_chained]
    funext depth
    simp [seq, Child.binary, child]
  rw [printed, chained, para_mk]
  cases form
  case binaryExpression operator left right => exact congrArg (Printed.mk · nothing) (hchain operator left right)
  case logicalExpression operator left right => exact congrArg (Printed.mk · nothing) (hchain operator left right)
  case assignmentExpression operator left right => exact congrArg (Printed.mk · nothing) (hchain operator left right)
  all_goals exact congrArg (fun children : Form Child => Printed.mk (children.layout semicolons info.trailing)
    children.core) hchildren

/-- A node is printed with no faults but those of the nodes below it that are printed whole, and its own if it is
printed whole itself. -/
theorem built_printed (semicolons : Bool) (n : Node)
    (hwritten : ∀ m ∈ n.preorder, ∀ k ∈ m.form.written, ∀ f, k.form.fault? = some f → F f) :
    ((∀ f, n.form.fault? = some f → F f) → Built F (n.printed semicolons).whole) ∧
      Built F (n.printed semicolons).core := by
  induction n using byChildren with
  | node n ih =>
    obtain ⟨hself, hbelow⟩ := forall_preorder_iff.1 hwritten
    have hwhole : ∀ c ∈ (n.form.map (child semicolons)).written, Built F c.2.whole := by
      intro c hc
      rw [Form.written_map] at hc
      obtain ⟨m, hm, rfl⟩ := List.mem_map.1 hc
      have hchild := Form.mem_children_of_mem_written hm
      exact (ih m hchild (hbelow m hchild)).1 (hself m hm)
    have hcore : ∀ c ∈ (n.form.map (child semicolons)).children, Built F c.2.core := by
      intro c hc
      rw [Form.children_map] at hc
      obtain ⟨m, hm, rfl⟩ := List.mem_map.1 hc
      exact (ih m hm (hbelow m hm)).2
    rw [printed_eq]
    refine ⟨fun hfault => Form.built_layout ?_ hwhole hcore semicolons n.trailing, Form.built_core hwhole hcore⟩
    rwa [Form.fault?_map]

theorem built_program {body : List Node} (hbody : Child.AllBuilt F (body.map (child semicolons))) (hashbang : String)
    (trailing : List Comment) :
    Built F (seq [onlyIf (hashbang != "") (seq [hashbang, newline, newline]),
      Child.members semicolons none (body.map (child semicolons)), commentLines trailing]) := by
  have hmembers : Built F (Child.members semicolons none (body.map (child semicolons))) :=
    Child.built_members hbody none
  have hhashbang : Built F (seq [hashbang, newline, newline]) := .seq (by simp)
  exact .seq (by simp [hmembers, hhashbang])

/-- The pieces of a tree are those of a layout. -/
theorem exists_built_pieces (semicolons : Bool) (root : Node) :
    ∃ l, Built (fun _ => True) l ∧ root.pieces semicolons = l 0 := by
  have hbuilt (n : Node) : (n.child semicolons).IsBuilt fun _ => True := by
    obtain ⟨hwhole, hcore⟩ := n.built_printed semicolons fun _ _ _ _ _ _ => trivial
    exact ⟨hwhole fun _ _ => trivial, hcore⟩
  unfold pieces
  split
  case h_1 body hashbang _ =>
    have hbody : Child.AllBuilt (fun _ => True) (body.map (child semicolons)) := by
      intro c hc
      obtain ⟨n, -, rfl⟩ := List.mem_map.1 hc
      exact hbuilt n
    exact ⟨_, built_program hbody hashbang root.trailing, rfl⟩
  case h_2 => exact ⟨_, (hbuilt root).whole, rfl⟩

/-- Every comment of a tree is given a line of its own. -/
theorem lined_pieces (root : Node) : Piece.Lined (root.pieces semicolons) := by
  obtain ⟨l, hl, hpieces⟩ := exists_built_pieces semicolons root
  rw [hpieces]
  exact hl.lined 0

end Node

end ScriptTidy
