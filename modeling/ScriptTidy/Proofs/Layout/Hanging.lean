/-
Where indents stand. Whatever a tree looks like, an indent is written only where a line begins, if the
members of its switches are cases: no other node ends the line that it stands on. The raw text of a
template, which may itself end in a newline, is followed by more of the template on the same line.
-/
import ScriptTidy.Proofs.Layout.Lines
import ScriptTidy.Proofs.Style.Invariants

namespace ScriptTidy

/-! ## Pieces -/

namespace Piece

/-- Whether a line begins behind the pieces. Whether one begins in front of them has to be told. -/
def begins : Bool → List Piece → Bool
  | here, [] => here
  | _, newline :: ps => begins true ps
  | _, _ :: ps => begins false ps

/-- The piece does not end the line, if it can be printed. -/
def goesOn : Piece → Bool
  | text s => s.toList.head?.any (· != '\n')
  | fault _ => true
  | _ => false

/-- Every indent stands where a line begins, and the line goes on behind every raw text. Whether a line begins in
front of the pieces has to be told. -/
inductive Hangs : Bool → List Piece → Prop
  | nil {here : Bool} : Hangs here []
  | newline {here : Bool} {ps : List Piece} : Hangs true ps → Hangs here (newline :: ps)
  | indent {depth : Nat} {ps : List Piece} : Hangs false ps → Hangs true (indent depth :: ps)
  | verbatim {here : Bool} {s : String} {ps : List Piece} :
      ps.head?.any goesOn → Hangs false ps → Hangs here (verbatim s :: ps)
  | text {here : Bool} {s : String} {ps : List Piece} : Hangs false ps → Hangs here (text s :: ps)
  | comment {here : Bool} {c : Comment} {ps : List Piece} : Hangs false ps → Hangs here (comment c :: ps)
  | fault {here : Bool} {f : PrintFault} {ps : List Piece} : Hangs false ps → Hangs here (fault f :: ps)

variable {here : Bool} {xs ys : List Piece}

theorem begins_append (here : Bool) (xs ys : List Piece) : begins here (xs ++ ys) = begins (begins here xs) ys := by
  induction xs generalizing here with
  | nil => rfl
  | cons x xs ih => cases x <;> exact ih _

theorem begins_of_false (h : begins false xs = true) (here : Bool) : begins here xs = true := by
  cases xs with
  | nil => cases h
  | cons x xs => cases x <;> exact h

theorem Hangs.of_false (h : Hangs false xs) : Hangs here xs := by
  cases h with
  | nil => exact .nil
  | newline h => exact .newline h
  | verbatim hgoes h => exact .verbatim hgoes h
  | text h => exact .text h
  | comment h => exact .comment h
  | fault h => exact .fault h

theorem Hangs.append (h : Hangs here xs) (hys : Hangs (begins here xs) ys) : Hangs here (xs ++ ys) := by
  induction h with
  | nil => exact hys
  | newline _ ih => exact .newline (ih hys)
  | indent _ ih => exact .indent (ih hys)
  | @verbatim _ _ ps hgoes _ ih =>
    refine .verbatim ?_ (ih hys)
    cases ps with
    | nil => cases hgoes
    | cons p ps => exact hgoes
  | text _ ih => exact .text (ih hys)
  | comment _ ih => exact .comment (ih hys)
  | fault _ ih => exact .fault (ih hys)

end Piece

/-! ## Layouts -/

namespace Layout

open Piece (Hangs begins)

/-- The layout can stand in the middle of a line. -/
def Inline (l : Layout) : Prop := ∀ depth, Hangs false (l depth)

/-- The layout can stand where a line begins. -/
def Starts (l : Layout) : Prop := ∀ depth, Hangs true (l depth)

/-- The layout ends its line. -/
def Ends (l : Layout) : Prop := ∀ depth, begins false (l depth) = true

/-- The layout consists of whole lines. -/
structure Lines (l : Layout) : Prop where
  starts : Starts l
  ends : ∀ depth, begins true (l depth) = true

variable {l m : Layout} {ls : List Layout}

theorem seq_cons (l : Layout) (ls : List Layout) (depth : Nat) : seq (l :: ls) depth = l depth ++ seq ls depth := rfl

@[simp] theorem inline_text (s : String) : Inline (text s) := fun _ => .text .nil

@[simp] theorem inline_nothing : Inline nothing := fun _ => .nil

@[simp] theorem inline_newline : Inline newline := fun _ => .newline .nil

@[simp] theorem inline_fault (f : PrintFault) : Inline (fault f) := fun _ => .fault .nil

theorem Inline.starts (h : Inline l) : Starts l := fun depth => (h depth).of_false

@[simp] theorem Inline.seq (h : ∀ l ∈ ls, Inline l) : Inline (seq ls) := by
  intro depth
  induction ls with
  | nil => exact .nil
  | cons l ls ih =>
    obtain ⟨hl, hls⟩ := List.forall_mem_cons.1 h
    exact (hl depth).append (ih hls).of_false

@[simp] theorem Inline.deeper (h : Inline l) : Inline (deeper l) := fun depth => h (depth + 1)

@[simp] theorem Inline.ite (b : Prop) [Decidable b] (hl : Inline l) (hm : Inline m) : Inline (if b then l else m) := by
  split
  · exact hl
  · exact hm

@[simp] theorem Inline.onlyIf (b : Bool) (h : Inline l) : Inline (onlyIf b l) := .ite _ h inline_nothing

theorem Inline.commas : ∀ {ls : List Layout}, (∀ l ∈ ls, Inline l) → Inline (commas ls)
  | [], _ => inline_nothing
  | [only], h => h only (List.mem_cons_self ..)
  | first :: second :: rest, h => by
    have hrest : Inline (Layout.commas (second :: rest)) := commas fun l hl => h l (List.mem_cons_of_mem _ hl)
    exact .seq (by simp [h first (List.mem_cons_self ..), hrest])

/-! ### Lines -/

/-- An indent, and what stands on its line. -/
theorem Starts.pad (h : Inline (seq ls)) : Starts (seq (pad :: ls)) := fun depth => .indent (h depth)

/-- The end of a line, and lines after it. -/
theorem Inline.break (h : Starts (Layout.seq ls)) : Inline (Layout.seq (Layout.newline :: ls)) := fun depth =>
  .newline (h depth)

theorem Inline.cons (hl : Inline l) (hls : Inline (Layout.seq ls)) : Inline (Layout.seq (l :: ls)) := fun depth =>
  (hl depth).append (hls depth).of_false

theorem Lines.starts_seq (hl : Lines l) (hls : Starts (Layout.seq ls)) : Starts (Layout.seq (l :: ls)) := fun depth =>
  (hl.starts depth).append (by rw [hl.ends]; exact hls depth)

theorem Lines.nothing : Lines nothing := ⟨fun _ => .nil, fun _ => rfl⟩

theorem Lines.nil : Lines (seq []) := .nothing

theorem Lines.newline : Lines newline := ⟨fun _ => .newline .nil, fun _ => rfl⟩

theorem Lines.cons (hl : Lines l) (hls : Lines (Layout.seq ls)) : Lines (Layout.seq (l :: ls)) := by
  refine ⟨hl.starts_seq hls.starts, fun depth => ?_⟩
  rw [seq_cons, Piece.begins_append, hl.ends, hls.ends]

theorem Lines.seq (h : ∀ l ∈ ls, Lines l) : Lines (Layout.seq ls) := by
  induction ls with
  | nil => exact .nothing
  | cons l ls ih =>
    obtain ⟨hl, hls⟩ := List.forall_mem_cons.1 h
    exact hl.cons (ih hls)

theorem Lines.deeper (h : Lines l) : Lines (deeper l) := ⟨fun _ => h.starts _, fun _ => h.ends _⟩

theorem Lines.onlyIf (b : Bool) (h : Lines l) : Lines (onlyIf b l) := by
  cases b
  · exact .nothing
  · exact h

/-- An indent, what stands on its line, and the end of the line. -/
theorem Lines.line (h : Inline l) (hls : Lines (Layout.seq ls)) :
    Lines (Layout.seq (Layout.pad :: l :: Layout.newline :: ls)) where
  starts depth := .indent ((h depth).append (.newline (hls.starts depth)))
  ends depth := by
    rw [seq_cons, seq_cons, Piece.begins_append, Piece.begins_append, seq_cons, Piece.begins_append]
    exact hls.ends depth

theorem Lines.of_eq (hl : Lines l) (h : ∀ depth, m depth = l depth) : Lines m :=
  ⟨fun _ => h _ ▸ hl.starts _, fun _ => h _ ▸ hl.ends _⟩

@[simp] theorem lines_commentLines (comments : List Comment) : Lines (commentLines comments) := by
  have hline (c : Comment) : Lines (Layout.seq [pad, comment c, Layout.newline]) :=
    .line (fun _ => .comment .nil) .nil
  unfold commentLines
  split
  · exact .nothing
  · refine Lines.newline.cons (.seq fun l hl => ?_)
    obtain ⟨c, -, rfl⟩ := List.mem_map.1 hl
    exact hline c

/-- A line at the end of which others begin. -/
theorem Ends.of_break (hls : Lines (Layout.seq ls)) : Ends (Layout.seq (l :: Layout.newline :: ls)) := by
  intro depth
  rw [seq_cons, seq_cons, Piece.begins_append, Piece.begins_append]
  exact hls.ends depth

end Layout

open Layout

/-! ## Children -/

namespace Child

/-- What the child is printed as can stand in the middle of a line. -/
structure IsInline (child : Child) : Prop where
  whole : Inline child.2.whole
  core : Inline child.2.core

/-- All children can. -/
def AllInline (children : List Child) : Prop := ∀ child ∈ children, child.IsInline

variable {semicolons : Bool} {child : Child} {children : List Child}

@[simp] theorem allInline_nil : AllInline [] := fun _ h => nomatch h

@[simp] theorem allInline_cons : AllInline (child :: children) ↔ child.IsInline ∧ AllInline children :=
  List.forall_mem_cons

@[simp] theorem allInline_append {others : List Child} :
    AllInline (children ++ others) ↔ AllInline children ∧ AllInline others :=
  List.forall_mem_append

@[simp] theorem inline_optional {child : Option Child} (h : AllInline child.toList) : Inline (optional child) := by
  cases child with
  | none => exact inline_nothing
  | some child => exact (h child (List.mem_singleton_self _)).whole

@[simp] theorem inline_after (keyword : String) {child : Option Child} (h : AllInline child.toList) :
    Inline (after keyword child) := by
  cases child with
  | none => exact inline_nothing
  | some child => exact .seq (by simp [(h child (List.mem_singleton_self _)).whole])

@[simp] theorem inline_list (h : AllInline children) : Inline (list children) := by
  refine .commas fun l hl => ?_
  obtain ⟨child, hchild, rfl⟩ := List.mem_map.1 hl
  exact (h child hchild).whole

@[simp] theorem inline_slots {children : List (Option Child)} (h : AllInline (children.filterMap id)) :
    Inline (slots children) := by
  refine .commas fun l hl => ?_
  obtain ⟨child, hchild, rfl⟩ := List.mem_map.1 hl
  refine inline_optional fun c hc => h c (List.mem_filterMap.2 ⟨child, hchild, ?_⟩)
  exact Option.mem_toList.1 hc

@[simp] theorem inline_parenthesized (h : AllInline children) : Inline (parenthesized children) := .seq (by simp [h])

@[simp] theorem inline_key (h : child.IsInline) (isComputed : Bool) : Inline (child.key isComputed) :=
  .ite _ (.seq (by simp [h.whole])) h.whole

@[simp] theorem inline_functionCore (hchildren : AllInline children) (h : child.IsInline) :
    Inline (functionCore children child) :=
  .seq (by simp [hchildren, h.whole])

@[simp] theorem inline_terminator (semicolons : Bool) (n : Node) : Inline (n.terminator semicolons) := by
  unfold Node.terminator
  split
  · exact inline_text _
  · exact .onlyIf _ (inline_text _)

@[simp] theorem inline_statement (h : child.IsInline) : Inline (statement semicolons child) :=
  .seq (by simp [h.whole])

/-- The members of a list stand on lines of their own. -/
@[simp] theorem lines_members (h : AllInline children) : ∀ before, Lines (members semicolons before children) := by
  induction children with
  | nil => exact fun _ => .nothing
  | cons child children ih =>
    intro before
    obtain ⟨hchild, hchildren⟩ := allInline_cons.1 h
    unfold members
    split
    · exact (lines_commentLines _).cons ((ih hchildren before).cons .nil)
    · have hguard : Inline (onlyIf (!semicolons && child.1.needsGuard) ";") := .onlyIf _ (inline_text _)
      have hstatement : Inline (statement semicolons child) := inline_statement hchild
      have hbelow : Lines (seq [onlyIf child.1.isSpaced newline, members semicolons (some child.1) children]) :=
        (Lines.newline.onlyIf _).cons ((ih hchildren _).cons .nil)
      have hinline : Inline (seq [onlyIf (!semicolons && child.1.needsGuard) ";", statement semicolons child]) :=
        .seq (by simp [hguard, hstatement])
      have hline : Lines (seq [pad, onlyIf (!semicolons && child.1.needsGuard) ";", statement semicolons child, newline,
          onlyIf child.1.isSpaced newline, members semicolons (some child.1) children]) :=
        (Lines.line hinline hbelow).of_eq fun depth => by simp [seq]
      exact (Lines.newline.onlyIf _).cons ((lines_commentLines _).cons ((lines_commentLines _).cons
        ((Lines.newline.onlyIf _).cons hline)))

@[simp] theorem inline_braced (h : AllInline children) (trailing : List Comment) :
    Inline (braced semicolons children trailing) := by
  have hclosing : Starts (seq [pad, "\x7d"]) := .pad (.seq (by simp))
  exact .ite _ (inline_text _) ((inline_text _).cons (.break ((lines_members h none).deeper.starts_seq
    ((lines_commentLines trailing).deeper.starts_seq hclosing))))

@[simp] theorem inline_body (h : child.IsInline) : Inline (body semicolons child) := by
  have hline : Starts (seq [commentLines child.1.headerComments, pad, statement semicolons child]) :=
    (lines_commentLines _).starts_seq (.pad (.seq (by simp [h])))
  have hbelow : Starts (seq [deeper (seq [commentLines child.1.headerComments, pad, statement semicolons child])]) :=
    fun depth => by simpa [seq, deeper] using hline (depth + 1)
  exact .ite _ (.seq (by simp [h.whole])) (.break hbelow)

@[simp] theorem inline_afterBody (child : Child) : Inline child.afterBody :=
  .ite _ (inline_text _) (.break (.pad (.seq (by simp))))

@[simp] theorem inline_elseBranch (h : child.IsInline) : Inline (elseBranch semicolons child) := by
  unfold elseBranch
  split
  · exact .seq (by simp [h.whole])
  · exact .seq (by simp [h])

@[simp] theorem inline_binary (operator : String) {left right : Child} (hleft : left.IsInline)
    (hright : right.IsInline) : Inline (binary operator left right) :=
  .seq (by simp [hleft.whole, hright.whole])

@[simp] theorem inline_memberOf {object name : Child} (hobject : object.IsInline) (hname : name.IsInline)
    (isComputed isOptional : Bool) : Inline (object.memberOf name isComputed isOptional) := by
  have hafter : Inline (if isComputed then seq ["[", name, "]"] else seq [onlyIf (!isOptional) ".", name]) :=
    .ite _ (.seq (by simp [hname.whole])) (.seq (by simp [hname.whole]))
  exact .seq (by simp [hobject.whole, hafter])

@[simp] theorem inline_arrowParams (h : AllInline children) : Inline (arrowParams children) :=
  .ite _ (inline_list h) (inline_parenthesized h)

@[simp] theorem inline_function {id : Option Child} {core : Layout} (hid : AllInline id.toList) (hcore : Inline core)
    (isAsync isGenerator : Bool) : Inline (function id core isAsync isGenerator) :=
  .seq (by simp [hid, hcore])

@[simp] theorem inline_classLike {id superclass : Option Child} (hid : AllInline id.toList)
    (hsuperclass : AllInline superclass.toList) (h : child.IsInline) : Inline (classLike id superclass child) :=
  .seq (by simp [hid, hsuperclass, h.whole])

@[simp] theorem inline_method (kind : String) {key : Layout} (hkey : Inline key) (h : child.IsInline) :
    Inline (method kind key child) :=
  .seq (by simp [hkey, h.core])

@[simp] theorem inline_importDeclaration (hchildren : AllInline children) (h : child.IsInline) :
    Inline (Child.importDeclaration children child) := by
  have hclauses : Inline (commas (children.filterMap importClause?)) := by
    refine .commas fun l hl => ?_
    obtain ⟨c, hc, hclause⟩ := List.mem_filterMap.1 hl
    unfold importClause? at hclause
    split at hclause
    · cases hclause
      exact (hchildren c hc).whole
    · cases hclause
      exact (hchildren c hc).whole
    · cases hclause
  have hnamed : AllInline (children.filter fun c => (importClause? c).isNone) := fun c hc =>
    hchildren c (List.mem_of_mem_filter hc)
  have hbraced : Inline (seq ["\x7b", list (children.filter fun c => (importClause? c).isNone), "\x7d"]) :=
    .seq (by simp [hnamed])
  exact .seq (by simp [hclauses, hbraced, h.whole])

@[simp] theorem inline_exportNamed {declaration source : Option Child} (hdeclaration : AllInline declaration.toList)
    (hchildren : AllInline children) (hsource : AllInline source.toList) :
    Inline (exportNamed declaration children source) := by
  cases declaration with
  | none => exact .seq (by simp [hchildren, hsource])
  | some declaration => exact .seq (by simp [(allInline_cons.1 hdeclaration).1.whole])

/-- After each of its texts a template goes on. -/
theorem hangs_templateRest : ∀ (quasi : String) (quasis : List String) {expressions : List Child},
    AllInline expressions → ∀ depth, Piece.Hangs false
      (.verbatim quasi :: (seq (templateRest quasis expressions) depth ++ [.text "\x60"]))
  | _, [], _, _, _ => .verbatim rfl (.text .nil)
  | _, _ :: _, [], _, _ => .verbatim rfl (.fault (.text .nil))
  | _, quasi :: quasis, expression :: expressions, h, depth => by
    obtain ⟨hexpression, hexpressions⟩ := allInline_cons.1 h
    have hrest := hangs_templateRest quasi quasis hexpressions depth
    have hafter : Piece.Hangs false (expression.2.whole depth ++ .text "\x7d" :: .verbatim quasi ::
        (seq (templateRest quasis expressions) depth ++ [.text "\x60"])) :=
      (hexpression.whole depth).append (.text hrest)
    refine .verbatim rfl ?_
    have hpieces : seq (templateRest (quasi :: quasis) (expression :: expressions)) depth ++ [.text "\x60"] =
        .text "$\x7b" :: (expression.2.whole depth ++ .text "\x7d" :: .verbatim quasi ::
          (seq (templateRest quasis expressions) depth ++ [.text "\x60"])) := by
      simp [templateRest, seq, text, verbatim]
    rw [hpieces]
    exact .text hafter

theorem inline_template {quasis : List String} (h : AllInline children) : Inline (template quasis children) := by
  cases quasis with
  | nil => exact inline_text _
  | cons quasi quasis =>
    intro depth
    have hpieces : template (quasi :: quasis) children depth = .text "\x60" :: .verbatim quasi ::
        (seq (templateRest quasis children) depth ++ [.text "\x60"]) := by
      simp [template, seq, text, verbatim]
    rw [hpieces]
    exact .text (hangs_templateRest quasi quasis h depth)

theorem inline_lines (opening closing : String) {ls : List Layout} (h : ∀ l ∈ ls, Lines l)
    (trailing : List Comment) : Inline (lines opening closing ls trailing) := by
  have hclosing : Starts (seq [pad, text closing]) := .pad (.seq (by simp))
  exact .ite _ (.seq (by simp)) ((inline_text _).cons (.break ((Lines.seq h).deeper.starts_seq
    ((lines_commentLines trailing).deeper.starts_seq hclosing))))

theorem lines_element {child : Option Child} (h : AllInline child.toList) : Lines (element child) := by
  cases child with
  | none => exact .line (inline_text _) .nil
  | some child =>
    have hline : Inline (seq [child.2.whole, ","]) := .seq (by simp [(allInline_cons.1 h).1.whole])
    have hlines := (lines_commentLines child.1.comments).cons (Lines.line hline .nil)
    exact hlines.of_eq fun depth => by simp [element, seq]

theorem lines_member (h : child.IsInline) : Lines (member child) := by
  have hline : Inline (seq [child.2.whole, ","]) := .seq (by simp [h.whole])
  have hbelow : Lines (seq [onlyIf child.holdsFunction newline]) := (Lines.newline.onlyIf _).cons .nil
  have hlines := (Lines.newline.onlyIf child.holdsFunction).cons
    ((lines_commentLines child.1.comments).cons (Lines.line hline hbelow))
  exact hlines.of_eq fun depth => by simp [member, seq]

theorem lines_caseLines (h : child.IsInline) (hends : Ends child.2.whole) : Lines (caseLines child) := by
  refine (lines_commentLines _).cons ⟨.pad (.seq (by simp [h.whole])), fun depth => ?_⟩
  rw [seq_cons, seq_cons, Piece.begins_append, Piece.begins_append]
  exact Piece.begins_of_false (hends depth) _

@[simp] theorem inline_property {key value : Child} (hkey : key.IsInline) (hvalue : value.IsInline) (kind : String)
    (isMethod isShorthand isComputed : Bool) :
    Inline (Child.property key value kind isMethod isShorthand isComputed) := by
  unfold Child.property
  split
  · split
    · exact hvalue.whole
    · exact hkey.whole
  · exact .ite _ (inline_method kind (inline_key hkey isComputed) hvalue) (.seq (by simp [hkey, hvalue.whole]))

end Child

/-! ## Forms -/

namespace Form

theorem inline_layout {form : Form Child} (h : ∀ child ∈ form.children, child.IsInline)
    (hends : ∀ child ∈ form.switchMembers, Ends child.2.whole) (semicolons : Bool) (trailing : List Comment) :
    Inline (form.layout semicolons trailing) := by
  replace h : Child.AllInline form.children := h
  cases form
  case program | catchClause => exact inline_fault _
  case tryStatement block handler finalizer =>
    simp only [children, Child.allInline_append, Child.allInline_cons] at h
    cases handler with
    | none => exact .seq (by simp [h, h.1.1.1.whole])
    | some handler =>
      have hcatch : Inline (seq [" catch ", handler.2.core]) := .seq (by simp [(Child.allInline_cons.1 h.1.2).1.core])
      exact .seq (by simp [h, h.1.1.1.whole, hcatch])
  case ifStatement test consequent alternate =>
    simp only [children, Child.allInline_append, Child.allInline_cons] at h
    cases alternate with
    | none => exact .seq (by simp [h, Child.IsInline.whole])
    | some alternate =>
      have helse : Inline (seq [consequent.afterBody, alternate.elseBranch semicolons]) :=
        .seq (by simp [(Child.allInline_cons.1 h.2).1])
      exact .seq (by simp [h, Child.IsInline.whole, helse])
  case switchStatement discriminant cases =>
    simp only [children, Child.allInline_append, Child.allInline_cons] at h
    have hcases : Lines (seq (cases.map Child.caseLines)) := by
      refine .seq fun l hl => ?_
      obtain ⟨child, hchild, rfl⟩ := List.mem_map.1 hl
      exact Child.lines_caseLines (h.2 child hchild) (hends child hchild)
    have hclosing : Starts (seq [pad, "\x7d"]) := .pad (.seq (by simp))
    have hbraced : Inline (seq ["\x7b", newline, seq (cases.map Child.caseLines), deeper (commentLines trailing), pad,
        "\x7d"]) :=
      (inline_text _).cons (.break (hcases.starts_seq ((lines_commentLines trailing).deeper.starts_seq hclosing)))
    exact .seq (by simp [h, Child.IsInline.whole, hbraced])
  case switchCase test consequent =>
    simp only [children, Child.allInline_append] at h
    have hmembers : Starts (seq [deeper (Child.members semicolons none consequent)]) :=
      ((Child.lines_members h.2 none).deeper.cons .nil).starts
    cases test with
    | none => exact (inline_text _).cons (.break hmembers)
    | some test =>
      have htest : Inline (seq ["case ", test, ":"]) := .seq (by simp [(Child.allInline_cons.1 h.1).1.whole])
      exact htest.cons (.break hmembers)
  case labeledStatement label body =>
    simp only [children, Child.allInline_cons] at h
    have hbody : Starts (seq [pad, body.statement semicolons]) := .pad (.seq (by simp [h]))
    exact h.1.whole.cons ((inline_text _).cons (.break hbody))
  case functionDeclaration id params body isAsync isGenerator =>
    simp only [children, Child.allInline_append] at h
    have hid : Child.AllInline (some id).toList := h.1.1
    exact Child.inline_function hid (Child.inline_functionCore h.1.2 (Child.allInline_cons.1 h.2).1) isAsync isGenerator
  case classDeclaration id superclass body =>
    simp only [children, Child.allInline_append] at h
    have hid : Child.AllInline (some id).toList := h.1.1
    exact Child.inline_classLike hid h.1.2 (Child.allInline_cons.1 h.2).1
  case methodDefinition key value kind isStatic isComputed =>
    simp only [children, Child.allInline_cons] at h
    exact .seq (by simp [Child.inline_method kind (Child.inline_key h.1 isComputed) h.2.1])
  case literal value raw => cases value <;> exact inline_text _
  case templateLiteral quasis expressions => exact Child.inline_template h
  case arrayExpression elements =>
    refine Child.inline_lines _ _ (fun l hl => ?_) _
    obtain ⟨slot, hslot, rfl⟩ := List.mem_map.1 hl
    exact Child.lines_element fun child hchild =>
      h child (List.mem_filterMap.2 ⟨slot, hslot, Option.mem_toList.1 hchild⟩)
  case objectExpression properties =>
    refine Child.inline_lines _ _ (fun l hl => ?_) _
    obtain ⟨child, hchild, rfl⟩ := List.mem_map.1 hl
    exact Child.lines_member (h child hchild)
  case arrayPattern elements => exact .seq (by simp [Child.inline_slots h])
  case updateExpression operator argument isPrefix =>
    have hwhole := (h argument (List.mem_singleton_self _)).whole
    exact .ite _ (.seq (by simp [hwhole])) (.seq (by simp [hwhole]))
  all_goals
    simp only [children, Child.allInline_append, Child.allInline_cons] at h
    simp [layout, h, Child.IsInline.whole]

theorem inline_core {form : Form Child} (h : ∀ child ∈ form.children, child.IsInline) : Inline form.core := by
  replace h : Child.AllInline form.children := h
  cases form
  case functionExpression id params body isAsync isGenerator =>
    simp only [children, Child.allInline_append, Child.allInline_cons] at h
    exact Child.inline_functionCore h.1.2 h.2.1
  case catchClause param body =>
    simp only [children, Child.allInline_append, Child.allInline_cons] at h
    cases param with
    | none => exact .seq (by simp [h.2.1.whole])
    | some param => exact .seq (by simp [h.2.1.whole, (Child.allInline_cons.1 h.1).1.whole])
  all_goals exact inline_nothing

end Form

/-! ## Trees -/

namespace Node

variable {root : Node}

/-- Every node is printed so that it can stand in the middle of a line. A case ends the line that it stands on. -/
theorem isInline_child (semicolons : Bool) {n : Node} (hcases : n.HasCases) :
    (n.child semicolons).IsInline ∧ (n.isCase → Ends (n.printed semicolons).whole) := by
  induction n using byChildren with
  | node n ih =>
    obtain ⟨hself, hbelow⟩ := forall_preorder_iff.1 hcases
    have hchildren : ∀ c ∈ (n.form.map (child semicolons)).children, c.IsInline := by
      intro c hc
      rw [Form.children_map] at hc
      obtain ⟨m, hm, rfl⟩ := List.mem_map.1 hc
      exact (ih m hm (hbelow m hm)).1
    have hends : ∀ c ∈ (n.form.map (child semicolons)).switchMembers, Ends c.2.whole := by
      intro c hc
      rw [Form.switchMembers_map] at hc
      obtain ⟨m, hm, rfl⟩ := List.mem_map.1 hc
      have hchild := Form.mem_children_of_mem_switchMembers hm
      exact (ih m hchild (hbelow m hchild)).2 (hself m hm)
    have hprinted : (n.child semicolons).2 =
        ⟨(n.form.map (child semicolons)).layout semicolons n.trailing, (n.form.map (child semicolons)).core⟩ :=
      printed_eq n
    refine ⟨⟨?_, ?_⟩, fun hcase => ?_⟩
    · rw [hprinted]
      exact Form.inline_layout hchildren hends semicolons n.trailing
    · rw [hprinted]
      exact Form.inline_core hchildren
    · obtain ⟨info, form⟩ := n
      cases form
      case switchCase test consequent =>
        have hmembers : Child.AllInline (consequent.map (child semicolons)) := fun c hc =>
          hchildren c (List.mem_append_right _ hc)
        rw [printed_eq]
        exact .of_break ((Child.lines_members hmembers none).deeper.cons .nil)
      all_goals cases hcase

/-- In the pieces of a tree every indent stands where a line begins. -/
theorem hangs_pieces (hcases : root.HasCases) (semicolons : Bool) : Piece.Hangs true (root.pieces semicolons) := by
  unfold pieces
  split
  case h_1 body hashbang hform =>
    have hbody : Child.AllInline (body.map (child semicolons)) := by
      intro c hc
      obtain ⟨n, hn, rfl⟩ := List.mem_map.1 hc
      have hchild : n ∈ root.children := by rw [children, hform]; exact hn
      exact (isInline_child semicolons ((forall_preorder_iff.1 hcases).2 n hchild)).1
    have hhashbang : Lines (onlyIf (hashbang != "") (seq [hashbang, newline, newline])) :=
      .onlyIf _ ⟨fun depth => .text (.newline (.newline .nil)), fun depth => rfl⟩
    exact (hhashbang.cons ((Child.lines_members hbody none).cons ((lines_commentLines _).cons .nil))).starts 0
  case h_2 => exact (isInline_child semicolons hcases).1.whole.starts 0

end Node

end ScriptTidy
