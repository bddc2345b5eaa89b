/-
Holes in arrays. A literal is printed with a comma after every slot; a pattern is printed with commas
between its slots, and with one more if the last slot is a hole. The reader has one rule for both: a comma
where an element is expected stands for a hole. So a list is read back as it was printed, wherever its
holes are, and comments between the tokens play no part in it.
-/
import ScriptTidy.Concrete.Read
import ScriptTidy.Proofs.Layout.Lines

namespace ScriptTidy

open Layout

/-- A token of an array: a bracket, a comma or an element. -/
inductive ArrayToken (α : Type) where
  | mark (text : String)
  | element (a : α)

namespace ArrayToken

variable {α β : Type} {es : List (Option α)} {tokens others : List (ArrayToken α)}

/-! ## Tokens of a list -/

/-- The tokens of a slot; a hole has none. -/
def slot : Option α → List (ArrayToken α)
  | some a => [element a]
  | none => []

/-- The tokens of slots with commas between them. -/
def separated : List (Option α) → List (ArrayToken α)
  | [] => []
  | [last] => slot last
  | e :: rest => slot e ++ mark "," :: separated rest

/-- The comma after the slots of a pattern that ends in a hole. -/
def closingComma (es : List (Option α)) : List (ArrayToken α) :=
  if es.getLast?.any Option.isNone then [mark ","] else []

/-- The tokens of a literal. -/
def literal (es : List (Option α)) : List (ArrayToken α) :=
  [mark "["] ++ es.flatMap (fun e => slot e ++ [mark ","]) ++ [mark "]"]

/-- The tokens of a pattern. -/
def pattern (es : List (Option α)) : List (ArrayToken α) :=
  [mark "["] ++ separated es ++ closingComma es ++ [mark "]"]

/-! ## Printing -/

/-- The pieces are those of the tokens in order. Between the tokens there are line breaks, indents and
comments, and a space behind a comma. -/
inductive Spells (written : α → Layout) : List (ArrayToken α) → List Piece → Prop
  | nil : Spells written [] []
  | newline {tokens ps} : Spells written tokens ps → Spells written tokens (.newline :: ps)
  | indent {tokens ps} (depth : Nat) : Spells written tokens ps → Spells written tokens (.indent depth :: ps)
  | comment {tokens ps} (c : Comment) : Spells written tokens ps → Spells written tokens (.comment c :: ps)
  | mark {tokens ps} (text : String) : Spells written tokens ps →
    Spells written (mark text :: tokens) (.text text :: ps)
  | spaced {tokens ps} : Spells written tokens ps → Spells written (.mark "," :: tokens) (.text ", " :: ps)
  | element {tokens ps} (a : α) (depth : Nat) : Spells written tokens ps →
    Spells written (element a :: tokens) (written a depth ++ ps)

section Printing

variable {written : α → Layout} {depth : Nat}

theorem Spells.append {ps qs : List Piece} (h : Spells written tokens ps) (h' : Spells written others qs) :
    Spells written (tokens ++ others) (ps ++ qs) := by
  induction h with
  | nil => exact h'
  | newline _ ih => exact .newline ih
  | indent depth _ ih => exact .indent depth ih
  | comment c _ ih => exact .comment c ih
  | mark text _ ih => exact .mark text ih
  | spaced _ ih => exact .spaced ih
  | element a depth _ ih =>
    rw [List.append_assoc]
    exact .element a depth ih

theorem Spells.seq_cons {l : Layout} {ls : List Layout} (h : Spells written tokens (l depth))
    (h' : Spells written others (seq ls depth)) : Spells written (tokens ++ others) (seq (l :: ls) depth) :=
  h.append h'

theorem Spells.seq_map {f : β → List (ArrayToken α)} {g : β → Layout} (h : ∀ b, Spells written (f b) (g b depth)) :
    ∀ bs : List β, Spells written (bs.flatMap f) (seq (bs.map g) depth)
  | [] => .nil
  | b :: bs => (h b).seq_cons (seq_map h bs)

theorem spells_mark (text : String) : Spells written [mark text] (Layout.text text depth) := .mark text .nil

theorem spells_commentLines (comments : List Comment) : Spells written [] (commentLines comments depth) := by
  unfold commentLines
  split
  case isTrue => exact .nil
  case isFalse hne =>
    clear hne
    refine .newline ?_
    induction comments with
    | nil => exact .nil
    | cons c comments ih => exact .indent depth (.comment c (.newline ih))

end Printing

section Nodes

variable (semicolons : Bool) (before : α → Node)

/-- What an element is printed as. -/
def written (a : α) : Layout := ((before a).printed semicolons).whole

theorem spells_element (depth : Nat) (e : Option α) :
    Spells (written semicolons before) (slot e ++ [mark ","])
      (Child.element ((e.map before).map (Node.child semicolons)) depth) := by
  have hend : Spells (written semicolons before) [mark ","] (seq [text ",", newline] depth) := .mark "," (.newline .nil)
  cases e with
  | none => exact .indent depth hend
  | some a => exact (spells_commentLines _).seq_cons (.indent depth (.element a depth hend))

theorem spells_literal (info : Info) (depth : Nat) :
    Spells (written semicolons before) (literal es)
      (((Node.mk info (.arrayExpression (es.map (Option.map before)))).printed semicolons).whole depth) := by
  rw [Node.printed_eq]
  simp only [Node.form, Node.trailing, Form.map, Form.layout, Child.lines, List.map_map]
  split
  case isTrue hempty =>
    simp only [Bool.and_eq_true, List.isEmpty_iff, List.map_eq_nil_iff] at hempty
    rw [hempty.1]
    exact .mark "[" (.mark "]" .nil)
  case isFalse =>
    have hslots := Spells.seq_map (spells_element semicolons before (depth + 1)) es
    have hend : Spells (written semicolons before) [mark "]"]
        (seq [deeper (commentLines info.trailing), pad, text "]"] depth) :=
      (spells_commentLines info.trailing).seq_cons (l := deeper _) (.indent depth (.mark "]" .nil))
    exact .mark "[" (.newline (hslots.seq_cons (l := deeper _) hend))

theorem spells_slot (depth : Nat) (e : Option α) :
    Spells (written semicolons before) (slot e)
      (Child.optional ((e.map before).map (Node.child semicolons)) depth) := by
  cases e with
  | none => exact .nil
  | some a =>
    have helement : Spells (written semicolons before) [element a] (written semicolons before a depth ++ []) :=
      .element a depth .nil
    rwa [List.append_nil] at helement

theorem spells_separated (depth : Nat) : ∀ es : List (Option α),
    Spells (written semicolons before) (separated es)
      (Child.slots ((es.map (Option.map before)).map (Option.map (Node.child semicolons))) depth)
  | [] => .nil
  | [last] => spells_slot semicolons before depth last
  | e :: f :: rest => by
    have hrest : Spells (written semicolons before) (mark "," :: separated (f :: rest))
        (seq [text ", ", Child.slots (((f :: rest).map (Option.map before)).map (Option.map (Node.child semicolons)))]
          depth) := by
      rw [seq, List.flatMap_cons, List.flatMap_singleton]
      exact .spaced (spells_separated depth (f :: rest))
    exact (spells_slot semicolons before depth e).seq_cons hrest

theorem spells_closingComma (depth : Nat) (es : List (Option α)) :
    Spells (written semicolons before) (closingComma es)
      (onlyIf (Child.endsInHole ((es.map (Option.map before)).map (Option.map (Node.child semicolons)))) ","
        depth) := by
  have hlast : Child.endsInHole ((es.map (Option.map before)).map (Option.map (Node.child semicolons))) =
      es.getLast?.any Option.isNone := by
    rw [Child.endsInHole, List.getLast?_map, List.getLast?_map]
    rcases es.getLast? with _ | _ | a <;> rfl
  rw [hlast, closingComma, onlyIf]
  split
  · exact .mark "," .nil
  · exact .nil

theorem spells_pattern (info : Info) (depth : Nat) :
    Spells (written semicolons before) (pattern es)
      (((Node.mk info (.arrayPattern (es.map (Option.map before)))).printed semicolons).whole depth) := by
  rw [Node.printed_eq, pattern, List.append_assoc, List.append_assoc]
  exact (spells_mark "[").seq_cons ((spells_separated semicolons before depth es).seq_cons
    ((spells_closingComma semicolons before depth es).seq_cons (.mark "]" .nil)))

end Nodes

/-! ## Reading -/

/-- The elements of tokens. A comma where an element is expected stands for a hole. -/
def elements : Bool → List (ArrayToken α) → List (Option α)
  | _, [] => []
  | _, element a :: rest => some a :: elements false rest
  | expecting, mark text :: rest =>
    if text = "," then (if expecting then [none] else []) ++ elements true rest else elements expecting rest

theorem elements_slot (e : Option α) (rest : List (ArrayToken α)) :
    elements true (slot e ++ mark "," :: rest) = e :: elements true rest := by
  cases e <;> rfl

theorem elements_literal (es : List (Option α)) : elements true (literal es) = es := by
  rw [literal, List.append_assoc, List.singleton_append, elements, if_neg (by decide)]
  induction es with
  | nil => rfl
  | cons e es ih =>
    rw [List.flatMap_cons, List.append_assoc, List.append_assoc, List.singleton_append, elements_slot, ih]

theorem elements_pattern (es : List (Option α)) : elements true (pattern es) = es := by
  rw [pattern, List.append_assoc, List.append_assoc, List.singleton_append, elements, if_neg (by decide)]
  fun_induction separated es with
  | case1 => rfl
  | case2 last => cases last <;> rfl
  | case3 e rest hrest ih =>
    have hclosing : closingComma (e :: rest) = closingComma rest := by
      rw [closingComma, List.getLast?_cons_of_ne_nil hrest]
      rfl
    rw [hclosing, List.append_assoc, List.cons_append, elements_slot, ih]

/-- The concrete node is the token. What is read at an element is known. -/
def IsNode (r : Reader) (after : α → Node) (c : Cst) : ArrayToken α → Prop
  | mark text => c.mark.isNamed = false ∧ c.kind = text
  | element a => c.mark.isNamed = true ∧ c.kind ≠ "," ∧ r.read c = .ok (after a)

/-- Apart from comments, which can be anywhere, the children of the concrete node are the tokens. -/
def Shows (r : Reader) (after : α → Node) (c : Cst) (tokens : List (ArrayToken α)) : Prop :=
  List.Forall₂ (IsNode r after) (c.children.filter fun d => !d.isComment) tokens

theorem elementsFrom_filter (r : Reader) (cs : List Cst) : ∀ expecting,
    r.elementsFrom expecting (cs.filter fun c => !c.isComment) = r.elementsFrom expecting cs := by
  induction cs with
  | nil => exact fun _ => rfl
  | cons c cs ih =>
    intro expecting
    rw [List.filter_cons]
    cases hcomment : c.isComment with
    | true => simp [Reader.elementsFrom, hcomment, ih]
    | false => simp [Reader.elementsFrom, hcomment, ih]

/-- The reader finds the elements of the tokens. -/
theorem elementsFrom_eq {r : Reader} {after : α → Node} {cs : List Cst} (h : List.Forall₂ (IsNode r after) cs tokens)
    (hcs : ∀ c ∈ cs, c.isComment = false) : ∀ expecting,
      r.elementsFrom expecting cs = .ok ((elements expecting tokens).map (Option.map after)) := by
  induction h with
  | nil => exact fun _ => rfl
  | @cons c token cs tokens hc _ ih =>
    intro expecting
    obtain ⟨hcomment, hcs⟩ := List.forall_mem_cons.1 hcs
    cases token with
    | mark text =>
      obtain ⟨hnamed, rfl⟩ := hc
      by_cases hcomma : c.kind = ","
      · cases expecting <;> simp [Reader.elementsFrom, elements, hcomment, hcomma, ih hcs]
      · simp [Reader.elementsFrom, elements, hcomment, hcomma, hnamed, ih hcs]
    | element a =>
      obtain ⟨hnamed, hcomma, hread⟩ := hc
      simp only [Reader.elementsFrom, elements, hcomment, beq_iff_eq, hcomma, hnamed, hread, ih hcs, if_true,
        Bool.false_eq_true, if_false]
      rfl

theorem Shows.elements_eq {r : Reader} {after : α → Node} {c : Cst} (h : Shows r after c tokens) :
    r.elements c = .ok ((elements true tokens).map (Option.map after)) := by
  rw [Reader.elements, ← elementsFrom_filter]
  exact elementsFrom_eq h (by simp) true

end ArrayToken

open ArrayToken in
/-- A list with holes anywhere is printed as tokens that are read back as the list, with comments anywhere
between them, both as a literal and as a pattern. -/
theorem holes_survive {α : Type} (before after : α → Node) (es : List (Option α)) (semicolons : Bool) (r : Reader) :
    (∀ info depth, Spells (written semicolons before) (literal es)
      (((Node.mk info (.arrayExpression (es.map (Option.map before)))).printed semicolons).whole depth)) ∧
    (∀ info depth, Spells (written semicolons before) (pattern es)
      (((Node.mk info (.arrayPattern (es.map (Option.map before)))).printed semicolons).whole depth)) ∧
    ∀ c, Shows r after c (literal es) ∨ Shows r after c (pattern es) →
      r.elements c = .ok (es.map (Option.map after)) := by
  refine ⟨spells_literal semicolons before, spells_pattern semicolons before, fun c h => ?_⟩
  rcases h with h | h
  case inl => rw [h.elements_eq, elements_literal]
  case inr => rw [h.elements_eq, elements_pattern]

namespace ArrayToken

/-- A name between holes, behind a comment. -/
def holesSource : Source := .ofString "[, /**/ a,,]"

/-- The concrete name of the text. -/
def holesName : Cst := .node ⟨"identifier", true, false, false, 8, 9, none⟩ []

/-- The concrete array of the text. -/
def holesTree : Cst :=
  let token (text : String) (start : Nat) : Cst := .node ⟨text, false, false, false, start, start + 1, none⟩ []
  .node ⟨"array", true, false, false, 0, 12, none⟩
    [token "[" 0, token "," 1, .node ⟨"comment", true, false, false, 3, 7, none⟩ [], holesName, token "," 9,
      token "," 10, token "]" 11]

theorem holes_survive_comment :
    let name := Node.plain ⟨8, 9, 1⟩ (.identifier "a")
    Shows holesSource.reader (fun _ : Unit => name) holesTree (literal [none, some (), none]) ∧
      holesSource.reader.elements holesTree = .ok [none, some name, none] := by
  intro name
  have htext : holesSource.reader.text holesName = .ok "a" := by decide +kernel
  have hspan : holesSource.span holesName holesName = ⟨8, 9, 1⟩ := by decide +kernel
  have hidentifier : holesSource.reader.identifier holesName = .ok name := by
    rw [Reader.identifier, htext]
    exact congrArg (fun span => Except.ok (Node.plain span (.identifier "a"))) hspan
  have hstep (depth : Nat) : holesSource.readNode (depth + 1) holesName = holesSource.reader.identifier holesName := rfl
  have hread : holesSource.reader.read holesName = .ok name := (hstep 999).trans hidentifier
  have hshows : Shows holesSource.reader (fun _ : Unit => name) holesTree (literal [none, some (), none]) :=
    .cons ⟨rfl, rfl⟩ (.cons ⟨rfl, rfl⟩ (.cons ⟨rfl, by decide, hread⟩ (.cons ⟨rfl, rfl⟩ (.cons ⟨rfl, rfl⟩
      (.cons ⟨rfl, rfl⟩ .nil)))))
  exact ⟨hshows, (holes_survive (fun _ => name) (fun _ => name) [none, some (), none] true
    holesSource.reader).2.2 holesTree (.inl hshows)⟩

end ArrayToken

end ScriptTidy
