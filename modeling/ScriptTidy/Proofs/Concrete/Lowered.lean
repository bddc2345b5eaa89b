/-
A text below an empty line. Everything in it stands one byte and one line further down, and is read
as what it was without that line, one byte and one line further down: the reader of a node looks at
places only to tell where the node stands and which text it has. Faults that name a place name the
place one line below.
-/
import ScriptTidy.Proofs.Comments.Order
import ScriptTidy.Proofs.Concrete.Bare
import ScriptTidy.Proofs.Concrete.Literals

namespace ScriptTidy

/-! ## Places one line further down -/

def Span.lowered (s : Span) : Span := ⟨s.start + 1, s.stop + 1, s.line + 1⟩

def Comment.lowered (c : Comment) : Comment :=
  { c with start := c.start + 1, stop := c.stop + 1, line := c.line + 1 }

def Position.lowered (p : Position) : Position := { p with line := p.line + 1 }

def Mark.lowered (m : Mark) : Mark := { m with start := m.start + 1, stop := m.stop + 1 }

/-- The fault, one line further down if it names a place. -/
def ReadFault.lowered : ReadFault → ReadFault
  | malformed position problem => malformed position.lowered problem
  | unsupported position kind => unsupported position.lowered kind
  | fault => fault

/-- Everything moves one line down. -/
def Relabeling.lowered : Relabeling := ⟨Span.lowered, Comment.lowered⟩

theorem Relabeling.keepsOrder_lowered : Relabeling.lowered.KeepsOrder where
  before _ _ := Nat.add_le_add_iff_right
  inside _ _ := Nat.add_lt_add_iff_right
  startsBy c d := by simp [lowered, Comment.lowered, Comment.startsBy]

/-- The tree one line further down. -/
def Node.lowered (n : Node) : Node := Relabeling.lowered.node n

theorem Node.lowered_plain (span : Span) (form : Form Node) :
    (plain span form).lowered = plain span.lowered (form.map lowered) :=
  Relabeling.node_mk ..

namespace Cst

mutual

/-- The concrete tree one line further down. -/
def lowered : Cst → Cst
  | node mark children => node mark.lowered (loweredAll children)

def loweredAll : List Cst → List Cst
  | [] => []
  | c :: cs => c.lowered :: loweredAll cs

end

theorem loweredAll_eq (cs : List Cst) : loweredAll cs = cs.map lowered := by
  induction cs with
  | nil => rfl
  | cons c cs ih => rw [loweredAll, ih, List.map_cons]

@[simp] theorem mark_lowered (c : Cst) : c.lowered.mark = c.mark.lowered := by
  cases c
  rfl

@[simp] theorem children_lowered (c : Cst) : c.lowered.children = c.children.map lowered := by
  obtain ⟨mark, cs⟩ := c
  exact loweredAll_eq cs

@[simp] theorem kind_lowered (c : Cst) : c.lowered.kind = c.kind := by
  rw [kind, mark_lowered]
  rfl

@[simp] theorem isNamed_lowered (m : Mark) : m.lowered.isNamed = m.isNamed := rfl

@[simp] theorem isComment_lowered (c : Cst) : c.lowered.isComment = c.isComment := by
  rw [isComment, kind_lowered, isComment]

theorem named_of_children {c d : Cst} (h : d.children = c.children.map lowered) : d.named = c.named.map lowered := by
  rw [named, h, List.filter_map, named]
  simp [Function.comp_def]

@[simp] theorem named_lowered (c : Cst) : c.lowered.named = c.named.map lowered :=
  named_of_children (children_lowered c)

@[simp] theorem field?_lowered (c : Cst) (name : String) : c.lowered.field? name = (c.field? name).map lowered := by
  rw [field?, children_lowered, List.find?_map, field?]
  simp [Function.comp_def, Mark.lowered]

@[simp] theorem hasToken_lowered (c : Cst) (token : String) : c.lowered.hasToken token = c.hasToken token := by
  simp [hasToken, Function.comp_def]

theorem sequenceOperands_lowered (c : Cst) : c.lowered.sequenceOperands = c.sequenceOperands.map lowered := by
  rw [sequenceOperands_eq, sequenceOperands_eq c, named_lowered, List.flatMap_map, List.map_flatMap]
  refine List.flatMap_congr fun d hd => ?_
  rw [kind_lowered]
  split
  · exact sequenceOperands_lowered d
  · rfl
termination_by sizeOf c
decreasing_by exact sizeOf_lt_of_mem (mem_of_named hd)

theorem commentNodes_lowered (c : Cst) : c.lowered.commentNodes = c.commentNodes.map lowered := by
  rw [commentNodes_eq, commentNodes_eq c, isComment_lowered, children_lowered, List.flatMap_map]
  split
  · rfl
  · rw [List.map_flatMap]
    exact List.flatMap_congr fun d _ => commentNodes_lowered d
termination_by sizeOf c
decreasing_by exact sizeOf_lt_of_mem (by assumption)

/-- The second tree has the parts of the first one line further down, wherever it starts and ends itself, and is in
error if the first is. Neither is a comment as a whole. -/
structure IsLowered (root below : Cst) : Prop where
  isComment : root.isComment = false ∧ below.isComment = false
  hasError : below.mark.hasError = root.mark.hasError
  children : below.children = root.children.map lowered

theorem IsLowered.commentNodes {root below : Cst} (h : root.IsLowered below) :
    below.commentNodes = root.commentNodes.map lowered := by
  rw [commentNodes_eq, h.isComment.2, commentNodes_eq root, h.isComment.1, h.children, List.flatMap_map]
  simp only [Bool.false_eq_true, if_false, List.map_flatMap, commentNodes_lowered]

end Cst

/-! ## Sources -/

namespace Source

/-- The second source is the first one below an empty line. -/
structure IsLowered (s t : Source) : Prop where
  bytes : t.bytes.data.toList = 10 :: s.bytes.data.toList
  breaks : t.breaks = 0 :: s.breaks.map (· + 1)

namespace IsLowered

variable {s t : Source} (h : s.IsLowered t)
include h

theorem takeWhile_breaks (offset : Nat) :
    t.breaks.takeWhile (· < offset + 1) = 0 :: (s.breaks.takeWhile (· < offset)).map (· + 1) := by
  rw [h.breaks, List.takeWhile_cons_of_pos (by simp), List.takeWhile_map]
  simp [Function.comp_def]

theorem line (offset : Nat) : t.line (offset + 1) = s.line offset + 1 := by
  rw [Source.line, h.takeWhile_breaks, List.length_cons, List.length_map, Source.line]

theorem position (offset : Nat) : t.position (offset + 1) = (s.position offset).lowered := by
  unfold Source.position
  rw [h.takeWhile_breaks]
  cases hlast : (s.breaks.takeWhile (· < offset)).getLast? with
  | none => simp [Position.lowered, List.getLast?_cons, hlast]
  | some last => simp [Position.lowered, List.getLast?_cons, hlast]

theorem slice (start stop : Nat) : t.slice (start + 1) (stop + 1) = s.slice start stop := by
  rw [slice_eq, h.bytes, List.take_succ_cons, List.drop_succ_cons, slice_eq]

/-- Nothing stands before the start of a text. -/
theorem slice_pred (start stop : Nat) : t.slice (start + 1) stop = s.slice start (stop - 1) := by
  cases stop with
  | zero => simp [slice_eq]
  | succ stop => exact h.slice start stop

theorem size : t.bytes.size = s.bytes.size + 1 := by
  have hlength := congrArg List.length h.bytes
  rwa [List.length_cons, Array.length_toList, Array.length_toList] at hlength

theorem span (c d : Cst) : t.span c.lowered d.lowered = (s.span c d).lowered := by
  rw [Source.span, Cst.mark_lowered, Cst.mark_lowered]
  simp only [Mark.lowered, h.line]
  rfl

end IsLowered

theorem breaksOf_newline (bytes : List UInt8) : breaksOf (10 :: bytes) = 0 :: (breaksOf bytes).map (· + 1) := by
  rw [breaksOf, List.zipIdx_cons, List.filter_cons_of_pos (by rfl), List.map_cons, List.zipIdx_succ, List.filter_map,
    breaksOf]
  simp [Function.comp_def]

/-- A newline in front of a text is an empty line above it. -/
theorem isLowered_ofString (body : String) : (ofString body).IsLowered (ofString ("\n" ++ body)) := by
  have hbytes : ("\n" ++ body).toUTF8.data.toList = 10 :: body.toUTF8.data.toList := by
    rw [String.toUTF8, String.toUTF8, String.toByteArray_append, ByteArray.data_append, Array.toList_append]
    rfl
  refine ⟨hbytes, ?_⟩
  rw [ofString, ofString, ofBytes, ofBytes, toList_eq_data, toList_eq_data, hbytes]
  exact breaksOf_newline _

end Source

/-! ## Outcomes -/

/-- The outcome with its fault one line further down. -/
def lowerFault {α : Type} (x : Reading α) : Reading α := x.mapError ReadFault.lowered

section Outcome

variable {α β : Type}

@[simp] theorem lowerFault_ok (a : α) : lowerFault (.ok a) = .ok a := rfl

@[simp] theorem lowerFault_pure (a : α) : lowerFault (pure a) = pure a := rfl

@[simp] theorem lowerFault_error (fault : ReadFault) :
    lowerFault (.error fault : Reading α) = .error fault.lowered := rfl

@[simp] theorem lowerFault_throw (fault : ReadFault) :
    lowerFault (throw fault : Reading α) = throw fault.lowered := rfl

@[simp] theorem lowerFault_bind (x : Reading α) (f : α → Reading β) :
    lowerFault (x >>= f) = lowerFault x >>= fun a => lowerFault (f a) := by
  cases x <;> rfl

@[simp] theorem lowerFault_map (f : α → β) (x : Reading α) : lowerFault (f <$> x) = f <$> lowerFault x := by
  cases x <;> rfl

@[simp] theorem lowerFault_ite (p : Prop) [Decidable p] (x y : Reading α) :
    lowerFault (if p then x else y) = if p then lowerFault x else lowerFault y :=
  apply_ite ..

/-- Doing the same for each node of a list, one line further down. -/
theorem mapM_lowered {f f' : Cst → Reading α} {g : α → α} (hf : ∀ c : Cst, f' c.lowered = g <$> lowerFault (f c))
    (cs : List Cst) : (cs.map Cst.lowered).mapM f' = List.map g <$> lowerFault (cs.mapM f) := by
  induction cs with
  | nil => rfl
  | cons c cs ih => simp [ih, hf]

/-- Doing something for a node that may be missing, one line further down. -/
theorem optional_lowered {f f' : Cst → Reading α} {g : α → α} (hf : ∀ c : Cst, f' c.lowered = g <$> lowerFault (f c))
    (c : Option Cst) : (c.map Cst.lowered).mapM f' = Option.map g <$> lowerFault (c.mapM f) := by
  cases c with
  | none => rfl
  | some c => simp [hf]

/-- Going through a list from the left, one line further down. -/
theorem foldlM_lowered {f f' : Node → Cst → Reading Node}
    (hf : ∀ (n : Node) (c : Cst), f' n.lowered c.lowered = Node.lowered <$> lowerFault (f n c)) (n : Node)
    (cs : List Cst) : (cs.map Cst.lowered).foldlM f' n.lowered = Node.lowered <$> lowerFault (cs.foldlM f n) := by
  induction cs generalizing n with
  | nil => rfl
  | cons c cs ih => simp [hf, ih]

end Outcome

/-! ## Readers -/

namespace Reader

variable {r r' : Reader}

/-- The second reader works on the source of the first below an empty line, and reads the nodes below a node as the
first does, one line further down. -/
structure IsLowered (r r' : Reader) : Prop where
  source : r.source.IsLowered r'.source
  read : ∀ c : Cst, r'.read c.lowered = Node.lowered <$> lowerFault (r.read c)

section

variable (hs : r.source.IsLowered r'.source)
include hs

theorem unsupported_lowered {α : Type} (c : Cst) :
    (r'.unsupported c.lowered : Reading α) = lowerFault (r.unsupported c) := by
  rw [unsupported, unsupported, Cst.mark_lowered, Cst.kind_lowered]
  show Except.error (ReadFault.unsupported (r'.source.position (c.mark.start + 1)) c.kind) = _
  rw [hs.position]
  rfl

omit hs in
@[simp] theorem map_lowerFault_unsupported {α β : Type} (r : Reader) (f : α → β) (c : Cst) :
    f <$> lowerFault (r.unsupported c) = lowerFault (r.unsupported c) := rfl

theorem require_lowered (c : Cst) (field : String) :
    r'.require c.lowered field = Cst.lowered <$> lowerFault (r.require c field) := by
  rw [require, Cst.field?_lowered, unsupported_lowered hs, require]
  cases c.field? field <;> rfl

theorem textBetween_lowered (start stop : Nat) :
    r'.textBetween (start + 1) (stop + 1) = lowerFault (r.textBetween start stop) := by
  rw [textBetween, hs.slice, textBetween]
  cases Text.decodeUtf8 (r.source.slice start stop) <;> rfl

theorem textBetween_lowered_pred (start stop : Nat) :
    r'.textBetween (start + 1) stop = lowerFault (r.textBetween start (stop - 1)) := by
  rw [textBetween, hs.slice_pred, textBetween]
  cases Text.decodeUtf8 (r.source.slice start (stop - 1)) <;> rfl

theorem text_lowered (c : Cst) : r'.text c.lowered = lowerFault (r.text c) := by
  rw [text, Cst.mark_lowered]
  exact textBetween_lowered hs ..

theorem node_lowered (c : Cst) (form : Form Node) :
    (r.node c form).lowered = r'.node c.lowered (form.map Node.lowered) := by
  rw [node, Node.lowered_plain, node, hs.span]

theorem refuseDecorators_lowered (c : Cst) :
    r'.refuseDecorators c.lowered = lowerFault (r.refuseDecorators c) := by
  rw [refuseDecorators, Cst.children_lowered, List.find?_map, refuseDecorators]
  simp only [Function.comp_def, Cst.kind_lowered]
  cases c.children.find? fun d => d.kind == "decorator" with
  | none => rfl
  | some d => exact unsupported_lowered hs d

end

theorem firstNamed_lowered (c : Cst) : firstNamed c.lowered = Cst.lowered <$> lowerFault (firstNamed c) := by
  rw [firstNamed, Cst.named_lowered, firstNamed]
  cases c.named <;> rfl

theorem firstKind_lowered (c : Cst) : firstKind c.lowered = lowerFault (firstKind c) := by
  rw [firstKind, Cst.children_lowered, firstKind]
  cases c.children with
  | nil => rfl
  | cons d ds => exact congrArg Except.ok d.kind_lowered

theorem operation_lowered (operator : String) (left right : Node) :
    (operation operator left right).map Node.lowered = operation operator left.lowered right.lowered := by
  unfold operation
  split <;> rfl

theorem methodKind_lowered (c : Cst) : methodKind c.lowered = methodKind c := by simp [methodKind]

/-! Two readers of one kind, where the second reads one line further down. -/

def ReadsLowered (f f' : Cst → Reading Node) : Prop :=
  ∀ c : Cst, f' c.lowered = Node.lowered <$> lowerFault (f c)

/-- The entries of two lists of readers are for one kind. -/
def Corresponds (e e' : String × (Cst → Reading Node)) : Prop := e'.1 = e.1 ∧ ReadsLowered e.2 e'.2

theorem rel_lookup {es es' : List (String × (Cst → Reading Node))} (h : List.Forall₂ Corresponds es es')
    (kind : String) : Option.Rel ReadsLowered (es.lookup kind) (es'.lookup kind) := by
  induction h with
  | nil => exact .none
  | @cons e e' es es' hentry _ ih =>
    obtain ⟨name, f⟩ := e
    obtain ⟨name', f'⟩ := e'
    obtain ⟨rfl, hf⟩ := hentry
    simp only [List.lookup_cons]
    cases kind == name' with
    | true => exact .some hf
    | false => exact ih

/-! The readers, given that the nodes below are read one line further down. -/

section Below

attribute [local simp] Form.map

variable (h : r.IsLowered r')
include h

theorem identifier_lowered (c : Cst) : r'.identifier c.lowered = Node.lowered <$> lowerFault (r.identifier c) := by
  simp [identifier, text_lowered h.source, node_lowered h.source]

theorem identifier?_lowered (c : Option Cst) :
    r'.identifier? (c.map Cst.lowered) = Option.map Node.lowered <$> lowerFault (r.identifier? c) :=
  optional_lowered (identifier_lowered h) c

theorem readAll_lowered (cs : List Cst) :
    r'.readAll (cs.map Cst.lowered) = List.map Node.lowered <$> lowerFault (r.readAll cs) :=
  mapM_lowered h.read cs

theorem readOptional_lowered (c : Option Cst) :
    r'.readOptional (c.map Cst.lowered) = Option.map Node.lowered <$> lowerFault (r.readOptional c) :=
  optional_lowered h.read c

theorem readField_lowered (c : Cst) (field : String) :
    r'.readField c.lowered field = Node.lowered <$> lowerFault (r.readField c field) := by
  simp [readField, require_lowered h.source, h.read]

theorem readFirst_lowered (c : Cst) : r'.readFirst c.lowered = Node.lowered <$> lowerFault (r.readFirst c) := by
  simp [readFirst, firstNamed_lowered, h.read]

theorem readFirst?_lowered (c : Cst) :
    r'.readFirst? c.lowered = Option.map Node.lowered <$> lowerFault (r.readFirst? c) := by
  rw [readFirst?, Cst.named_lowered, List.head?_map, readOptional_lowered h, readFirst?]

theorem unparenthesized_lowered (c : Cst) :
    r'.unparenthesized c.lowered = Node.lowered <$> lowerFault (r.unparenthesized c) := by
  simp only [unparenthesized, Cst.kind_lowered, readFirst_lowered h, h.read, lowerFault_ite]
  split <;> rfl

theorem params_lowered (c : Option Cst) :
    r'.params (c.map Cst.lowered) = List.map Node.lowered <$> lowerFault (r.params c) := by
  cases c with
  | none => rfl
  | some c => simp only [params, Option.map_some, Cst.named_lowered, readAll_lowered h]

theorem memberName_lowered (c : Cst) : r'.memberName c.lowered =
    (fun name => (name.1.lowered, name.2)) <$> lowerFault (r.memberName c) := by
  simp only [memberName, Cst.kind_lowered, readFirst_lowered h, h.read]
  split <;> simp

/-! ### Statements -/

theorem block_lowered (c : Cst) : r'.block c.lowered = Node.lowered <$> lowerFault (r.block c) := by
  simp [block, readAll_lowered h, node_lowered h.source]

theorem expressionStatement_lowered (c : Cst) :
    r'.expressionStatement c.lowered = Node.lowered <$> lowerFault (r.expressionStatement c) := by
  simp [expressionStatement, readFirst_lowered h, node_lowered h.source]

theorem variableDeclarator_lowered (c : Cst) :
    r'.variableDeclarator c.lowered = Node.lowered <$> lowerFault (r.variableDeclarator c) := by
  simp [variableDeclarator, readField_lowered h, readOptional_lowered h, node_lowered h.source]

theorem declaration_lowered (kind : String) (c : Cst) :
    r'.declaration kind c.lowered = Node.lowered <$> lowerFault (r.declaration kind c) := by
  simp [declaration, List.filter_map, Function.comp_def, mapM_lowered (variableDeclarator_lowered h),
    node_lowered h.source]

theorem lexicalDeclaration_lowered (c : Cst) :
    r'.lexicalDeclaration c.lowered = Node.lowered <$> lowerFault (r.lexicalDeclaration c) := by
  simp [lexicalDeclaration, firstKind_lowered, declaration_lowered h]

theorem ifStatement_lowered (c : Cst) :
    r'.ifStatement c.lowered = Node.lowered <$> lowerFault (r.ifStatement c) := by
  simp [ifStatement, optional_lowered (readFirst_lowered h), require_lowered h.source, unparenthesized_lowered h,
    readField_lowered h, node_lowered h.source]

theorem whileStatement_lowered (c : Cst) :
    r'.whileStatement c.lowered = Node.lowered <$> lowerFault (r.whileStatement c) := by
  simp [whileStatement, require_lowered h.source, unparenthesized_lowered h, readField_lowered h, node_lowered h.source]

theorem doStatement_lowered (c : Cst) :
    r'.doStatement c.lowered = Node.lowered <$> lowerFault (r.doStatement c) := by
  simp [doStatement, require_lowered h.source, unparenthesized_lowered h, readField_lowered h, node_lowered h.source]

theorem forClause_lowered (c : Option Cst) :
    r'.forClause (c.map Cst.lowered) = Option.map Node.lowered <$> lowerFault (r.forClause c) := by
  cases c with
  | none => rfl
  | some c =>
    simp only [forClause, Option.map_some, Cst.kind_lowered, Cst.mark_lowered, Cst.isNamed_lowered]
    split
    · rfl
    · split <;> simp [readFirst_lowered h, h.read]

theorem forStatement_lowered (c : Cst) :
    r'.forStatement c.lowered = Node.lowered <$> lowerFault (r.forStatement c) := by
  simp [forStatement, forClause_lowered h, readField_lowered h, node_lowered h.source]

theorem forEachTarget_lowered (c target : Cst) :
    r'.forEachTarget c.lowered target.lowered = Node.lowered <$> lowerFault (r.forEachTarget c target) := by
  rw [forEachTarget, h.read, Cst.field?_lowered, Cst.field?_lowered, readOptional_lowered h, forEachTarget]
  cases c.field? "kind" <;> simp [Node.lowered_plain, node_lowered h.source, h.source.span]

theorem forInStatement_lowered (c : Cst) :
    r'.forInStatement c.lowered = Node.lowered <$> lowerFault (r.forInStatement c) := by
  simp [forInStatement, require_lowered h.source, forEachTarget_lowered h, readField_lowered h, node_lowered h.source,
    apply_ite]

theorem switchCase_lowered (c : Cst) :
    r'.switchCase c.lowered = Node.lowered <$> lowerFault (r.switchCase c) := by
  simp only [switchCase, Cst.kind_lowered, Cst.named_lowered, lowerFault_ite]
  split
  · simp [readFirst_lowered h, ← List.map_tail, readAll_lowered h, node_lowered h.source]
  · split
    · simp [readAll_lowered h, node_lowered h.source]
    · simp [unsupported_lowered h.source]

theorem switchStatement_lowered (c : Cst) :
    r'.switchStatement c.lowered = Node.lowered <$> lowerFault (r.switchStatement c) := by
  simp [switchStatement, mapM_lowered (switchCase_lowered h), require_lowered h.source, unparenthesized_lowered h,
    node_lowered h.source]

theorem catchClause_lowered (c : Cst) :
    r'.catchClause c.lowered = Node.lowered <$> lowerFault (r.catchClause c) := by
  simp [catchClause, readOptional_lowered h, require_lowered h.source, block_lowered h, node_lowered h.source]

theorem tryStatement_lowered (c : Cst) :
    r'.tryStatement c.lowered = Node.lowered <$> lowerFault (r.tryStatement c) := by
  have hfinalizer (d : Option Cst) : (d.map Cst.lowered).mapM (fun d => do r'.block (← r'.require d "body")) =
      Option.map Node.lowered <$> lowerFault (d.mapM fun d => do r.block (← r.require d "body")) :=
    optional_lowered (fun d => by simp [require_lowered h.source, block_lowered h]) d
  simp [tryStatement, optional_lowered (catchClause_lowered h), hfinalizer, require_lowered h.source, block_lowered h,
    node_lowered h.source]

theorem returnStatement_lowered (c : Cst) :
    r'.returnStatement c.lowered = Node.lowered <$> lowerFault (r.returnStatement c) := by
  simp [returnStatement, readFirst?_lowered h, node_lowered h.source]

theorem throwStatement_lowered (c : Cst) :
    r'.throwStatement c.lowered = Node.lowered <$> lowerFault (r.throwStatement c) := by
  simp [throwStatement, readFirst_lowered h, node_lowered h.source]

theorem breakStatement_lowered (c : Cst) :
    r'.breakStatement c.lowered = Node.lowered <$> lowerFault (r.breakStatement c) := by
  simp [breakStatement, identifier?_lowered h, node_lowered h.source]

theorem continueStatement_lowered (c : Cst) :
    r'.continueStatement c.lowered = Node.lowered <$> lowerFault (r.continueStatement c) := by
  simp [continueStatement, identifier?_lowered h, node_lowered h.source]

theorem labeledStatement_lowered (c : Cst) :
    r'.labeledStatement c.lowered = Node.lowered <$> lowerFault (r.labeledStatement c) := by
  simp [labeledStatement, require_lowered h.source, identifier_lowered h, readField_lowered h, node_lowered h.source]

/-! ### Functions and classes -/

theorem functionDeclaration_lowered (c : Cst) :
    r'.functionDeclaration c.lowered = Node.lowered <$> lowerFault (r.functionDeclaration c) := by
  simp [functionDeclaration, require_lowered h.source, identifier_lowered h, params_lowered h, block_lowered h,
    node_lowered h.source]

theorem functionExpression_lowered (c : Cst) :
    r'.functionExpression c.lowered = Node.lowered <$> lowerFault (r.functionExpression c) := by
  simp [functionExpression, require_lowered h.source, identifier?_lowered h, params_lowered h, block_lowered h,
    node_lowered h.source]

theorem arrowFunction_lowered (c : Cst) :
    r'.arrowFunction c.lowered = Node.lowered <$> lowerFault (r.arrowFunction c) := by
  rw [arrowFunction, Cst.field?_lowered, arrowFunction]
  cases c.field? "parameter" <;> simp [params_lowered h, readField_lowered h, h.read, node_lowered h.source]

theorem heritage_lowered (c : Cst) :
    r'.heritage c.lowered = Option.map Node.lowered <$> lowerFault (r.heritage c) := by
  simp [heritage, List.find?_map, Function.comp_def, optional_lowered (readFirst_lowered h)]

theorem classBody_lowered (c : Cst) :
    r'.classBody c.lowered = Node.lowered <$> lowerFault (r.classBody c) := by
  simp [classBody, readAll_lowered h, node_lowered h.source]

theorem classDeclaration_lowered (c : Cst) :
    r'.classDeclaration c.lowered = Node.lowered <$> lowerFault (r.classDeclaration c) := by
  simp [classDeclaration, refuseDecorators_lowered h.source, require_lowered h.source, identifier_lowered h,
    heritage_lowered h, classBody_lowered h, node_lowered h.source]

theorem classExpression_lowered (c : Cst) :
    r'.classExpression c.lowered = Node.lowered <$> lowerFault (r.classExpression c) := by
  simp [classExpression, refuseDecorators_lowered h.source, require_lowered h.source, identifier?_lowered h,
    heritage_lowered h, classBody_lowered h, node_lowered h.source]

theorem methodFunction_lowered (c : Cst) :
    r'.methodFunction c.lowered = Node.lowered <$> lowerFault (r.methodFunction c) := by
  have hparams (d : Cst) : r'.params (some d.lowered) = List.map Node.lowered <$> lowerFault (r.params (some d)) :=
    params_lowered h (some d)
  simp [methodFunction, require_lowered h.source, hparams, block_lowered h, Node.lowered_plain, h.source.span]

theorem methodDefinition_lowered (c : Cst) :
    r'.methodDefinition c.lowered = Node.lowered <$> lowerFault (r.methodDefinition c) := by
  simp [methodDefinition, refuseDecorators_lowered h.source, require_lowered h.source, memberName_lowered h,
    methodFunction_lowered h, methodKind_lowered, node_lowered h.source]

theorem fieldDefinition_lowered (c : Cst) :
    r'.fieldDefinition c.lowered = Node.lowered <$> lowerFault (r.fieldDefinition c) := by
  simp [fieldDefinition, refuseDecorators_lowered h.source, require_lowered h.source, memberName_lowered h,
    readOptional_lowered h, node_lowered h.source]

/-! ### Literals and modules -/

theorem string_lowered (c : Cst) : r'.string c.lowered = Node.lowered <$> lowerFault (r.string c) := by
  simp only [string, text_lowered h.source, lowerFault_bind, map_bind]
  congr 1
  funext raw
  split
  · simp [node_lowered h.source]
  · rfl

theorem number_lowered (c : Cst) : r'.number c.lowered = Node.lowered <$> lowerFault (r.number c) := by
  simp only [number, text_lowered h.source, lowerFault_bind, map_bind]
  congr 1
  funext raw
  split
  · simp [node_lowered h.source]
  · rfl

theorem regex_lowered (c : Cst) : r'.regex c.lowered = Node.lowered <$> lowerFault (r.regex c) := by
  simp [regex, text_lowered h.source, node_lowered h.source]

theorem templateFrom_lowered (stop start : Nat) (cs : List Cst) :
    r'.templateFrom stop (start + 1) (cs.map Cst.lowered) =
      Prod.map id (List.map Node.lowered) <$> lowerFault (r.templateFrom (stop - 1) start cs) := by
  induction cs generalizing start with
  | nil => simp only [List.map_nil, templateFrom, textBetween_lowered_pred h.source]; simp
  | cons c cs ih =>
    have hmark : c.mark.lowered.start = c.mark.start + 1 ∧ c.mark.lowered.stop = c.mark.stop + 1 := ⟨rfl, rfl⟩
    rw [List.map_cons, templateFrom, Cst.mark_lowered, hmark.1, hmark.2, textBetween_lowered h.source,
      readFirst_lowered h, ih, templateFrom]
    simp

theorem template_lowered (c : Cst) : r'.template c.lowered = Node.lowered <$> lowerFault (r.template c) := by
  have hfrom := templateFrom_lowered h c.mark.stop (c.mark.start + 1)
  simp [template, List.filter_map, Function.comp_def, hfrom, node_lowered h.source, Mark.lowered]

theorem metaProperty_lowered (c : Cst) :
    r'.metaProperty c.lowered = Node.lowered <$> lowerFault (r.metaProperty c) := by
  simp [metaProperty, text_lowered h.source, node_lowered h.source]

/-- A specifier differs from another only in the form of its node. -/
theorem specifier_lowered {form : Node → Option Node → Form Node}
    (hform : ∀ name renamed, (form name renamed).map Node.lowered = form name.lowered (renamed.map Node.lowered))
    (c : Cst) : r'.specifier c.lowered form = Node.lowered <$> lowerFault (r.specifier c form) := by
  simp [specifier, readField_lowered h, readOptional_lowered h, node_lowered h.source, hform, -Form.map]

theorem specifiers_lowered {form : Node → Option Node → Form Node}
    (hform : ∀ name renamed, (form name renamed).map Node.lowered = form name.lowered (renamed.map Node.lowered))
    (cs : List Cst) : ((cs.map Cst.lowered).mapM fun c => r'.specifier c form) =
      List.map Node.lowered <$> lowerFault (cs.mapM fun c => r.specifier c form) :=
  mapM_lowered (specifier_lowered h hform) cs

theorem importPart_lowered (c : Cst) :
    r'.importPart c.lowered = List.map Node.lowered <$> lowerFault (r.importPart c) := by
  simp only [importPart, Cst.kind_lowered, Cst.named_lowered, lowerFault_ite]
  split
  · simp [identifier_lowered h, node_lowered h.source]
  · split
    · simp [firstNamed_lowered, identifier_lowered h, node_lowered h.source]
    · split
      · exact specifiers_lowered h (fun _ _ => rfl) c.named
      · simp [unsupported_lowered h.source]

theorem importSpecifiers_lowered (c : Cst) :
    r'.importSpecifiers c.lowered = List.map Node.lowered <$> lowerFault (r.importSpecifiers c) := by
  simp only [importSpecifiers, Cst.kind_lowered, Cst.named_lowered, lowerFault_ite]
  split
  · simp [mapM_lowered (importPart_lowered h)]
  · split
    · rfl
    · simp [unsupported_lowered h.source]

theorem importStatement_lowered (c : Cst) :
    r'.importStatement c.lowered = Node.lowered <$> lowerFault (r.importStatement c) := by
  simp [importStatement, mapM_lowered (importSpecifiers_lowered h), require_lowered h.source, string_lowered h,
    node_lowered h.source]

theorem exportOfNames_lowered (c : Cst) (source : Option Node) :
    r'.exportOfNames c.lowered (source.map Node.lowered) = Node.lowered <$> lowerFault (r.exportOfNames c source) := by
  have hspecifiers := specifiers_lowered h (show ∀ name renamed, (Form.exportSpecifier name renamed).map Node.lowered =
    .exportSpecifier name.lowered (renamed.map Node.lowered) from fun _ _ => rfl)
  simp only [exportOfNames, Cst.named_lowered, List.find?_map, Function.comp_def, Cst.kind_lowered]
  cases c.named.find? fun d => d.kind == "export_clause" || d.kind == "namespace_export" with
  | none =>
    cases source with
    | none => simp [unsupported_lowered h.source]
    | some source =>
      simp only [Option.map_some, Option.map_none, Cst.hasToken_lowered]
      split
      · simp [node_lowered h.source]
      · simp [unsupported_lowered h.source]
  | some d =>
    simp only [Option.map_some, Cst.kind_lowered]
    split
    · simp [hspecifiers, node_lowered h.source]
    · cases source with
      | none => simp [unsupported_lowered h.source]
      | some source => simp [readFirst_lowered h, node_lowered h.source]

theorem exportStatement_lowered (c : Cst) :
    r'.exportStatement c.lowered = Node.lowered <$> lowerFault (r.exportStatement c) := by
  simp only [exportStatement, refuseDecorators_lowered h.source, Cst.field?_lowered, Cst.hasToken_lowered,
    lowerFault_bind, map_bind, lowerFault_ite]
  congr 1
  funext _
  split
  · cases c.field? "declaration" <;> cases c.field? "value" <;>
      simp [h.read, node_lowered h.source, unsupported_lowered h.source]
  · cases c.field? "declaration" <;>
      simp [h.read, node_lowered h.source, optional_lowered (string_lowered h), exportOfNames_lowered h]

/-! ### Expressions and patterns -/

theorem elementsFrom_lowered (expecting : Bool) (cs : List Cst) : r'.elementsFrom expecting (cs.map Cst.lowered) =
    List.map (Option.map Node.lowered) <$> lowerFault (r.elementsFrom expecting cs) := by
  induction cs generalizing expecting with
  | nil => rfl
  | cons c cs ih =>
    simp only [List.map_cons, elementsFrom, Cst.isComment_lowered, Cst.kind_lowered, Cst.mark_lowered,
      Cst.isNamed_lowered, ih, h.read, lowerFault_ite]
    split
    · rfl
    · split
      · cases expecting <;> simp
      · split <;> simp

theorem elements_lowered (c : Cst) :
    r'.elements c.lowered = List.map (Option.map Node.lowered) <$> lowerFault (r.elements c) := by
  rw [elements, Cst.children_lowered, elementsFrom_lowered h, elements]

theorem array_lowered (c : Cst) :
    r'.array c.lowered = Node.lowered <$> lowerFault (r.array c) := by
  simp [array, elements_lowered h, node_lowered h.source]

theorem arrayPattern_lowered (c : Cst) :
    r'.arrayPattern c.lowered = Node.lowered <$> lowerFault (r.arrayPattern c) := by
  simp [arrayPattern, elements_lowered h, node_lowered h.source]

theorem pair_lowered (c : Cst) :
    r'.pair c.lowered = Node.lowered <$> lowerFault (r.pair c) := by
  simp [pair, require_lowered h.source, memberName_lowered h, readField_lowered h, node_lowered h.source]

theorem objectMethod_lowered (c : Cst) :
    r'.objectMethod c.lowered = Node.lowered <$> lowerFault (r.objectMethod c) := by
  simp [objectMethod, refuseDecorators_lowered h.source, methodKind_lowered, require_lowered h.source,
    memberName_lowered h, methodFunction_lowered h, node_lowered h.source]

theorem shorthand_lowered (c : Cst) :
    r'.shorthand c.lowered = Node.lowered <$> lowerFault (r.shorthand c) := by
  simp [shorthand, identifier_lowered h, node_lowered h.source]

theorem shorthandWithDefault_lowered (c : Cst) :
    r'.shorthandWithDefault c.lowered = Node.lowered <$> lowerFault (r.shorthandWithDefault c) := by
  simp only [shorthandWithDefault, require_lowered h.source, bind_map_left, lowerFault_bind, map_bind]
  congr 1
  funext left
  rw [Cst.kind_lowered]
  split
  · simp [identifier_lowered h, h.read, Node.lowered_plain, h.source.span]
  · simp [unsupported_lowered h.source]

theorem objectMember_lowered (c : Cst) :
    r'.objectMember c.lowered = Node.lowered <$> lowerFault (r.objectMember c) := by
  simp only [objectMember, Cst.kind_lowered, pair_lowered h, objectMethod_lowered h, shorthand_lowered h, h.read]
  repeat' split
  all_goals rfl

theorem object_lowered (c : Cst) :
    r'.object c.lowered = Node.lowered <$> lowerFault (r.object c) := by
  simp [object, mapM_lowered (objectMember_lowered h), node_lowered h.source]

theorem patternMember_lowered (c : Cst) :
    r'.patternMember c.lowered = Node.lowered <$> lowerFault (r.patternMember c) := by
  simp only [patternMember, Cst.kind_lowered, pair_lowered h, shorthand_lowered h, shorthandWithDefault_lowered h,
    h.read]
  repeat' split
  all_goals rfl

theorem objectPattern_lowered (c : Cst) :
    r'.objectPattern c.lowered = Node.lowered <$> lowerFault (r.objectPattern c) := by
  simp [objectPattern, mapM_lowered (patternMember_lowered h), node_lowered h.source]

theorem callExpression_lowered (c : Cst) :
    r'.callExpression c.lowered = Node.lowered <$> lowerFault (r.callExpression c) := by
  simp only [callExpression, readField_lowered h, require_lowered h.source, bind_map_left, lowerFault_bind, map_bind]
  congr 1
  funext callee
  congr 1
  funext arguments
  rw [Cst.kind_lowered]
  split
  · simp [template_lowered h, node_lowered h.source]
  · simp [readAll_lowered h, node_lowered h.source]

theorem newExpression_lowered (c : Cst) :
    r'.newExpression c.lowered = Node.lowered <$> lowerFault (r.newExpression c) := by
  simp [newExpression, readField_lowered h, params_lowered h, node_lowered h.source]

theorem memberExpression_lowered (c : Cst) :
    r'.memberExpression c.lowered = Node.lowered <$> lowerFault (r.memberExpression c) := by
  simp [memberExpression, readField_lowered h, require_lowered h.source, identifier_lowered h, node_lowered h.source]

theorem subscriptExpression_lowered (c : Cst) :
    r'.subscriptExpression c.lowered = Node.lowered <$> lowerFault (r.subscriptExpression c) := by
  simp [subscriptExpression, readField_lowered h, node_lowered h.source]

theorem assignment_lowered (c : Cst) :
    r'.assignment c.lowered = Node.lowered <$> lowerFault (r.assignment c) := by
  simp [assignment, readField_lowered h, node_lowered h.source]

theorem augmentedAssignment_lowered (c : Cst) :
    r'.augmentedAssignment c.lowered = Node.lowered <$> lowerFault (r.augmentedAssignment c) := by
  simp [augmentedAssignment, require_lowered h.source, readField_lowered h, node_lowered h.source]

/-- The operations of a chain one line further down. -/
theorem leftSpine_lowered (c : Cst) (above : List Cst) : r'.leftSpine c.lowered (above.map Cst.lowered) =
    Prod.map (List.map Cst.lowered) Cst.lowered <$> lowerFault (r.leftSpine c above) := by
  rcases hleft : c.field? "left" with _ | left
  · rw [leftSpine_of_none hleft, leftSpine_of_none (by rw [Cst.field?_lowered, hleft]; rfl),
      unsupported_lowered h.source]
    simp [unsupported]
  · rw [leftSpine_of_some hleft, leftSpine_of_some (by rw [Cst.field?_lowered, hleft]; rfl), Cst.kind_lowered]
    split
    · exact leftSpine_lowered left (c :: above)
    · rfl
termination_by sizeOf c
decreasing_by exact Cst.sizeOf_lt_of_mem (Cst.mem_of_field? hleft)

theorem binaryExpression_lowered (c : Cst) :
    r'.binaryExpression c.lowered = Node.lowered <$> lowerFault (r.binaryExpression c) := by
  have hspine := leftSpine_lowered h c []
  have hstep (left : Node) (d : Cst) :
      (do
        let operator ← r'.require d.lowered "operator"
        let right ← r'.readField d.lowered "right"
        return r'.node d.lowered (operation operator.kind left.lowered right)) =
      Node.lowered <$> lowerFault (do
        let operator ← r.require d "operator"
        let right ← r.readField d "right"
        return r.node d (operation operator.kind left right)) := by
    simp [require_lowered h.source, readField_lowered h, node_lowered h.source, operation_lowered, -Form.map]
  rw [List.map_nil] at hspine
  simp only [binaryExpression, hspine, bind_map_left, lowerFault_bind, map_bind, Prod.map_snd, Prod.map_fst, h.read]
  congr 1
  funext spine
  congr 1
  funext first
  exact foldlM_lowered hstep first spine.1

theorem wrapped_lowered {form : Node → Form Node} (hform : ∀ n, (form n).map Node.lowered = form n.lowered) (c : Cst) :
    r'.wrapped form c.lowered = Node.lowered <$> lowerFault (r.wrapped form c) := by
  simp [wrapped, readFirst_lowered h, node_lowered h.source, hform, -Form.map]

theorem leaf_lowered {form : Form Node} (hform : form.map Node.lowered = form) (c : Cst) :
    r'.leaf form c.lowered = Node.lowered <$> lowerFault (r.leaf form c) := by
  simp [leaf, node_lowered h.source, hform, -Form.map]

theorem unaryExpression_lowered (c : Cst) :
    r'.unaryExpression c.lowered = Node.lowered <$> lowerFault (r.unaryExpression c) := by
  simp [unaryExpression, require_lowered h.source, readField_lowered h, node_lowered h.source]

theorem updateExpression_lowered (c : Cst) :
    r'.updateExpression c.lowered = Node.lowered <$> lowerFault (r.updateExpression c) := by
  simp [updateExpression, require_lowered h.source, readField_lowered h, firstKind_lowered, node_lowered h.source]

theorem ternaryExpression_lowered (c : Cst) :
    r'.ternaryExpression c.lowered = Node.lowered <$> lowerFault (r.ternaryExpression c) := by
  simp [ternaryExpression, readField_lowered h, node_lowered h.source]

theorem sequenceExpression_lowered (c : Cst) :
    r'.sequenceExpression c.lowered = Node.lowered <$> lowerFault (r.sequenceExpression c) := by
  simp [sequenceExpression, Cst.sequenceOperands_lowered, readAll_lowered h, node_lowered h.source]

theorem yieldExpression_lowered (c : Cst) :
    r'.yieldExpression c.lowered = Node.lowered <$> lowerFault (r.yieldExpression c) := by
  simp [yieldExpression, readFirst?_lowered h, node_lowered h.source]

theorem assignmentPattern_lowered (c : Cst) :
    r'.assignmentPattern c.lowered = Node.lowered <$> lowerFault (r.assignmentPattern c) := by
  simp [assignmentPattern, readField_lowered h, node_lowered h.source]

/-! ### Dispatch -/

theorem statementReaders_lowered : List.Forall₂ Corresponds r.statementReaders r'.statementReaders := by
  simp only [statementReaders, List.forall₂_cons, List.forall₂_nil_left_iff, Corresponds, true_and, and_true]
  exact ⟨expressionStatement_lowered h, declaration_lowered h "var", lexicalDeclaration_lowered h,
    variableDeclarator_lowered h, block_lowered h, leaf_lowered h rfl, leaf_lowered h rfl, ifStatement_lowered h,
    whileStatement_lowered h, doStatement_lowered h, forStatement_lowered h, forInStatement_lowered h,
    switchStatement_lowered h, tryStatement_lowered h, returnStatement_lowered h, throwStatement_lowered h,
    breakStatement_lowered h, continueStatement_lowered h, labeledStatement_lowered h, functionDeclaration_lowered h,
    functionDeclaration_lowered h, classDeclaration_lowered h, importStatement_lowered h, exportStatement_lowered h⟩

theorem expressionReaders_lowered : List.Forall₂ Corresponds r.expressionReaders r'.expressionReaders := by
  simp only [expressionReaders, List.forall₂_cons, List.forall₂_nil_left_iff, Corresponds, true_and, and_true]
  exact ⟨memberExpression_lowered h, callExpression_lowered h, string_lowered h, number_lowered h,
    binaryExpression_lowered h, assignment_lowered h, leaf_lowered h rfl, leaf_lowered h rfl, leaf_lowered h rfl,
    leaf_lowered h rfl, leaf_lowered h rfl, regex_lowered h, template_lowered h, metaProperty_lowered h,
    array_lowered h, object_lowered h, functionExpression_lowered h, functionExpression_lowered h,
    functionExpression_lowered h, arrowFunction_lowered h, classExpression_lowered h, classBody_lowered h,
    methodDefinition_lowered h, fieldDefinition_lowered h, newExpression_lowered h, subscriptExpression_lowered h,
    augmentedAssignment_lowered h, unaryExpression_lowered h, updateExpression_lowered h,
    ternaryExpression_lowered h, sequenceExpression_lowered h, wrapped_lowered h fun _ => rfl,
    wrapped_lowered h fun _ => rfl, wrapped_lowered h fun _ => rfl, yieldExpression_lowered h⟩

theorem patternReaders_lowered : List.Forall₂ Corresponds r.patternReaders r'.patternReaders := by
  simp only [patternReaders, List.forall₂_cons, List.forall₂_nil_left_iff, Corresponds, true_and, and_true]
  exact ⟨arrayPattern_lowered h, objectPattern_lowered h, assignmentPattern_lowered h,
    wrapped_lowered h fun _ => rfl⟩

theorem readerFor?_lowered (kind : String) :
    Option.Rel ReadsLowered (r.readerFor? kind) (r'.readerFor? kind) := by
  unfold readerFor?
  split
  · exact .some (identifier_lowered h)
  · exact rel_lookup (List.rel_append (List.rel_append (statementReaders_lowered h) (expressionReaders_lowered h))
      (patternReaders_lowered h)) kind

/-- If the nodes below are read one line further down, so is the node. -/
theorem dispatch_lowered (c : Cst) : r'.dispatch c.lowered = Node.lowered <$> lowerFault (r.dispatch c) := by
  have hreader := readerFor?_lowered h c.kind
  rw [dispatch, Cst.kind_lowered, dispatch]
  generalize r.readerFor? c.kind = f, r'.readerFor? c.kind = f' at hreader ⊢
  cases hreader with
  | some hf => exact hf c
  | none => exact unsupported_lowered h.source c

end Below

end Reader

/-! ## Programs -/

namespace Source

variable {s t : Source} {root below : Cst}

/-- By induction on the nesting that is allowed. -/
theorem isLowered_reader (hs : s.IsLowered t) (depth : Nat) :
    Reader.IsLowered ⟨s, s.readNode depth⟩ ⟨t, t.readNode depth⟩ where
  source := hs
  read := by
    induction depth with
    | zero => exact fun _ => rfl
    | succ depth ih => exact Reader.dispatch_lowered ⟨hs, ih⟩

/-- A program one line further down is the same program of statements one line further down. It still spans the whole
text. -/
theorem readProgram_lowered (hs : s.IsLowered t) (hroot : root.IsLowered below) : t.readProgram below =
    (fun program => Node.plain ⟨0, t.bytes.size, 1⟩ (program.form.map Node.lowered)) <$>
      lowerFault (s.readProgram root) := by
  have hread (cs : List Cst) : t.reader.readAll (cs.map Cst.lowered) =
      List.map Node.lowered <$> lowerFault (s.reader.readAll cs) :=
    Reader.readAll_lowered (isLowered_reader hs maxNesting) cs
  have hbody : below.named.filter (fun c => c.kind != "hash_bang_line") =
      (root.named.filter fun c => c.kind != "hash_bang_line").map Cst.lowered := by
    rw [Cst.named_of_children hroot.children, List.filter_map]
    simp [Function.comp_def]
  rw [readProgram, hbody, hread, readProgram]
  simp [Node.plain, Node.form, Form.map]

theorem readComment_lowered (hs : s.IsLowered t) (c : Cst) :
    t.readComment c.lowered = Comment.lowered <$> lowerFault (s.readComment c) := by
  have htext : t.reader.text c.lowered = lowerFault (s.reader.text c) :=
    Reader.text_lowered (isLowered_reader hs maxNesting).source c
  have hline : t.line c.lowered.mark.start = s.line c.mark.start + 1 := by
    rw [Cst.mark_lowered]
    exact hs.line c.mark.start
  have hunsupported : (t.reader.unsupported c.lowered : Reading Comment) = lowerFault (s.reader.unsupported c) :=
    Reader.unsupported_lowered (isLowered_reader hs maxNesting).source c
  simp only [readComment, htext, hline, hunsupported, lowerFault_bind, map_bind]
  congr 1
  funext text
  split
  · simp [Comment.lowered, Mark.lowered]
  · simp [Comment.lowered, Mark.lowered]
  · rfl

theorem readComments_lowered (hs : s.IsLowered t) (hroot : root.IsLowered below) : t.readComments below =
    List.map Comment.lowered <$> lowerFault (s.readComments root) := by
  have hread : (root.commentNodes.map Cst.lowered).mapM t.readComment =
      List.map Comment.lowered <$> lowerFault (root.commentNodes.mapM s.readComment) :=
    mapM_lowered (readComment_lowered hs) _
  have hsorted (comments : List Comment) :
      Comment.sorted (comments.map Comment.lowered) = (Comment.sorted comments).map Comment.lowered :=
    Relabeling.keepsOrder_lowered.sorted comments
  simp [readComments, hroot.commentNodes, hread, hsorted]

/-- What is read of a tree is read of it one line further down. -/
theorem readTree_lowered (hs : s.IsLowered t) (hroot : root.IsLowered below) {program : Node} {comments : List Comment}
    (h : s.readTree root = .ok (program, comments)) : t.readTree below =
      .ok (.plain ⟨0, t.bytes.size, 1⟩ (program.form.map Node.lowered), comments.map Comment.lowered) := by
  unfold readTree at h ⊢
  rw [hroot.hasError]
  split at h
  case isTrue =>
    obtain ⟨problem, -, h⟩ := exists_of_bind_ok h
    cases h
  case isFalse herror =>
    obtain ⟨program, hprogram, h⟩ := exists_of_bind_ok h
    obtain ⟨comments, hcomments, h⟩ := exists_of_bind_ok h
    cases h
    rw [if_neg herror, readProgram_lowered hs hroot, readComments_lowered hs hroot, hprogram, hcomments]
    rfl

end Source

end ScriptTidy
