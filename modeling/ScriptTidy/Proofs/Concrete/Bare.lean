/-
Comments take no part in reading. A comment is loose if it plays no part in its parent; `Stripped`
says that one tree is another less some of its loose comments, at any depth, the first children
apart, and `bare` is a tree without any of them. No reader tells a tree from its bare form: readers
look for children by their part, by their kind, or among the named ones that are no comments, and
each of these searches passes over loose comments. The first child is apart because the operator of
an update and the keyword of a declaration are found there.
-/
import ScriptTidy.Proofs.Concrete.Readers
import ScriptTidy.Proofs.Concrete.Walks

namespace ScriptTidy

namespace Cst

/-- A comment that plays no part in its parent. -/
def isLoose (c : Cst) : Bool := c.isComment && c.mark.field.isNone

mutual

/-- The second tree is the first less some loose comments that are no first children. -/
inductive Stripped : Cst → Cst → Prop
  | leaf {mark : Mark} : Stripped (.node mark []) (.node mark [])
  | node {mark : Mark} {c d : Cst} {cs ds : List Cst} : Stripped c d → StrippedRest cs ds →
      Stripped (.node mark (c :: cs)) (.node mark (d :: ds))

/-- The same for the children after the first. -/
inductive StrippedRest : List Cst → List Cst → Prop
  | nil : StrippedRest [] []
  | keep {c d : Cst} {cs ds : List Cst} : Stripped c d → StrippedRest cs ds → StrippedRest (c :: cs) (d :: ds)
  | drop {c : Cst} {cs ds : List Cst} : c.isLoose → StrippedRest cs ds → StrippedRest (c :: cs) ds

end

mutual

/-- The tree without its loose comments, the first children apart. -/
def bare : Cst → Cst
  | node mark [] => node mark []
  | node mark (c :: cs) => node mark (c.bare :: bareRest cs)

/-- The children after the first, in bare form. -/
def bareRest : List Cst → List Cst
  | [] => []
  | c :: cs => if c.isLoose then bareRest cs else c.bare :: bareRest cs

end

@[simp] theorem mark_bare (c : Cst) : c.bare.mark = c.mark := by
  rcases c with ⟨m, _ | _⟩ <;> rfl

@[simp] theorem kind_bare (c : Cst) : c.bare.kind = c.kind := by rw [kind, mark_bare, kind]

@[simp] theorem isComment_bare (c : Cst) : c.bare.isComment = c.isComment := by
  rw [isComment, kind_bare, isComment]

theorem isLoose_bare (c : Cst) : c.bare.isLoose = c.isLoose := by
  rw [isLoose, isComment_bare, mark_bare, isLoose]

mutual

/-- Stripping does not change the bare form. -/
theorem Stripped.bare_eq {c d : Cst} : c.Stripped d → d.bare = c.bare
  | .leaf => rfl
  | .node h hs => by rw [bare, bare, h.bare_eq, hs.bareRest_eq]

theorem StrippedRest.bareRest_eq {cs ds : List Cst} : StrippedRest cs ds → bareRest ds = bareRest cs
  | .nil => rfl
  | .keep h hs => by
    -- Both heads are loose or neither is.
    rw [bareRest, bareRest, h.bare_eq, hs.bareRest_eq, ← isLoose_bare, h.bare_eq, isLoose_bare]
  | .drop h hs => by rw [bareRest, if_pos h, hs.bareRest_eq]

end

/-! ## Searches among the children -/

/-- A condition on children that no loose comment meets and that does not look below them. -/
structure Heedless (p : Cst → Bool) : Prop where
  bare : ∀ c, p c.bare = p c
  loose : ∀ c, c.isLoose → p c = false

theorem filter_bareRest {p : Cst → Bool} (hp : Heedless p) (cs : List Cst) :
    (bareRest cs).filter p = (cs.filter p).map bare := by
  induction cs with
  | nil => rfl
  | cons c cs ih =>
    rw [bareRest]
    by_cases hc : c.isLoose
    · rw [if_pos hc, ih, List.filter_cons, hp.loose c hc]
      rfl
    · rw [if_neg hc, List.filter_cons, hp.bare, ih, List.filter_cons]
      split <;> rfl

theorem filter_children_bare {p : Cst → Bool} (hp : Heedless p) (c : Cst) :
    c.bare.children.filter p = (c.children.filter p).map bare := by
  rcases c with ⟨mark, _ | ⟨c, cs⟩⟩
  · rfl
  · rw [bare, children, children, List.filter_cons, hp.bare, filter_bareRest hp, List.filter_cons]
    split <;> rfl

theorem find?_children_bare {p : Cst → Bool} (hp : Heedless p) (c : Cst) :
    c.bare.children.find? p = (c.children.find? p).map bare := by
  rw [← List.head?_filter, filter_children_bare hp, List.head?_map, List.head?_filter]

theorem any_children_bare {p : Cst → Bool} (hp : Heedless p) (c : Cst) :
    c.bare.children.any p = c.children.any p := by
  rw [← List.isSome_find?, find?_children_bare hp, Option.isSome_map, List.isSome_find?]

theorem isComment_of_isLoose {c : Cst} (h : c.isLoose) : c.isComment := (Bool.and_eq_true_iff.1 h).1

/-- A search for a kind other than the two of comments. -/
theorem heedless_kind {kind : String} (h : kind ≠ "comment" ∧ kind ≠ "html_comment") :
    Heedless fun c => c.kind == kind where
  bare c := by rw [kind_bare]
  loose c hc := by
    rcases Bool.or_eq_true_iff.1 (isComment_of_isLoose hc) with hk | hk
    · rw [eq_of_beq hk, beq_eq_false_iff_ne]
      exact h.1.symm
    · rw [eq_of_beq hk, beq_eq_false_iff_ne]
      exact h.2.symm

/-- A search that also asks for something else that is known of a node. -/
theorem Heedless.and {p : Cst → Bool} (hp : Heedless p) (q : Mark → Bool) : Heedless fun c => q c.mark && p c where
  bare c := by rw [mark_bare, hp.bare]
  loose c hc := by rw [hp.loose c hc, Bool.and_false]

@[simp] theorem named_bare (c : Cst) : c.bare.named = c.named.map bare :=
  filter_children_bare ⟨fun d => by rw [mark_bare, isComment_bare], fun d hd => by
    rw [isComment_of_isLoose hd, Bool.not_true, Bool.and_false]⟩ c

@[simp] theorem field?_bare (c : Cst) (name : String) : c.bare.field? name = (c.field? name).map bare :=
  find?_children_bare ⟨fun d => by rw [mark_bare], fun d hd => by
    rw [Option.isNone_iff_eq_none.1 (Bool.and_eq_true_iff.1 hd).2]
    rfl⟩ c

@[simp] theorem hasToken_bare (c : Cst) {token : String} (h : token ≠ "comment" ∧ token ≠ "html_comment") :
    c.bare.hasToken token = c.hasToken token :=
  any_children_bare ((heedless_kind h).and fun mark => !mark.isNamed) c

theorem sequenceOperands_bare (c : Cst) : c.bare.sequenceOperands = c.sequenceOperands.map bare := by
  rw [sequenceOperands_eq, sequenceOperands_eq c, named_bare, List.flatMap_map, List.map_flatMap]
  refine List.flatMap_congr fun d hd => ?_
  rw [kind_bare]
  split
  · exact sequenceOperands_bare d
  · rfl
termination_by sizeOf c
decreasing_by exact sizeOf_lt_of_mem (mem_of_named hd)

end Cst

/-! ## Readers -/

namespace Reader

variable {r : Reader}

@[simp] theorem unsupported_bare {α : Type} (c : Cst) : (r.unsupported c.bare : Reading α) = r.unsupported c := by
  rw [unsupported, Cst.mark_bare, Cst.kind_bare, unsupported]

@[simp] theorem require_bare (c : Cst) (field : String) :
    r.require c.bare field = Cst.bare <$> r.require c field := by
  rw [require, Cst.field?_bare, unsupported_bare, require]
  cases c.field? field <;> rfl

@[simp] theorem firstNamed_bare (c : Cst) : firstNamed c.bare = Cst.bare <$> firstNamed c := by
  rw [firstNamed, Cst.named_bare, firstNamed]
  cases c.named <;> rfl

@[simp] theorem firstKind_bare (c : Cst) : firstKind c.bare = firstKind c := by
  rcases c with ⟨mark, _ | ⟨d, ds⟩⟩
  · rfl
  · simp only [Cst.bare, firstKind, Cst.children, Cst.kind_bare]

@[simp] theorem text_bare (c : Cst) : r.text c.bare = r.text c := by rw [text, Cst.mark_bare, text]

@[simp] theorem span_bare (s : Source) (c d : Cst) : s.span c.bare d.bare = s.span c d := by
  simp only [Source.span, Cst.mark_bare]

@[simp] theorem node_bare (c : Cst) (form : Form Node) : r.node c.bare form = r.node c form := by
  rw [node, span_bare, node]

@[simp] theorem refuseDecorators_bare (c : Cst) : r.refuseDecorators c.bare = r.refuseDecorators c := by
  rw [refuseDecorators, Cst.find?_children_bare (Cst.heedless_kind (by decide)), refuseDecorators]
  cases c.children.find? fun d => d.kind == "decorator" with
  | none => rfl
  | some d => exact unsupported_bare d

@[simp] theorem methodKind_bare (c : Cst) : methodKind c.bare = methodKind c := by
  simp [methodKind]

@[simp] theorem string_bare (c : Cst) : r.string c.bare = r.string c := by simp [string]

@[simp] theorem identifier_bare (c : Cst) : r.identifier c.bare = r.identifier c := by simp [identifier]

/-- Doing the same for each node of a list, in bare form. -/
theorem mapM_bare {α : Type} {f : Cst → Reading α} (hf : ∀ c, f c.bare = f c) (cs : List Cst) :
    (cs.map Cst.bare).mapM f = cs.mapM f := by
  rw [List.mapM_map, show f ∘ Cst.bare = f from funext hf]

/-- Doing something for a node that may be missing, in bare form. -/
theorem optional_bare {α : Type} {f : Cst → Reading α} (hf : ∀ c, f c.bare = f c) (c : Option Cst) :
    (c.map Cst.bare).mapM f = c.mapM f := by
  cases c with
  | none => rfl
  | some c => simp only [Option.map_some, Option.mapM_some, hf]

theorem identifier?_bare (c : Option Cst) : r.identifier? (c.map Cst.bare) = r.identifier? c :=
  optional_bare identifier_bare c

/-- The elements of an array are found without the comments among them. -/
theorem elementsFrom_filter (expecting : Bool) (cs : List Cst) :
    r.elementsFrom expecting (cs.filter fun c => !c.isComment) = r.elementsFrom expecting cs := by
  induction cs generalizing expecting with
  | nil => rfl
  | cons c cs ih =>
    rw [List.filter_cons]
    by_cases hc : c.isComment
    · rw [hc, elementsFrom, if_pos hc]
      exact ih expecting
    · rw [if_pos (by rw [Bool.not_eq_true _ |>.mp hc]; rfl), elementsFrom, elementsFrom, if_neg hc, if_neg hc]
      simp only [ih]

theorem leftSpine_of_none {c : Cst} (h : c.field? "left" = none) (above : List Cst) :
    r.leftSpine c above = r.unsupported c := by
  rw [leftSpine]
  split
  · rfl
  · simp_all

theorem leftSpine_of_some {c left : Cst} (h : c.field? "left" = some left) (above : List Cst) :
    r.leftSpine c above =
      if left.kind == "binary_expression" then r.leftSpine left (c :: above) else .ok (c :: above, left) := by
  rw [leftSpine]
  split
  · simp_all
  · simp_all

/-- The operations of a chain in bare form are the bare operations. -/
theorem leftSpine_bare (c : Cst) (above : List Cst) : r.leftSpine c.bare (above.map Cst.bare) =
    (fun spine => (spine.1.map Cst.bare, spine.2.bare)) <$> r.leftSpine c above := by
  rcases hleft : c.field? "left" with _ | left
  · rw [leftSpine_of_none hleft, leftSpine_of_none (by rw [Cst.field?_bare, hleft]; rfl), unsupported_bare]
    rfl
  · rw [leftSpine_of_some hleft, leftSpine_of_some (by rw [Cst.field?_bare, hleft]; rfl), Cst.kind_bare]
    split
    · exact leftSpine_bare left (c :: above)
    · rfl
termination_by sizeOf c
decreasing_by exact Cst.sizeOf_lt_of_mem (Cst.mem_of_field? hleft)

/-! The readers that read no node below their own. -/

theorem regex_bare (c : Cst) : r.regex c.bare = r.regex c := by simp [regex]

theorem number_bare (c : Cst) : r.number c.bare = r.number c := by simp [number]

theorem breakStatement_bare (c : Cst) : r.breakStatement c.bare = r.breakStatement c := by
  simp [breakStatement, identifier?_bare]

theorem continueStatement_bare (c : Cst) : r.continueStatement c.bare = r.continueStatement c := by
  simp [continueStatement, identifier?_bare]

theorem metaProperty_bare (c : Cst) : r.metaProperty c.bare = r.metaProperty c := by simp [metaProperty]

theorem shorthand_bare (c : Cst) : r.shorthand c.bare = r.shorthand c := by simp [shorthand]

/-! The readers, given that the nodes below are read without regard to loose comments. -/

section Below

variable (hr : ∀ c, r.read c.bare = r.read c)
include hr

theorem readAll_bare (cs : List Cst) : r.readAll (cs.map Cst.bare) = r.readAll cs := mapM_bare hr cs

theorem readOptional_bare (c : Option Cst) : r.readOptional (c.map Cst.bare) = r.readOptional c :=
  optional_bare hr c

theorem readField_bare (c : Cst) (field : String) : r.readField c.bare field = r.readField c field := by
  simp only [readField, require_bare, bind_map_left, hr]

theorem readFirst_bare (c : Cst) : r.readFirst c.bare = r.readFirst c := by
  simp only [readFirst, firstNamed_bare, bind_map_left, hr]

theorem readFirst?_bare (c : Cst) : r.readFirst? c.bare = r.readFirst? c := by
  rw [readFirst?, Cst.named_bare, List.head?_map, readOptional_bare hr, readFirst?]

theorem unparenthesized_bare (c : Cst) : r.unparenthesized c.bare = r.unparenthesized c := by
  simp only [unparenthesized, Cst.kind_bare, readFirst_bare hr, hr]

theorem params_bare (c : Option Cst) : r.params (c.map Cst.bare) = r.params c := by
  cases c with
  | none => rfl
  | some c => simp only [params, Option.map_some, Cst.named_bare, readAll_bare hr]

theorem memberName_bare (c : Cst) : r.memberName c.bare = r.memberName c := by
  simp only [memberName, Cst.kind_bare, readFirst_bare hr, hr]

/-! ### Statements -/

theorem block_bare (c : Cst) : r.block c.bare = r.block c := by
  simp [block, readAll_bare hr]

theorem expressionStatement_bare (c : Cst) : r.expressionStatement c.bare = r.expressionStatement c := by
  simp [expressionStatement, readFirst_bare hr]

theorem variableDeclarator_bare (c : Cst) : r.variableDeclarator c.bare = r.variableDeclarator c := by
  simp [variableDeclarator, readField_bare hr, readOptional_bare hr]

theorem declaration_bare (kind : String) (c : Cst) : r.declaration kind c.bare = r.declaration kind c := by
  simp [declaration, List.filter_map, Function.comp_def, mapM_bare (variableDeclarator_bare hr)]

theorem lexicalDeclaration_bare (c : Cst) : r.lexicalDeclaration c.bare = r.lexicalDeclaration c := by
  simp [lexicalDeclaration, declaration_bare hr]

theorem ifStatement_bare (c : Cst) : r.ifStatement c.bare = r.ifStatement c := by
  simp [ifStatement, optional_bare (readFirst_bare hr), unparenthesized_bare hr, readField_bare hr]

theorem whileStatement_bare (c : Cst) : r.whileStatement c.bare = r.whileStatement c := by
  simp [whileStatement, unparenthesized_bare hr, readField_bare hr]

theorem doStatement_bare (c : Cst) : r.doStatement c.bare = r.doStatement c := by
  simp [doStatement, unparenthesized_bare hr, readField_bare hr]

theorem forClause_bare (c : Option Cst) : r.forClause (c.map Cst.bare) = r.forClause c := by
  cases c with
  | none => rfl
  | some c => simp [forClause, readFirst_bare hr, hr]

theorem forStatement_bare (c : Cst) : r.forStatement c.bare = r.forStatement c := by
  simp [forStatement, forClause_bare hr, readField_bare hr]

theorem forEachTarget_bare (c target : Cst) : r.forEachTarget c.bare target.bare = r.forEachTarget c target := by
  rw [forEachTarget, hr, Cst.field?_bare, Cst.field?_bare, readOptional_bare hr, forEachTarget]
  cases c.field? "kind" <;> simp

theorem forInStatement_bare (c : Cst) : r.forInStatement c.bare = r.forInStatement c := by
  simp [forInStatement, forEachTarget_bare hr, readField_bare hr]

theorem switchCase_bare (c : Cst) : r.switchCase c.bare = r.switchCase c := by
  simp [switchCase, readFirst_bare hr, readAll_bare hr, ← List.map_tail]

theorem switchStatement_bare (c : Cst) : r.switchStatement c.bare = r.switchStatement c := by
  simp [switchStatement, mapM_bare (switchCase_bare hr), unparenthesized_bare hr]

theorem catchClause_bare (c : Cst) : r.catchClause c.bare = r.catchClause c := by
  simp [catchClause, readOptional_bare hr, block_bare hr]

theorem tryStatement_bare (c : Cst) : r.tryStatement c.bare = r.tryStatement c := by
  have hfinalizer (d : Option Cst) := optional_bare (f := fun d => do r.block (← r.require d "body"))
    (fun d => by simp [block_bare hr]) d
  simp [tryStatement, optional_bare (catchClause_bare hr), hfinalizer, block_bare hr]

theorem returnStatement_bare (c : Cst) : r.returnStatement c.bare = r.returnStatement c := by
  simp [returnStatement, readFirst?_bare hr]

theorem throwStatement_bare (c : Cst) : r.throwStatement c.bare = r.throwStatement c := by
  simp [throwStatement, readFirst_bare hr]

theorem labeledStatement_bare (c : Cst) : r.labeledStatement c.bare = r.labeledStatement c := by
  simp [labeledStatement, readField_bare hr]

/-! ### Functions and classes -/

theorem functionDeclaration_bare (c : Cst) : r.functionDeclaration c.bare = r.functionDeclaration c := by
  simp [functionDeclaration, params_bare hr, block_bare hr]

theorem functionExpression_bare (c : Cst) : r.functionExpression c.bare = r.functionExpression c := by
  simp [functionExpression, identifier?_bare, params_bare hr, block_bare hr]

theorem arrowFunction_bare (c : Cst) : r.arrowFunction c.bare = r.arrowFunction c := by
  rw [arrowFunction, Cst.field?_bare, arrowFunction]
  cases c.field? "parameter" <;> simp [params_bare hr, readField_bare hr, hr]

theorem heritage_bare (c : Cst) : r.heritage c.bare = r.heritage c := by
  simp [heritage, List.find?_map, Function.comp_def, optional_bare (readFirst_bare hr)]

theorem classBody_bare (c : Cst) : r.classBody c.bare = r.classBody c := by
  simp [classBody, readAll_bare hr]

theorem classDeclaration_bare (c : Cst) : r.classDeclaration c.bare = r.classDeclaration c := by
  simp [classDeclaration, heritage_bare hr, classBody_bare hr]

theorem classExpression_bare (c : Cst) : r.classExpression c.bare = r.classExpression c := by
  simp [classExpression, identifier?_bare, heritage_bare hr, classBody_bare hr]

theorem methodFunction_bare (c : Cst) : r.methodFunction c.bare = r.methodFunction c := by
  have hparams (d : Cst) : r.params (some d.bare) = r.params (some d) := params_bare hr (some d)
  simp [methodFunction, hparams, block_bare hr]

theorem methodDefinition_bare (c : Cst) : r.methodDefinition c.bare = r.methodDefinition c := by
  simp [methodDefinition, memberName_bare hr, methodFunction_bare hr]

theorem fieldDefinition_bare (c : Cst) : r.fieldDefinition c.bare = r.fieldDefinition c := by
  simp [fieldDefinition, memberName_bare hr, readOptional_bare hr]

/-! ### Literals and modules -/

theorem templateFrom_bare (stop start : Nat) (cs : List Cst) :
    r.templateFrom stop start (cs.map Cst.bare) = r.templateFrom stop start cs := by
  induction cs generalizing start with
  | nil => rfl
  | cons c cs ih =>
    rw [List.map_cons, templateFrom, Cst.mark_bare, readFirst_bare hr, ih, templateFrom]

theorem template_bare (c : Cst) : r.template c.bare = r.template c := by
  have hsubstitution : Cst.Heedless fun d => d.kind == "template_substitution" := Cst.heedless_kind (by decide)
  simp [template, Cst.filter_children_bare (hsubstitution.and Mark.isNamed), templateFrom_bare hr]

/-- A specifier differs from another only in the form of its node. -/
theorem specifier_bare (form : Node → Option Node → Form Node) (c : Cst) :
    r.specifier c.bare form = r.specifier c form := by
  simp [specifier, readField_bare hr, readOptional_bare hr]

theorem specifiers_bare (form : Node → Option Node → Form Node) (cs : List Cst) :
    ((cs.map Cst.bare).mapM fun c => r.specifier c form) = cs.mapM fun c => r.specifier c form :=
  mapM_bare (specifier_bare hr form) cs

theorem importPart_bare (c : Cst) : r.importPart c.bare = r.importPart c := by
  simp [importPart, specifiers_bare hr]

theorem importSpecifiers_bare (c : Cst) : r.importSpecifiers c.bare = r.importSpecifiers c := by
  simp [importSpecifiers, mapM_bare (importPart_bare hr)]

theorem importStatement_bare (c : Cst) : r.importStatement c.bare = r.importStatement c := by
  simp [importStatement, mapM_bare (importSpecifiers_bare hr)]

theorem exportOfNames_bare (c : Cst) (source : Option Node) :
    r.exportOfNames c.bare source = r.exportOfNames c source := by
  simp only [exportOfNames, Cst.named_bare, List.find?_map, Function.comp_def, Cst.kind_bare]
  cases c.named.find? fun d => d.kind == "export_clause" || d.kind == "namespace_export" with
  | none => cases source <;> simp
  | some d => cases source <;> simp [specifiers_bare hr, readFirst_bare hr]

theorem exportStatement_bare (c : Cst) : r.exportStatement c.bare = r.exportStatement c := by
  simp only [exportStatement, refuseDecorators_bare, Cst.field?_bare, exportOfNames_bare hr, optional_bare string_bare,
    Cst.hasToken_bare c (show "default" ≠ "comment" ∧ "default" ≠ "html_comment" by decide)]
  cases c.field? "declaration" <;> cases c.field? "value" <;> simp [hr]

/-! ### Expressions and patterns -/

theorem elements_bare (c : Cst) : r.elements c.bare = r.elements c := by
  have hheedless : Cst.Heedless fun d => !d.isComment :=
    ⟨fun d => by rw [Cst.isComment_bare], fun d hd => by rw [Cst.isComment_of_isLoose hd]; rfl⟩
  have hmap (expecting : Bool) (cs : List Cst) :
      r.elementsFrom expecting (cs.map Cst.bare) = r.elementsFrom expecting cs := by
    induction cs generalizing expecting with
    | nil => rfl
    | cons c cs ih => simp [elementsFrom, ih, hr]
  rw [elements, ← elementsFrom_filter, Cst.filter_children_bare hheedless, hmap, elementsFrom_filter, elements]

theorem array_bare (c : Cst) : r.array c.bare = r.array c := by
  simp [array, elements_bare hr]

theorem arrayPattern_bare (c : Cst) : r.arrayPattern c.bare = r.arrayPattern c := by
  simp [arrayPattern, elements_bare hr]

theorem pair_bare (c : Cst) : r.pair c.bare = r.pair c := by
  simp [pair, memberName_bare hr, readField_bare hr]

theorem objectMethod_bare (c : Cst) : r.objectMethod c.bare = r.objectMethod c := by
  simp [objectMethod, memberName_bare hr, methodFunction_bare hr]

theorem shorthandWithDefault_bare (c : Cst) : r.shorthandWithDefault c.bare = r.shorthandWithDefault c := by
  simp [shorthandWithDefault, hr]

theorem objectMember_bare (c : Cst) : r.objectMember c.bare = r.objectMember c := by
  simp [objectMember, pair_bare hr, objectMethod_bare hr, shorthand_bare, hr]

theorem object_bare (c : Cst) : r.object c.bare = r.object c := by
  simp [object, mapM_bare (objectMember_bare hr)]

theorem patternMember_bare (c : Cst) : r.patternMember c.bare = r.patternMember c := by
  simp [patternMember, pair_bare hr, shorthand_bare, shorthandWithDefault_bare hr, hr]

theorem objectPattern_bare (c : Cst) : r.objectPattern c.bare = r.objectPattern c := by
  simp [objectPattern, mapM_bare (patternMember_bare hr)]

theorem callExpression_bare (c : Cst) : r.callExpression c.bare = r.callExpression c := by
  simp [callExpression, readField_bare hr, template_bare hr, readAll_bare hr]

theorem newExpression_bare (c : Cst) : r.newExpression c.bare = r.newExpression c := by
  simp [newExpression, readField_bare hr, params_bare hr]

theorem memberExpression_bare (c : Cst) : r.memberExpression c.bare = r.memberExpression c := by
  simp [memberExpression, readField_bare hr]

theorem subscriptExpression_bare (c : Cst) : r.subscriptExpression c.bare = r.subscriptExpression c := by
  simp [subscriptExpression, readField_bare hr]

theorem assignment_bare (c : Cst) : r.assignment c.bare = r.assignment c := by
  simp [assignment, readField_bare hr]

theorem augmentedAssignment_bare (c : Cst) : r.augmentedAssignment c.bare = r.augmentedAssignment c := by
  simp [augmentedAssignment, readField_bare hr]

theorem binaryExpression_bare (c : Cst) : r.binaryExpression c.bare = r.binaryExpression c := by
  have hspine := leftSpine_bare (r := r) c []
  rw [List.map_nil] at hspine
  simp [binaryExpression, hspine, List.foldlM_map, readField_bare hr, hr]

theorem wrapped_bare (form : Node → Form Node) (c : Cst) : r.wrapped form c.bare = r.wrapped form c := by
  simp [wrapped, readFirst_bare hr]

theorem unaryExpression_bare (c : Cst) : r.unaryExpression c.bare = r.unaryExpression c := by
  simp [unaryExpression, readField_bare hr]

theorem updateExpression_bare (c : Cst) : r.updateExpression c.bare = r.updateExpression c := by
  simp [updateExpression, readField_bare hr]

theorem ternaryExpression_bare (c : Cst) : r.ternaryExpression c.bare = r.ternaryExpression c := by
  simp [ternaryExpression, readField_bare hr]

theorem sequenceExpression_bare (c : Cst) : r.sequenceExpression c.bare = r.sequenceExpression c := by
  simp [sequenceExpression, Cst.sequenceOperands_bare, readAll_bare hr]

theorem yieldExpression_bare (c : Cst) : r.yieldExpression c.bare = r.yieldExpression c := by
  simp [yieldExpression, readFirst?_bare hr]

theorem assignmentPattern_bare (c : Cst) : r.assignmentPattern c.bare = r.assignmentPattern c := by
  simp [assignmentPattern, readField_bare hr]

/-! ### Dispatch -/

theorem statementReaders_bare : ∀ e ∈ r.statementReaders, ∀ c, e.2 c.bare = e.2 c := by
  have hleaf (form : Form Node) (c : Cst) : r.leaf form c.bare = r.leaf form c := by rw [leaf, node_bare, leaf]
  simp only [statementReaders, List.forall_mem_cons, List.not_mem_nil, false_implies, implies_true, and_true]
  exact ⟨expressionStatement_bare hr, declaration_bare hr "var", lexicalDeclaration_bare hr,
    variableDeclarator_bare hr, block_bare hr, hleaf _, hleaf _, ifStatement_bare hr, whileStatement_bare hr,
    doStatement_bare hr, forStatement_bare hr, forInStatement_bare hr, switchStatement_bare hr, tryStatement_bare hr,
    returnStatement_bare hr, throwStatement_bare hr, breakStatement_bare, continueStatement_bare,
    labeledStatement_bare hr, functionDeclaration_bare hr, functionDeclaration_bare hr, classDeclaration_bare hr,
    importStatement_bare hr, exportStatement_bare hr⟩

theorem expressionReaders_bare : ∀ e ∈ r.expressionReaders, ∀ c, e.2 c.bare = e.2 c := by
  have hleaf (form : Form Node) (c : Cst) : r.leaf form c.bare = r.leaf form c := by rw [leaf, node_bare, leaf]
  simp only [expressionReaders, List.forall_mem_cons, List.not_mem_nil, false_implies, implies_true, and_true]
  exact ⟨memberExpression_bare hr, callExpression_bare hr, string_bare, number_bare, binaryExpression_bare hr,
    assignment_bare hr, hleaf _, hleaf _, hleaf _, hleaf _, hleaf _, regex_bare, template_bare hr, metaProperty_bare,
    array_bare hr, object_bare hr, functionExpression_bare hr, functionExpression_bare hr, functionExpression_bare hr,
    arrowFunction_bare hr, classExpression_bare hr, classBody_bare hr, methodDefinition_bare hr,
    fieldDefinition_bare hr, newExpression_bare hr, subscriptExpression_bare hr, augmentedAssignment_bare hr,
    unaryExpression_bare hr, updateExpression_bare hr, ternaryExpression_bare hr, sequenceExpression_bare hr,
    wrapped_bare hr _, wrapped_bare hr _, wrapped_bare hr _, yieldExpression_bare hr⟩

theorem patternReaders_bare : ∀ e ∈ r.patternReaders, ∀ c, e.2 c.bare = e.2 c := by
  simp only [patternReaders, List.forall_mem_cons, List.not_mem_nil, false_implies, implies_true, and_true]
  exact ⟨arrayPattern_bare hr, objectPattern_bare hr, assignmentPattern_bare hr, wrapped_bare hr _⟩

/-- If the nodes below are read without regard to loose comments, so is the node. -/
theorem dispatch_bare (c : Cst) : r.dispatch c.bare = r.dispatch c := by
  rw [dispatch, Cst.kind_bare, dispatch]
  cases hf : r.readerFor? c.kind with
  | none => exact unsupported_bare c
  | some f =>
    refine of_readerFor? (P := fun f => ∀ c, f c.bare = f c) hf identifier_bare (fun e he => ?_) c
    rcases List.mem_append.1 he with he | he
    · rcases List.mem_append.1 he with he | he
      · exact statementReaders_bare hr e he
      · exact expressionReaders_bare hr e he
    · exact patternReaders_bare hr e he

end Below

end Reader

/-! ## Programs -/

namespace Source

variable {s : Source}

/-- By induction on the nesting that is allowed. -/
theorem readNode_bare (depth : Nat) (c : Cst) : s.readNode depth c.bare = s.readNode depth c := by
  induction depth generalizing c with
  | zero => rfl
  | succ depth ih => exact Reader.dispatch_bare ih c

theorem readProgram_bare (root : Cst) : s.readProgram root.bare = s.readProgram root := by
  rw [readProgram, Cst.named_bare, List.filter_map]
  simp only [Function.comp_def, Cst.kind_bare, bne, Reader.readAll_bare (r := s.reader) (readNode_bare maxNesting)]
  rfl

/-- A tree is read as the same program, or rejected with the same fault, after any loose comments are
taken out of it, at any depth, first children apart. -/
theorem readProgram_of_stripped (s : Source) {c d : Cst} (h : c.Stripped d) :
    s.readProgram d = s.readProgram c := by
  rw [← readProgram_bare, h.bare_eq, readProgram_bare]

/-- The tree of an array with a hole, and with the given nodes where the hole is. -/
def holedArray (hole : List Cst) : Cst :=
  let leaf (kind : String) (isNamed : Bool) (start : Nat) : Cst :=
    .node ⟨kind, isNamed, false, false, start, start + 1, none⟩ []
  let array : Cst := .node ⟨"array", true, false, false, 0, 8, none⟩
    (leaf "[" false 0 :: (hole ++ [leaf "," false 5, leaf "identifier" true 6, leaf "]" false 7]))
  .node ⟨"program", true, false, false, 0, 8, none⟩
    [.node ⟨"expression_statement", true, false, false, 0, 8, none⟩ [array]]

theorem readProgram_holedArray :
    (ofString "[/**/,b]").readProgram (holedArray []) =
      (ofString "[/**/,b]").readProgram
        (holedArray [.node ⟨"comment", true, false, false, 1, 5, none⟩ []]) := by
  have harray : Cst.StrippedRest
      [.node ⟨"comment", true, false, false, 1, 5, none⟩ [], .node ⟨",", false, false, false, 5, 6, none⟩ [],
        .node ⟨"identifier", true, false, false, 6, 7, none⟩ [], .node ⟨"]", false, false, false, 7, 8, none⟩ []]
      [.node ⟨",", false, false, false, 5, 6, none⟩ [], .node ⟨"identifier", true, false, false, 6, 7, none⟩ [],
        .node ⟨"]", false, false, false, 7, 8, none⟩ []] :=
    .drop (by decide) (.keep .leaf (.keep .leaf (.keep .leaf .nil)))
  exact readProgram_of_stripped _ (.node (.node (.node .leaf harray) .nil) .nil)

end Source

end ScriptTidy
