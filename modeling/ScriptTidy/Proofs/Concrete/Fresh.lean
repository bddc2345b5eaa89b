/-
What readers give. A node that is read holds no comments, every member of a switch in it is a case,
and every part of it that is printed whole can be printed: a catch clause is read only as the handler
of a try statement, and a template with one text more than it has expressions. Every reader gives
such a node if the nodes below its own are read as such nodes.
-/
import ScriptTidy.Proofs.Concrete.Readers
import ScriptTidy.Proofs.Layout.Faults

namespace ScriptTidy

namespace Node

/-- A node as readers build it. -/
structure IsFresh (n : Node) : Prop where
  comments : n.comments = []
  trailing : n.trailing = []
  cases : ∀ m ∈ n.form.switchMembers, m.isCase
  written : ∀ m ∈ n.form.written, m.form.fault? = none

/-- All nodes of the tree are as readers build them. -/
def Fresh (root : Node) : Prop := ∀ n ∈ root.preorder, n.IsFresh

/-- A tree that is read, and that can stand where it is printed whole. -/
structure Whole (root : Node) : Prop where
  fresh : root.Fresh
  fault : root.form.fault? = none

/-- All trees of a list are whole. -/
def AllWhole (ns : List Node) : Prop := ∀ n ∈ ns, n.Whole

@[simp] theorem allWhole_nil : AllWhole [] := fun _ h => nomatch h

@[simp] theorem allWhole_cons {n : Node} {ns : List Node} : AllWhole (n :: ns) ↔ n.Whole ∧ AllWhole ns :=
  List.forall_mem_cons

@[simp] theorem allWhole_append {ns ms : List Node} : AllWhole (ns ++ ms) ↔ AllWhole ns ∧ AllWhole ms :=
  List.forall_mem_append

variable {span : Span} {form : Form Node}

theorem allWhole_flatten {ns : List (List Node)} (h : ∀ l ∈ ns, AllWhole l) : AllWhole ns.flatten := by
  intro n hn
  obtain ⟨l, hl, hn⟩ := List.mem_flatten.1 hn
  exact h l hl n hn

theorem fresh_plain (hcases : ∀ m ∈ form.switchMembers, m.isCase) (hwritten : ∀ m ∈ form.written, m.form.fault? = none)
    (hchildren : ∀ m ∈ form.children, m.Fresh) : (plain span form).Fresh :=
  forall_preorder_iff.2 ⟨⟨rfl, rfl, hcases, hwritten⟩, hchildren⟩

/-- A node whose parts are whole is whole, if it can be printed from its parts. -/
theorem whole_plain (hfault : form.fault? = none) (hcases : ∀ m ∈ form.switchMembers, m.isCase)
    (h : AllWhole form.children) : (plain span form).Whole where
  fresh := fresh_plain hcases (fun m hm => (h m (Form.mem_children_of_mem_written hm)).fault) fun m hm => (h m hm).fresh
  fault := hfault

theorem whole_plain_of_nil (hfault : form.fault? = none) (hcases : form.switchMembers = [])
    (h : AllWhole form.children) : (plain span form).Whole :=
  whole_plain hfault (by simp [hcases]) h

end Node

open Node

namespace Reader

variable {r : Reader}

/-- Every kind of node but a switch can be printed, if its parts can. -/
theorem whole_node {c : Cst} {form : Form Node} (hfault : form.fault? = none) (hcases : form.switchMembers = [])
    (h : AllWhole form.children) : (r.node c form).Whole :=
  whole_plain_of_nil hfault hcases h

theorem operation_whole {c : Cst} {operator : String} {left right : Node} (hleft : left.Whole) (hright : right.Whole) :
    (r.node c (operation operator left right)).Whole := by
  unfold operation
  split <;> exact whole_node rfl rfl (by simp [Form.children, hleft, hright])

/-- Reading each node of a list. -/
theorem each_whole {f : Cst → Reading Node} (hf : ∀ c, Yields Whole (f c)) (cs : List Cst) :
    Yields AllWhole (cs.mapM f) :=
  .mapM hf cs

/-- Reading a node that may be missing. -/
theorem optional_whole {f : Cst → Reading Node} (hf : ∀ c, Yields Whole (f c)) (c : Option Cst) :
    Yields (fun n => AllWhole n.toList) (c.mapM f) :=
  .option_mapM hf c

/-! The readers that read no node below their own. -/

theorem leaf_whole {form : Form Node} (hfault : form.fault? = none) (hcases : form.switchMembers = [])
    (hchildren : form.children = []) (c : Cst) : Yields Whole (r.leaf form c) :=
  .pure (whole_node hfault hcases (by simp [hchildren]))

theorem identifier_whole (c : Cst) : Yields Whole (r.identifier c) :=
  .step fun _ => .pure (whole_node rfl rfl allWhole_nil)

theorem identifier?_whole (c : Option Cst) : Yields (fun n => AllWhole n.toList) (r.identifier? c) :=
  optional_whole identifier_whole c

theorem breakStatement_whole (c : Cst) : Yields Whole (r.breakStatement c) :=
  .bind (identifier?_whole _) fun _ hlabel => .pure (whole_node rfl rfl hlabel)

theorem continueStatement_whole (c : Cst) : Yields Whole (r.continueStatement c) :=
  .bind (identifier?_whole _) fun _ hlabel => .pure (whole_node rfl rfl hlabel)

theorem string_whole (c : Cst) : Yields Whole (r.string c) := by
  refine .step fun raw => ?_
  dsimp only
  split
  · exact .pure (whole_node rfl rfl allWhole_nil)
  · exact .error _

theorem number_whole (c : Cst) : Yields Whole (r.number c) := by
  refine .step fun raw => ?_
  split
  · exact .pure (whole_node rfl rfl allWhole_nil)
  · exact .error _

theorem regex_whole (c : Cst) : Yields Whole (r.regex c) :=
  .step fun _ => .pure (whole_node rfl rfl allWhole_nil)

theorem metaProperty_whole (c : Cst) : Yields Whole (r.metaProperty c) := by
  have hname (name : String) : (r.node c (.identifier name)).Whole := whole_node rfl rfl allWhole_nil
  exact .step fun _ => .pure (whole_node rfl rfl (by simp [Form.children, hname]))

theorem shorthand_whole (c : Cst) : Yields Whole (r.shorthand c) :=
  .bind (identifier_whole c) fun _ hname => .pure (whole_node rfl rfl (by simp [Form.children, hname]))

/-! The readers, given that the nodes below are read as whole ones. -/

section Below

variable (hr : ∀ c, Yields Whole (r.read c))
include hr

theorem readAll_whole (cs : List Cst) : Yields AllWhole (r.readAll cs) := each_whole hr cs

theorem readOptional_whole (c : Option Cst) : Yields (fun n => AllWhole n.toList) (r.readOptional c) :=
  optional_whole hr c

theorem readField_whole (c : Cst) (field : String) : Yields Whole (r.readField c field) := .step fun d => hr d

theorem readFirst_whole (c : Cst) : Yields Whole (r.readFirst c) := .step fun d => hr d

theorem readFirst?_whole (c : Cst) : Yields (fun n => AllWhole n.toList) (r.readFirst? c) :=
  readOptional_whole hr c.named.head?

theorem unparenthesized_whole (c : Cst) : Yields Whole (r.unparenthesized c) := .ite (readFirst_whole hr c) (hr c)

theorem params_whole (c : Option Cst) : Yields AllWhole (r.params c) := by
  cases c with
  | none => exact .pure allWhole_nil
  | some c => exact readAll_whole hr c.named

theorem memberName_whole (c : Cst) : Yields (fun name => name.1.Whole) (r.memberName c) :=
  .ite (.bind (readFirst_whole hr c) fun _ hname => .pure hname) (.bind (hr c) fun _ hname => .pure hname)

/-! ### Statements -/

theorem block_whole (c : Cst) : Yields Whole (r.block c) :=
  .bind (readAll_whole hr _) fun _ hbody => .pure (whole_node rfl rfl hbody)

theorem expressionStatement_whole (c : Cst) : Yields Whole (r.expressionStatement c) :=
  .bind (readFirst_whole hr c) fun _ hexpression => .pure (whole_node rfl rfl (by simp [Form.children, hexpression]))

theorem variableDeclarator_whole (c : Cst) : Yields Whole (r.variableDeclarator c) :=
  .bind (readField_whole hr c _) fun _ hid => .bind (readOptional_whole hr _) fun _ hinit =>
    .pure (whole_node rfl rfl (by simp [Form.children, hid, hinit]))

theorem declaration_whole (kind : String) (c : Cst) : Yields Whole (r.declaration kind c) :=
  .bind (each_whole (variableDeclarator_whole hr) _) fun _ hbindings => .pure (whole_node rfl rfl hbindings)

theorem lexicalDeclaration_whole (c : Cst) : Yields Whole (r.lexicalDeclaration c) :=
  .step fun kind => declaration_whole hr kind c

theorem ifStatement_whole (c : Cst) : Yields Whole (r.ifStatement c) :=
  .bind (optional_whole (readFirst_whole hr) _) fun _ halternate => .step fun _ =>
    .bind (unparenthesized_whole hr _) fun _ htest => .bind (readField_whole hr c _) fun _ hconsequent =>
      .pure (whole_node rfl rfl (by simp [Form.children, htest, hconsequent, halternate]))

theorem whileStatement_whole (c : Cst) : Yields Whole (r.whileStatement c) :=
  .step fun _ => .bind (unparenthesized_whole hr _) fun _ htest => .bind (readField_whole hr c _) fun _ hbody =>
    .pure (whole_node rfl rfl (by simp [Form.children, htest, hbody]))

theorem doStatement_whole (c : Cst) : Yields Whole (r.doStatement c) :=
  .bind (readField_whole hr c _) fun _ hbody => .step fun _ => .bind (unparenthesized_whole hr _) fun _ htest =>
    .pure (whole_node rfl rfl (by simp [Form.children, htest, hbody]))

theorem forClause_whole (c : Option Cst) : Yields (fun n => AllWhole n.toList) (r.forClause c) := by
  cases c with
  | none => exact .pure allWhole_nil
  | some c =>
    have hsome (n : Node) (h : n.Whole) : Yields (fun n => AllWhole n.toList) (pure (some n) : Reading _) :=
      .pure (by simp [h])
    exact .ite (.pure allWhole_nil) (.ite (.bind (readFirst_whole hr c) hsome) (.bind (hr c) hsome))

theorem forStatement_whole (c : Cst) : Yields Whole (r.forStatement c) :=
  .bind (forClause_whole hr _) fun _ hinit => .bind (forClause_whole hr _) fun _ htest =>
    .bind (forClause_whole hr _) fun _ hupdate => .bind (readField_whole hr c _) fun _ hbody =>
      .pure (whole_node rfl rfl (by simp [Form.children, hinit, htest, hupdate, hbody]))

theorem forEachTarget_whole (c target : Cst) : Yields Whole (r.forEachTarget c target) := by
  refine .bind (hr target) fun left hleft => ?_
  split
  · exact .pure hleft
  · refine .bind (readOptional_whole hr _) fun init hinit => .pure ?_
    have hbinding : (r.node target (.variableDeclarator left init)).Whole :=
      whole_node rfl rfl (by simp [Form.children, hleft, hinit])
    exact whole_plain_of_nil rfl rfl (by simp [Form.children, hbinding])

theorem forInStatement_whole (c : Cst) : Yields Whole (r.forInStatement c) :=
  .step fun _ => .bind (forEachTarget_whole hr c _) fun _ hleft => .step fun _ =>
    .bind (readField_whole hr c _) fun _ hright => .bind (readField_whole hr c _) fun _ hbody =>
      .ite (.pure (whole_node rfl rfl (by simp [Form.children, hleft, hright, hbody])))
        (.pure (whole_node rfl rfl (by simp [Form.children, hleft, hright, hbody])))

theorem switchCase_whole (c : Cst) : Yields (fun n => n.Whole ∧ n.isCase) (r.switchCase c) :=
  .ite
    (.bind (readFirst_whole hr c) fun _ htest => .bind (readAll_whole hr _) fun _ hconsequent =>
      .pure ⟨whole_node rfl rfl (by simp [Form.children, htest, hconsequent]), rfl⟩)
    (.ite
      (.bind (readAll_whole hr _) fun _ hconsequent =>
        .pure ⟨whole_node rfl rfl (by simp [Form.children, hconsequent]), rfl⟩)
      (.error _))

theorem switchStatement_whole (c : Cst) : Yields Whole (r.switchStatement c) := by
  refine .step fun body => .bind (.mapM (switchCase_whole hr) _) fun cases hcases => .step fun value =>
    .bind (unparenthesized_whole hr value) fun discriminant hdiscriminant => .pure ?_
  have hwhole : AllWhole cases := fun m hm => (hcases m hm).1
  exact whole_plain rfl (fun m hm => (hcases m hm).2) (by simp [Form.children, hdiscriminant, hwhole])

/-- A catch clause cannot stand where it is printed whole. -/
theorem catchClause_fresh (c : Cst) : Yields Fresh (r.catchClause c) :=
  .bind (readOptional_whole hr _) fun param hparam => .step fun _ => .bind (block_whole hr _) fun body hbody =>
    have hparts : AllWhole (Form.catchClause param body).children := by simp [Form.children, hparam, hbody]
    .pure (fresh_plain (fun _ h => nomatch h) (fun m hm => (hparts m hm).fault) fun m hm => (hparts m hm).fresh)

theorem tryStatement_whole (c : Cst) : Yields Whole (r.tryStatement c) := by
  refine .bind (.option_mapM (catchClause_fresh hr) _) fun handler hhandler =>
    .bind (optional_whole (fun d => .step fun _ => block_whole hr _) _) fun finalizer hfinalizer =>
      .step fun _ => .bind (block_whole hr _) fun block hblock => .pure ⟨fresh_plain (fun _ h => nomatch h) ?_ ?_, rfl⟩
  · intro m hm
    have hwritten : AllWhole (Form.tryStatement block handler finalizer).written := by
      simp [Form.written, hblock, hfinalizer]
    exact (hwritten m hm).fault
  · intro m hm
    simp only [Form.children, List.mem_append, List.mem_singleton] at hm
    rcases hm with (rfl | hm) | hm
    · exact hblock.fresh
    · exact hhandler m hm
    · exact (hfinalizer m hm).fresh

theorem returnStatement_whole (c : Cst) : Yields Whole (r.returnStatement c) :=
  .bind (readFirst?_whole hr c) fun _ hargument => .pure (whole_node rfl rfl hargument)

theorem throwStatement_whole (c : Cst) : Yields Whole (r.throwStatement c) :=
  .bind (readFirst_whole hr c) fun _ hargument => .pure (whole_node rfl rfl (by simp [Form.children, hargument]))

theorem labeledStatement_whole (c : Cst) : Yields Whole (r.labeledStatement c) :=
  .step fun _ => .bind (identifier_whole _) fun _ hlabel => .bind (readField_whole hr c _) fun _ hbody =>
    .pure (whole_node rfl rfl (by simp [Form.children, hlabel, hbody]))

/-! ### Functions and classes -/

theorem functionDeclaration_whole (c : Cst) : Yields Whole (r.functionDeclaration c) :=
  .step fun _ => .bind (identifier_whole _) fun _ hid => .bind (params_whole hr _) fun _ hparams => .step fun _ =>
    .bind (block_whole hr _) fun _ hbody => .pure (whole_node rfl rfl (by simp [Form.children, hid, hparams, hbody]))

theorem functionExpression_whole (c : Cst) : Yields Whole (r.functionExpression c) :=
  .bind (identifier?_whole _) fun _ hid => .bind (params_whole hr _) fun _ hparams => .step fun _ =>
    .bind (block_whole hr _) fun _ hbody => .pure (whole_node rfl rfl (by simp [Form.children, hid, hparams, hbody]))

theorem arrowFunction_whole (c : Cst) : Yields Whole (r.arrowFunction c) := by
  have hbody (params : List Node) (hparams : AllWhole params) : Yields Whole
      (do return r.node c (.arrowFunctionExpression params (← r.readField c "body") (c.hasToken "async"))) :=
    .bind (readField_whole hr c _) fun _ hbody => .pure (whole_node rfl rfl (by simp [Form.children, hparams, hbody]))
  unfold arrowFunction
  split
  · exact .bind (hr _) fun param hparam => hbody [param] (by simp [hparam])
  · exact .bind (params_whole hr _) hbody

theorem heritage_whole (c : Cst) : Yields (fun n => AllWhole n.toList) (r.heritage c) :=
  optional_whole (readFirst_whole hr) _

theorem classBody_whole (c : Cst) : Yields Whole (r.classBody c) :=
  .bind (readAll_whole hr _) fun _ hbody => .pure (whole_node rfl rfl hbody)

theorem classDeclaration_whole (c : Cst) : Yields Whole (r.classDeclaration c) :=
  .step fun _ => .step fun _ => .bind (identifier_whole _) fun _ hid => .bind (heritage_whole hr c) fun _ hsuperclass =>
    .step fun _ => .bind (classBody_whole hr _) fun _ hbody =>
      .pure (whole_node rfl rfl (by simp [Form.children, hid, hsuperclass, hbody]))

theorem classExpression_whole (c : Cst) : Yields Whole (r.classExpression c) :=
  .step fun _ => .bind (identifier?_whole _) fun _ hid => .bind (heritage_whole hr c) fun _ hsuperclass =>
    .step fun _ => .bind (classBody_whole hr _) fun _ hbody =>
      .pure (whole_node rfl rfl (by simp [Form.children, hid, hsuperclass, hbody]))

theorem methodFunction_whole (c : Cst) : Yields Whole (r.methodFunction c) :=
  .step fun _ => .step fun _ => .bind (params_whole hr _) fun _ hparams => .bind (block_whole hr _) fun _ hbody =>
    .pure (whole_plain_of_nil rfl rfl (by simp [Form.children, hparams, hbody]))

theorem methodDefinition_whole (c : Cst) : Yields Whole (r.methodDefinition c) :=
  .step fun _ => .step fun _ => .bind (memberName_whole hr _) fun _ hkey =>
    .bind (methodFunction_whole hr c) fun _ hvalue => .pure (whole_node rfl rfl (by simp [Form.children, hkey, hvalue]))

theorem fieldDefinition_whole (c : Cst) : Yields Whole (r.fieldDefinition c) :=
  .step fun _ => .step fun _ => .bind (memberName_whole hr _) fun _ hkey =>
    .bind (readOptional_whole hr _) fun _ hvalue => .pure (whole_node rfl rfl (by simp [Form.children, hkey, hvalue]))

/-! ### Templates and modules -/

/-- There is one text more than there are expressions. -/
theorem templateFrom_whole (stop : Nat) : ∀ (cs : List Cst) (start : Nat),
    Yields (fun parts => AllWhole parts.2 ∧ parts.1.length = parts.2.length + 1) (r.templateFrom stop start cs)
  | [], _ => .step fun _ => .pure ⟨allWhole_nil, rfl⟩
  | c :: cs, _ => .step fun _ => .bind (readFirst_whole hr c) fun _ hexpression =>
    .bind (templateFrom_whole stop cs c.mark.stop) fun _ hparts =>
      .pure ⟨allWhole_cons.2 ⟨hexpression, hparts.1⟩, congrArg (· + 1) hparts.2⟩

theorem template_whole (c : Cst) : Yields Whole (r.template c) :=
  .bind (templateFrom_whole hr _ _ _) fun _ hparts =>
    .pure (whole_node (if_neg (hparts.2 ▸ Nat.lt_irrefl _)) rfl hparts.1)

theorem specifier_whole {form : Node → Option Node → Form Node} (hfault : ∀ n m, (form n m).fault? = none)
    (hcases : ∀ n m, (form n m).switchMembers = []) (hchildren : ∀ n m, (form n m).children = n :: m.toList) (c : Cst) :
    Yields Whole (r.specifier c form) :=
  .bind (readField_whole hr c _) fun _ hname => .bind (readOptional_whole hr _) fun _ hrenamed =>
    .pure (whole_node (hfault _ _) (hcases _ _) (by simp [hchildren, hname, hrenamed]))

theorem importPart_whole (c : Cst) : Yields AllWhole (r.importPart c) :=
  have hsingle {n : Node} (h : n.Whole) : AllWhole [n] := by simp [h]
  .ite
    (.bind (identifier_whole c) fun _ hname => .pure (hsingle (whole_node rfl rfl (by simp [Form.children, hname]))))
    (.ite
      (.step fun _ => .bind (identifier_whole _) fun _ hname =>
        .pure (hsingle (whole_node rfl rfl (by simp [Form.children, hname]))))
      (.ite (each_whole (specifier_whole hr (fun _ _ => rfl) (fun _ _ => rfl) fun _ _ => rfl) _) (.error _)))

theorem importSpecifiers_whole (c : Cst) : Yields AllWhole (r.importSpecifiers c) :=
  .ite (.bind (.mapM (importPart_whole hr) _) fun _ hparts => .pure (allWhole_flatten hparts))
    (.ite (.pure allWhole_nil) (.error _))

theorem importStatement_whole (c : Cst) : Yields Whole (r.importStatement c) :=
  .bind (.mapM (importSpecifiers_whole hr) _) fun _ hspecifiers => .step fun _ =>
    .bind (string_whole _) fun _ hsource =>
      .pure (whole_node rfl rfl (by simp [Form.children, allWhole_flatten hspecifiers, hsource]))

theorem exportOfNames_whole (c : Cst) {source : Option Node} (hsource : AllWhole source.toList) :
    Yields Whole (r.exportOfNames c source) := by
  have hnames (d : Cst) : Yields Whole (r.specifier d .exportSpecifier) :=
    specifier_whole hr (fun _ _ => rfl) (fun _ _ => rfl) (fun _ _ => rfl) d
  unfold exportOfNames
  split
  · refine .ite (.bind (each_whole hnames _) fun specifiers hspecifiers => .pure (whole_node rfl rfl ?_)) ?_
    · simp [Form.children, hspecifiers, hsource]
    · split
      · exact .bind (readFirst_whole hr _) fun exported hexported =>
          .pure (whole_node rfl rfl (by simpa [Form.children, hexported] using hsource))
      · exact .error _
  · split
    · exact .ite (.pure (whole_node rfl rfl (by simpa [Form.children] using hsource))) (.error _)
    · exact .error _

theorem exportStatement_whole (c : Cst) : Yields Whole (r.exportStatement c) := by
  refine .step fun _ => .ite ?_ ?_
  · split
    · exact .bind (hr _) fun _ hdeclaration => .pure (whole_node rfl rfl (by simp [Form.children, hdeclaration]))
    · exact .error _
  · split
    · exact .bind (hr _) fun _ hdeclaration => .pure (whole_node rfl rfl (by simp [Form.children, hdeclaration]))
    · exact .bind (optional_whole string_whole _) fun _ hsource => exportOfNames_whole hr c hsource

/-! ### Expressions and patterns -/

theorem elementsFrom_whole : ∀ (cs : List Cst) (expecting : Bool),
    Yields (fun elements => AllWhole (elements.filterMap id)) (r.elementsFrom expecting cs)
  | [], _ => .pure allWhole_nil
  | c :: cs, expecting => by
    have hrest := elementsFrom_whole cs
    unfold elementsFrom
    refine .ite (hrest _) (.ite (.bind (hrest true) fun after hafter => ?_) (.ite ?_ (hrest _)))
    · split <;> exact .pure hafter
    · exact .bind (hr c) fun element helement => .bind (hrest false) fun after hafter =>
        .pure (allWhole_cons.2 ⟨helement, hafter⟩)

theorem array_whole (c : Cst) : Yields Whole (r.array c) :=
  .bind (elementsFrom_whole hr _ _) fun _ helements => .pure (whole_node rfl rfl helements)

theorem arrayPattern_whole (c : Cst) : Yields Whole (r.arrayPattern c) :=
  .bind (elementsFrom_whole hr _ _) fun _ helements => .pure (whole_node rfl rfl helements)

theorem pair_whole (c : Cst) : Yields Whole (r.pair c) :=
  .step fun _ => .bind (memberName_whole hr _) fun _ hkey => .bind (readField_whole hr c _) fun _ hvalue =>
    .pure (whole_node rfl rfl (by simp [Form.children, hkey, hvalue]))

theorem objectMethod_whole (c : Cst) : Yields Whole (r.objectMethod c) :=
  .step fun _ => .step fun _ => .bind (memberName_whole hr _) fun _ hkey =>
    .bind (methodFunction_whole hr c) fun _ hvalue => .pure (whole_node rfl rfl (by simp [Form.children, hkey, hvalue]))

theorem shorthandWithDefault_whole (c : Cst) : Yields Whole (r.shorthandWithDefault c) := by
  refine .step fun left => .ite (.step fun right => .bind (identifier_whole left) fun name hname =>
    .bind (hr right) fun value hvalue => .pure ?_) (.error _)
  have hpattern : (plain (r.source.span left right) (.assignmentPattern name value)).Whole :=
    whole_plain_of_nil rfl rfl (by simp [Form.children, hname, hvalue])
  exact whole_plain_of_nil rfl rfl (by simp [Form.children, hname, hpattern])

theorem objectMember_whole (c : Cst) : Yields Whole (r.objectMember c) :=
  .ite (pair_whole hr c) (.ite (objectMethod_whole hr c) (.ite (shorthand_whole c) (hr c)))

theorem object_whole (c : Cst) : Yields Whole (r.object c) :=
  .bind (each_whole (objectMember_whole hr) _) fun _ hproperties => .pure (whole_node rfl rfl hproperties)

theorem patternMember_whole (c : Cst) : Yields Whole (r.patternMember c) :=
  .ite (pair_whole hr c) (.ite (shorthand_whole c) (.ite (shorthandWithDefault_whole hr c) (hr c)))

theorem objectPattern_whole (c : Cst) : Yields Whole (r.objectPattern c) :=
  .bind (each_whole (patternMember_whole hr) _) fun _ hproperties => .pure (whole_node rfl rfl hproperties)

theorem callExpression_whole (c : Cst) : Yields Whole (r.callExpression c) :=
  .bind (readField_whole hr c _) fun _ hcallee => .step fun arguments =>
    .ite
      (.bind (template_whole hr arguments) fun _ hquasi =>
        .pure (whole_node rfl rfl (by simp [Form.children, hcallee, hquasi])))
      (.bind (readAll_whole hr _) fun _ harguments =>
        .pure (whole_node rfl rfl (by simp [Form.children, hcallee, harguments])))

theorem newExpression_whole (c : Cst) : Yields Whole (r.newExpression c) :=
  .bind (readField_whole hr c _) fun _ hcallee => .bind (params_whole hr _) fun _ harguments =>
    .pure (whole_node rfl rfl (by simp [Form.children, hcallee, harguments]))

theorem memberExpression_whole (c : Cst) : Yields Whole (r.memberExpression c) :=
  .bind (readField_whole hr c _) fun _ hobject => .step fun _ => .bind (identifier_whole _) fun _ hmember =>
    .pure (whole_node rfl rfl (by simp [Form.children, hobject, hmember]))

/-- A node made from two parts that are read one after the other. -/
theorem both_whole {c : Cst} {form : Node → Node → Form Node} (hfault : ∀ n m, (form n m).fault? = none)
    (hcases : ∀ n m, (form n m).switchMembers = []) (hchildren : ∀ n m, (form n m).children = [n, m])
    (left right : String) : Yields Whole
      (do let n ← r.readField c left
          return r.node c (form n (← r.readField c right))) :=
  .bind (readField_whole hr c _) fun _ hleft => .bind (readField_whole hr c _) fun _ hright =>
    .pure (whole_node (hfault _ _) (hcases _ _) (by simp [hchildren, hleft, hright]))

theorem subscriptExpression_whole (c : Cst) : Yields Whole (r.subscriptExpression c) :=
  both_whole hr (fun _ _ => rfl) (fun _ _ => rfl) (fun _ _ => rfl) "object" "index"

theorem assignment_whole (c : Cst) : Yields Whole (r.assignment c) :=
  both_whole hr (fun _ _ => rfl) (fun _ _ => rfl) (fun _ _ => rfl) "left" "right"

theorem augmentedAssignment_whole (c : Cst) : Yields Whole (r.augmentedAssignment c) :=
  .step fun _ => both_whole hr (fun _ _ => rfl) (fun _ _ => rfl) (fun _ _ => rfl) "left" "right"

theorem assignmentPattern_whole (c : Cst) : Yields Whole (r.assignmentPattern c) :=
  both_whole hr (fun _ _ => rfl) (fun _ _ => rfl) (fun _ _ => rfl) "left" "right"

/-- By induction on the operations of the chain. -/
theorem binaryExpression_whole (c : Cst) : Yields Whole (r.binaryExpression c) :=
  .step fun spine => .bind (hr spine.2) fun _ hfirst =>
    .foldlM (fun _ d hleft => .step fun _ => .bind (readField_whole hr d _) fun _ hright =>
      .pure (operation_whole hleft hright)) spine.1 hfirst

/-- A node made from a single part. -/
theorem wrapped_whole {form : Node → Form Node} (hfault : ∀ n, (form n).fault? = none)
    (hcases : ∀ n, (form n).switchMembers = []) (hchildren : ∀ n, (form n).children = [n]) (c : Cst) :
    Yields Whole (r.wrapped form c) :=
  .bind (readFirst_whole hr c) fun _ hpart =>
    .pure (whole_node (hfault _) (hcases _) (by simp [hchildren, hpart]))

theorem unaryExpression_whole (c : Cst) : Yields Whole (r.unaryExpression c) :=
  .step fun _ => .bind (readField_whole hr c _) fun _ hargument =>
    .pure (whole_node rfl rfl (by simp [Form.children, hargument]))

theorem updateExpression_whole (c : Cst) : Yields Whole (r.updateExpression c) :=
  .step fun _ => .bind (readField_whole hr c _) fun _ hargument => .step fun _ =>
    .pure (whole_node rfl rfl (by simp [Form.children, hargument]))

theorem ternaryExpression_whole (c : Cst) : Yields Whole (r.ternaryExpression c) :=
  .bind (readField_whole hr c _) fun _ htest => .bind (readField_whole hr c _) fun _ hconsequent =>
    .bind (readField_whole hr c _) fun _ halternate =>
      .pure (whole_node rfl rfl (by simp [Form.children, htest, hconsequent, halternate]))

theorem sequenceExpression_whole (c : Cst) : Yields Whole (r.sequenceExpression c) :=
  .bind (readAll_whole hr _) fun _ hexpressions => .pure (whole_node rfl rfl hexpressions)

theorem yieldExpression_whole (c : Cst) : Yields Whole (r.yieldExpression c) :=
  .bind (readFirst?_whole hr c) fun _ hargument => .pure (whole_node rfl rfl hargument)

/-! ### Dispatch -/

theorem statementReaders_whole : ∀ e ∈ r.statementReaders, ∀ c, Yields Whole (e.2 c) := by
  simp only [statementReaders, List.forall_mem_cons, List.not_mem_nil, false_implies, implies_true, and_true]
  exact ⟨expressionStatement_whole hr, declaration_whole hr "var", lexicalDeclaration_whole hr,
    variableDeclarator_whole hr, block_whole hr, leaf_whole rfl rfl rfl, leaf_whole rfl rfl rfl, ifStatement_whole hr,
    whileStatement_whole hr, doStatement_whole hr, forStatement_whole hr, forInStatement_whole hr,
    switchStatement_whole hr, tryStatement_whole hr, returnStatement_whole hr, throwStatement_whole hr,
    breakStatement_whole, continueStatement_whole, labeledStatement_whole hr, functionDeclaration_whole hr,
    functionDeclaration_whole hr, classDeclaration_whole hr, importStatement_whole hr, exportStatement_whole hr⟩

theorem expressionReaders_whole : ∀ e ∈ r.expressionReaders, ∀ c, Yields Whole (e.2 c) := by
  simp only [expressionReaders, List.forall_mem_cons, List.not_mem_nil, false_implies, implies_true, and_true]
  have hwrapped {form : Node → Form Node} := @wrapped_whole r hr form
  exact ⟨memberExpression_whole hr, callExpression_whole hr, string_whole, number_whole, binaryExpression_whole hr,
    assignment_whole hr, leaf_whole rfl rfl rfl, leaf_whole rfl rfl rfl, leaf_whole rfl rfl rfl,
    leaf_whole rfl rfl rfl, leaf_whole rfl rfl rfl, regex_whole, template_whole hr, metaProperty_whole, array_whole hr,
    object_whole hr, functionExpression_whole hr, functionExpression_whole hr, functionExpression_whole hr,
    arrowFunction_whole hr, classExpression_whole hr, classBody_whole hr, methodDefinition_whole hr,
    fieldDefinition_whole hr, newExpression_whole hr, subscriptExpression_whole hr, augmentedAssignment_whole hr,
    unaryExpression_whole hr, updateExpression_whole hr, ternaryExpression_whole hr, sequenceExpression_whole hr,
    hwrapped (fun _ => rfl) (fun _ => rfl) fun _ => rfl, hwrapped (fun _ => rfl) (fun _ => rfl) fun _ => rfl,
    hwrapped (fun _ => rfl) (fun _ => rfl) fun _ => rfl, yieldExpression_whole hr⟩

theorem patternReaders_whole : ∀ e ∈ r.patternReaders, ∀ c, Yields Whole (e.2 c) := by
  simp only [patternReaders, List.forall_mem_cons, List.not_mem_nil, false_implies, implies_true, and_true]
  exact ⟨arrayPattern_whole hr, objectPattern_whole hr, assignmentPattern_whole hr,
    wrapped_whole hr (fun _ => rfl) (fun _ => rfl) fun _ => rfl⟩

/-- If the nodes below are read as whole ones, so is the node. -/
theorem dispatch_whole (c : Cst) : Yields Whole (r.dispatch c) := by
  unfold dispatch
  split
  case h_1 f hf =>
    refine of_readerFor? (P := fun f => ∀ c, Yields Whole (f c)) hf identifier_whole (fun e he => ?_) c
    rcases List.mem_append.1 he with he | he
    · rcases List.mem_append.1 he with he | he
      · exact statementReaders_whole hr e he
      · exact expressionReaders_whole hr e he
    · exact patternReaders_whole hr e he
  case h_2 => exact .error _

end Below

end Reader

/-! ## Programs -/

namespace Source

variable {s : Source}

/-- By induction on the nesting that is allowed. -/
theorem readNode_whole (depth : Nat) (c : Cst) : Yields Whole (s.readNode depth c) := by
  induction depth generalizing c with
  | zero => exact .error _
  | succ depth ih => exact Reader.dispatch_whole ih c

/-- A program that is read is without comments, has only cases in its switches, and can be printed. -/
theorem readProgram_fresh (root : Cst) :
    Yields (fun program => program.Fresh ∧ program.span.start = 0 ∧ ∃ body, program.form = .program body "")
      (s.readProgram root) :=
  .bind (Reader.readAll_whole (r := s.reader) (readNode_whole maxNesting) _) fun body hbody =>
    .pure ⟨fresh_plain (fun _ h => nomatch h) (fun m hm => (hbody m hm).fault) fun m hm => (hbody m hm).fresh, rfl,
      body, rfl⟩

end Source

end ScriptTidy
