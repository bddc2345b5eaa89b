/-
Rules of style, described by what they do to the parts of a single node. A rule changes the comments
of a node, the operator of a comparison, the bodies of loops and branches, or the members of a list;
what it leaves alone stays as it is. Run on a whole tree, one restyling after another is a single
restyling, provided that the first makes of children what it made of them before the second had
changed them. Two restylings that respect each other in this way can change places as soon as their
changes to a single node can.
-/
import ScriptTidy.Proofs.Syntax.Addresses
import ScriptTidy.Style.Plan

namespace ScriptTidy

/-- A change of the parts of single nodes. -/
structure Restyling where
  comment : Comment → Comment := id
  /-- The operator of a comparison with its operands. -/
  operator : String → Node → Node → String := fun operator _ _ => operator
  /-- The first branch of an if statement, knowing whether there is a second. -/
  consequent : Bool → Node → Node := fun _ branch => branch
  alternate : Node → Node := id
  loopBody : Node → Node := id
  /-- The statements of a program or a block. -/
  statements : List Node → List Node := id
  /-- The statements of a switch case. -/
  caseStatements : List Node → List Node := id
  /-- The members of a class body. -/
  members : List Node → List Node := id
  cases : List Node → List Node := id
  properties : List Node → List Node := id

namespace Restyling

/-! ## Running a restyling -/

/-- Changes the parts of a single node. -/
def form (r : Restyling) : Form Node → Form Node
  | .program body hashbang => .program (r.statements body) hashbang
  | .blockStatement body => .blockStatement (r.statements body)
  | .ifStatement test consequent alternate =>
    .ifStatement test (r.consequent alternate.isSome consequent) (alternate.map r.alternate)
  | .whileStatement test body => .whileStatement test (r.loopBody body)
  | .doWhileStatement body test => .doWhileStatement (r.loopBody body) test
  | .forStatement init test update body => .forStatement init test update (r.loopBody body)
  | .forInStatement left right body => .forInStatement left right (r.loopBody body)
  | .forOfStatement left right body isAwait => .forOfStatement left right (r.loopBody body) isAwait
  | .switchCase test consequent => .switchCase test (r.caseStatements consequent)
  | .switchStatement discriminant cases => .switchStatement discriminant (r.cases cases)
  | .classBody body => .classBody (r.members body)
  | .objectExpression properties => .objectExpression (r.properties properties)
  | .binaryExpression operator left right =>
    .binaryExpression (r.operator operator left right) left right
  | form => form

/-- Changes a single node. -/
def step (r : Restyling) (n : Node) : Node :=
  .mk ⟨n.span, n.comments.map r.comment, n.trailing.map r.comment⟩ (r.form n.form)

/-- Changes every node of a tree. -/
def run (r : Restyling) : Node → Node := Node.everywhere r.step

variable {r s t : Restyling}

theorem run_mk (r : Restyling) (info : Info) (form : Form Node) :
    r.run (.mk info form) =
      .mk ⟨info.span, info.comments.map r.comment, info.trailing.map r.comment⟩
        (r.form (form.map r.run)) := by
  unfold run Node.everywhere
  rw [Node.para_mk, Form.map_map]
  rfl

@[simp] theorem run_span (r : Restyling) (n : Node) : (r.run n).span = n.span := by
  obtain ⟨info, form⟩ := n
  rw [run_mk]
  rfl

@[simp] theorem run_comments (r : Restyling) (n : Node) :
    (r.run n).comments = n.comments.map r.comment := by
  obtain ⟨info, form⟩ := n
  rw [run_mk]
  rfl

@[simp] theorem run_trailing (r : Restyling) (n : Node) :
    (r.run n).trailing = n.trailing.map r.comment := by
  obtain ⟨info, form⟩ := n
  rw [run_mk]
  rfl

theorem run_form (r : Restyling) (n : Node) : (r.run n).form = r.form (n.form.map r.run) := by
  obtain ⟨info, form⟩ := n
  rw [run_mk]
  rfl

/-- Restylings that agree on the nodes of a tree, with their children changed already, agree on
the tree. -/
theorem run_congr (hcomment : r.comment = s.comment) {n : Node}
    (h : ∀ m ∈ n.preorder, r.form (m.form.map s.run) = s.form (m.form.map s.run)) :
    r.run n = s.run n := by
  induction n using Node.byChildren with
  | node n ih =>
    obtain ⟨info, form⟩ := n
    obtain ⟨hnode, hbelow⟩ := Node.forall_preorder_iff.1 h
    have hkids : form.map r.run = form.map s.run := Form.map_congr fun m hm => ih m hm (hbelow m hm)
    have hnode : r.form (form.map s.run) = s.form (form.map s.run) := hnode
    rw [run_mk, run_mk, hcomment, hkids, hnode]

/-! ## One restyling after another -/

/-- What `r` does to parts that hold nodes it does to nodes that `s` has changed as well: whether
the children are changed by `s` before or after makes no difference. -/
structure Respects (r s : Restyling) : Prop where
  operator : ∀ operator left right,
    r.operator operator (s.run left) (s.run right) = r.operator operator left right := by intros; rfl
  consequent : ∀ beforeElse n, r.consequent beforeElse (s.run n) = s.run (r.consequent beforeElse n) := by
    intros; rfl
  alternate : ∀ n, r.alternate (s.run n) = s.run (r.alternate n) := by intros; rfl
  loopBody : ∀ n, r.loopBody (s.run n) = s.run (r.loopBody n) := by intros; rfl
  statements : ∀ ns, r.statements (ns.map s.run) = (r.statements ns).map s.run := by intros; rfl
  caseStatements : ∀ ns, r.caseStatements (ns.map s.run) = (r.caseStatements ns).map s.run := by
    intros; rfl
  members : ∀ ns, r.members (ns.map s.run) = (r.members ns).map s.run := by intros; rfl
  cases : ∀ ns, r.cases (ns.map s.run) = (r.cases ns).map s.run := by intros; rfl
  properties : ∀ ns, r.properties (ns.map s.run) = (r.properties ns).map s.run := by intros; rfl

theorem Respects.form_map (h : r.Respects s) (form : Form Node) :
    r.form (form.map s.run) = (r.form form).map s.run := by
  cases form <;> simp only [Form.map, Restyling.form, h.operator, h.consequent, h.loopBody, h.statements,
    h.caseStatements, h.members, h.cases, h.properties, Option.isSome_map, Option.map_map]
  case ifStatement test consequent alternate =>
    congr 1
    exact Option.map_congr fun n _ => h.alternate n

/-- Both changes of a single node, first `r` and then `s`. -/
def andThen (r s : Restyling) : Restyling where
  comment c := s.comment (r.comment c)
  operator operator left right := s.operator (r.operator operator left right) left right
  consequent beforeElse n := s.consequent beforeElse (r.consequent beforeElse n)
  alternate n := s.alternate (r.alternate n)
  loopBody n := s.loopBody (r.loopBody n)
  statements ns := s.statements (r.statements ns)
  caseStatements ns := s.caseStatements (r.caseStatements ns)
  members ns := s.members (r.members ns)
  cases ns := s.cases (r.cases ns)
  properties ns := s.properties (r.properties ns)

theorem form_andThen (r s : Restyling) (form : Form Node) :
    (r.andThen s).form form = s.form (r.form form) := by
  cases form <;> simp [Restyling.form, andThen, Function.comp_def]

/-- Two restylings run one after another are a third on a tree, if that does to the changed children of its nodes what
the two do to a single node. -/
theorem run_fuse_of_mem (hcomment : ∀ c, s.comment (r.comment c) = t.comment c) {n : Node}
    (hform : ∀ m ∈ n.preorder,
      s.form ((r.form (m.form.map r.run)).map s.run) = t.form ((m.form.map r.run).map s.run)) :
    s.run (r.run n) = t.run n := by
  induction n using Node.byChildren with
  | node n ih =>
    obtain ⟨info, form⟩ := n
    obtain ⟨hnode, hbelow⟩ := Node.forall_preorder_iff.1 hform
    have hkids : (form.map r.run).map s.run = form.map t.run := by
      rw [Form.map_map]
      exact Form.map_congr fun m hm => ih m hm (hbelow m hm)
    have hnode : s.form ((r.form (form.map r.run)).map s.run) = t.form (form.map t.run) := by
      rw [← hkids]
      exact hnode
    have hcomments (l : List Comment) : (l.map r.comment).map s.comment = l.map t.comment := by
      rw [List.map_map]
      exact List.map_congr_left fun c _ => hcomment c
    rw [run_mk r, run_mk s, run_mk, hnode]
    simp only [hcomments]

/-- Two restylings run one after another are a third, if that does to changed children what the two
do to a single node. -/
theorem run_fuse (hcomment : ∀ c, s.comment (r.comment c) = t.comment c)
    (hform : ∀ form, s.form ((r.form form).map s.run) = t.form (form.map s.run)) (n : Node) :
    s.run (r.run n) = t.run n :=
  run_fuse_of_mem hcomment fun m _ => hform (m.form.map r.run)

/-- Two restylings run one after another are one, if the first respects the second. -/
theorem run_run (h : r.Respects s) (n : Node) : s.run (r.run n) = (r.andThen s).run n :=
  run_fuse (fun _ => rfl) (fun form => by rw [form_andThen, h.form_map]) n

theorem Respects.andThen (hr : r.Respects t) (hs : s.Respects t) : (r.andThen s).Respects t where
  operator _ _ _ := by simp only [Restyling.andThen, hr.operator, hs.operator]
  consequent _ _ := by simp only [Restyling.andThen, hr.consequent, hs.consequent]
  alternate _ := by simp only [Restyling.andThen, hr.alternate, hs.alternate]
  loopBody _ := by simp only [Restyling.andThen, hr.loopBody, hs.loopBody]
  statements _ := by simp only [Restyling.andThen, hr.statements, hs.statements]
  caseStatements _ := by simp only [Restyling.andThen, hr.caseStatements, hs.caseStatements]
  members _ := by simp only [Restyling.andThen, hr.members, hs.members]
  cases _ := by simp only [Restyling.andThen, hr.cases, hs.cases]
  properties _ := by simp only [Restyling.andThen, hr.properties, hs.properties]

/-- Restylings that respect each other can change places if their changes of a single node can. -/
theorem run_comm (hr : r.Respects s) (hs : s.Respects r) (h : r.andThen s = s.andThen r) (n : Node) :
    s.run (r.run n) = r.run (s.run n) := by
  rw [run_run hr, h, ← run_run hs]

end Restyling

end ScriptTidy
