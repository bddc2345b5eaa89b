/-
One declaration for each binding. The statements of a list are read as items, a binding with the
keyword of its declaration or a statement of another kind, and splitting keeps the items of every
list; only how they are gathered into declarations changes. A list stands at any depth, also in a
function below the initializer of a declaration that is split itself: the new declarations hold the
same bindings, so that all nodes but declarations stand in the new tree in their old order. What
holds no list keeps its parts, and with them every declaration that is no member of a list.
-/
import ScriptTidy.Proofs.Style.Gathering

namespace ScriptTidy

namespace Form

variable {α : Type}

/-- The form holds a list of statements. -/
def hasStatements : Form α → Bool
  | .program .. | .blockStatement _ | .switchCase .. => true
  | _ => false

/-- The form with other statements in its list, if it holds one. -/
def withStatements : Form α → List α → Form α
  | .program _ hashbang, ns => .program ns hashbang
  | .blockStatement _, ns => .blockStatement ns
  | .switchCase test _, ns => .switchCase test ns
  | form, _ => form

/-- The bindings of a declaration. -/
def bindings : Form α → List α
  | .variableDeclaration _ bindings => bindings
  | _ => []

theorem withStatements_of_not {form : Form α} (h : form.hasStatements = false) (ns : List α) :
    form.withStatements ns = form := by
  cases form <;> first | rfl | cases h

theorem statements_withStatements {form : Form α} (h : form.hasStatements) (ns : List α) :
    (form.withStatements ns).statements = ns := by
  cases form <;> first | rfl | cases h

theorem statements_of_not {form : Form α} (h : form.hasStatements = false) : form.statements = [] := by
  cases form <;> first | rfl | cases h

theorem hasStatements_map {β : Type} (f : α → β) (form : Form α) :
    (form.map f).hasStatements = form.hasStatements := by
  cases form <;> rfl

theorem isVariableDeclaration_of_hasStatements {form : Form α} (h : form.hasStatements) :
    form.isVariableDeclaration = false := by
  cases form <;> first | rfl | cases h

end Form

namespace Node

/-! ## Items -/

/-- What a statement stands for in its list. -/
inductive Item where
  | binding (kind : String) (declarator : Node)
  | statement (n : Node)

/-- The item with a change of its node. -/
def Item.map (f : Node → Node) : Item → Item
  | binding kind declarator => binding kind (f declarator)
  | statement n => statement (f n)

/-- The items of a statement: all bindings of a declaration, or the statement itself. -/
def items (n : Node) : List Item :=
  match n.form with
  | .variableDeclaration kind bindings => bindings.map (.binding kind)
  | _ => [.statement n]

theorem exists_declaration {n : Node} (h : n.form.isVariableDeclaration) :
    ∃ info kind bindings, n = .mk info (.variableDeclaration kind bindings) := by
  obtain ⟨info, form⟩ := n
  cases form with
  | variableDeclaration kind bindings => exact ⟨info, kind, bindings, rfl⟩
  | _ => cases h

theorem items_of_not {n : Node} (h : n.form.isVariableDeclaration = false) : n.items = [.statement n] := by
  obtain ⟨info, form⟩ := n
  cases form <;> first | rfl | cases h

/-- What a statement of a list is split into: declarations of one binding or the statement itself,
with the same items. The comments are with the first part and with no other. -/
structure IsSplitInto (n : Node) (parts : List Node) : Prop where
  bindings : ∀ m ∈ parts, m.form.bindings.length ≤ 1
  items : parts.flatMap Node.items = n.items
  comments : ∃ first others, parts = first :: others ∧ first.comments = n.comments ∧
    ∀ m ∈ others, m.comments = []

theorem isSplitInto_self {n : Node} (h : n.form.bindings.length ≤ 1) : n.IsSplitInto [n] where
  bindings m hm := by rwa [List.mem_singleton.1 hm]
  items := List.flatMap_singleton ..
  comments := ⟨n, [], rfl, rfl, by simp⟩

theorem isSplitInto_splitDeclaration (n : Node) : n.IsSplitInto n.splitDeclaration := by
  obtain ⟨info, form⟩ := n
  cases form with
  | variableDeclaration kind bindings =>
    rcases bindings with _ | ⟨first, _ | ⟨second, rest⟩⟩
    · exact isSplitInto_self (Nat.zero_le _)
    · exact isSplitInto_self (Nat.le_refl _)
    · -- every part is made of one binding, and only the first is given comments
      let head : Node := .mk ⟨{ first.span with start := info.span.start }, info.comments, []⟩
        (.variableDeclaration kind [first])
      have hparts : (Node.mk info (.variableDeclaration kind (first :: second :: rest))).splitDeclaration =
          head :: (second :: rest).map (singleDeclaration kind) := rfl
      rw [hparts]
      refine ⟨?bindings, ?items, head, _, rfl, rfl, ?comments⟩
      case bindings =>
        intro m hm
        rcases List.mem_cons.1 hm with rfl | hm
        · exact Nat.le_refl _
        · obtain ⟨binding, -, rfl⟩ := List.mem_map.1 hm
          exact Nat.le_refl _
      case items =>
        have hsingle (binding : Node) : (singleDeclaration kind binding).items = [.binding kind binding] := rfl
        rw [List.flatMap_cons, List.flatMap_map, List.flatMap_congr fun binding _ => hsingle binding,
          ← List.map_eq_flatMap]
        rfl
      case comments =>
        intro m hm
        obtain ⟨binding, -, rfl⟩ := List.mem_map.1 hm
        rfl
  | _ => exact isSplitInto_self (Nat.zero_le _)

/-! ## One node -/

theorem separateVars_mk (info : Info) (form : Form Node) :
    (Node.mk info form).separateVars = .mk info ((form.map separateVars).withStatements
      ((form.map separateVars).statements.flatMap splitDeclaration)) := by
  have hkids : (form.map fun n => (n, n.everywhere splitMembers)).map (·.2) = form.map separateVars := by
    rw [Form.map_map]
    rfl
  rw [separateVars, everywhere, para_mk]
  refine (congrArg (fun form => splitMembers (.mk info form)) hkids).trans ?_
  cases form <;> rfl

/-- A node that holds no list is changed below itself only. -/
theorem form_separateVars {n : Node} (h : n.form.hasStatements = false) :
    n.separateVars.form = n.form.map separateVars := by
  obtain ⟨info, form⟩ := n
  rw [separateVars_mk]
  exact Form.withStatements_of_not (by rw [Form.hasStatements_map]; exact h) _

theorem isVariableDeclaration_separateVars (n : Node) :
    n.separateVars.form.isVariableDeclaration = n.form.isVariableDeclaration := by
  obtain ⟨info, form⟩ := n
  rw [separateVars_mk]
  cases form <;> rfl

theorem comments_separateVars (n : Node) : n.separateVars.comments = n.comments := by
  obtain ⟨info, form⟩ := n
  rw [separateVars_mk]
  rfl

theorem separateVars_eq (n : Node) : n.separateVars = .mk n.info ((n.form.map separateVars).withStatements
    (n.form.statements.flatMap fun m => m.separateVars.splitDeclaration)) := by
  obtain ⟨info, form⟩ := n
  rw [separateVars_mk, Form.statements_map, List.flatMap_map, Node.form, Node.info]

theorem statements_separateVars (n : Node) :
    n.separateVars.form.statements = n.form.statements.flatMap fun m => m.separateVars.splitDeclaration := by
  cases h : n.form.hasStatements with
  | false =>
    rw [form_separateVars h, Form.statements_map, Form.statements_of_not h]
    rfl
  | true =>
    rw [separateVars_eq]
    exact Form.statements_withStatements (by rw [Form.hasStatements_map, h]) _

theorem items_separateVars (n : Node) : n.separateVars.items = n.items.map (Item.map separateVars) := by
  cases h : n.form.isVariableDeclaration with
  | false =>
    rw [items_of_not h, items_of_not (by rw [isVariableDeclaration_separateVars, h])]
    rfl
  | true =>
    obtain ⟨info, kind, bindings, rfl⟩ := exists_declaration h
    rw [separateVars_mk]
    simp only [items, Node.form, Form.map, Form.withStatements, List.map_map]
    rfl

/-! ## All nodes but declarations -/

/-- The nodes of a tree that are no declarations, parents first. -/
def nonDeclarations (root : Node) : List Node := root.preorder.filter (!·.form.isVariableDeclaration)

theorem nonDeclarations_eq (n : Node) : n.nonDeclarations =
    [n].filter (!·.form.isVariableDeclaration) ++ n.children.flatMap nonDeclarations := by
  rw [nonDeclarations, preorder_eq, ← List.singleton_append, List.filter_append, List.filter_flatMap]
  rfl

theorem nonDeclarations_declaration (info : Info) (kind : String) (bindings : List Node) :
    (Node.mk info (.variableDeclaration kind bindings)).nonDeclarations = bindings.flatMap nonDeclarations := by
  rw [nonDeclarations_eq]
  rfl

/-- The parts of a declaration hold the nodes that the declaration holds. -/
theorem flatMap_nonDeclarations_splitDeclaration (n : Node) :
    n.splitDeclaration.flatMap nonDeclarations = n.nonDeclarations := by
  obtain ⟨info, form⟩ := n
  cases form with
  | variableDeclaration kind bindings =>
    rcases bindings with _ | ⟨first, _ | ⟨second, rest⟩⟩
    · exact List.flatMap_singleton ..
    · exact List.flatMap_singleton ..
    · have hsingle (binding : Node) : (singleDeclaration kind binding).nonDeclarations = binding.nonDeclarations :=
        (nonDeclarations_declaration ..).trans (List.flatMap_singleton ..)
      simp only [splitDeclaration, Node.form, List.flatMap_cons, List.flatMap_map, hsingle,
        nonDeclarations_declaration, List.flatMap_nil, List.append_nil]
  | _ => exact List.flatMap_singleton ..

theorem flatMap_nonDeclarations_children (form : Form Node) :
    (form.withStatements (form.statements.flatMap splitDeclaration)).children.flatMap nonDeclarations =
      form.children.flatMap nonDeclarations := by
  have hlist (ns : List Node) : (ns.flatMap splitDeclaration).flatMap nonDeclarations = ns.flatMap nonDeclarations := by
    rw [List.flatMap_assoc]
    exact List.flatMap_congr fun n _ => flatMap_nonDeclarations_splitDeclaration n
  cases form with
  | program body hashbang => exact hlist body
  | blockStatement body => exact hlist body
  | switchCase test consequent =>
    simp only [Form.withStatements, Form.statements, Form.children, List.flatMap_append, hlist]
  | _ => rfl

/-- Every node but a declaration stands in the new tree, in its order, with its lists split. -/
theorem nonDeclarations_separateVars (root : Node) :
    root.separateVars.nonDeclarations = root.nonDeclarations.map separateVars := by
  induction root using byChildren with
  | node n ih =>
    -- what is nested in a list is separated first; to split the list then changes its declarations only
    have hkids : n.separateVars.children.flatMap nonDeclarations =
        (n.children.flatMap nonDeclarations).map separateVars := by
      obtain ⟨info, form⟩ := n
      rw [separateVars_mk, List.map_flatMap]
      refine (flatMap_nonDeclarations_children _).trans ?_
      rw [Form.children_map, List.flatMap_map]
      exact List.flatMap_congr ih
    have hself : [n.separateVars].filter (!·.form.isVariableDeclaration) =
        ([n].filter (!·.form.isVariableDeclaration)).map separateVars := by
      rw [List.filter_singleton, List.filter_singleton, isVariableDeclaration_separateVars]
      cases n.form.isVariableDeclaration <;> rfl
    rw [nonDeclarations_eq, nonDeclarations_eq n, List.map_append, hself, hkids]

/-- A node of the new tree that holds a list comes from one of the old tree. -/
theorem exists_of_mem_separateVars {root m : Node} (h : m.form.hasStatements)
    (hm : m ∈ root.separateVars.preorder) : ∃ n ∈ root.preorder, m = n.separateVars := by
  have hmem : m ∈ root.separateVars.nonDeclarations :=
    List.mem_filter.2 ⟨hm, by rw [Form.isVariableDeclaration_of_hasStatements h]; rfl⟩
  rw [nonDeclarations_separateVars] at hmem
  obtain ⟨n, hn, rfl⟩ := List.mem_map.1 hmem
  exact ⟨n, (List.mem_filter.1 hn).1, rfl⟩

/-! ## All lists -/

/-- After the separation of declarations no list holds a declaration of two bindings. The other
nodes stand in the new tree in their old order. Every list has the items that it had, and is made of
the parts of its statements, where the comments of a declaration are with its first part. A node
that holds no list keeps its parts, so that a declaration there keeps all its bindings. -/
theorem separateVars_separates (root : Node) :
    (∀ n ∈ root.separateVars.preorder, ∀ m ∈ n.form.statements, m.form.bindings.length ≤ 1) ∧
    root.separateVars.nonDeclarations = root.nonDeclarations.map separateVars ∧
    ∀ n ∈ root.preorder,
      n.separateVars.form.statements.flatMap items =
        (n.form.statements.flatMap items).map (Item.map separateVars) ∧
      (∃ parts : Node → List Node,
        n.separateVars = .mk n.info ((n.form.map separateVars).withStatements (n.form.statements.flatMap parts)) ∧
        ∀ m ∈ n.form.statements, m.separateVars.comments = m.comments ∧ m.separateVars.IsSplitInto (parts m)) ∧
      (n.form.hasStatements = false → n.separateVars.form = n.form.map separateVars) := by
  refine ⟨fun n hn m hm => ?single, nonDeclarations_separateVars root, fun n _ =>
    ⟨?items, ⟨_, separateVars_eq n, fun m _ => ⟨comments_separateVars m, isSplitInto_splitDeclaration _⟩⟩,
      form_separateVars⟩⟩
  case single =>
    cases h : n.form.hasStatements with
    | false =>
      rw [Form.statements_of_not h] at hm
      cases hm
    | true =>
      obtain ⟨k, -, rfl⟩ := exists_of_mem_separateVars h hn
      rw [statements_separateVars] at hm
      obtain ⟨s, -, hm⟩ := List.mem_flatMap.1 hm
      exact (isSplitInto_splitDeclaration _).bindings m hm
  case items =>
    rw [statements_separateVars, List.flatMap_assoc, List.map_flatMap]
    refine List.flatMap_congr fun m _ => ?_
    rw [(isSplitInto_splitDeclaration _).items, items_separateVars]

end Node

end ScriptTidy
