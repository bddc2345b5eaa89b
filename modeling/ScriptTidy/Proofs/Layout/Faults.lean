/-
What can be printed. A program and a catch clause have no text of their own, and a template has none
if expressions are missing between its texts. A tree in which no such node is printed whole is
printed without a fault. The other kinds of node can always be printed from their parts.
-/
import ScriptTidy.Proofs.Layout.Lines
import ScriptTidy.Proofs.Layout.Shape
import ScriptTidy.Proofs.Style.Plan

namespace ScriptTidy

namespace Layout

variable {F : PrintFault → Prop} {l : Layout}

theorem fault_notMem_commentLines (f : PrintFault) (comments : List Comment) (depth : Nat) :
    Piece.fault f ∉ commentLines comments depth := by
  unfold commentLines
  split
  · exact List.not_mem_nil
  · intro h
    obtain ⟨part, hpart, hf⟩ := List.mem_flatMap.1 h
    rcases List.mem_cons.1 hpart with rfl | hpart
    · cases List.mem_singleton.1 hf
    · obtain ⟨c, -, rfl⟩ := List.mem_map.1 hpart
      simp [seq, pad, comment, newline] at hf

/-- What is built has no faults of other kinds. -/
theorem Built.of_fault_mem (h : Built F l) : ∀ {depth : Nat} {f : PrintFault}, Piece.fault f ∈ l depth → F f := by
  induction h with
  | text | newline | pad =>
    intro depth f hf
    cases List.mem_singleton.1 hf
  | raw =>
    intro depth f hf
    simp [Layout.seq, Layout.text, Layout.verbatim] at hf
  | nothing => exact fun hf => absurd hf List.not_mem_nil
  | fault hfault =>
    intro depth f hf
    cases List.mem_singleton.1 hf
    exact hfault
  | commentLines comments => exact fun hf => (fault_notMem_commentLines _ comments _ hf).elim
  | seq _ ih =>
    intro depth f hf
    obtain ⟨part, hpart, hf⟩ := List.mem_flatMap.1 hf
    exact ih part hpart hf
  | deeper _ ih => exact ih

end Layout

namespace Node

/-- A program below which every node that is printed whole can be printed. -/
structure Printable (root : Node) : Prop where
  program : ∃ body hashbang, root.form = .program body hashbang
  written : ∀ n ∈ root.preorder, ∀ m ∈ n.form.written, m.form.fault? = none

variable {root : Node}

/-- The text of a program that can be printed. -/
def spacedText (root : Node) (options : Options) : List Char :=
  normalizeLayout (Piece.segments options.indent (root.pieces options.semicolons))

theorem Printable.print_eq (h : root.Printable) (options : Options) :
    root.print options = .ok (String.ofList (root.spacedText options)) := by
  obtain ⟨⟨body, hashbang, hprogram⟩, hwritten⟩ := h
  have hfaultless : ∀ n ∈ root.preorder, ∀ m ∈ n.form.written, ∀ f, m.form.fault? = some f → False := by
    intro n hn m hm f hf
    rw [hwritten n hn m hm] at hf
    cases hf
  have hbody : Child.AllBuilt (fun _ => False) (body.map (child options.semicolons)) := by
    intro c hc
    obtain ⟨n, hn, rfl⟩ := List.mem_map.1 hc
    have hwhole : n ∈ root.form.written := by rw [hprogram]; exact hn
    have hchild : n ∈ root.children := Form.mem_children_of_mem_written hwhole
    obtain ⟨hprinted, hcore⟩ := n.built_printed options.semicolons
      ((forall_preorder_iff.1 hfaultless).2 n hchild)
    exact ⟨hprinted (hfaultless root (mem_preorder_self root) n hwhole), hcore⟩
  have hnone : Piece.fault? (root.pieces options.semicolons) = none := by
    refine Piece.fault?_eq_none fun f hf => ?_
    rw [pieces, hprogram] at hf
    exact (built_program hbody hashbang root.trailing).of_fault_mem hf
  rw [print, Piece.render, hnone, spacedText]

/-- A tree of this kind is printed. -/
theorem Printable.exists_print (h : root.Printable) (options : Options) : ∃ text, root.print options = .ok text :=
  ⟨_, h.print_eq options⟩

/-- The parts that are printed whole do not stand where only the handler of a try statement can. -/
theorem exists_role_of_mem_written {form : Form Node} {m : Node} (h : m ∈ form.written) :
    ∃ role, (m, role) ∈ form.markRoles.children ∧ role ≠ .handler := by
  have hchild := Form.mem_children_of_mem_written h
  rw [← Form.children_markRoles, List.mem_map] at hchild
  obtain ⟨⟨_, role⟩, hrole, rfl⟩ := hchild
  cases form
  case tryStatement block handler finalizer =>
    refine ⟨.inner, ?_, by decide⟩
    simp only [Form.written, List.mem_cons, Option.mem_toList] at h
    rcases h with rfl | h
    · simp [Form.markRoles, Form.children]
    · simp [Form.markRoles, Form.children, Option.mem_def.1 h]
  case property key value kind isMethod isShorthand isComputed =>
    refine ⟨role, hrole, ?_⟩
    rintro rfl
    simp only [Form.markRoles, Form.children, List.mem_cons, Prod.mk.injEq, List.not_mem_nil, or_false] at hrole
    rcases hrole with ⟨-, h⟩ | ⟨-, h⟩
    · cases h
    · split at h <;> cases h
  all_goals
    refine ⟨role, hrole, ?_⟩
    rintro rfl
    simp [Form.markRoles, Form.children, Form.map] at hrole

/-- A tree of the shape that is read can be printed. -/
theorem Shaped.printable (h : root.Shaped) : root.Printable := by
  refine ⟨h.program, fun n hn m hm => ?_⟩
  obtain ⟨role, hrole, hne⟩ := exists_role_of_mem_written hm
  have hfits := h.roles n hn _ hrole
  have hcoherent := h.coherent m
    (mem_preorder_trans hn (mem_preorder_of_mem_children (Form.mem_children_of_mem_written hm)))
  obtain ⟨info, form⟩ := m
  cases form
  case program => cases role <;> cases hfits
  case catchClause =>
    cases role <;> first | exact absurd rfl hne | cases hfits
  case templateLiteral quasis expressions =>
    have hlength : quasis.length = expressions.length + 1 := beq_iff_eq.1 hcoherent
    exact if_neg (by omega)
  all_goals rfl

/-! ## Rules -/

/-- The node, if it cannot be printed. -/
def faults (n : Node) : List Unit := if n.form.fault?.isSome then [()] else []

theorem faults_eq_nil_iff {n : Node} : n.faults = [] ↔ n.form.fault? = none := by
  simp [faults]

/-- The handler of the node, if it cannot be printed whole. -/
def handlerFaults (n : Node) : List Unit :=
  match n.form with
  | .tryStatement _ (some handler) _ => handler.faults
  | _ => []

/-- The parts of the node that are printed whole and cannot be. -/
def writtenFaults (n : Node) : List Unit := n.form.written.flatMap faults

theorem forall_written_iff {root : Node} :
    (∀ n ∈ root.preorder, ∀ m ∈ n.form.written, m.form.fault? = none) ↔ root.gather writtenFaults = [] := by
  simp only [gather_eq_nil_iff, writtenFaults, List.flatMap_eq_nil_iff, faults_eq_nil_iff]

/-- A part of a node that cannot be printed is a handler or is printed whole. -/
theorem length_flatMap_faults (n : Node) :
    (n.children.flatMap faults).length = n.handlerFaults.length + n.writtenFaults.length := by
  obtain ⟨info, form⟩ := n
  cases form
  case tryStatement block handler finalizer =>
    cases handler <;> simp [children, form, Form.children, handlerFaults, writtenFaults, Form.written, add_left_comm]
  all_goals exact (Nat.zero_add _).symm

theorem fixed_faults : Fixed faults where
  withComments _ _ := rfl
  isMovable n h := by
    obtain ⟨info, form⟩ := n
    cases form <;> first | rfl | cases h

theorem fixed_handlerFaults : Fixed handlerFaults where
  withComments _ _ := rfl
  isMovable n h := by
    obtain ⟨info, form⟩ := n
    cases form <;> first | rfl | cases h

theorem faults_run (r : Restyling) (n : Node) : (r.run n).faults = n.faults := by
  obtain ⟨info, form⟩ := n
  rw [Restyling.run_mk]
  cases form <;> simp [faults, form, Form.map, Restyling.form, Form.fault?]

theorem handlerFaults_run (r : Restyling) (n : Node) : (r.run n).handlerFaults = n.handlerFaults := by
  obtain ⟨info, form⟩ := n
  rw [Restyling.run_mk]
  cases form
  case tryStatement block handler finalizer =>
    cases handler with
    | none => rfl
    | some handler => exact faults_run r handler
  all_goals rfl

/-- Rules move nodes, but they keep the number of those that cannot be printed, and the number of
those that are handlers. -/
theorem Printable.run (h : root.Printable) (hcases : root.HasCases) (rule : Rule) :
    (rule.restyling.run root).Printable := by
  obtain ⟨⟨body, hashbang, hprogram⟩, hwritten⟩ := h
  refine ⟨⟨_, _, by rw [Restyling.run_form, hprogram]; rfl⟩, ?_⟩
  rw [forall_written_iff] at hwritten ⊢
  exact gather_rest_eq_nil (fun n _ => length_flatMap_faults n) (fun n _ => length_flatMap_faults n)
    (hcases.gather_run fixed_faults rule fun n _ => .of_eq (faults_run _ n)) (faults_run _ _)
    (hcases.gather_run fixed_handlerFaults rule fun n _ => .of_eq (handlerFaults_run _ n)) hwritten

theorem Printable.runAll {rules : List Rule} (h : root.Printable) (hcases : root.HasCases) :
    (Rule.runAll rules root).Printable := by
  induction rules generalizing root with
  | nil => exact h
  | cons rule rules ih => exact ih (h.run hcases rule) (hcases.run rule)

end Node

end ScriptTidy
