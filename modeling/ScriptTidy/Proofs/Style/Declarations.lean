/-
Declarations under restyling. No restyling changes a declaration itself, so one that is split after
its bindings have been changed gives the changed parts. What a declaration is split into cannot be
split further, is never empty, and ends in a terminator just when the statement was one, which is
all that a switch needs to know.
-/
import ScriptTidy.Proofs.Style.Cases

namespace ScriptTidy

namespace Restyling

open Node

theorem splitDeclaration_run (r : Restyling) (n : Node) :
    (r.run n).splitDeclaration = n.splitDeclaration.map r.run := by
  unfold splitDeclaration
  rw [run_form, run_span, run_comments]
  cases n.form with
  | variableDeclaration kind bindings =>
    rcases bindings with _ | ⟨first, _ | ⟨second, rest⟩⟩
    · rfl
    · rfl
    · have hsingle (binding : Node) :
          singleDeclaration kind (r.run binding) = r.run (singleDeclaration kind binding) := by
        simp only [singleDeclaration, run_span, plain, run_mk, Form.map, form, List.map_cons, List.map_nil]
      simp only [Form.map, form, List.map_cons, run_span, run_mk, List.map_nil, List.map_map, hsingle,
        Function.comp_def]
  | _ => rfl

theorem flatMap_splitDeclaration_run (r : Restyling) (ns : List Node) :
    (ns.map r.run).flatMap splitDeclaration = (ns.flatMap splitDeclaration).map r.run := by
  rw [List.flatMap_map, List.map_flatMap]
  exact List.flatMap_congr fun n _ => r.splitDeclaration_run n

end Restyling

namespace Node

/-! ## The parts of a declaration -/

/-- What is no declaration of several bindings stays whole. -/
theorem splitDeclaration_eq_singleton {n : Node} (h : n.form.isVariableDeclaration = false) :
    n.splitDeclaration = [n] := by
  obtain ⟨info, form⟩ := n
  cases form <;> first | rfl | cases h

/-- A statement stays whole, or it is a declaration and each part declares one of its bindings. -/
theorem mem_splitDeclaration {n m : Node} (h : m ∈ n.splitDeclaration) : n.splitDeclaration = [n] ∧ m = n ∨
    ∃ kind bindings, n.form = .variableDeclaration kind bindings ∧ ∃ binding ∈ bindings, ∃ info : Info,
      info.trailing = [] ∧ m = .mk info (.variableDeclaration kind [binding]) := by
  obtain ⟨info, form⟩ := n
  cases form with
  | variableDeclaration kind bindings =>
    rcases bindings with _ | ⟨first, _ | ⟨second, rest⟩⟩
    · exact .inl ⟨rfl, List.mem_singleton.1 h⟩
    · exact .inl ⟨rfl, List.mem_singleton.1 h⟩
    · refine .inr ⟨kind, _, rfl, ?_⟩
      rcases List.mem_cons.1 h with rfl | h
      · exact ⟨first, List.mem_cons_self .., _, rfl, rfl⟩
      · obtain ⟨binding, hbinding, rfl⟩ := List.mem_map.1 h
        exact ⟨binding, List.mem_cons_of_mem _ hbinding, _, rfl, rfl⟩
  | _ => exact .inl ⟨rfl, List.mem_singleton.1 h⟩

theorem splitDeclaration_of_mem {n m : Node} (h : m ∈ n.splitDeclaration) : m.splitDeclaration = [m] := by
  rcases mem_splitDeclaration h with ⟨hwhole, rfl⟩ | ⟨kind, bindings, -, binding, -, info, -, rfl⟩
  · exact hwhole
  · rfl

theorem isVariableDeclaration_of_mem {n m : Node} (h : m ∈ n.splitDeclaration) :
    m.form.isVariableDeclaration = n.form.isVariableDeclaration := by
  rcases mem_splitDeclaration h with ⟨-, rfl⟩ | ⟨kind, bindings, hform, binding, -, info, -, rfl⟩
  · rfl
  · rw [hform]
    rfl

/-- Splitting a second time changes nothing. -/
theorem flatMap_splitDeclaration_idem (ns : List Node) :
    (ns.flatMap splitDeclaration).flatMap splitDeclaration = ns.flatMap splitDeclaration := by
  rw [List.flatMap_assoc]
  refine List.flatMap_congr fun n _ => ?_
  calc n.splitDeclaration.flatMap splitDeclaration
      = n.splitDeclaration.flatMap fun m => [m] :=
        List.flatMap_congr fun m hm => splitDeclaration_of_mem hm
    _ = n.splitDeclaration := List.flatMap_singleton' _

theorem splitDeclaration_ne_nil (n : Node) : n.splitDeclaration ≠ [] := by
  unfold splitDeclaration
  split <;> simp

theorem isTerminator_eq_false {n : Node} (h : n.form.isVariableDeclaration) : n.isTerminator = false := by
  obtain ⟨info, form⟩ := n
  cases form <;> first | rfl | cases h

theorem isContainer_eq_false {n : Node} (h : n.form.isVariableDeclaration) : n.form.isContainer = false := by
  obtain ⟨info, form⟩ := n
  cases form <;> first | rfl | cases h

theorem isFunctionDeclaration_eq_false {n : Node} (h : n.form.isVariableDeclaration) :
    n.isFunctionDeclaration = false := by
  obtain ⟨info, form⟩ := n
  cases form <;> first | rfl | cases h

/-- The parts of a statement are terminators if the statement is one. -/
theorem isTerminator_of_mem_splitDeclaration {n m : Node} (h : m ∈ n.splitDeclaration) :
    m.isTerminator = n.isTerminator := by
  cases hn : n.form.isVariableDeclaration with
  | false =>
    rw [splitDeclaration_eq_singleton hn, List.mem_singleton] at h
    rw [h]
  | true =>
    rw [isTerminator_eq_false hn, isTerminator_eq_false (by rw [isVariableDeclaration_of_mem h, hn])]

/-! ## Lists of statements -/

theorem isEmpty_flatMap_splitDeclaration (ns : List Node) :
    (ns.flatMap splitDeclaration).isEmpty = ns.isEmpty := by
  cases ns with
  | nil => rfl
  | cons n ns =>
    rw [List.flatMap_cons, List.isEmpty_cons, List.isEmpty_eq_false_iff]
    exact List.append_ne_nil_of_left_ne_nil (splitDeclaration_ne_nil n) _

/-- A list of statements ends in a terminator whether it has been split or not. -/
theorem terminates_flatMap_splitDeclaration (ns : List Node) :
    (ns.flatMap splitDeclaration).getLast?.any isTerminator = ns.getLast?.any isTerminator := by
  rcases List.eq_nil_or_concat ns with rfl | ⟨ms, n, rfl⟩
  · rfl
  · obtain ⟨m, hm⟩ := Option.ne_none_iff_exists'.1 (mt List.getLast?_eq_none_iff.1 (splitDeclaration_ne_nil n))
    rw [List.concat_eq_append, List.flatMap_append, List.flatMap_singleton, List.getLast?_append, hm,
      List.getLast?_concat]
    exact isTerminator_of_mem_splitDeclaration (List.mem_of_getLast? hm)

theorem flatMap_splitDeclaration_concat_break (ns : List Node) (span : Span) :
    (ns ++ [plain span (.breakStatement none)]).flatMap splitDeclaration =
      ns.flatMap splitDeclaration ++ [plain span (.breakStatement none)] := by
  rw [List.flatMap_append]
  rfl

end Node

end ScriptTidy
