/-
Bodies under restyling. Putting a body into braces, and taking the braces off, does the same to a
body that another rule has changed, as long as that rule leaves the lengths of statement lists and
lists of a single statement alone. Taking braces off also looks for an if statement at the end of
the body, which the other rule must leave open or closed as it was.
-/
import ScriptTidy.Proofs.Style.Features

namespace ScriptTidy

namespace Restyling

open Node

variable {r : Restyling}

theorem run_plain (r : Restyling) (span : Span) (form : Form Node) :
    r.run (plain span form) = plain span (r.form (form.map r.run)) :=
  run_mk r _ form

/-- The restyling changes nothing that the braces around a statement depend on. -/
structure SparesBlocks (r : Restyling) : Prop where
  length : ∀ ns, (r.statements ns).length = ns.length
  singleton : ∀ n, r.statements [n] = [n]

theorem SparesBlocks.nil (h : r.SparesBlocks) : r.statements [] = [] :=
  List.length_eq_zero_iff.1 (h.length [])

/-! ## Insertion -/

theorem braced_run (h : r.SparesBlocks) (n : Node) : (r.run n).braced = r.run n.braced := by
  unfold braced
  rw [run_form, run_span]
  cases n.form with
  | blockStatement => rfl
  | emptyStatement => simp only [Form.map, Restyling.form, run_plain, List.map_nil, h.nil]
  | _ => simp only [Form.map, Restyling.form, run_plain, List.map_cons, List.map_nil, h.singleton]

theorem bracedElse_run (h : r.SparesBlocks) (n : Node) : (r.run n).bracedElse = r.run n.bracedElse := by
  unfold bracedElse
  rw [run_form, braced_run h]
  cases n.form <;> rfl

/-! ## Removal -/

/-- The restyling leaves if statements at the ends of bodies as open as they were. -/
structure SparesEnds (r : Restyling) : Prop where
  loopBody : ∀ n, (r.loopBody n).endsInOpenIf = n.endsInOpenIf
  alternate : ∀ n, (r.alternate n).endsInOpenIf = n.endsInOpenIf

theorem endsInOpenIf_run (h : r.SparesEnds) (n : Node) : (r.run n).endsInOpenIf = n.endsInOpenIf := by
  induction n using byChildren with
  | node n ih =>
    obtain ⟨info, form⟩ := n
    rw [run_mk]
    cases form with
    | ifStatement test consequent alternate =>
      cases alternate with
      | none => simp only [Form.map, Restyling.form, Option.map_none, endsInOpenIf]
      | some alternate =>
        simp only [Form.map, Restyling.form, Option.map_some, endsInOpenIf, h.alternate]
        exact ih alternate (by simp [children, Form.children, Node.form])
    | whileStatement test body | forInStatement left right body | forOfStatement left right body isAwait
    | forStatement init test update body =>
      simp only [Form.map, Restyling.form, endsInOpenIf, h.loopBody]
      exact ih body (by simp [children, Form.children, Node.form])
    | labeledStatement label body =>
      simp only [Form.map, Restyling.form, endsInOpenIf]
      exact ih body (by simp [children, Form.children, Node.form])
    | _ => simp only [Form.map, Restyling.form, endsInOpenIf]

theorem unbraced_run (hblocks : r.SparesBlocks) (hends : r.SparesEnds) (beforeElse : Bool) (n : Node) :
    (r.run n).unbraced beforeElse = r.run (n.unbraced beforeElse) := by
  unfold unbraced
  rw [run_form, run_span, run_trailing, List.isEmpty_map]
  cases n.form with
  | blockStatement ns =>
    simp only [Form.map, Restyling.form]
    split
    · rfl
    · have hlength := hblocks.length (ns.map r.run)
      rcases ns with _ | ⟨n, _ | ⟨m, ns⟩⟩
      · simp only [List.map_nil, hblocks.nil, run_plain, Form.map, Restyling.form]
      · simp only [List.map_cons, List.map_nil, hblocks.singleton, run_comments, List.isEmpty_map,
          isLexical_run, endsInOpenIf_run hends]
        split <;> rfl
      · split <;> first | rfl | simp_all
  | _ => rfl

end Restyling

/-- A body stays as it is, or it is a block without comments of its own that is empty or holds one statement. -/
theorem Node.unbraced_cases (beforeElse : Bool) (n : Node) : n.unbraced beforeElse = n ∨ n.trailing = [] ∧
    ((n.form = .blockStatement [] ∧ n.unbraced beforeElse = plain n.span .emptyStatement) ∨
      ∃ inner, n.form = .blockStatement [inner] ∧ inner.comments = [] ∧ n.unbraced beforeElse = inner) := by
  unfold unbraced
  split
  case h_2 => exact .inl rfl
  case h_1 ns hform =>
    split
    case isTrue => exact .inl rfl
    case isFalse htrailing =>
      have htrailing : n.trailing = [] := by simpa using htrailing
      rcases ns with _ | ⟨inner, _ | ⟨m, ns⟩⟩
      · exact .inr ⟨htrailing, .inl ⟨hform, rfl⟩⟩
      · dsimp only
        split
        case isTrue => exact .inl rfl
        case isFalse hneeded => exact .inr ⟨htrailing, .inr ⟨inner, hform, by simp_all, rfl⟩⟩
      · exact .inl rfl

end ScriptTidy
