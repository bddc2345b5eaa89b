/-
What all readers of concrete nodes have in common. A node is read by the reader that is listed for
its kind, so a property of reading is settled reader by reader, and a property of `readNode` by
induction on the nesting it is allowed.
-/
import ScriptTidy.Concrete.Read
import Mathlib.Data.List.Basic

namespace ScriptTidy

namespace Reader

variable {r : Reader}

/-- The readers of all kinds but names. -/
def listed (r : Reader) : List (String × (Cst → Reading Node)) :=
  r.statementReaders ++ r.expressionReaders ++ r.patternReaders

/-- A reader found for a kind is the reader of names or one of the list. -/
theorem mem_of_readerFor? {kind : String} {f : Cst → Reading Node} (hf : r.readerFor? kind = some f) :
    kind ∈ nameKinds ∧ f = r.identifier ∨ (kind, f) ∈ r.listed := by
  unfold readerFor? at hf
  split at hf
  · next hkind =>
    cases hf
    exact .inl ⟨List.contains_iff_mem.1 hkind, rfl⟩
  · obtain ⟨before, after, h, -⟩ := List.lookup_eq_some_iff.1 hf
    exact .inr (by rw [listed, h]; exact List.mem_append_right _ (List.mem_cons_self ..))

theorem of_readerFor? {P : (Cst → Reading Node) → Prop} {kind : String} {f : Cst → Reading Node}
    (hf : r.readerFor? kind = some f) (hname : P r.identifier) (hlisted : ∀ e ∈ r.listed, P e.2) : P f := by
  rcases mem_of_readerFor? hf with ⟨-, rfl⟩ | hmem
  · exact hname
  · exact hlisted _ hmem

end Reader

end ScriptTidy
