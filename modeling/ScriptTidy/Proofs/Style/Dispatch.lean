/-
What a switch executes. A value is compared with the tests of the cases: the first case whose test
matches is selected, or the default if none does, and control runs from there through the cases
until one ends in a terminator. A case of a switch is told by its test and by what is executed from
it on. Sorting moves a block only if every block is closed, so that no case runs into another block,
and moves a label within a block only if nothing is executed before the end of the block; so the
sorted cases are told by the same tests and the same runs in another order, and the order does not
matter as long as at most one test matches and there is at most one default.
-/
import Mathlib.Data.List.Perm.Basic
import Mathlib.Data.List.FinRange
import ScriptTidy.Proofs.Style.Invariants

namespace ScriptTidy

/-! ## Positions in a list -/

/-- Lists of the same members have them at positions that correspond one to one. -/
theorem exists_equiv_of_perm {α : Type} {xs ys : List α} (h : xs.Perm ys) :
    ∃ e : Fin xs.length ≃ Fin ys.length, ∀ i, ys[(e i).val]? = xs[i.val]? := by
  classical
  refine ⟨⟨h.idxBij, h.symm.idxBij, h.idxBij_rightInverse_idxBij_symm, h.idxBij_leftInverse_idxBij_symm⟩, fun i => ?_⟩
  show ys[(h.idxBij i).val]? = xs[i.val]?
  rw [List.getElem?_eq_getElem i.isLt, List.getElem?_eq_getElem (h.idxBij i).isLt, h.getElem_idxBij_eq_getElem i]

/-- At most one position satisfies the condition. -/
def AtMostOne {n : Nat} (p : Fin n → Bool) : Prop := ∀ i j, p i → p j → i = j

instance {n : Nat} (p : Fin n → Bool) : Decidable (AtMostOne p) :=
  inferInstanceAs (Decidable (∀ i j, p i → p j → i = j))

theorem find?_finRange_eq_some {n : Nat} {p : Fin n → Bool} (h : AtMostOne p) {i : Fin n} :
    (List.finRange n).find? p = some i ↔ p i := by
  constructor
  · exact List.find?_some
  · intro hi
    obtain ⟨j, hj⟩ := Option.isSome_iff_exists.1 (List.find?_isSome.2 ⟨i, List.mem_finRange i, hi⟩)
    rw [hj, h j i (List.find?_some hj) hi]

/-- A position that is the only one to satisfy a condition is found wherever it goes. -/
theorem find?_finRange_equiv {m n : Nat} (e : Fin m ≃ Fin n) {p : Fin m → Bool} (h : AtMostOne p) :
    (List.finRange n).find? (p ∘ e.symm) = ((List.finRange m).find? p).map e := by
  have hmoved : AtMostOne (p ∘ e.symm) := fun i j hi hj => e.symm.injective (h _ _ hi hj)
  ext j
  rw [find?_finRange_eq_some hmoved, Option.map_eq_some_iff]
  constructor
  · exact fun hj => ⟨e.symm j, (find?_finRange_eq_some h).2 hj, e.apply_symm_apply j⟩
  · rintro ⟨i, hi, rfl⟩
    rw [Function.comp, e.symm_apply_apply]
    exact (find?_finRange_eq_some h).1 hi

namespace Node

/-! ## Dispatch -/

/-- The test of a case. The default has none. -/
def test? (n : Node) : Option Node :=
  match n.form with
  | .switchCase test _ => test
  | _ => none

/-- The statements of cases up to the first terminated case, or to the end of the list. -/
def runThrough : List Node → List Node
  | [] => []
  | n :: ns => if n.isTerminated then n.consequent else n.consequent ++ runThrough ns

section Dispatch

variable (cases : List Node)

/-- The position holds the default. -/
def isDefault (i : Fin cases.length) : Bool := cases[i].test?.isNone

/-- The position holds a case whose test matches. -/
def isHit (hits : Fin cases.length → Bool) (i : Fin cases.length) : Bool := cases[i].test?.isSome && hits i

/-- The case that is selected: the first one whose test matches, or else the default. -/
def selected? (hits : Fin cases.length → Bool) : Option (Fin cases.length) :=
  ((List.finRange cases.length).find? (isHit cases hits)).or ((List.finRange cases.length).find? (isDefault cases))

/-- The statements that are executed for a value whose matches with the tests are given. -/
def executed (hits : Fin cases.length → Bool) : List Node :=
  ((selected? cases hits).map fun i => runThrough (cases.drop i)).getD []

end Dispatch

/-! ## Cases as they are told by dispatch -/

/-- The test of every case, and what is executed from the case on. -/
def entries : List Node → List (Option Node × List Node)
  | [] => []
  | n :: ns => (n.test?, runThrough (n :: ns)) :: entries ns

@[simp] theorem length_entries (ns : List Node) : (entries ns).length = ns.length := by
  induction ns with
  | nil => rfl
  | cons n ns ih => rw [entries, List.length_cons, List.length_cons, ih]

theorem getElem?_entries : ∀ (ns : List Node) (i : Nat),
    (entries ns)[i]? = ns[i]?.map fun n => (n.test?, runThrough (ns.drop i))
  | [], _ => rfl
  | _ :: _, 0 => rfl
  | _ :: ns, i + 1 => getElem?_entries ns i

/-! ## Closed blocks and bare labels -/

/-- Control does not leave a list with a terminated case. -/
theorem runThrough_append {ns : List Node} (h : ∃ n ∈ ns, n.isTerminated) (rest : List Node) :
    runThrough (ns ++ rest) = runThrough ns := by
  induction ns with
  | nil => simp at h
  | cons n ns ih =>
    rw [List.cons_append, runThrough, runThrough]
    split
    · rfl
    · next hn =>
      obtain ⟨m, hm, hterminated⟩ := h
      rcases List.mem_cons.1 hm with rfl | hm
      · exact absurd hterminated hn
      · rw [ih ⟨m, hm, hterminated⟩]

theorem entries_append_of_closed {block : List Node} (h : IsClosed block) (rest : List Node) :
    entries (block ++ rest) = entries block ++ entries rest := by
  obtain ⟨ms, n, rfl, -, hn⟩ := h
  induction ms with
  | nil => simp only [List.nil_append, List.singleton_append, entries, runThrough, hn, if_true]
  | cons m ms ih =>
    have hterminated : ∃ k ∈ m :: (ms ++ [n]), k.isTerminated := ⟨n, by simp, hn⟩
    have hrun := runThrough_append hterminated rest
    rw [List.cons_append] at hrun
    rw [List.cons_append, List.cons_append, entries, entries, ih, hrun, List.cons_append]

theorem entries_flatten_append : ∀ {blocks : List (List Node)}, (∀ block ∈ blocks, IsClosed block) →
    ∀ rest, entries (blocks.flatten ++ rest) = blocks.flatMap entries ++ entries rest
  | [], _, _ => rfl
  | block :: blocks, h, rest => by
    rw [List.flatten_cons, List.append_assoc, entries_append_of_closed (h block (List.mem_cons_self ..)),
      entries_flatten_append fun k hk => h k (List.mem_cons_of_mem _ hk), List.flatMap_cons, List.append_assoc]

theorem entries_flatten {blocks : List (List Node)} (h : ∀ block ∈ blocks, IsClosed block) :
    entries blocks.flatten = blocks.flatMap entries := by
  have happend := entries_flatten_append h []
  rwa [List.append_nil, entries, List.append_nil] at happend

/-- From every label of a block without statements before its end the statements at its end are executed. -/
theorem entries_bare {ms : List Node} (h : ∀ m ∈ ms, m.consequent = []) (n : Node) :
    entries (ms ++ [n]) = (ms ++ [n]).map fun m => (m.test?, n.consequent) := by
  have hlast : runThrough [n] = n.consequent := by simp [runThrough]
  suffices hrun : ∀ ms : List Node, (∀ m ∈ ms, m.consequent = []) → runThrough (ms ++ [n]) = n.consequent ∧
      entries (ms ++ [n]) = (ms ++ [n]).map fun m => (m.test?, n.consequent) from (hrun ms h).2
  intro ms h
  induction ms with
  | nil => exact ⟨hlast, by simp [entries, hlast]⟩
  | cons m ms ih =>
    obtain ⟨hm, hms⟩ := List.forall_mem_cons.1 h
    obtain ⟨hrun, hentries⟩ := ih hms
    have hrun' : runThrough (m :: (ms ++ [n])) = n.consequent := by
      have hopen : m.isTerminated = false := by rw [isTerminated, hm]; rfl
      rw [runThrough, hopen, hm, hrun]
      rfl
    exact ⟨hrun', by rw [List.cons_append, entries, hrun', hentries, List.map_cons]⟩

/-! ## Sorting -/

@[simp] theorem test?_withConsequent (n : Node) (ns : List Node) : (n.withConsequent ns).test? = n.test? := by
  obtain ⟨info, form⟩ := n
  cases form <;> rfl

theorem entries_sortLabels {block : List Node} (h : ∀ n ∈ block, n.isCase) :
    (entries (sortLabels block)).Perm (entries block) := by
  rcases List.eq_nil_or_concat block with rfl | ⟨ms, n, rfl⟩
  · simp [sortLabels, SortKey.sortBy, mapLast]
  rw [List.concat_eq_append] at h ⊢
  rcases sortLabels_cases h with heq | ⟨hms, ls, l, hlabels, hbare, heq⟩
  · rw [heq]
  · obtain ⟨hls, hl⟩ := List.forall_mem_append.1 hbare
    have hfront : ∀ m ∈ ls, m.consequent = [] := fun m hm => consequent_eq_nil (hls m hm).2
    have hperm := SortKey.sortBy_perm caseKey ((ms ++ [n]).map (·.withConsequent []))
    rw [heq, entries_bare hfront, entries_bare hms, consequent_withConsequent (List.forall_mem_singleton.1 hl).1]
    rw [hlabels] at hperm
    have hlast : (ls ++ [l.withConsequent n.consequent]).map (fun m => (m.test?, n.consequent)) =
        (ls ++ [l]).map fun m => (m.test?, n.consequent) := by simp
    have hstatements : ((ms ++ [n]).map (·.withConsequent [])).map (fun m => (m.test?, n.consequent)) =
        (ms ++ [n]).map fun m => (m.test?, n.consequent) := by simp
    rw [hlast, ← hstatements]
    exact hperm.map _

/-- Sorting cases puts their tests, each with what is executed from it on, in another order. -/
theorem entries_sortedCases {cases : List Node} (h : ∀ n ∈ cases, n.isCase) :
    (entries (sortedCases cases)).Perm (entries cases) := by
  obtain ⟨blocks, rest, hclosed, hrest, rfl⟩ := exists_blocks cases
  obtain ⟨hblocks, hcases⟩ := List.forall_mem_append.1 h
  have hboth : ∀ block ∈ blocks, IsClosed block ∧ ∀ n ∈ block, n.isCase := fun block hblock =>
    ⟨hclosed block hblock, fun n hn => hblocks n (List.mem_flatten_of_mem hblock hn)⟩
  have hsorted := fun block hblock => (forall_mem_map_sortLabels hboth block hblock).1
  have hlabels : ((blocks.map sortLabels).flatMap entries).Perm (blocks.flatMap entries) := by
    rw [List.flatMap_map]
    exact List.Perm.flatMap_left _ fun block hblock => entries_sortLabels (hboth block hblock).2
  -- an open block is the last one, and keeps every block in its place
  rcases hrest with rfl | hopen
  · have hperm := SortKey.sortBy_perm blockKey (blocks.map sortLabels)
    rw [List.append_nil, sortedCases_flatten hboth, entries_flatten hclosed,
      entries_flatten fun block hblock => hsorted block (hperm.mem_iff.1 hblock)]
    exact (hperm.flatMap_right _).trans hlabels
  · rw [sortedCases_flatten_append hboth hopen hcases, entries_flatten_append hsorted, entries_flatten_append hclosed]
    exact hlabels.append (entries_sortLabels hcases)

/-! ## Changed cases -/

variable {F : Node → Node} {g : List Node → List Node}

/-- A change of the statements, one by one, changes what is executed in the same way. -/
theorem runThrough_map (h : KeepsCases F (List.map F)) (ns : List Node) :
    runThrough (ns.map F) = (runThrough ns).map F := by
  induction ns with
  | nil => rfl
  | cons n ns ih =>
    rw [List.map_cons, runThrough, runThrough, h.isTerminated, h.consequent, ih]
    split
    · rfl
    · rw [List.map_append]

theorem entries_map (h : KeepsCases F (List.map F)) (htest : ∀ n, (F n).test? = n.test?.map F) (ns : List Node) :
    entries (ns.map F) = (entries ns).map (Prod.map (Option.map F) (List.map F)) := by
  induction ns with
  | nil => rfl
  | cons n ns ih =>
    have hrun := runThrough_map h (n :: ns)
    rw [List.map_cons] at hrun
    rw [List.map_cons, entries, entries, List.map_cons, Prod.map_apply, htest, hrun, ih]

/-- The positions of cases and of the cases in another order, each told by a changed test and a changed run. -/
theorem exists_place {cases sorted : List Node} {t : Option Node → Option Node} {r : List Node → List Node}
    (h : (entries sorted).Perm ((entries cases).map (Prod.map t r))) :
    ∃ place : Fin cases.length ≃ Fin sorted.length, ∀ i,
      sorted[place i].test? = t cases[i].test? ∧
        runThrough (sorted.drop (place i)) = r (runThrough (cases.drop i)) := by
  -- there are as many cases as entries, so a place of one is a place of the other
  obtain ⟨e, he⟩ := exists_equiv_of_perm h.symm
  refine ⟨(finCongr (by simp)).trans (e.trans (finCongr (by simp))), fun i => ?_⟩
  have hi : (entries sorted)[(e (i.cast _)).val]? = ((entries cases).map (Prod.map t r))[i.val]? :=
    he (i.cast (by simp))
  have hlt : (e (i.cast (by simp))).val < sorted.length := by simpa using (e (i.cast (by simp))).isLt
  rw [getElem?_entries, List.getElem?_map, getElem?_entries, List.getElem?_eq_getElem hlt,
    List.getElem?_eq_getElem i.isLt] at hi
  exact Prod.mk.inj (Option.some.inj hi)

section Placed

variable {cases sorted : List Node} {place : Fin cases.length ≃ Fin sorted.length}
  (htest : ∀ i, sorted[place i].test? = cases[i].test?.map F)
include htest

theorem isDefault_place : isDefault sorted = isDefault cases ∘ place.symm := by
  funext j
  obtain ⟨i, rfl⟩ := place.surjective j
  rw [isDefault, htest, Option.isNone_map, Function.comp, place.symm_apply_apply, isDefault]

theorem isHit_place (hits : Fin cases.length → Bool) :
    isHit sorted (hits ∘ place.symm) = isHit cases hits ∘ place.symm := by
  funext j
  obtain ⟨i, rfl⟩ := place.surjective j
  rw [isHit, htest, Option.isSome_map, Function.comp, Function.comp, place.symm_apply_apply, isHit]

/-- The selected case is the same wherever it stands. -/
theorem selected?_place (hdefault : AtMostOne (isDefault cases)) {hits : Fin cases.length → Bool}
    (hhits : AtMostOne (isHit cases hits)) :
    selected? sorted (hits ∘ place.symm) = (selected? cases hits).map place := by
  rw [selected?, isHit_place htest, isDefault_place htest, find?_finRange_equiv place hhits,
    find?_finRange_equiv place hdefault, selected?, Option.map_or]

theorem executed_place
    (hrun : ∀ i, runThrough (sorted.drop (place i)) = (runThrough (cases.drop i)).map F)
    (hdefault : AtMostOne (isDefault cases)) {hits : Fin cases.length → Bool} (hhits : AtMostOne (isHit cases hits)) :
    executed sorted (hits ∘ place.symm) = (executed cases hits).map F := by
  rw [executed, selected?_place htest hdefault hhits, executed]
  cases selected? cases hits with
  | none => rfl
  | some i => exact hrun i

end Placed

end Node

namespace Restyling

open Node

@[simp] theorem test?_run (r : Restyling) (n : Node) : (r.run n).test? = n.test?.map r.run := by
  obtain ⟨info, form⟩ := n
  rw [run_mk]
  cases form <;> rfl

end Restyling

namespace Node

theorem sortCases_eq (root : Node) : root.sortCases = Rule.sortCases.restyling.run root :=
  Rule.everywhere_step .sortCases root

/-- The cases of a switch are sorted with what is nested in them. -/
theorem form_sortCases {n discriminant : Node} {cases : List Node} (h : n.form = .switchStatement discriminant cases) :
    n.sortCases.form = .switchStatement discriminant.sortCases ((sortedCases cases).map sortCases) := by
  simp only [funext sortCases_eq]
  rw [Restyling.run_form, h, ← Restyling.sortedCases_run (Rule.sparesCases .sortCases)]
  rfl

/-- Every switch of a tree stands in the sorted tree with its cases sorted. -/
theorem HasCases.exists_switch {root n discriminant : Node} {cases : List Node} (h : root.HasCases)
    (hn : n ∈ root.preorder) (hform : n.form = .switchStatement discriminant cases) :
    ∃ m ∈ root.sortCases.preorder, m.span = n.span ∧
      m.form = .switchStatement discriminant.sortCases ((sortedCases cases).map sortCases) := by
  obtain ⟨m, hm, hspan, hmform⟩ := exists_run (r := Rule.sortCases.restyling)
    (fun k hk => { cases := flatMap_gather_sortedCases fixed_fixtures.loose (isCase_of_mem_run _ (h k hk)) }) hn
    (by rw [hform]; rfl)
  rw [← sortCases_eq, form_sortCases hform] at hmform
  rw [sortCases_eq]
  exact ⟨m, hm, hspan, hmform⟩

/-- Sorting the cases of a tree keeps what every switch executes: for every value of which at most one test matches
the same statements are executed, with what is nested in them sorted as well. The cases may stand in other places, each
with its test. -/
theorem executed_sortCases {root n discriminant : Node} {cases : List Node} (hcases : root.HasCases)
    (hn : n ∈ root.preorder) (hform : n.form = .switchStatement discriminant cases)
    (hdefault : AtMostOne (isDefault cases)) :
    ∃ (sorted : List Node) (place : Fin cases.length ≃ Fin sorted.length),
      (∃ m ∈ root.sortCases.preorder, m.span = n.span ∧
        m.form = .switchStatement discriminant.sortCases sorted) ∧
      (∀ i, sorted[place i].test? = cases[i].test?.map sortCases) ∧
      ∀ hits, AtMostOne (isHit cases hits) →
        executed sorted (hits ∘ place.symm) = (executed cases hits).map sortCases := by
  have hmembers : ∀ m ∈ cases, m.isCase := fun m hm => hcases n hn m (by rw [hform]; exact hm)
  have hentries : (entries ((sortedCases cases).map sortCases)).Perm
      ((entries cases).map (Prod.map (Option.map sortCases) (List.map sortCases))) := by
    have hkeeps : KeepsCases sortCases (List.map sortCases) := by
      rw [funext sortCases_eq]
      exact (Rule.sparesCases .sortCases).keepsCases
    have htest : ∀ m : Node, m.sortCases.test? = m.test?.map sortCases := by
      rw [funext sortCases_eq]
      exact Restyling.test?_run _
    rw [entries_map hkeeps htest]
    exact (entries_sortedCases hmembers).map _
  obtain ⟨place, hplace⟩ := exists_place hentries
  refine ⟨_, place, hcases.exists_switch hn hform, fun i => (hplace i).1, fun hits hhits => ?_⟩
  exact executed_place (fun i => (hplace i).1) (fun i => (hplace i).2) hdefault hhits

/-- Cases with the default in front, and a label that runs into the statements of another. -/
def defaultFirst : List Node :=
  let label (name : String) := some (plain ⟨0, 0, 1⟩ (.identifier name))
  let close := plain ⟨0, 0, 1⟩ (.breakStatement none)
  [plain ⟨0, 0, 1⟩ (.switchCase none [plain ⟨0, 0, 1⟩ .debuggerStatement, close]),
    plain ⟨0, 0, 1⟩ (.switchCase (label "b") []),
    plain ⟨0, 0, 1⟩ (.switchCase (label "a") [plain ⟨0, 0, 1⟩ (.throwStatement (plain ⟨0, 0, 1⟩ .thisExpression))])]

/-- The label runs into the other's statements, and the default is found without a match, once they are sorted. -/
theorem executed_sortCases_defaultFirst :
    ∃ (sorted : List Node) (place : Fin defaultFirst.length ≃ Fin sorted.length),
      (executed sorted ((fun i => i.val == 1) ∘ place.symm)).map tag = ["throw_statement"] ∧
      (executed sorted ((fun _ => false) ∘ place.symm)).map tag = ["debugger_statement", "break_statement"] := by
  have hcases : (plain ⟨0, 0, 1⟩ (.switchStatement (plain ⟨0, 0, 1⟩ .thisExpression) defaultFirst)).HasCases := by
    decide +kernel
  obtain ⟨sorted, place, -, -, h⟩ := executed_sortCases hcases (mem_preorder_self _) rfl (by decide +kernel)
  refine ⟨sorted, place, ?_, ?_⟩
  · rw [h (fun i => i.val == 1) (by decide +kernel)]
    decide +kernel
  · rw [h (fun _ => false) (by decide +kernel)]
    decide +kernel

end Node

end ScriptTidy
