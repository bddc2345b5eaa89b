/-
Runs before and after sorting. Where a list is cut into runs is told by its members and by the
comments that they own, and both are moved by the sort. The runs of a list are those of the library
function that splits a list between neighbors; sorting the runs sorts each of them, and in the
sorted list the same runs are found, since a member that had cut two runs still does so with the
comments that now stand before the first of its run. All else follows from one run: a node that is
no member is a run of its own, and stays where it is.
-/
import Mathlib
import ScriptTidy.Proofs.Style.Again
import ScriptTidy.Proofs.Style.Duplicates

namespace ScriptTidy

namespace Node

variable {isMember : Node → Bool} {key : Node → SortKey}

/-! ## The runs of a list -/

/-- The second of two neighbors belongs to the run of the first: both are members, and the second
owns no comments. -/
def joins (isMember : Node → Bool) (a b : Node) : Bool := isMember a && continuesRun isMember b

/-- A list cut into its maximal runs. A node that is no member stands alone. -/
def runs (isMember : Node → Bool) (ns : List Node) : List (List Node) := ns.splitBy (joins isMember)

theorem isChain_joins {first : Node} {rest : List Node} (hfirst : isMember first)
    (hrest : ∀ m ∈ rest, continuesRun isMember m) : (first :: rest).IsChain (joins isMember · ·) := by
  induction rest generalizing first with
  | nil => exact List.isChain_singleton _
  | cons m rest ih =>
    obtain ⟨hm, hrest⟩ := List.forall_mem_cons.1 hrest
    refine List.isChain_cons_cons.2 ⟨?_, ih (continuesRun_eq_true.1 hm).1 hrest⟩
    rw [joins, hfirst, hm]
    rfl

/-- A run ends before a node that continues none. -/
theorem runs_run_append {first : Node} {rest ns : List Node} (hfirst : isMember first)
    (hrest : ∀ m ∈ rest, continuesRun isMember m) (hns : ns.takeWhile (continuesRun isMember) = []) :
    runs isMember (first :: rest ++ ns) = (first :: rest) :: runs isMember ns := by
  have hend : ∀ a ∈ (first :: rest).getLast?, ∀ b ∈ ns.head?, joins isMember a b = false := by
    intro a _ b hb
    obtain ⟨ns, rfl⟩ := List.head?_eq_some_iff.1 hb
    have hstop : continuesRun isMember b = false := by
      cases hcont : continuesRun isMember b with
      | false => rfl
      | true => rw [List.takeWhile_cons_of_pos hcont] at hns; cases hns
    rw [joins, hstop, Bool.and_false]
  rw [runs, List.splitBy_append hend, List.splitBy_of_isChain (by simp) (isChain_joins hfirst hrest)]
  rfl

theorem runs_cons_of_not {n : Node} (h : isMember n = false) (ns : List Node) :
    runs isMember (n :: ns) = [n] :: runs isMember ns := by
  have hend : ∀ a ∈ [n].getLast?, ∀ b ∈ ns.head?, joins isMember a b = false := by
    intro a ha b _
    have hlast : n = a := Option.some.inj ha
    rw [← hlast, joins, h, Bool.false_and]
  rw [runs, ← List.singleton_append, List.splitBy_append hend]
  rfl

theorem runs_cons_of_member {n : Node} (h : isMember n) (ns : List Node) :
    runs isMember (n :: ns) = (n :: ns.takeWhile (continuesRun isMember)) ::
      runs isMember (ns.dropWhile (continuesRun isMember)) := by
  have hsplit : n :: ns = n :: ns.takeWhile (continuesRun isMember) ++ ns.dropWhile (continuesRun isMember) := by
    rw [List.cons_append, List.takeWhile_append_dropWhile]
  conv_lhs => rw [hsplit]
  exact runs_run_append h (fun m => List.mem_takeWhile_imp) (takeWhile_dropWhile _ ns)

/-- In the sorted list the runs are found again, each of them sorted. -/
theorem runs_sortRuns (hform : SortsByForm isMember key) (ns : List Node) :
    runs isMember (sortRuns isMember key ns) = (runs isMember ns).map (sortRun key) := by
  fun_induction sortRuns isMember key ns with
  | case1 => rfl
  | case2 n ns hn ih =>
    have hstart : (sortRuns isMember key (ns.dropWhile (continuesRun isMember))).takeWhile
        (continuesRun isMember) = [] :=
      takeWhile_sortRuns (takeWhile_dropWhile _ ns)
    obtain ⟨first, rest, hrun, -, hrest⟩ := exists_sortRun_eq_cons key n (ns.takeWhile (continuesRun isMember))
    have hmembers : ∀ m ∈ first :: rest, isMember m := fun m hm =>
      isMember_of_mem_sortRun hform (fun _ => isMember_of_mem_run hn) (by rw [hrun]; exact hm)
    -- the comments of the run are before its first member, so that nothing cuts the sorted run
    have hcontinues : ∀ m ∈ rest, continuesRun isMember m := fun m hm =>
      continuesRun_eq_true.2 ⟨hmembers m (List.mem_cons_of_mem _ hm), hrest m hm⟩
    rw [runs_cons_of_member hn, List.map_cons, ← ih, hrun]
    exact runs_run_append (hmembers first (List.mem_cons_self ..)) hcontinues hstart
  | case3 n ns hn ih =>
    rw [Bool.not_eq_true] at hn
    have hsingle : sortRun key [n] = [n] := by
      rw [sortRun, SortKey.sortBy, List.mergeSort_singleton, hoistComments_singleton]
    rw [runs_cons_of_not hn, runs_cons_of_not hn, ih, List.map_cons, hsingle]

/-! ## One run -/

/-- What sorting makes of a run: its members are sorted, up to their comments, and all comments
stand before the first of them, in the order in which they stood. -/
structure SortsRun (key : Node → SortKey) (run sorted : List Node) : Prop where
  sorts : SortKey.Sorts key (run.map (·.withComments [])) (sorted.map (·.withComments []))
  comments : ∃ first rest, sorted = first :: rest ∧ first.comments = run.flatMap Node.comments ∧
    ∀ m ∈ rest, m.comments = []

theorem continuesRun_of_isChain {first : Node} {rest : List Node}
    (h : (first :: rest).IsChain (joins isMember · ·)) : ∀ m ∈ rest, continuesRun isMember m := by
  induction rest generalizing first with
  | nil => exact nofun
  | cons m rest ih =>
    obtain ⟨hm, hrest⟩ := List.isChain_cons_cons.1 h
    rw [joins, Bool.and_eq_true] at hm
    exact List.forall_mem_cons.2 ⟨hm.2, ih hrest⟩

/-- Only the first node of a run may own comments. -/
theorem exists_of_mem_runs {run ns : List Node} (h : run ∈ runs isMember ns) :
    ∃ first rest, run = first :: rest ∧ ∀ m ∈ rest, m.comments = [] := by
  cases run with
  | nil => exact absurd rfl (List.ne_nil_of_mem_splitBy h)
  | cons first rest =>
    have hrest := continuesRun_of_isChain (List.isChain_of_mem_splitBy h)
    exact ⟨first, rest, rfl, fun m hm => (continuesRun_eq_true.1 (hrest m hm)).2⟩

/-- The comments of nodes of which only one has any are its comments, wherever it stands. -/
theorem flatMap_comments_of_perm {first : Node} {rest ns : List Node} (hperm : ns.Perm (first :: rest))
    (hrest : ∀ m ∈ rest, m.comments = []) : ns.flatMap comments = first.comments := by
  obtain ⟨front, back, rfl⟩ := List.append_of_mem (hperm.mem_iff.2 (List.mem_cons_self ..))
  have hothers : ∀ m ∈ front ++ back, m.comments = [] := fun m hm =>
    hrest m ((List.perm_middle.symm.trans hperm).cons_inv.mem_iff.1 hm)
  obtain ⟨hfront, hback⟩ := List.forall_mem_append.1 hothers
  rw [List.flatMap_append, List.flatMap_cons, List.flatMap_eq_nil_iff.2 hfront, List.flatMap_eq_nil_iff.2 hback,
    List.nil_append, List.append_nil]

theorem sortsRun_sortRun (hform : SortsByForm isMember key) {first : Node} {rest : List Node}
    (hrest : ∀ m ∈ rest, m.comments = []) (hplaced : ∀ m ∈ first :: rest, (key m).isPlaced) :
    SortsRun key (first :: rest) (sortRun key (first :: rest)) := by
  have hbare : (sortRun key (first :: rest)).map (·.withComments []) =
      SortKey.sortBy key ((first :: rest).map (·.withComments [])) := by
    rw [map_sortRun, SortKey.sortBy_map fun n => hform.key n []]
  refine ⟨?sorts, ?comments⟩
  case sorts =>
    rw [hbare]
    refine SortKey.sorts_sortBy fun m hm => ?_
    obtain ⟨k, hk, rfl⟩ := List.mem_map.1 hm
    rw [hform.key]
    exact hplaced k hk
  case comments =>
    have hperm := SortKey.sortBy_perm key (first :: rest)
    rw [sortRun]
    cases hsorted : SortKey.sortBy key (first :: rest) with
    | nil => rw [hsorted] at hperm; cases hperm.symm.eq_nil
    | cons m ms =>
      rw [hsorted] at hperm
      refine ⟨_, _, rfl, ?_, fun k hk => ?_⟩
      · rw [comments_withComments, flatMap_comments_of_perm hperm hrest, flatMap_comments_of_perm (.refl _) hrest]
      · obtain ⟨l, -, rfl⟩ := List.mem_map.1 hk
        rfl

/-! ## All runs -/

/-- A node that is no member stays where it is. -/
theorem getElem?_sortRuns {ns : List Node} {i : Nat} {n : Node} (h : ns[i]? = some n) (hn : isMember n = false) :
    (sortRuns isMember key ns)[i]? = some n := by
  fun_induction sortRuns isMember key ns generalizing i with
  | case1 => exact h
  | case2 m ns hm ih =>
    rw [← List.takeWhile_append_dropWhile (p := continuesRun isMember) (l := ns), ← List.cons_append] at h
    rw [List.getElem?_append, length_sortRun]
    rw [List.getElem?_append] at h
    split at h
    · have hmember := isMember_of_mem_run hm (List.mem_of_getElem? h)
      rw [hn] at hmember
      cases hmember
    · next hlt => rw [if_neg hlt, ih h]
  | case3 m ns hm ih =>
    cases i with
    | zero => exact h
    | succ i => exact ih h

/-- What sorting makes of a list. The runs are those that are found in the lists. -/
structure SortsRuns (isMember : Node → Bool) (key : Node → SortKey) (ns sorted : List Node) : Prop where
  runs : List.Forall₂ (SortsRun key) (runs isMember ns) (runs isMember sorted)
  others : ∀ (i : Nat) (n : Node), ns[i]? = some n → isMember n = false → sorted[i]? = some n
  perm : (sorted.map (·.withComments [])).Perm (ns.map (·.withComments []))
  again : sortRuns isMember key sorted = sorted

theorem sortsRuns_sortRuns (hform : SortsByForm isMember key) {ns : List Node}
    (hplaced : ∀ n ∈ ns, (key n).isPlaced) : SortsRuns isMember key ns (sortRuns isMember key ns) where
  runs := by
    rw [runs_sortRuns hform, List.forall₂_map_right_iff, List.forall₂_same]
    intro run hrun
    obtain ⟨first, rest, rfl, hrest⟩ := exists_of_mem_runs hrun
    refine sortsRun_sortRun hform hrest fun m hm => hplaced m ?_
    rw [← List.flatten_splitBy (joins isMember) ns]
    exact List.mem_flatten_of_mem hrun hm
  others _ _ h hn := getElem?_sortRuns h hn
  perm := perm_sortRuns ns
  again := sortRuns_idem hform ns fun n hn _ => hplaced n hn

/-! ## The lists of a tree -/

/-- The list of a node in which runs are sorted: function declarations in a program or a block,
methods in the body of a class. -/
inductive HoldsRuns (n : Node) : List Node → (Node → Bool) → (Node → SortKey) → Prop where
  | program {body : List Node} {hashbang : String} (h : n.form = .program body hashbang) :
    HoldsRuns n body isFunctionDeclaration functionKey
  | block {body : List Node} (h : n.form = .blockStatement body) : HoldsRuns n body isFunctionDeclaration functionKey
  | classBody {members : List Node} (h : n.form = .classBody members) : HoldsRuns n members isMethod methodKey

theorem HoldsRuns.sortsByForm {n : Node} {ns : List Node} (h : HoldsRuns n ns isMember key) :
    SortsByForm isMember key := by
  cases h with
  | program => exact sortsByForm_function
  | block => exact sortsByForm_function
  | classBody => exact sortsByForm_method

/-- In a tree without a NaN all keys of such a list can be compared. -/
theorem HoldsRuns.isPlaced {root n : Node} {ns : List Node} (h : HoldsRuns n ns isMember key)
    (hnumbers : root.HasNumbers) (hn : n ∈ root.preorder) : ∀ m ∈ ns, (key m).isPlaced := by
  intro m hm
  obtain ⟨info, form⟩ := n
  have hkeys := hnumbers.hasPlacedKeys hn
  cases h with
  | program h | block h =>
    obtain rfl := h
    exact (hkeys m hm).function
  | classBody h =>
    obtain rfl := h
    exact (hkeys m hm).method

theorem sortFunctions_eq (root : Node) : root.sortFunctions = Rule.sortFunctions.restyling.run root :=
  Rule.everywhere_step .sortFunctions root

theorem HoldsRuns.sortFunctions {n : Node} {ns : List Node} (h : HoldsRuns n ns isMember key) :
    HoldsRuns n.sortFunctions (sortRuns isMember key (ns.map Node.sortFunctions)) isMember key := by
  have hform := Restyling.run_form Rule.sortFunctions.restyling n
  simp only [← funext sortFunctions_eq] at hform
  cases h with
  | program h => exact .program (by rw [hform, h]; rfl)
  | block h => exact .block (by rw [hform, h]; rfl)
  | classBody h => exact .classBody (by rw [hform, h]; rfl)

/-- Sorting moves the nodes of a tree and their comments, and does nothing else to them. -/
theorem perm_preorder_sortFunctions (root : Node) :
    (root.sortFunctions.preorder.map (·.withComments [])).Perm
      (root.preorder.map fun n => n.sortFunctions.withComments []) := by
  have hhoist (ns : List Node) : ((hoistComments ns).flatMap fun n => [n.withComments []]).Perm
      (ns.flatMap fun n => [n.withComments []]) := by
    rw [flatMap_hoistComments fun _ _ => rfl]
  have h : ((Rule.sortFunctions.restyling.run root).gather fun n => [n.withComments []]).Perm
      (root.gather fun n => [n.sortFunctions.withComments []]) :=
    gather_restyled
      (fun n _ => {
        statements := flatMap_gather_sortRuns hhoist ..
        members := fun _ => flatMap_gather_sortRuns hhoist .. })
      fun n _ => by rw [sortFunctions_eq]
  rw [← sortFunctions_eq] at h
  simpa only [gather, ← List.map_eq_flatMap] using h

/-- The name of a function declaration. -/
def functionName? (n : Node) : Option String :=
  match n.form with
  | .functionDeclaration id .. =>
    match id.form with
    | .identifier name => some name
    | _ => none
  | _ => none

theorem functionKey_of_functionName? {n : Node} {name : String} (h : n.functionName? = some name) :
    n.functionKey = .ofString name := by
  obtain ⟨info, form⟩ := n
  cases form with
  | functionDeclaration id params body isAsync isGenerator =>
    obtain ⟨info, form⟩ := id
    cases form with
    | identifier name' =>
      obtain rfl := Option.some.inj h
      rfl
    | _ => cases h
  | _ => cases h

theorem functionKey_sortFunctions (n : Node) : n.sortFunctions.functionKey = n.functionKey := by
  rw [sortFunctions_eq, Restyling.functionKey_run]

/-- Functions of the same name stand as they stood, whichever runs they are in. -/
theorem sublist_functions {ns group : List Node} {name : String}
    (hplaced : ∀ n ∈ ns, n.functionKey.isPlaced) (hsub : group.Sublist ns)
    (hgroup : ∀ n ∈ group, n.functionName? = some name) :
    ((group.map sortFunctions).map (·.withComments [])).Sublist
      ((sortRuns isFunctionDeclaration functionKey (ns.map sortFunctions)).map (·.withComments [])) := by
  have hsorted : ∀ n ∈ ns.map sortFunctions, n.isFunctionDeclaration → n.functionKey.isPlaced := by
    intro n hn _
    obtain ⟨m, hm, rfl⟩ := List.mem_map.1 hn
    rw [functionKey_sortFunctions]
    exact hplaced m hm
  have hkey : ∀ n ∈ group.map sortFunctions, n.functionKey = .ofString name := by
    intro n hn
    obtain ⟨m, hm, rfl⟩ := List.mem_map.1 hn
    rw [functionKey_sortFunctions, functionKey_of_functionName? (hgroup m hm)]
  have hequal : (SortKey.ofString name).le (.ofString name) := (SortKey.le_iff rfl rfl).2 (le_refl _)
  refine sublist_sortRuns hsorted ?_ (hsub.map _)
  refine List.pairwise_iff_forall_sublist.2 fun {a b} hab => ?_
  rw [hkey a (hab.subset (List.mem_cons_self ..)), hkey b (hab.subset (by simp))]
  exact hequal

/-- Runs that are sorted are not sorted again. -/
theorem HasNumbers.sortFunctions_idem {root : Node} (h : root.HasNumbers) :
    root.sortFunctions.sortFunctions = root.sortFunctions := by
  have hrespects : Rule.sortFunctions.restyling.Respects Rule.sortFunctions.restyling :=
    Rule.respects (by decide) (by decide) .sortFunctions
  simp only [sortFunctions_eq]
  rw [Restyling.run_run hrespects]
  refine Restyling.run_congr (by rfl) fun n hn => ?_
  -- a list of the tree has the keys that it had, once what is nested in it has been sorted
  have hagain {ns : List Node} {isMember key} (hlist : HoldsRuns n ns isMember key)
      (hkey : ∀ m : Node, key (Rule.sortFunctions.restyling.run m) = key m) :
      sortRuns isMember key (sortRuns isMember key (ns.map Rule.sortFunctions.restyling.run)) =
        sortRuns isMember key (ns.map Rule.sortFunctions.restyling.run) := by
    refine sortRuns_idem hlist.sortsByForm _ fun m hm _ => ?_
    obtain ⟨k, hk, rfl⟩ := List.mem_map.1 hm
    rw [hkey]
    exact hlist.isPlaced h hn k hk
  rw [Restyling.form_andThen]
  obtain ⟨info, form⟩ := n
  cases form with
  | program body hashbang =>
    exact congrArg (Form.program · hashbang) (hagain (.program rfl) (Restyling.functionKey_run _))
  | blockStatement body => exact congrArg Form.blockStatement (hagain (.block rfl) (Restyling.functionKey_run _))
  | classBody members => exact congrArg Form.classBody (hagain (.classBody rfl) (Restyling.methodKey_run _))
  | ifStatement test consequent alternate => cases alternate <;> rfl
  | _ => rfl

/-- The list of a switch case stays in its order. -/
theorem form_sortFunctions_of_switchCase {n : Node} {test : Option Node} {consequent : List Node}
    (h : n.form = .switchCase test consequent) :
    n.sortFunctions.form = .switchCase (test.map sortFunctions) (consequent.map sortFunctions) := by
  have hform := Restyling.run_form Rule.sortFunctions.restyling n
  simp only [← funext sortFunctions_eq] at hform
  rw [hform, h]
  rfl

/-- In a tree without a NaN the runs of all programs, blocks and classes are sorted, each with what is
nested in it, and the statements of switch cases stay in their order. Nodes are moved and comments
handed over, and nothing is lost or comes twice. Functions of the same name in a list stand as they
stood, and there is nothing to sort afterwards. -/
theorem sortFunctions_sortsRuns {root : Node} (h : root.HasNumbers) :
    (root.sortFunctions.preorder.map (·.withComments [])).Perm
      (root.preorder.map fun n => n.sortFunctions.withComments []) ∧
    (∀ n ∈ root.preorder, ∀ {ns isMember key}, HoldsRuns n ns isMember key →
      ∃ sorted, HoldsRuns n.sortFunctions sorted isMember key ∧
        SortsRuns isMember key (ns.map sortFunctions) sorted) ∧
    (∀ n ∈ root.preorder, ∀ {ns}, HoldsRuns n ns isFunctionDeclaration functionKey →
      ∃ sorted, HoldsRuns n.sortFunctions sorted isFunctionDeclaration functionKey ∧
        ∀ (name : String) (group : List Node), group.Sublist ns → (∀ m ∈ group, m.functionName? = some name) →
          ((group.map sortFunctions).map (·.withComments [])).Sublist (sorted.map (·.withComments []))) ∧
    (∀ n ∈ root.preorder, ∀ {test consequent}, n.form = .switchCase test consequent →
      n.sortFunctions.form = .switchCase (test.map sortFunctions) (consequent.map sortFunctions)) ∧
    root.sortFunctions.sortFunctions = root.sortFunctions := by
  refine ⟨perm_preorder_sortFunctions root, ?lists, ?names, ?cases, h.sortFunctions_idem⟩
  case lists =>
    intro n hn ns isMember key hlist
    refine ⟨_, hlist.sortFunctions, sortsRuns_sortRuns hlist.sortsByForm fun m hm => ?_⟩
    obtain ⟨k, hk, rfl⟩ := List.mem_map.1 hm
    have hkey : key k.sortFunctions = key k := by
      rw [sortFunctions_eq]
      cases hlist with
      | program | block => exact Restyling.functionKey_run _ k
      | classBody => exact Restyling.methodKey_run _ k
    rw [hkey]
    exact hlist.isPlaced h hn k hk
  case names =>
    intro n hn ns hlist
    exact ⟨_, hlist.sortFunctions, fun name group hsub hgroup =>
      sublist_functions (hlist.isPlaced h hn) hsub hgroup⟩
  case cases => exact fun n _ test consequent => form_sortFunctions_of_switchCase

/-! ## Functions in the list of a case -/

/-- A function declaration without parameters and statements. -/
def emptyDeclaration (name : String) : Node :=
  plain ⟨0, 0, 1⟩ (.functionDeclaration (plain ⟨0, 0, 1⟩ (.identifier name)) []
    (plain ⟨0, 0, 1⟩ (.blockStatement [])) false false)

/-- Functions that are not in order. -/
def unsortedFunctions : List Node := [emptyDeclaration "b", emptyDeclaration "a"]

/-- The list of a case. -/
def functionsOfCase : Node := plain ⟨0, 0, 1⟩ (.switchCase none unsortedFunctions)

/-- A block with two functions, and with the same functions in the list of a case. -/
def functionsTwice : Node :=
  let switch := plain ⟨0, 0, 1⟩ (.switchStatement (plain ⟨0, 0, 1⟩ .thisExpression) [functionsOfCase])
  plain ⟨0, 0, 1⟩ (.blockStatement (switch :: unsortedFunctions))

/-- The functions of the block are sorted, those of the case are not. -/
theorem sortFunctions_sortsRuns_functionsTwice :
    functionsTwice.HasNumbers ∧
    (∃ ns sorted, HoldsRuns functionsTwice ns isFunctionDeclaration functionKey ∧
      HoldsRuns functionsTwice.sortFunctions sorted isFunctionDeclaration functionKey ∧
      SortsRuns isFunctionDeclaration functionKey (ns.map sortFunctions) sorted) ∧
    functionsOfCase.sortFunctions.form = .switchCase none (unsortedFunctions.map sortFunctions) ∧
    functionsTwice.sortFunctions.sortFunctions = functionsTwice.sortFunctions := by
  have hnumbers : functionsTwice.HasNumbers := by decide +kernel
  have hcase : functionsOfCase ∈ functionsTwice.preorder :=
    mem_preorder_trans (mem_preorder_of_mem_children (.head _)) (mem_preorder_of_mem_children (.tail _ (.head _)))
  obtain ⟨-, hlists, -, hcases, hagain⟩ := sortFunctions_sortsRuns hnumbers
  obtain ⟨sorted, hsorted, hruns⟩ := hlists _ (mem_preorder_self _) (.block rfl)
  exact ⟨hnumbers, ⟨_, sorted, .block rfl, hsorted, hruns⟩, hcases _ hcase rfl, hagain⟩

/-- Functions that stand in a run of the list of a case are not sorted. -/
theorem sortFunctions_functionsOfCase :
    (runs isFunctionDeclaration functionsOfCase.consequent).length = 1 ∧
      functionsOfCase.sortFunctions = functionsOfCase ∧
      ¬ SortKey.InOrder functionKey functionsOfCase.sortFunctions.consequent := by
  have hcase : functionsOfCase.sortFunctions = functionsOfCase := by cbv
  refine ⟨by decide, hcase, ?_⟩
  rw [hcase, SortKey.InOrder]
  decide

end Node

end ScriptTidy
