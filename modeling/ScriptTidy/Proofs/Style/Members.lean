/-
Runs of members. Sorting the runs of a list does the same to members that a restyling has changed,
and to a list in which statements are replaced by one or more others, as long as members stay what
they are and nothing else becomes one. A list whose runs are sorted has its runs where they were: a
run still starts where the first comments or the first member of it stood, so that sorting once more
changes nothing.
-/
import Mathlib.Data.List.TakeWhile
import ScriptTidy.Proofs.Lists
import ScriptTidy.Proofs.Order.Sorting
import ScriptTidy.Proofs.Style.Declarations

namespace ScriptTidy

namespace Node

/-! ## Hoisted comments -/

@[simp] theorem withComments_comments (n : Node) : n.withComments n.comments = n := by
  cases n; rfl

@[simp] theorem comments_withComments (n : Node) (comments : List Comment) :
    (n.withComments comments).comments = comments := rfl

theorem hoistComments_singleton (n : Node) : hoistComments [n] = [n] := by
  rw [hoistComments, List.flatMap_singleton, withComments_comments, List.map_nil]

/-- The comments of a list whose comments stand at the front are not moved. -/
theorem hoistComments_eq_self {n : Node} {ns : List Node} (h : ∀ m ∈ ns, m.comments = []) :
    hoistComments (n :: ns) = n :: ns := by
  have hrest : ns.flatMap comments = [] := List.flatMap_eq_nil_iff.2 h
  have hkept : ns.map (·.withComments []) = ns := by
    rw [List.map_congr_left fun m hm => by rw [← h m hm, withComments_comments], List.map_id']
  rw [hoistComments, List.flatMap_cons, hrest, List.append_nil, withComments_comments, hkept]

theorem hoistComments_idem (ns : List Node) : hoistComments (hoistComments ns) = hoistComments ns := by
  cases ns with
  | nil => rfl
  | cons n ns =>
    refine hoistComments_eq_self fun m hm => ?_
    obtain ⟨k, -, rfl⟩ := List.mem_map.1 hm
    rfl

theorem length_hoistComments (ns : List Node) : (hoistComments ns).length = ns.length := by
  cases ns with
  | nil => rfl
  | cons n ns => rw [hoistComments, List.length_cons, List.length_map, List.length_cons]

/-- Up to its comments, a node of the list is in the list with hoisted comments, and the other way
round. -/
theorem exists_of_mem_hoistComments {n : Node} {ns : List Node} (h : n ∈ hoistComments ns) :
    ∃ m ∈ ns, ∃ comments, n = m.withComments comments := by
  cases ns with
  | nil => cases h
  | cons m ns =>
    rcases List.mem_cons.1 h with rfl | h
    · exact ⟨m, List.mem_cons_self .., _, rfl⟩
    · obtain ⟨k, hk, rfl⟩ := List.mem_map.1 h
      exact ⟨k, List.mem_cons_of_mem _ hk, _, rfl⟩

/-! ## Members and their keys -/

/-- Members are told and sorted by what they are, not by their comments. -/
structure SortsByForm (isMember : Node → Bool) (key : Node → SortKey) : Prop where
  isMember : ∀ n comments, isMember (n.withComments comments) = isMember n
  key : ∀ n comments, key (n.withComments comments) = key n

theorem sortsByForm_function : SortsByForm isFunctionDeclaration functionKey :=
  ⟨fun _ _ => rfl, fun _ _ => rfl⟩

theorem sortsByForm_method : SortsByForm isMethod methodKey :=
  ⟨fun _ _ => rfl, fun _ _ => rfl⟩

variable {isMember : Node → Bool} {key : Node → SortKey}

/-- A member whose comments are not empty starts a run. -/
theorem continuesRun_eq_true {n : Node} : continuesRun isMember n = true ↔ isMember n ∧ n.comments = [] := by
  rw [continuesRun, Bool.and_eq_true, List.isEmpty_iff]

theorem continuesRun_eq_false (n : Node) (h : isMember n = false) : continuesRun isMember n = false := by
  rw [continuesRun, h]
  rfl

/-- A run is made of members. -/
theorem isMember_of_mem_run {n m : Node} {ns : List Node} (hn : isMember n)
    (hm : m ∈ n :: ns.takeWhile (continuesRun isMember)) : isMember m := by
  rcases List.mem_cons.1 hm with rfl | hm
  · exact hn
  · exact (continuesRun_eq_true.1 (List.mem_takeWhile_imp hm)).1

theorem length_sortRun (ns : List Node) : (sortRun key ns).length = ns.length := by
  rw [sortRun, length_hoistComments]
  exact (SortKey.sortBy_perm key ns).length_eq

theorem exists_of_mem_sortRun {n : Node} {ns : List Node} (h : n ∈ sortRun key ns) :
    ∃ m ∈ ns, ∃ comments, n = m.withComments comments := by
  obtain ⟨m, hm, comments, rfl⟩ := exists_of_mem_hoistComments h
  exact ⟨m, (SortKey.sortBy_perm key ns).mem_iff.1 hm, comments, rfl⟩

/-- The members of a sorted run are members. -/
theorem isMember_of_mem_sortRun (hform : SortsByForm isMember key) {n : Node} {ns : List Node}
    (hmembers : ∀ m ∈ ns, isMember m) (h : n ∈ sortRun key ns) : isMember n := by
  obtain ⟨m, hm, comments, rfl⟩ := exists_of_mem_sortRun h
  rw [hform.isMember]
  exact hmembers m hm

/-- All comments of a run are those of the first member once it is sorted. -/
theorem exists_sortRun_eq_cons (key : Node → SortKey) (n : Node) (ns : List Node) :
    ∃ first rest, sortRun key (n :: ns) = first :: rest ∧ first.comments.Perm ((n :: ns).flatMap comments) ∧
      ∀ m ∈ rest, m.comments = [] := by
  have hperm := SortKey.sortBy_perm key (n :: ns)
  unfold sortRun
  cases hsorted : SortKey.sortBy key (n :: ns) with
  | nil => rw [hsorted] at hperm; cases hperm.symm.eq_nil
  | cons m ms =>
    rw [hsorted] at hperm
    refine ⟨_, _, rfl, hperm.flatMap_right comments, fun k hk => ?_⟩
    obtain ⟨l, -, rfl⟩ := List.mem_map.1 hk
    rfl

theorem sortBy_hoistComments (hform : SortsByForm isMember key) {ns : List Node} (h : SortKey.InOrder key ns) :
    SortKey.sortBy key (hoistComments ns) = hoistComments ns := by
  cases ns with
  | nil => exact SortKey.sortBy_eq_self h
  | cons n ns =>
    obtain ⟨hfirst, hrest⟩ := List.pairwise_cons.1 h
    refine SortKey.sortBy_eq_self (List.pairwise_cons.2 ⟨fun m hm => ?_, ?_⟩)
    · obtain ⟨k, hk, rfl⟩ := List.mem_map.1 hm
      rw [hform.key, hform.key]
      exact hfirst k hk
    · rw [List.pairwise_map]
      refine hrest.imp fun h => ?_
      rwa [hform.key, hform.key]

/-- A sorted run is not sorted again. -/
theorem sortRun_idem (hform : SortsByForm isMember key) {ns : List Node} (h : ∀ n ∈ ns, (key n).isPlaced) :
    sortRun key (sortRun key ns) = sortRun key ns := by
  unfold sortRun
  rw [sortBy_hoistComments hform (SortKey.inOrder_sortBy h), hoistComments_idem]

/-! ## Runs of a list -/

theorem sortRuns_cons_of_not {n : Node} (h : isMember n = false) (ns : List Node) :
    sortRuns isMember key (n :: ns) = n :: sortRuns isMember key ns := by
  rw [sortRuns, if_neg (by rw [h]; decide)]

theorem sortRuns_cons_of_member {n : Node} (h : isMember n) (ns : List Node) :
    sortRuns isMember key (n :: ns) =
      sortRun key (n :: ns.takeWhile (continuesRun isMember)) ++
        sortRuns isMember key (ns.dropWhile (continuesRun isMember)) := by
  rw [sortRuns, if_pos h]

theorem sortRuns_append_of_not : ∀ {ms : List Node}, (∀ m ∈ ms, isMember m = false) → ∀ ns : List Node,
    sortRuns isMember key (ms ++ ns) = ms ++ sortRuns isMember key ns
  | [], _, _ => rfl
  | m :: ms, h, ns => by
    rw [List.cons_append, sortRuns_cons_of_not (h m (List.mem_cons_self ..)),
      sortRuns_append_of_not fun k hk => h k (List.mem_cons_of_mem _ hk)]
    rfl

theorem sortRuns_singleton (n : Node) : sortRuns isMember key [n] = [n] := by
  cases h : isMember n with
  | false => rw [sortRuns_cons_of_not h, sortRuns]
  | true =>
    rw [sortRuns_cons_of_member h, List.takeWhile_nil, List.dropWhile_nil, sortRuns, sortRun,
      SortKey.sortBy, List.mergeSort_singleton, hoistComments_singleton, List.append_nil]

theorem length_sortRuns (ns : List Node) : (sortRuns isMember key ns).length = ns.length := by
  fun_induction sortRuns isMember key ns with
  | case1 => rfl
  | case2 n ns _ ih =>
    rw [List.length_append, ih, length_sortRun, List.length_cons, List.length_cons]
    have := congrArg List.length (List.takeWhile_append_dropWhile (p := continuesRun isMember) (l := ns))
    rw [List.length_append] at this
    omega
  | case3 n ns _ ih => rw [List.length_cons, ih, List.length_cons]

/-! ## Other statements between the members -/

section Replacing

variable {f : Node → List Node}

theorem takeWhile_flatMap (hmember : ∀ n, isMember n → f n = [n]) (hother : ∀ n, isMember n = false → f n ≠ [])
    (hkept : ∀ n, isMember n = false → ∀ m ∈ f n, isMember m = false) : ∀ ns : List Node,
    (ns.flatMap f).takeWhile (continuesRun isMember) = ns.takeWhile (continuesRun isMember) ∧
      (ns.flatMap f).dropWhile (continuesRun isMember) = (ns.dropWhile (continuesRun isMember)).flatMap f
  | [] => ⟨rfl, rfl⟩
  | n :: ns => by
    rw [List.flatMap_cons]
    cases hn : isMember n with
    | true =>
      rw [hmember n hn, List.singleton_append]
      cases hrun : continuesRun isMember n with
      | true =>
        obtain ⟨htake, hdrop⟩ := takeWhile_flatMap hmember hother hkept ns
        rw [List.takeWhile_cons_of_pos hrun, List.takeWhile_cons_of_pos hrun, List.dropWhile_cons_of_pos hrun,
          List.dropWhile_cons_of_pos hrun, htake]
        exact ⟨rfl, hdrop⟩
      | false =>
        have hneg : ¬ continuesRun isMember n = true := by rw [hrun]; decide
        rw [List.takeWhile_cons_of_neg hneg, List.takeWhile_cons_of_neg hneg, List.dropWhile_cons_of_neg hneg,
          List.dropWhile_cons_of_neg hneg, List.flatMap_cons, hmember n hn]
        exact ⟨rfl, rfl⟩
    | false =>
      have hneg : ¬ continuesRun isMember n = true := by rw [continuesRun_eq_false n hn]; decide
      rw [List.takeWhile_cons_of_neg hneg, List.dropWhile_cons_of_neg hneg, List.flatMap_cons]
      cases hf : f n with
      | nil => exact absurd hf (hother n hn)
      | cons m ms =>
        have hm : isMember m = false := hkept n hn m (by rw [hf]; exact List.mem_cons_self ..)
        have hneg : ¬ continuesRun isMember m = true := by rw [continuesRun_eq_false m hm]; decide
        rw [List.cons_append, List.takeWhile_cons_of_neg hneg, List.dropWhile_cons_of_neg hneg]
        exact ⟨rfl, rfl⟩

/-- Whether statements that are no members are replaced by others before or after the runs are
sorted makes no difference. -/
theorem sortRuns_flatMap (hform : SortsByForm isMember key) (hmember : ∀ n, isMember n → f n = [n])
    (hother : ∀ n, isMember n = false → f n ≠ [])
    (hkept : ∀ n, isMember n = false → ∀ m ∈ f n, isMember m = false) (ns : List Node) :
    sortRuns isMember key (ns.flatMap f) = (sortRuns isMember key ns).flatMap f := by
  fun_induction sortRuns isMember key ns with
  | case1 => exact sortRuns.eq_1 ..
  | case2 n ns hn ih =>
    obtain ⟨htake, hdrop⟩ := takeWhile_flatMap hmember hother hkept ns
    have hrun : (sortRun key (n :: ns.takeWhile (continuesRun isMember))).flatMap f =
        sortRun key (n :: ns.takeWhile (continuesRun isMember)) := by
      have hmembers (m) (hm : m ∈ sortRun key (n :: ns.takeWhile (continuesRun isMember))) : isMember m :=
        isMember_of_mem_sortRun hform (fun _ => isMember_of_mem_run hn) hm
      rw [List.flatMap_congr fun m hm => hmember m (hmembers m hm), List.flatMap_singleton']
    rw [List.flatMap_cons, hmember n hn, List.singleton_append, sortRuns_cons_of_member hn, htake, hdrop, ih,
      List.flatMap_append, hrun]
  | case3 n ns hn ih =>
    rw [Bool.not_eq_true] at hn
    rw [List.flatMap_cons, sortRuns_append_of_not (hkept n hn), ih, List.flatMap_cons]

end Replacing

/-- Runs of functions and declarations of variables are out of each other's way. -/
theorem sortRuns_flatMap_splitDeclaration (ns : List Node) :
    sortRuns isFunctionDeclaration functionKey (ns.flatMap splitDeclaration) =
      (sortRuns isFunctionDeclaration functionKey ns).flatMap splitDeclaration := by
  refine sortRuns_flatMap sortsByForm_function ?_ (fun n _ => splitDeclaration_ne_nil n) ?_ ns
  · intro n hn
    refine splitDeclaration_eq_singleton ?_
    by_contra hvar
    rw [isFunctionDeclaration_eq_false (Bool.not_eq_false _ ▸ hvar)] at hn
    cases hn
  · intro n hn m hm
    cases hvar : n.form.isVariableDeclaration with
    | false =>
      rw [splitDeclaration_eq_singleton hvar, List.mem_singleton] at hm
      rwa [hm]
    | true => exact isFunctionDeclaration_eq_false (by rw [isVariableDeclaration_of_mem hm, hvar])

/-! ## Sorting twice -/

/-- A list whose first node belongs to no run before it still starts with such a node. -/
theorem takeWhile_sortRuns {ns : List Node} (h : ns.takeWhile (continuesRun isMember) = []) :
    (sortRuns isMember key ns).takeWhile (continuesRun isMember) = [] := by
  cases ns with
  | nil => rw [sortRuns, List.takeWhile_nil]
  | cons n ns =>
    have hn : ¬ continuesRun isMember n = true := fun hn => by
      rw [List.takeWhile_cons_of_pos hn] at h
      cases h
    cases hmember : isMember n with
    | false => rw [sortRuns_cons_of_not hmember, List.takeWhile_cons_of_neg hn]
    | true =>
      have hcomments : n.comments ≠ [] := fun hnil => hn (continuesRun_eq_true.2 ⟨hmember, hnil⟩)
      obtain ⟨first, rest, hrun, hfirst, -⟩ :=
        exists_sortRun_eq_cons key n (ns.takeWhile (continuesRun isMember))
      have hnot : ¬ continuesRun isMember first = true := by
        intro hcont
        rw [(continuesRun_eq_true.1 hcont).2, List.flatMap_cons] at hfirst
        exact hcomments (List.append_eq_nil_iff.1 hfirst.symm.eq_nil).1
      rw [sortRuns_cons_of_member hmember, hrun, List.cons_append, List.takeWhile_cons_of_neg hnot]

theorem sortRuns_append_of_run {first : Node} {rest ns : List Node} (hfirst : isMember first)
    (hrest : ∀ m ∈ rest, continuesRun isMember m) (hns : ns.takeWhile (continuesRun isMember) = []) :
    sortRuns isMember key (first :: rest ++ ns) = sortRun key (first :: rest) ++ sortRuns isMember key ns := by
  have hdrop : ns.dropWhile (continuesRun isMember) = ns := by
    conv_rhs => rw [← List.takeWhile_append_dropWhile (p := continuesRun isMember) (l := ns), hns, List.nil_append]
  rw [List.cons_append, sortRuns_cons_of_member hfirst, List.takeWhile_append_of_pos hrest,
    List.dropWhile_append_of_pos hrest, hns, hdrop, List.append_nil]

/-- Runs that are sorted are not sorted again. -/
theorem sortRuns_idem (hform : SortsByForm isMember key) (ns : List Node)
    (h : ∀ n ∈ ns, isMember n → (key n).isPlaced) :
    sortRuns isMember key (sortRuns isMember key ns) = sortRuns isMember key ns := by
  fun_induction sortRuns isMember key ns with
  | case1 => rw [sortRuns]
  | case2 n ns hn ih =>
    have hplaced : ∀ m ∈ n :: ns.takeWhile (continuesRun isMember), (key m).isPlaced := by
      intro m hm
      refine h m ?_ (isMember_of_mem_run hn hm)
      exact List.cons_subset_cons n (List.takeWhile_sublist _).subset hm
    have hstart : (sortRuns isMember key (ns.dropWhile (continuesRun isMember))).takeWhile
        (continuesRun isMember) = [] :=
      takeWhile_sortRuns (takeWhile_dropWhile _ ns)
    obtain ⟨first, rest, hrun, -, hrest⟩ :=
      exists_sortRun_eq_cons key n (ns.takeWhile (continuesRun isMember))
    -- the comments of the run are all before its first member, so it is cut where it was cut before
    have hcons : ∀ m ∈ first :: rest, isMember m := fun m hm =>
      isMember_of_mem_sortRun hform (fun _ => isMember_of_mem_run hn) (by rw [hrun]; exact hm)
    rw [hrun, sortRuns_append_of_run (hcons first (List.mem_cons_self ..))
      (fun m hm => continuesRun_eq_true.2 ⟨hcons m (List.mem_cons_of_mem _ hm), hrest m hm⟩) hstart,
      ← hrun, sortRun_idem hform hplaced, ih]
    intro m hm hmember
    exact h m (List.mem_cons_of_mem _ ((List.dropWhile_sublist _).subset hm)) hmember
  | case3 n ns hn ih =>
    rw [sortRuns_cons_of_not (Bool.not_eq_true _ ▸ hn), ih fun m hm => h m (List.mem_cons_of_mem _ hm)]

/-! ## Changed members -/

/-- A change of nodes that changes the comments before a node by `g`, whichever they are. -/
structure ChangesComments (F : Node → Node) (g : Comment → Comment) : Prop where
  comments : ∀ n, (F n).comments = n.comments.map g
  withComments : ∀ n comments, F (n.withComments comments) = (F n).withComments (comments.map g)

section Changed

variable {F : Node → Node} {g : Comment → Comment}

theorem hoistComments_map (h : ChangesComments F g) (ns : List Node) :
    hoistComments (ns.map F) = (hoistComments ns).map F := by
  cases ns with
  | nil => rfl
  | cons n ns =>
    have hcomments : (F n :: ns.map F).flatMap Node.comments = ((n :: ns).flatMap Node.comments).map g := by
      rw [← List.map_cons (f := F), List.flatMap_map, List.map_flatMap]
      exact List.flatMap_congr fun m _ => h.comments m
    rw [List.map_cons, hoistComments, hoistComments, hcomments, List.map_cons, h.withComments, List.map_map,
      List.map_map]
    congr 1
    exact List.map_congr_left fun m _ => (h.withComments m []).symm

theorem sortRun_map (h : ChangesComments F g) (hkey : ∀ n, key (F n) = key n) (ns : List Node) :
    sortRun key (ns.map F) = (sortRun key ns).map F := by
  rw [sortRun, SortKey.sortBy_map hkey, hoistComments_map h]
  rfl

/-- Sorting does the same to changed members. -/
theorem sortRuns_map (h : ChangesComments F g) (hmember : ∀ n, isMember (F n) = isMember n)
    (hkey : ∀ n, key (F n) = key n) (ns : List Node) :
    sortRuns isMember key (ns.map F) = (sortRuns isMember key ns).map F := by
  have hcont : continuesRun isMember ∘ F = continuesRun isMember := by
    funext n
    rw [Function.comp, continuesRun, continuesRun, hmember, h.comments, List.isEmpty_map]
  fun_induction sortRuns isMember key ns with
  | case1 => rw [List.map_nil, sortRuns]
  | case2 n ns hn ih =>
    rw [List.map_cons, sortRuns_cons_of_member (by rw [hmember]; exact hn), List.takeWhile_map, List.dropWhile_map,
      hcont, ih, ← List.map_cons, sortRun_map h hkey, List.map_append]
  | case3 n ns hn ih =>
    rw [List.map_cons, sortRuns_cons_of_not (by rw [hmember]; exact Bool.not_eq_true _ ▸ hn), ih, List.map_cons]

end Changed

end Node

namespace Restyling

open Node

theorem changesComments (r : Restyling) : ChangesComments r.run r.comment where
  comments := r.run_comments
  withComments n comments := by
    obtain ⟨info, form⟩ := n
    rw [Node.withComments, run_mk, run_mk]
    rfl

theorem sortRuns_run (r : Restyling) {isMember : Node → Bool} {key : Node → SortKey}
    (hmember : ∀ n, isMember (r.run n) = isMember n) (hkey : ∀ n, key (r.run n) = key n) (ns : List Node) :
    sortRuns isMember key (ns.map r.run) = (sortRuns isMember key ns).map r.run :=
  sortRuns_map r.changesComments hmember hkey ns

end Restyling

end ScriptTidy
