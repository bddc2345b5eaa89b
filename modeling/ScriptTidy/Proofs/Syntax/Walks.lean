/-
The walks over a tree and the addresses of its nodes. Each walk is a recursion over the children, one
with the parent in front of them and one with the parent behind. Listed by recursion, the addresses
are in order, address by address, and they are those at which there is a node; parents first, the walk
visits the nodes at these addresses one after another, and children first it visits the same nodes.
-/
import ScriptTidy.Proofs.Syntax.Addresses

namespace ScriptTidy

namespace Node

/-! ## Children first -/

theorem visitUp_append (a b : List (Node × Bool)) : visitUp (a ++ b) = visitUp a ++ visitUp b := by
  fun_induction visitUp a with
  | case1 => rfl
  | case2 n stack ih => rw [List.cons_append, visitUp, ih, List.cons_append]
  | case3 n stack ih => rw [List.cons_append, visitUp, ← List.cons_append, ← List.append_assoc, ih]

theorem visitUp_map (ns : List Node) : visitUp (ns.map fun n => (n, false)) = ns.flatMap postorder := by
  induction ns with
  | nil => rw [List.map_nil, visitUp]; rfl
  | cons n ns ih => rw [List.map_cons, ← List.singleton_append, visitUp_append, ih]; rfl

/-- The children of a node are listed one after another, and the node after them. -/
theorem postorder_eq (n : Node) : n.postorder = n.children.flatMap postorder ++ [n] := by
  rw [postorder, visitUp, visitUp_append, visitUp_map, visitUp, visitUp]

/-- Both walks visit the same nodes, each as often as the other. -/
theorem postorder_perm (n : Node) : n.postorder.Perm n.preorder := by
  induction n using byChildren with
  | node n ih =>
    rw [postorder_eq, preorder_eq]
    exact List.perm_append_singleton n _ |>.trans ((List.Perm.flatMap_left _ ih).cons n)

/-! ## Addresses in order -/

/-- The addresses of the nodes of a tree, the address of every node before those below it. -/
def addresses : Node → List (List Nat) :=
  para fun _ form => [] :: form.children.zipIdx.flatMap fun c => c.1.2.map (c.2 :: ·)

theorem addresses_eq (n : Node) :
    n.addresses = [] :: n.children.zipIdx.flatMap fun c => c.1.addresses.map (c.2 :: ·) := by
  obtain ⟨info, form⟩ := n
  rw [addresses, para_mk, Form.children_map, List.zipIdx_map, List.flatMap_map]
  rfl

/-- An address is listed if there is a node at it. -/
theorem mem_addresses {n : Node} {path : List Nat} : path ∈ n.addresses ↔ (n.at? path).isSome := by
  induction path generalizing n with
  | nil =>
    rw [addresses_eq]
    simp [at?]
  | cons i path ih =>
    rw [addresses_eq, Option.isSome_iff_exists]
    simp only [List.mem_cons, reduceCtorEq, false_or, List.mem_flatMap, List.mem_map, List.cons.injEq, at?_cons]
    constructor
    · rintro ⟨⟨k, j⟩, hk, path', hpath, rfl, rfl⟩
      obtain ⟨m, hm⟩ := Option.isSome_iff_exists.1 (ih.1 hpath)
      exact ⟨m, k, List.mem_zipIdx_iff_getElem?.1 hk, hm⟩
    · rintro ⟨m, k, hk, hm⟩
      exact ⟨(k, i), List.mem_zipIdx_iff_getElem?.2 hk, path, ih.2 (Option.isSome_of_eq_some hm), rfl, rfl⟩

/-- The addresses are listed in order, so that none is listed twice. -/
theorem pairwise_addresses (n : Node) : n.addresses.Pairwise (· < ·) := by
  induction n using byChildren with
  | node n ih =>
    rw [addresses_eq]
    refine List.pairwise_cons.2 ⟨?below, List.pairwise_flatMap.2 ⟨?same, ?apart⟩⟩
    case below =>
      intro path hpath
      obtain ⟨c, -, hpath⟩ := List.mem_flatMap.1 hpath
      obtain ⟨path, -, rfl⟩ := List.mem_map.1 hpath
      exact List.nil_lt_cons ..
    case same =>
      intro c hc
      have hmem : c.1 ∈ n.children := List.fst_mem_of_mem_zipIdx hc
      exact List.pairwise_map.2 ((ih c.1 hmem).imp fun h => List.cons_lt_cons_self.2 h)
    case apart =>
      -- addresses below different children differ in their first index
      have hindex : n.children.zipIdx.Pairwise fun c d => c.2 < d.2 := by
        rw [← List.pairwise_map (f := Prod.snd), List.zipIdx_map_snd]
        exact List.pairwise_lt_range'
      refine hindex.imp fun hlt path hpath path' hpath' => ?_
      obtain ⟨path, -, rfl⟩ := List.mem_map.1 hpath
      obtain ⟨path', -, rfl⟩ := List.mem_map.1 hpath'
      exact List.Lex.rel hlt

/-- Parents first, the walk visits the node at every address, one address after another. -/
theorem map_at?_addresses (n : Node) : n.addresses.map n.at? = n.preorder.map some := by
  induction n using byChildren with
  | node n ih =>
    rw [addresses_eq, preorder_eq, List.map_cons, List.map_cons, List.map_flatMap, List.map_flatMap]
    congr 1
    conv_rhs => rw [← List.zipIdx_map_fst 0 n.children, List.flatMap_map]
    refine List.flatMap_congr fun c hc => ?_
    have hchild : n.children[c.2]? = some c.1 := List.mem_zipIdx_iff_getElem?.1 hc
    rw [List.map_map, ← ih c.1 (List.mem_of_getElem? hchild)]
    refine List.map_congr_left fun path _ => ?_
    rw [Function.comp_apply, at?, hchild, Option.bind_some]

end Node

end ScriptTidy
