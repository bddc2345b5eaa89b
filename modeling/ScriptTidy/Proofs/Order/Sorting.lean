/-
Sorting by a key. Members of a list are sorted by their keys alone, so that a change that keeps the
keys can be made before or after. Keys have positions in a linear order, and all keys but a NaN are
compared by their positions: a list of members with such keys is in order once it is sorted, and
sorting it again changes nothing. Members of the list that are in order among themselves stand as
they stood. Nothing is said of a list with a NaN, which is neither smaller nor larger than another
number; no script yields one.
-/
import Mathlib.Data.Prod.Lex
import Mathlib.Data.Rat.Cast.Order
import Mathlib.Data.List.Lex
import Mathlib.Order.Fin.Basic
import Mathlib.Order.WithBot
import ScriptTidy.Order.Key

namespace ScriptTidy

open Text (CodePoint)

/-! ## Positions -/

namespace Place

/-- The place as a rational number or an infinity. -/
def extended : Place → WithBot (WithTop ℚ)
  | lowest => ⊥
  | rational q => ((q : WithTop ℚ) : WithBot (WithTop ℚ))
  | highest => ⊤

theorem below_iff (p q : Place) : p.below q ↔ p.extended < q.extended := by
  have htop (q : ℚ) : ((q : WithTop ℚ) : WithBot (WithTop ℚ)) < ⊤ := WithBot.coe_lt_coe.2 (WithTop.coe_lt_top q)
  cases p <;> cases q <;> simp [below, extended, htop]

end Place

theorem Text.CodePoint.precedes_iff : ∀ u v : List CodePoint, CodePoint.precedes u v ↔ u < v
  | [], [] => by simp [precedes]
  | [], _ :: _ => by simp [precedes]
  | _ :: _, [] => by simp [precedes]
  | a :: u, b :: v => by
    unfold precedes
    rw [List.cons_lt_cons_iff]
    split
    case isTrue h => simp [h, precedes_iff u v]
    case isFalse h => simp [h]

namespace SortKey

/-- The key can be compared with others: it is no NaN. -/
def isPlaced : SortKey → Bool
  | number n => n.place?.isSome
  | _ => true

/-- Where a key stands among all keys: by its class, by its number, by its text. -/
def position (k : SortKey) : ℤ ×ₗ WithBot (WithTop ℚ) ×ₗ List CodePoint :=
  match k with
  | number n => toLex (k.rank, toLex ((n.place?.map Place.extended).getD ⊥, []))
  | text u => toLex (k.rank, toLex (⊥, u))
  | _ => toLex (k.rank, toLex (⊥, []))

theorem precedes_iff {a b : SortKey} (ha : a.isPlaced) (hb : b.isPlaced) :
    a.precedes b ↔ a.position < b.position := by
  cases a <;> cases b <;> simp [precedes, position, rank, Prod.Lex.toLex_lt_toLex]
  case number.number m n =>
    obtain ⟨p, hp⟩ := Option.isSome_iff_exists.1 ha
    obtain ⟨q, hq⟩ := Option.isSome_iff_exists.1 hb
    simp [Number.precedes, hp, hq, Place.below_iff]
  case text.text u v => exact CodePoint.precedes_iff u v

theorem le_iff {a b : SortKey} (ha : a.isPlaced) (hb : b.isPlaced) : a.le b ↔ a.position ≤ b.position := by
  rw [le, Bool.not_eq_true', ← Bool.not_eq_true, precedes_iff hb ha, not_lt]

/-! ## Sorted lists -/

variable {α β : Type}

theorem sortBy_perm (key : α → SortKey) (xs : List α) : (sortBy key xs).Perm xs :=
  List.mergeSort_perm ..

/-- A change that keeps the keys can be made before or after sorting. -/
theorem sortBy_map {f : α → β} {key : α → SortKey} {key' : β → SortKey} (h : ∀ a, key' (f a) = key a)
    (xs : List α) : sortBy key' (xs.map f) = (sortBy key xs).map f :=
  (List.map_mergeSort fun a _ b _ => by rw [h a, h b]).symm

/-- The members of a list are in order. -/
def InOrder (key : α → SortKey) (xs : List α) : Prop := xs.Pairwise fun a b => (key a).le (key b)

theorem sortBy_eq_self {key : α → SortKey} {xs : List α} (h : InOrder key xs) : sortBy key xs = xs :=
  List.mergeSort_of_pairwise h

/-- Members are sorted by the positions of their keys. -/
theorem sortBy_eq_position {key : α → SortKey} {xs : List α} (h : ∀ x ∈ xs, (key x).isPlaced) :
    sortBy key xs = xs.mergeSort fun a b => decide ((key a).position ≤ (key b).position) := by
  have hmap := List.map_mergeSort (f := id) (r := fun a b => (key a).le (key b))
    (s := fun a b => decide ((key a).position ≤ (key b).position)) (l := xs) fun a ha b hb => by
      rw [Bool.eq_iff_iff, le_iff (h a ha) (h b hb), decide_eq_true_iff]
      rfl
  rwa [List.map_id, List.map_id] at hmap

theorem position_trans {key : α → SortKey} (a b c : α) (hab : decide ((key a).position ≤ (key b).position))
    (hbc : decide ((key b).position ≤ (key c).position)) : decide ((key a).position ≤ (key c).position) :=
  decide_eq_true (le_trans (of_decide_eq_true hab) (of_decide_eq_true hbc))

theorem position_total {key : α → SortKey} (a b : α) :
    decide ((key a).position ≤ (key b).position) || decide ((key b).position ≤ (key a).position) := by
  rw [Bool.or_eq_true, decide_eq_true_iff, decide_eq_true_iff]
  exact le_total _ _

theorem inOrder_sortBy {key : α → SortKey} {xs : List α} (h : ∀ x ∈ xs, (key x).isPlaced) :
    InOrder key (sortBy key xs) := by
  have hplaced : ∀ x ∈ sortBy key xs, (key x).isPlaced := fun x hx => h x ((sortBy_perm key xs).mem_iff.1 hx)
  have hsorted : (sortBy key xs).Pairwise fun a b => (key a).position ≤ (key b).position := by
    rw [sortBy_eq_position h]
    exact (List.pairwise_mergeSort position_trans position_total xs).imp of_decide_eq_true
  exact hsorted.imp_of_mem fun ha hb hab => (le_iff (hplaced _ ha) (hplaced _ hb)).2 hab

/-! ## Members among themselves -/

/-- Members that are in order among themselves stand as they stood. -/
theorem sublist_sortBy {key : α → SortKey} {xs ys : List α} (h : ∀ x ∈ xs, (key x).isPlaced) (hys : InOrder key ys)
    (hsub : ys.Sublist xs) : ys.Sublist (sortBy key xs) := by
  rw [sortBy_eq_position h]
  refine List.sublist_mergeSort position_trans position_total (hys.imp_of_mem fun ha hb hab => ?_) hsub
  exact decide_eq_true ((le_iff (h _ (hsub.subset ha)) (h _ (hsub.subset hb))).1 hab)

/-- Of two members with different keys, the one with the smaller key stands first. -/
theorem pair_sublist_sortBy {key : α → SortKey} {xs : List α} (h : ∀ x ∈ xs, (key x).isPlaced) {a b : α}
    (ha : a ∈ xs) (hb : b ∈ xs) (hab : (key a).precedes (key b)) : [a, b].Sublist (sortBy key xs) := by
  obtain ⟨front, rest, hsorted⟩ := List.append_of_mem ((sortBy_perm key xs).mem_iff.2 ha)
  have hmem : b ∈ front ++ a :: rest := hsorted ▸ (sortBy_perm key xs).mem_iff.2 hb
  have hinorder : InOrder key (front ++ a :: rest) := hsorted ▸ inOrder_sortBy h
  rw [hsorted]
  rcases List.mem_append.1 hmem with hfront | hrest
  · have hle : (key b).le (key a) := (List.pairwise_append.1 hinorder).2.2 b hfront a (List.mem_cons_self ..)
    rw [le, hab] at hle
    cases hle
  · rcases List.mem_cons.1 hrest with rfl | hrest
    · exact absurd ((precedes_iff (h b hb) (h b hb)).1 hab) (lt_irrefl _)
    · exact ((List.singleton_sublist.2 hrest).cons_cons a).trans (List.sublist_append_right front _)

/-! ## What sorting gives -/

/-- The second list is the first one, sorted. Members that are in order among themselves, such as
those with equal keys, stand as they stood. -/
structure Sorts (key : α → SortKey) (xs ys : List α) : Prop where
  perm : ys.Perm xs
  inOrder : InOrder key ys
  stable : ∀ zs, InOrder key zs → zs.Sublist xs → zs.Sublist ys

theorem sorts_sortBy {key : α → SortKey} {xs : List α} (h : ∀ x ∈ xs, (key x).isPlaced) :
    Sorts key xs (sortBy key xs) where
  perm := sortBy_perm key xs
  inOrder := inOrder_sortBy h
  stable _ := sublist_sortBy h

end SortKey

end ScriptTidy
