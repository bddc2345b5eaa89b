/-
Comparing keys. A key is a rank with a number or a text behind it. Keys of the same rank are alike, so
that a number is never compared with a text. The keys that nodes are given are in a total preorder as
long as no literal is a NaN: numbers are compared by their exact values, integers with doubles too, a
missing key comes last, and the constructor of a class before its other methods.
-/
import ScriptTidy.Proofs.Number.Rounding
import ScriptTidy.Proofs.Order.Sorting
import ScriptTidy.Proofs.Style.Again

namespace ScriptTidy

open Text (CodePoint)

/-! ## Numbers -/

namespace Number

variable {m n : Number}

/-- The value of a number, with the infinities at both ends. -/
def extended : Number → WithBot (WithTop ℚ)
  | integer n => ((n : ℚ) : WithTop ℚ)
  | double x =>
    if x.isInfinite then if x.negative then ⊥ else ⊤
    else ((if x.negative then -x.value else x.value : ℚ) : WithTop ℚ)

theorem extended_of_place? {p : Place} (h : n.place? = some p) : n.extended = p.extended := by
  cases n with
  | integer n => cases h; rfl
  | double x =>
    simp only [place?] at h
    simp only [extended]
    split at h
    case isTrue => cases h
    case isFalse =>
      split at h
      case isTrue hinfinite =>
        cases h
        rw [if_pos hinfinite]
        split <;> rfl
      case isFalse hinfinite =>
        cases h
        rw [if_neg hinfinite, ← Double.toRat_eq]
        rfl

/-- Numbers are compared by their values. -/
theorem precedes_iff (hm : m.place?.isSome) (hn : n.place?.isSome) : m.precedes n ↔ m.extended < n.extended := by
  obtain ⟨p, hp⟩ := Option.isSome_iff_exists.1 hm
  obtain ⟨q, hq⟩ := Option.isSome_iff_exists.1 hn
  rw [extended_of_place? hp, extended_of_place? hq, precedes, hp, hq]
  exact Place.below_iff p q

end Number

/-! ## Keys -/

namespace SortKey

/-- What stands behind the rank of a key. -/
inductive Part where
  | number (n : Number)
  | text (value : List CodePoint)

/-- The first part is smaller than the second. A number and a text cannot be compared. -/
def Part.precedes? : Part → Part → Option Bool
  | number m, number n => some (m.precedes n)
  | text u, text v => some (CodePoint.precedes u v)
  | _, _ => none

/-- The part of a key. -/
def part : SortKey → Part
  | number n => .number n
  | text value => .text value
  | leading | missing => .text []

/-- The first key is smaller than the second, as pairs are compared: by their parts if the ranks are the same. -/
def precedes? (a b : SortKey) : Option Bool :=
  if a.rank = b.rank then a.part.precedes? b.part else some (a.rank < b.rank)

/-- Keys can be compared. -/
theorem precedes?_eq (a b : SortKey) : a.precedes? b = some (a.precedes b) := by
  cases a <;> cases b <;> simp [precedes?, precedes, rank, part, Part.precedes?, CodePoint.precedes]

/-- Of two keys at most one is smaller than the other, also if one is a NaN. -/
theorem precedes_asymm {a b : SortKey} (h : a.precedes b) : b.precedes a = false := by
  cases a <;> cases b <;> try simp_all [precedes, rank]
  case number.number m n =>
    unfold Number.precedes at h ⊢
    cases hm : m.place? with
    | none => rw [hm] at h; cases h
    | some p =>
      cases hn : n.place? with
      | none => rfl
      | some q =>
        rw [hm, hn] at h
        rw [← Bool.not_eq_true, Place.below_iff]
        exact ((Place.below_iff p q).1 h).not_gt
  case text.text u v =>
    rw [← Bool.not_eq_true, CodePoint.precedes_iff]
    exact ((CodePoint.precedes_iff u v).1 h).not_gt

theorem le_or_le (a b : SortKey) : a.le b ∨ b.le a := by
  unfold le
  cases h : b.precedes a with
  | false => exact .inl rfl
  | true => exact .inr (by rw [precedes_asymm h]; rfl)

theorem le_self (a : SortKey) : a.le a := (le_or_le a a).elim id id

theorem le_of_le_of_le {a b c : SortKey} (ha : a.isPlaced) (hb : b.isPlaced) (hc : c.isPlaced) (hab : a.le b)
    (hbc : b.le c) : a.le c := by
  rw [le_iff ha hb] at hab
  rw [le_iff hb hc] at hbc
  rw [le_iff ha hc]
  exact hab.trans hbc

/-- The strict comparison goes with the other. -/
theorem precedes_iff_le {a b : SortKey} : a.precedes b ↔ a.le b ∧ ¬ b.le a := by
  have hle : ¬ b.le a ↔ a.precedes b := by simp [le]
  rw [hle]
  exact ⟨fun h => ⟨by rw [le, precedes_asymm h]; rfl, h⟩, fun h => h.2⟩

theorem precedes_missing {a : SortKey} (h : a ≠ missing) : a.precedes missing := by
  cases a with
  | missing => exact absurd rfl h
  | _ => rfl

theorem leading_precedes {a : SortKey} (h : a ≠ leading) : leading.precedes a := by
  cases a with
  | leading => exact absurd rfl h
  | _ => rfl

/-- The keys of nodes. No number that a key is made from is a NaN. -/
inductive IsGiven : SortKey → Prop
  | name {n : Option Node} : (∀ m ∈ n, m.isNaN = false) → IsGiven (Node.sortKey? n)
  | case {n : Node} : (∀ m ∈ n.children, m.isNaN = false) → IsGiven n.caseKey
  | property {n : Node} {k : SortKey} : n.propertyKey = .ok k → (∀ m ∈ n.children, m.isNaN = false) → IsGiven k
  | method {n : Node} {k : SortKey} : n.methodKey? = some k → (∀ m ∈ n.children, m.isNaN = false) → IsGiven k

theorem IsGiven.isPlaced {k : SortKey} (h : k.IsGiven) : k.isPlaced := by
  cases h with
  | @name n h =>
    cases n with
    | none => rfl
    | some n => exact Node.isPlaced_sortKey (h n rfl)
  | case h => exact (Node.hasPlacedKeys h).case
  | property hkey h => exact Node.isPlaced_of_propertyKey h hkey
  | @method n k hkey h =>
    have hmethod := (Node.hasPlacedKeys h).method
    rwa [Node.methodKey, hkey, Option.getD_some] at hmethod

end SortKey

/-- The node is the constructor of a class. -/
def Node.IsConstructor (n : Node) : Prop :=
  ∃ key value kind, n.form = .methodDefinition key value kind false false ∧
    (key.form = .identifier "constructor" ∨ ∃ raw, key.form = .literal (.string (CodePoint.ofString "constructor")) raw)

theorem Node.IsConstructor.methodKey?_eq {n : Node} (h : n.IsConstructor) : n.methodKey? = some .leading := by
  obtain ⟨key, value, kind, hform, hname⟩ := h
  have hkey : key.sortKey = .ofString "constructor" := by
    rcases hname with hname | ⟨raw, hname⟩ <;> rw [sortKey, hname]
    rfl
  simp [methodKey?, hform, hkey]

namespace SortKey

/-- The keys of nodes can be compared, and this is a total preorder. Numbers are compared by their values.
A missing key comes after all others, and the key of a constructor before the keys of all other methods. -/
theorem keys_ordered {a b c : SortKey} (ha : a.IsGiven) (hb : b.IsGiven) (hc : c.IsGiven) :
    a.precedes? b = some (a.precedes b) ∧ (a.precedes b ↔ a.le b ∧ ¬ b.le a) ∧
    a.le a ∧ (a.le b ∨ b.le a) ∧ (a.le b → b.le c → a.le c) ∧
    (∀ m n, a = number m → b = number n → (a.precedes b ↔ m.extended < n.extended)) ∧
    (a ≠ Node.sortKey? none → a.precedes (Node.sortKey? none)) ∧
    ∀ n m : Node, n.IsConstructor → m.methodKey? = some a → a ≠ n.methodKey → n.methodKey.precedes a := by
  refine ⟨a.precedes?_eq b, precedes_iff_le, a.le_self, le_or_le a b,
    le_of_le_of_le ha.isPlaced hb.isPlaced hc.isPlaced, ?numbers, precedes_missing, ?constructor⟩
  case numbers =>
    rintro m n rfl rfl
    exact Number.precedes_iff ha.isPlaced hb.isPlaced
  case constructor =>
    intro n m hn _
    rw [Node.methodKey, hn.methodKey?_eq]
    exact leading_precedes

/-- The double of 2^53. -/
def wideDouble : Double := ⟨0x4340000000000000⟩

/-- A switch case that is taken at the integer above it. -/
def wideCase : Node :=
  let test := Node.plain default (.literal (.number (.integer (2 ^ 53 + 1))) "")
  .plain default (.switchCase (some test) [])

/-- A property that is named by the double. -/
def wideProperty : Node :=
  let key := Node.plain default (.literal (.number (.double wideDouble)) "")
  .plain default (.property key key "init" false false false)

theorem keys_ordered_wide : (number (.double wideDouble)).IsGiven ∧ (number (.integer (2 ^ 53 + 1))).IsGiven ∧
    (number (.double wideDouble)).precedes (number (.integer (2 ^ 53 + 1))) := by
  have hproperty : (number (.double wideDouble)).IsGiven := .property (n := wideProperty) rfl (by decide)
  have hcase : (number (.integer (2 ^ 53 + 1))).IsGiven := .case (n := wideCase) (by decide)
  have hfinite : wideDouble.isInfinite = false := by decide
  have hvalue : wideDouble.value = 2 ^ 53 := by
    rw [Double.value, show wideDouble.significand = 2 ^ 52 by decide, show wideDouble.scale = 1 by decide]
    norm_num
  have hdouble : (Number.double wideDouble).extended = (((2 ^ 53 : ℚ) : WithTop ℚ) : WithBot (WithTop ℚ)) := by
    rw [Number.extended, if_neg (by rw [hfinite]; decide), if_neg (by decide), hvalue]
  refine ⟨hproperty, hcase, ((keys_ordered hproperty hcase hcase).2.2.2.2.2.1 _ _ rfl rfl).2 ?_⟩
  rw [hdouble, Number.extended]
  exact WithBot.coe_lt_coe.2 (WithTop.coe_lt_coe.2 (by norm_num))

end SortKey

end ScriptTidy
