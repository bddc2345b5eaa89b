/-
Members of the same name. Of several members that name the same property the last one counts, so that
sorting must leave their order alone. Sorting the members of object literals does, as long as the
numbers among their keys are plain; a number that is not is read in no text, and stands before all
texts that name the same property. Sorting the methods of classes compares keys as they are written:
methods of the same name stand as they stood among those named by a number and among those named by a
text, and in each run the former before the latter.
-/
import ScriptTidy.Proofs.Number.Spelling
import ScriptTidy.Proofs.Style.Groups
import ScriptTidy.Proofs.Text.Characters

namespace ScriptTidy

open Text (CodePoint)
open Numeral Canonical

/-- A text that does not start with a digit is no standard form. -/
theorem canonicalNumber_of_head {text : List Char} (h : ∀ c ∈ text.head?, ¬ IsAsciiDigit c) :
    canonicalNumber text = .ok none := by
  have hwhole : isWhole (text.takeWhile (· != '.')) = false := by
    rw [← Bool.not_eq_true]
    intro hwhole
    obtain ⟨hne, hdigits⟩ := isAsciiDigit_of_isWhole hwhole
    cases text with
    | nil => exact hne rfl
    | cons c text =>
      refine h c rfl (hdigits c ?_)
      rw [List.takeWhile_cons] at hne ⊢
      split at hne
      case isTrue hc => rw [if_pos hc]; exact List.mem_cons_self ..
      case isFalse => exact absurd rfl hne
  unfold canonicalNumber
  simp only [hwhole, Bool.false_and, Bool.false_eq_true, if_false]
  split <;> rfl

namespace SortKey

/-- The key of a member of an object literal that is named by a text. -/
def ofName (name : List CodePoint) : SortKey :=
  match CodePoint.toString? name with
  | some s =>
    match canonicalNumber s.toList with
    | .ok (some v) => .number v
    | .ok none => .text name
    | .error _ => .missing
  | none => .text name

theorem ofName_eq {name : List CodePoint} {s : List Char} (hname : name = CodePoint.ofChars s) :
    ofName name = match canonicalNumber s with
      | .ok (some v) => .number v
      | .ok none => .text name
      | .error _ => .missing := by
  have hfound : CodePoint.toString? name = some (String.ofList s) := hname ▸ CodePoint.toString?_map_ofChar s
  unfold ofName
  simp only [hfound, String.toList_ofList]

theorem position_number {u v : Number} (h : u.place? = v.place?) : (number u).position = (number v).position := by
  rw [position, position, h]
  rfl

end SortKey

namespace Node

/-! ## Members and their names -/

/-- The key, as one that is not computed, names what it is the key of. -/
def Names (key : Node) (name : List CodePoint) : Prop :=
  match key.form with
  | .identifier id => name = CodePoint.ofString id
  | .literal (.string value) _ => name = value
  | .literal (.number number) raw => ∃ text, number.Spells raw text ∧ name = CodePoint.ofChars text
  | _ => False

/-- The key is a number literal. -/
def isNumeric (key : Node) : Bool :=
  match key.form with
  | .literal (.number _) _ => true
  | _ => false

/-- The number of a key is plain, and its identifier does not start with a digit. -/
def IsPlainKey (key : Node) : Prop :=
  match key.form with
  | .identifier id => ∀ c ∈ id.toList.head?, ¬ IsAsciiDigit c
  | .literal (.number number) _ => number.IsPlain
  | _ => True

/-- A member of an object literal with this key, which is not computed. -/
def IsPropertyOf (p key : Node) : Prop :=
  ∃ value kind isMethod isShorthand, p.form = .property key value kind isMethod isShorthand false

/-- A method of a class, static or not, with this key, which is not computed. -/
def IsMethodOf (isStatic : Bool) (p key : Node) : Prop :=
  ∃ value kind, p.form = .methodDefinition key value kind isStatic false

variable {root p q key : Node} {name : List CodePoint}

theorem Names.spells (h : key.Names name) (hplain : key.IsPlainKey) (hnumeric : key.isNumeric) :
    ∃ u v, key.sortKey = .number v ∧ SortKey.ofName name = .number u ∧ u.place? = v.place? := by
  unfold Names at h
  unfold isNumeric at hnumeric
  split at hnumeric
  case h_2 => cases hnumeric
  case h_1 number raw hform =>
    rw [IsPlainKey, hform] at hplain
    rw [hform] at h
    obtain ⟨text, hspells, hname⟩ := h
    obtain ⟨u, hcanonical, hplace⟩ := hspells.canonicalNumber_of_plain hplain
    refine ⟨u, number, ?_, ?_, hplace⟩
    · rw [sortKey, hform]
    · rw [SortKey.ofName_eq hname, hcanonical]

/-- A number that is not plain spells no standard form. -/
theorem Names.not_number (h : key.Names name) (hnumeric : key.isNumeric) (hplain : ¬ key.IsPlainKey) :
    ∃ v, key.sortKey = .number v ∧ (SortKey.ofName name = .text name ∨ SortKey.ofName name = .missing) := by
  unfold Names at h
  unfold isNumeric at hnumeric
  split at hnumeric
  case h_2 => cases hnumeric
  case h_1 v raw hform =>
    rw [IsPlainKey, hform] at hplain
    rw [hform] at h
    obtain ⟨text, hspells, hname⟩ := h
    refine ⟨v, by rw [Node.sortKey, hform], ?_⟩
    rw [SortKey.ofName_eq hname]
    rcases hcanonical : canonicalNumber text with fault | _ | u
    · exact .inr rfl
    · exact .inl rfl
    · exact absurd (hspells.canonicalNumber_iff.1 ⟨u, hcanonical⟩) hplain

theorem Names.sortKey (h : key.Names name) (hnumeric : key.isNumeric = false) : key.sortKey = .text name := by
  unfold Names at h
  unfold Node.sortKey
  split at h
  case h_1 id hform => rw [hform, h]; rfl
  case h_2 value raw hform => rw [hform, h]
  case h_3 number raw hform => rw [isNumeric, hform] at hnumeric; cases hnumeric
  case h_4 => exact h.elim

/-- A key that is a text. -/
def textKey (s : String) : Node := plain ⟨0, 0, 1⟩ (.literal (.string (CodePoint.ofString s)) s)

/-- A key that is a number. -/
def numberKey (v : Number) (raw : String) : Node := plain ⟨0, 0, 1⟩ (.literal (.number v) raw)

theorem names_one : (numberKey (.integer 1) "1").Names (CodePoint.ofString "1") := by
  refine ⟨['1'], ?_, rfl⟩
  rw [Number.Spells, if_neg (by decide)]
  decide

theorem preorder_of_isEmpty (h : p.children.isEmpty) : p.preorder = [p] := by
  rw [preorder_eq, List.isEmpty_iff.1 h, List.flatMap_nil]

theorem isPlainKey_one : (numberKey (.integer 1) "1").IsPlainKey := ⟨1, rfl, by norm_num, by norm_num⟩

/-! ## Members of object literals -/

theorem IsPropertyOf.key_of_string {raw : String} (hp : p.IsPropertyOf key)
    (h : key.form = .literal (.string name) raw) : p.propertyKeyOrMissing = .ofName name := by
  obtain ⟨value, kind, isMethod, isShorthand, hform⟩ := hp
  have hkey : key.sortKey = .text name := by rw [sortKey, h]
  simp only [propertyKeyOrMissing, propertyKey, hform, h, hkey, SortKey.ofName]
  cases CodePoint.toString? name with
  | none => rfl
  | some s =>
    simp only
    rcases canonicalNumber s.toList with fault | _ | v <;> rfl

theorem IsPropertyOf.key_eq (hp : p.IsPropertyOf key) (h : ∀ value raw, key.form ≠ .literal (.string value) raw) :
    p.propertyKeyOrMissing = key.sortKey := by
  obtain ⟨value, kind, isMethod, isShorthand, hform⟩ := hp
  have hkey : p.propertyKey = .ok key.sortKey := by
    unfold propertyKey
    rw [hform]
    simp only
  rw [propertyKeyOrMissing, hkey]
  rfl

/-- Members that name the same property have keys at the same position. -/
theorem IsPropertyOf.position (hp : p.IsPropertyOf key) (h : key.Names name) (hplain : key.IsPlainKey) :
    p.propertyKeyOrMissing.position = (SortKey.ofName name).position := by
  cases hkey : key.form with
  | identifier id =>
    rw [IsPlainKey, hkey] at hplain
    rw [Names, hkey] at h
    rw [hp.key_eq (by simp [hkey]), sortKey, hkey, SortKey.ofName_eq h, canonicalNumber_of_head hplain, h]
    rfl
  | literal value raw =>
    cases value with
    | string value =>
      rw [Names, hkey] at h
      rw [hp.key_of_string hkey, h]
    | number v =>
      obtain ⟨u, v, hsort, hname, hplace⟩ := h.spells hplain (by rw [isNumeric, hkey])
      rw [hp.key_eq (by simp [hkey]), hsort, hname, SortKey.position_number hplace]
    | _ => rw [Names, hkey] at h; exact h.elim
  | _ => rw [Names, hkey] at h; exact h.elim

/-- A text that names the same property as a number stands behind the number if that is not plain. -/
theorem IsPropertyOf.precedes {key' : Node} (hp : p.IsPropertyOf key) (hq : q.IsPropertyOf key') (h : key.Names name)
    (h' : key'.Names name) (hnumeric : key.isNumeric = false) (hnumeric' : key'.isNumeric)
    (hplain : ¬ key'.IsPlainKey) :
    q.propertyKeyOrMissing.precedes p.propertyKeyOrMissing := by
  obtain ⟨v, hkey, hname⟩ := h'.not_number hnumeric' hplain
  have hqkey : q.propertyKeyOrMissing = .number v := by
    rw [← hkey]
    refine hq.key_eq fun value raw hstring => ?_
    rw [isNumeric, hstring] at hnumeric'
    cases hnumeric'
  rw [hqkey]
  cases hform : key.form with
  | literal value raw =>
    cases value with
    | string value =>
      rw [Names, hform] at h
      rw [hp.key_of_string hform, ← h]
      rcases hname with hname | hname <;> rw [hname] <;> rfl
    | number v => rw [isNumeric, hform] at hnumeric; cases hnumeric
    | _ => rw [Names, hform] at h; exact h.elim
  | identifier id =>
    rw [hp.key_eq (by simp [hform]), h.sortKey hnumeric]
    rfl
  | _ => rw [Names, hform] at h; exact h.elim

theorem key_sortObject (p : Node) : (everywhere sortObject p).propertyKeyOrMissing = p.propertyKeyOrMissing := by
  rw [show everywhere sortObject p = Rule.sortProperties.restyling.run p from Rule.everywhere_step .sortProperties p,
    Restyling.propertyKeyOrMissing_run]

/-- Every object literal of a tree stands in the sorted tree with its members sorted. -/
theorem exists_object {root' n : Node} {properties : List Node} (hsorted : root.sortProperties = .ok root')
    (hn : n ∈ root.preorder) (hform : n.form = .objectExpression properties) :
    ∃ m ∈ root'.preorder, m.span = n.span ∧ m.form =
      .objectExpression (SortKey.sortBy propertyKeyOrMissing (properties.map (everywhere sortObject))) := by
  rw [show everywhere sortObject = Rule.sortProperties.restyling.run from
    funext (Rule.everywhere_step .sortProperties)]
  obtain ⟨-, rfl⟩ := Rule.sortProperties_eq_ok_iff.1 hsorted
  obtain ⟨m, hm, hspan, hmform⟩ := exists_run (r := Rule.sortProperties.restyling)
    (fun _ _ => { properties := fun ns => (SortKey.sortBy_perm _ ns).flatMap_right _ }) hn (by rw [hform]; rfl)
  rw [Restyling.run_form, hform] at hmform
  exact ⟨m, hm, hspan, hmform⟩

/-- Sorting the properties of a tree keeps which of several members of the same name comes last: in every object
literal, members whose keys name the same property stand in the order in which they stood, as long as numbers among
the keys are plain. A number that is not stands before every text that names the same property. -/
theorem duplicates_sortProperties {root root' n : Node} {properties : List Node} (hnumbers : root.HasNumbers)
    (hsorted : root.sortProperties = .ok root') (hn : n ∈ root.preorder)
    (hform : n.form = .objectExpression properties) :
    ∃ m ∈ root'.preorder, m.span = n.span ∧ ∃ sorted, m.form = .objectExpression sorted ∧
      sorted.Perm (properties.map (everywhere sortObject)) ∧
      ∀ name : List CodePoint,
        (∀ group : List Node, group.Sublist properties →
          (∀ p ∈ group, ∃ key : Node, p.IsPropertyOf key ∧ key.Names name ∧ key.IsPlainKey) →
            (group.map (everywhere sortObject)).Sublist sorted) ∧
        ∀ p ∈ properties, ∀ q ∈ properties, ∀ key key' : Node, p.IsPropertyOf key → q.IsPropertyOf key' →
          key.Names name → key'.Names name → key.isNumeric = false → key'.isNumeric → ¬ key'.IsPlainKey →
            [everywhere sortObject q, everywhere sortObject p].Sublist sorted := by
  have hplaced : ∀ p ∈ properties.map (everywhere sortObject), p.propertyKeyOrMissing.isPlaced := by
    intro p hp
    obtain ⟨k, hk, rfl⟩ := List.mem_map.1 hp
    rw [key_sortObject]
    exact (hnumbers.hasPlacedKeys hn k (by rw [children, hform]; exact hk)).property
  obtain ⟨m, hm, hspan, hmform⟩ := exists_object hsorted hn hform
  refine ⟨m, hm, hspan, _, hmform, SortKey.sortBy_perm _ _, fun name => ⟨fun group hsub hnames => ?_, ?_⟩⟩
  · refine SortKey.sublist_sortBy hplaced ?_ (hsub.map _)
    refine List.pairwise_of_forall_mem_list fun p hp q hq => ?_
    rw [SortKey.le_iff (hplaced p ((hsub.map _).subset hp)) (hplaced q ((hsub.map _).subset hq))]
    obtain ⟨k, hk, rfl⟩ := List.mem_map.1 hp
    obtain ⟨l, hl, rfl⟩ := List.mem_map.1 hq
    obtain ⟨_, hp', hpname, hpplain⟩ := hnames k hk
    obtain ⟨_, hq', hqname, hqplain⟩ := hnames l hl
    rw [key_sortObject, key_sortObject, hp'.position hpname hpplain, hq'.position hqname hqplain]
  · intro p hp q hq key key' hpk hqk hpname hqname hpn hqn hplain
    refine SortKey.pair_sublist_sortBy hplaced (List.mem_map_of_mem hq) (List.mem_map_of_mem hp) ?_
    rw [key_sortObject, key_sortObject]
    exact hpk.precedes hqk hpname hqname hpn hqn hplain

/-- A member of an object literal with this key. -/
def propertyOf (key : Node) : Node :=
  plain ⟨0, 0, 1⟩ (.property key (plain ⟨0, 0, 1⟩ .thisExpression) "init" false false false)

/-- An object literal with these keys. -/
def objectOf (keys : List Node) : Node := plain ⟨0, 0, 1⟩ (.objectExpression (keys.map propertyOf))

theorem preorder_objectOf {keys : List Node} (h : ∀ key ∈ keys, key.children.isEmpty) :
    (objectOf keys).preorder =
      objectOf keys :: keys.flatMap fun key => [propertyOf key, key, plain ⟨0, 0, 1⟩ .thisExpression] := by
  have hchildren : (objectOf keys).children = keys.map propertyOf := rfl
  rw [preorder_eq, hchildren, List.flatMap_map]
  refine congrArg _ (List.flatMap_congr fun key hkey => ?_)
  rw [preorder_eq, show (propertyOf key).children = [key, plain ⟨0, 0, 1⟩ .thisExpression] from rfl, List.flatMap_cons,
    List.flatMap_singleton, preorder_of_isEmpty (h key hkey), preorder_of_isEmpty rfl]
  rfl

theorem sortBy_pair {key : Node → SortKey} (hplaced : ∀ n ∈ [p, q], (key n).isPlaced) (h : (key q).precedes (key p)) :
    SortKey.sortBy key [p, q] = [q, p] := by
  have hsub := SortKey.pair_sublist_sortBy hplaced (List.mem_cons_of_mem _ (List.mem_singleton_self q))
    (List.mem_cons_self ..) h
  exact (hsub.eq_of_length (SortKey.sortBy_perm key [p, q]).length_eq.symm).symm

/-- A text changes places with the large number that names the same property. -/
theorem sortProperties_swaps_large :
    let p := textKey "1e+21"
    let q := numberKey (.double (.ofDecimal false 1 1 21)) "1e21"
    p.Names (CodePoint.ofString "1e+21") ∧ q.Names (CodePoint.ofString "1e+21") ∧ p ≠ q ∧
      (objectOf [p, q]).sortProperties = .ok (objectOf [q, p]) := by
  intro p q
  refine ⟨rfl, ⟨['1', 'e', '+', '2', '1'], ?_, rfl⟩, (fun h => nomatch congrArg isNumeric h), ?_⟩
  · rw [Number.Spells, if_neg (by decide)]
    decide
  · have hsorted : SortKey.sortBy propertyKeyOrMissing [propertyOf p, propertyOf q] = [propertyOf q, propertyOf p] :=
      sortBy_pair (by decide) (by decide)
    have hkeys : (objectOf [p, q]).HasPropertyKeys := by
      rw [HasPropertyKeys, preorder_objectOf (by decide)]
      decide
    refine Rule.sortProperties_eq_ok_iff.2 ⟨hkeys, ?_⟩
    exact congrArg (fun ns => plain ⟨0, 0, 1⟩ (.objectExpression ns)) hsorted.symm

/-- A text and a number that is not so large stand as they stood. -/
theorem duplicates_sortProperties_one :
    ∃ root', (objectOf [textKey "b", textKey "1", numberKey (.integer 1) "1"]).sortProperties = .ok root' ∧
      ∃ m ∈ root'.preorder, ∃ sorted, m.form = .objectExpression sorted ∧
        ([propertyOf (textKey "1"), propertyOf (numberKey (.integer 1) "1")].map
          (everywhere sortObject)).Sublist sorted := by
  have hobject : (objectOf [textKey "b", textKey "1", numberKey (.integer 1) "1"]).HasPropertyKeys ∧
      (objectOf [textKey "b", textKey "1", numberKey (.integer 1) "1"]).HasNumbers := by
    rw [HasPropertyKeys, HasNumbers, preorder_objectOf (by decide)]
    decide
  have hsorted := Rule.sortProperties_eq_ok_iff.2 ⟨hobject.1, rfl⟩
  obtain ⟨m, hm, -, sorted, hform, -, h⟩ := duplicates_sortProperties hobject.2 hsorted (mem_preorder_self _) rfl
  refine ⟨_, hsorted, m, hm, sorted, hform, (h (CodePoint.ofString "1")).1 _ (List.sublist_cons_self _ _) ?_⟩
  intro p hp
  rcases List.mem_pair.1 hp with rfl | rfl
  · exact ⟨textKey "1", ⟨_, _, _, _, rfl⟩, rfl, trivial⟩
  · exact ⟨numberKey (.integer 1) "1", ⟨_, _, _, _, rfl⟩, names_one, isPlainKey_one⟩

/-! ## Methods of classes -/

/-- The key of a class method that is named by a text. -/
def methodNameKey (isStatic : Bool) (name : List CodePoint) : SortKey :=
  if name = CodePoint.ofString "constructor" ∧ isStatic = false then .leading else .text name

/-- The node is a method whose key is a number literal. -/
def isNumericMethod (p : Node) : Bool :=
  match p.form with
  | .methodDefinition key _ _ _ _ => key.isNumeric
  | _ => false

/-- A method of a class, static or not, with a plain key that names it. -/
def NamesMethod (p : Node) (isStatic : Bool) (name : List CodePoint) : Prop :=
  ∃ key : Node, p.IsMethodOf isStatic key ∧ key.Names name ∧ key.IsPlainKey

variable {isStatic : Bool}

theorem NamesMethod.key_of_number (h : p.NamesMethod isStatic name) (hnumeric : p.isNumericMethod) :
    ∃ u v, p.methodKey = .number v ∧ SortKey.ofName name = .number u ∧ u.place? = v.place? := by
  obtain ⟨key, ⟨value, kind, hform⟩, hname, hplain⟩ := h
  rw [isNumericMethod, hform] at hnumeric
  obtain ⟨u, v, hkey, hspelled, hplace⟩ := hname.spells hplain hnumeric
  refine ⟨u, v, ?_, hspelled, hplace⟩
  simp only [methodKey, methodKey?, hform, hkey]
  rfl

theorem NamesMethod.key_of_text (h : p.NamesMethod isStatic name) (hnumeric : p.isNumericMethod = false) :
    p.methodKey = methodNameKey isStatic name := by
  obtain ⟨key, ⟨value, kind, hform⟩, hname, -⟩ := h
  rw [isNumericMethod, hform] at hnumeric
  simp only [methodKey, methodKey?, hform, hname.sortKey hnumeric, SortKey.ofString, SortKey.text.injEq, methodNameKey,
    Bool.false_eq_true, if_false]
  split <;> rfl

/-- No number is named as the constructor is. -/
theorem methodNameKey_eq_text {u : Number} (h : SortKey.ofName name = .number u) :
    methodNameKey isStatic name = .text name := by
  refine if_neg fun hconstructor => ?_
  rw [hconstructor.1] at h
  have htext : SortKey.ofName (CodePoint.ofString "constructor") = .text (CodePoint.ofString "constructor") := by
    decide
  rw [htext] at h
  cases h

theorem NamesMethod.precedes (hp : p.NamesMethod isStatic name) (hq : q.NamesMethod isStatic name)
    (hnumeric : p.isNumericMethod = false) (hnumeric' : q.isNumericMethod) : q.methodKey.precedes p.methodKey := by
  obtain ⟨u, v, hkey, hname, -⟩ := hq.key_of_number hnumeric'
  rw [hkey, hp.key_of_text hnumeric, methodNameKey_eq_text hname]
  rfl

/-- Numbers stand before texts with the same name, and otherwise methods of one name are in any order. -/
theorem NamesMethod.le (hp : p.NamesMethod isStatic name) (hq : q.NamesMethod isStatic name)
    (hpp : p.methodKey.isPlaced) (hqp : q.methodKey.isPlaced) (hnumeric : q.isNumericMethod → p.isNumericMethod) :
    p.methodKey.le q.methodKey := by
  cases hpn : p.isNumericMethod with
  | true =>
    cases hqn : q.isNumericMethod with
    | true =>
      rw [SortKey.le_iff hpp hqp]
      obtain ⟨u, v, hkey, hname, hplace⟩ := hp.key_of_number hpn
      obtain ⟨u', v', hkey', hname', hplace'⟩ := hq.key_of_number hqn
      cases hname.symm.trans hname'
      rw [hkey, hkey', SortKey.position_number (hplace.symm.trans hplace')]
    | false =>
      obtain ⟨u, v, hkey, hname, hplace⟩ := hp.key_of_number hpn
      rw [hkey, hq.key_of_text hqn, methodNameKey_eq_text hname]
      rfl
  | false =>
    have hqn : q.isNumericMethod = false := by
      rw [← Bool.not_eq_true]
      intro hqn
      rw [hnumeric hqn] at hpn
      cases hpn
    rw [SortKey.le_iff hpp hqp, hp.key_of_text hpn, hq.key_of_text hqn]

theorem key_sortFunctions (p : Node) : p.sortFunctions.methodKey = p.methodKey := by
  rw [show p.sortFunctions = Rule.sortFunctions.restyling.run p from Rule.everywhere_step .sortFunctions p,
    Restyling.methodKey_run]

theorem continuesRun_sortFunctions (p : Node) :
    continuesRun isMethod p.sortFunctions = continuesRun isMethod p := by
  rw [show p.sortFunctions = Rule.sortFunctions.restyling.run p from Rule.everywhere_step .sortFunctions p,
    continuesRun, continuesRun, Restyling.isMethod_run, Restyling.run_comments, List.isEmpty_map]

theorem NamesMethod.isMethod_sortFunctions (h : p.NamesMethod isStatic name) : isMethod p.sortFunctions := by
  obtain ⟨key, ⟨value, kind, hform⟩, -⟩ := h
  rw [show p.sortFunctions = Rule.sortFunctions.restyling.run p from Rule.everywhere_step .sortFunctions p,
    Restyling.isMethod_run, isMethod, hform]

/-- Every class body of a tree stands in the sorted tree with its runs of methods sorted. -/
theorem exists_class {n : Node} {members : List Node} (hn : n ∈ root.preorder) (hform : n.form = .classBody members) :
    ∃ m ∈ root.sortFunctions.preorder, m.span = n.span ∧
      m.form = .classBody (sortRuns isMethod methodKey (members.map sortFunctions)) := by
  rw [show sortFunctions = Rule.sortFunctions.restyling.run from funext (Rule.everywhere_step .sortFunctions)]
  obtain ⟨m, hm, hspan, hmform⟩ := exists_run (r := Rule.sortFunctions.restyling)
    (fun _ _ => {
      statements := flatMap_gather_sortRuns fixed_fixtures.loose.hoistComments _ _ _
      members := flatMap_gather_sortRuns fixed_fixtures.loose.hoistComments _ _ }) hn (by rw [hform]; rfl)
  rw [Restyling.run_form, hform] at hmform
  exact ⟨m, hm, hspan, hmform⟩

/-- Sorting the methods of a tree keeps which of several methods of the same name comes last, in every class body,
unless a text in a run is followed by a number of the same name: these change places. Members of different runs, and
methods of the same name that are no text before a number, stand in the order in which they stood, up to the comments
that the first method of a run takes over. -/
theorem duplicates_sortFunctions {root n : Node} {members : List Node} (hnumbers : root.HasNumbers)
    (hn : n ∈ root.preorder) (hform : n.form = .classBody members) :
    ∃ m ∈ root.sortFunctions.preorder, m.span = n.span ∧ ∃ sorted, m.form = .classBody sorted ∧
      (sorted.map (·.withComments [])).Perm ((members.map sortFunctions).map (·.withComments [])) ∧
      (∀ (front rest : List Node) (p : Node), members = front ++ p :: rest →
        ∀ q ∈ rest.dropWhile (continuesRun isMethod),
          (([p, q].map sortFunctions).map (·.withComments [])).Sublist (sorted.map (·.withComments []))) ∧
      ∀ (isStatic : Bool) (name : List CodePoint),
        (∀ group : List Node, group.Sublist members → (∀ p ∈ group, p.NamesMethod isStatic name) →
          group.Pairwise (fun p q => q.isNumericMethod → p.isNumericMethod) →
            ((group.map sortFunctions).map (·.withComments [])).Sublist (sorted.map (·.withComments []))) ∧
        ∀ (front rest : List Node) (p : Node), members = front ++ p :: rest →
          ∀ q ∈ rest.takeWhile (continuesRun isMethod), p.NamesMethod isStatic name → q.NamesMethod isStatic name →
            p.isNumericMethod = false → q.isNumericMethod →
              (([q, p].map sortFunctions).map (·.withComments [])).Sublist (sorted.map (·.withComments [])) := by
  have hplaced : ∀ p ∈ members.map sortFunctions, p.methodKey.isPlaced := by
    intro p hp
    obtain ⟨k, hk, rfl⟩ := List.mem_map.1 hp
    rw [key_sortFunctions]
    exact (hnumbers.hasPlacedKeys hn k (by rw [children, hform]; exact hk)).method
  obtain ⟨m, hm, hspan, hmform⟩ := exists_class hn hform
  have hcomp : continuesRun isMethod ∘ sortFunctions = continuesRun isMethod := funext continuesRun_sortFunctions
  refine ⟨m, hm, hspan, _, hmform, perm_sortRuns _, ?_, fun isStatic name => ⟨fun group hsub hnames hnumeric => ?_, ?_⟩⟩
  · rintro front rest p rfl q hq
    rw [List.map_append, List.map_cons]
    refine pair_sublist_of_mem_dropWhile ?_
    rw [List.dropWhile_map, hcomp]
    exact List.mem_map_of_mem hq
  · have horder : SortKey.InOrder methodKey (group.map sortFunctions) := by
      rw [SortKey.InOrder, List.pairwise_map]
      refine hnumeric.imp_of_mem fun {p q} hp hq hpq => ?_
      have hpp := hplaced _ (List.mem_map_of_mem (hsub.subset hp))
      have hqp := hplaced _ (List.mem_map_of_mem (hsub.subset hq))
      rw [key_sortFunctions] at hpp hqp ⊢
      rw [key_sortFunctions]
      exact (hnames p hp).le (hnames q hq) hpp hqp hpq
    exact sublist_sortRuns (fun p hp _ => hplaced p hp) horder (hsub.map _)
  · rintro front rest p rfl q hq hpname hqname hpn hqn
    have hrun : q.sortFunctions ∈ (rest.map sortFunctions).takeWhile (continuesRun isMethod) := by
      rw [List.takeWhile_map, hcomp]
      exact List.mem_map_of_mem hq
    rw [List.map_append, List.map_cons] at hplaced ⊢
    refine pair_sublist_sortRuns hpname.isMethod_sortFunctions hrun ?_ _ fun p hp _ => hplaced p hp
    rw [key_sortFunctions, key_sortFunctions]
    exact hpname.precedes hqname hpn hqn

/-- A function that does nothing. -/
def emptyFunction : Node :=
  plain ⟨0, 0, 1⟩ (.functionExpression none [] (plain ⟨0, 0, 1⟩ (.blockStatement [])) false false)

/-- A method with this key. -/
def methodOf (key : Node) : Node := plain ⟨0, 0, 1⟩ (.methodDefinition key emptyFunction "method" false false)

/-- The body of a class whose methods have these keys. -/
def classOf (keys : List Node) : Node := plain ⟨0, 0, 1⟩ (.classBody (keys.map methodOf))

theorem preorder_classOf {keys : List Node} (h : ∀ key ∈ keys, key.children.isEmpty) :
    (classOf keys).preorder =
      classOf keys ::
        keys.flatMap fun key => [methodOf key, key, emptyFunction, plain ⟨0, 0, 1⟩ (.blockStatement [])] := by
  have hchildren : (classOf keys).children = keys.map methodOf := rfl
  have hfunction : emptyFunction.preorder = [emptyFunction, plain ⟨0, 0, 1⟩ (.blockStatement [])] := by
    rw [preorder_eq, show emptyFunction.children = [plain ⟨0, 0, 1⟩ (.blockStatement [])] from rfl,
      List.flatMap_singleton, preorder_of_isEmpty rfl]
  rw [preorder_eq, hchildren, List.flatMap_map]
  refine congrArg _ (List.flatMap_congr fun key hkey => ?_)
  rw [preorder_eq, show (methodOf key).children = [key, emptyFunction] from rfl, List.flatMap_cons,
    List.flatMap_singleton, preorder_of_isEmpty (h key hkey), hfunction]
  rfl

/-- A number in front of a text stays there, with another method in front of both. -/
theorem duplicates_sortFunctions_one :
    ∃ m ∈ (classOf [textKey "b", numberKey (.integer 1) "1", textKey "1"]).sortFunctions.preorder,
      ∃ sorted, m.form = .classBody sorted ∧
        (([methodOf (numberKey (.integer 1) "1"), methodOf (textKey "1")].map sortFunctions).map
          (·.withComments [])).Sublist (sorted.map (·.withComments [])) := by
  have hnumbers : (classOf [textKey "b", numberKey (.integer 1) "1", textKey "1"]).HasNumbers := by
    rw [HasNumbers, preorder_classOf (by decide)]
    decide
  obtain ⟨m, hm, -, sorted, hform, -, -, h⟩ := duplicates_sortFunctions hnumbers (mem_preorder_self _) rfl
  refine ⟨m, hm, sorted, hform, (h false (CodePoint.ofString "1")).1 _ (List.sublist_cons_self _ _) ?_ ?_⟩
  · intro p hp
    rcases List.mem_pair.1 hp with rfl | rfl
    · exact ⟨numberKey (.integer 1) "1", ⟨_, _, rfl⟩, names_one, isPlainKey_one⟩
    · exact ⟨textKey "1", ⟨_, _, rfl⟩, rfl, trivial⟩
  · exact List.pairwise_pair.2 fun _ => rfl

/-- A text changes places with the number that names the same method. -/
theorem sortFunctions_swaps_one :
    let p := textKey "1"
    let q := numberKey (.integer 1) "1"
    p.Names (CodePoint.ofString "1") ∧ q.Names (CodePoint.ofString "1") ∧ p ≠ q ∧
      (classOf [p, q]).sortFunctions = classOf [q, p] := by
  intro p q
  refine ⟨rfl, names_one, (fun h => nomatch congrArg isNumeric h), ?_⟩
  have hsorted : SortKey.sortBy methodKey [methodOf p, methodOf q] = [methodOf q, methodOf p] :=
    sortBy_pair (by decide) (by decide)
  have hruns : sortRuns isMethod methodKey [methodOf p, methodOf q] = [methodOf q, methodOf p] := by
    rw [sortRuns_cons_of_member rfl, sortRun]
    change hoistComments (SortKey.sortBy methodKey [methodOf p, methodOf q]) ++ sortRuns isMethod methodKey [] = _
    rw [hsorted, sortRuns]
    rfl
  have hmethod (key : Node) (h : Rule.sortFunctions.restyling.run key = key) :
      Rule.sortFunctions.restyling.run (methodOf key) = methodOf key := by
    have hnil : Rule.sortFunctions.restyling.statements [] = [] := sortRuns.eq_1 ..
    simp only [methodOf, emptyFunction, Restyling.run_plain, Form.map, Restyling.form, h, hnil, Option.map_none,
      List.map_nil]
  rw [show sortFunctions = Rule.sortFunctions.restyling.run from funext (Rule.everywhere_step .sortFunctions)]
  simp only [classOf, List.map_cons, List.map_nil, Restyling.run_plain, Form.map, Restyling.form, hmethod p rfl,
    hmethod q rfl]
  exact congrArg (fun ns => plain ⟨0, 0, 1⟩ (.classBody ns)) hruns

end Node

end ScriptTidy
