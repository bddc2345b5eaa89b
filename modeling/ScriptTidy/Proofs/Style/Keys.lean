/-
The keys that cannot be found. A property of an object literal whose name is a text that spells an
integer has the key of that integer, and there is none if the text has more digits than are read.
This is the only way in which finding a key can fail, and sorting properties by their keys the only
rule that can fail.
-/
import ScriptTidy.Proofs.Number.Canonical
import ScriptTidy.Proofs.Style.Rules

namespace ScriptTidy

open Text (CodePoint)

namespace Node

variable {n root : Node} {fault : NumeralFault}

/-! ## Properties -/

/-- The text that names a member of an object literal, if a text does. -/
def nameText? (n : Node) : Option String :=
  match n.form with
  | .property key _ _ _ _ false =>
    match key.form with
    | .literal (.string value) _ => CodePoint.toString? value
    | _ => none
  | _ => none

/-- The member is named by the digits of an integer, and there are too many of them. -/
def IsOverlong (n : Node) : Prop :=
  ∃ name ∈ n.nameText?, Canonical.isWhole name.toList ∧ maxDecimalDigits < name.toList.length

/-- An object literal of the tree has a member of this kind. -/
def HasOverlongKey (root : Node) : Prop :=
  ∃ n ∈ root.preorder, ∃ properties, n.form = .objectExpression properties ∧ ∃ p ∈ properties, p.IsOverlong

theorem propertyKey_eq_error_iff : n.propertyKey = .error fault ↔ ∃ name ∈ n.nameText?,
    Canonical.isWhole name.toList ∧ maxDecimalDigits < name.toList.length ∧
      fault = .tooManyDigits name.toList.length := by
  have hok {key : SortKey} : (.ok key : Except NumeralFault SortKey) ≠ .error fault := by simp
  unfold propertyKey nameText?
  cases n.form with
  | property key value kind isMethod isShorthand isComputed =>
    cases isComputed with
    | true => exact iff_of_false hok (by simp)
    | false =>
      simp only
      cases key.form with
      | literal literal raw =>
        cases literal with
        | string value =>
          simp only
          cases CodePoint.toString? value with
          | none => exact iff_of_false hok (by simp)
          | some name =>
            refine (bind_eq_error_iff fun number => ?_).trans (canonicalNumber_eq_error_iff.trans (by simp))
            cases number with
            | none => exact ⟨_, rfl⟩
            | some number => exact ⟨_, rfl⟩
        | _ => exact iff_of_false hok (by simp)
      | _ => exact iff_of_false hok (by simp)
  | _ => exact iff_of_false hok (by simp)

theorem isOverlong_iff : n.IsOverlong ↔ ∃ fault, n.propertyKey = .error fault := by
  simp only [IsOverlong, propertyKey_eq_error_iff]
  constructor
  · rintro ⟨name, hname, hwhole, hlength⟩
    exact ⟨_, name, hname, hwhole, hlength, rfl⟩
  · rintro ⟨_, name, hname, hwhole, hlength, -⟩
    exact ⟨name, hname, hwhole, hlength⟩

theorem propertyFault?_eq_none_iff_overlong : n.propertyFault? = none ↔
    ∀ properties, n.form = .objectExpression properties → ∀ p ∈ properties, ¬ p.IsOverlong := by
  unfold propertyFault?
  cases n.form with
  | objectExpression properties =>
    simp only [List.findSome?_eq_none_iff, Form.objectExpression.injEq, forall_eq']
    refine forall₂_congr fun p _ => ?_
    rw [isOverlong_iff]
    cases p.propertyKey <;> simp
  | _ => simp

/-- All keys can be found if no member of an object literal is named by too many digits. -/
theorem hasPropertyKeys_iff_overlong : root.HasPropertyKeys ↔ ¬ root.HasOverlongKey := by
  simp only [HasPropertyKeys, propertyFault?_eq_none_iff_overlong, HasOverlongKey, not_exists, not_and]

theorem propertyFault?_eq_some (h : n.propertyFault? = some fault) :
    ∃ count, maxDecimalDigits < count ∧ fault = .tooManyDigits count := by
  unfold propertyFault? at h
  split at h
  case h_2 => cases h
  case h_1 properties _ =>
    obtain ⟨p, -, hp⟩ := List.exists_of_findSome?_eq_some h
    split at hp
    case h_1 => cases hp
    case h_2 hkey =>
      cases hp
      obtain ⟨name, -, -, hlength, hfault⟩ := propertyKey_eq_error_iff.1 hkey
      exact ⟨_, hlength, hfault⟩

end Node

/-! ## Rules -/

namespace Rule

variable {root : Node} {fault : NumeralFault}

theorem apply_eq_error {rule : Rule} (h : rule.apply root = .error fault) :
    ∃ count, maxDecimalDigits < count ∧ fault = .tooManyDigits count := by
  cases rule
  case sortProperties =>
    rw [apply, Node.sortProperties] at h
    split at h
    case h_1 hfault =>
      cases h
      obtain ⟨n, -, hn⟩ := List.exists_of_findSome?_eq_some hfault
      exact Node.propertyFault?_eq_some hn
    case h_2 => cases h
  all_goals cases h

/-- Rules applied one after another fail only for a key of too many digits. -/
theorem applyAll_eq_error {rules : List Rule} (h : applyAll rules root = .error fault) :
    ∃ count, maxDecimalDigits < count ∧ fault = .tooManyDigits count := by
  induction rules generalizing root with
  | nil => cases h
  | cons rule rules ih =>
    rw [applyAll, List.foldlM_cons] at h
    cases hrule : rule.apply root with
    | error e =>
      rw [hrule] at h
      cases h
      exact apply_eq_error hrule
    | ok t =>
      rw [hrule] at h
      exact ih h

end Rule

end ScriptTidy
