/-
The disk after single changes. An entry is put in the place of its names and leaves all others as
they are. Where a path leads depends on the directories alone, and no change makes or removes one, so
that paths lead where they led when a run began. The file and its backup stand at different names.
-/
import Mathlib.Data.List.Basic
import ScriptTidy.Command.Disk
import ScriptTidy.Proofs.Lists

namespace ScriptTidy

namespace Disk

variable {d e : Disk} {path : Path} {names : List String}

/-! ## Changed entries -/

theorem lookup_filter_ne (l : List (List String × Entry)) (names others : List String) :
    (l.filter (·.1 != names)).lookup others = if others = names then none else l.lookup others := by
  induction l with
  | nil => simp
  | cons a l ih =>
    obtain ⟨key, entry⟩ := a
    by_cases hkey : key = names
    · subst hkey
      rw [List.filter_cons_of_neg (by simp), ih]
      split
      · rfl
      · next hne => rw [List.lookup_cons, beq_eq_false_iff_ne.2 hne]
    · rw [List.filter_cons_of_pos (by simpa using hkey), List.lookup_cons, List.lookup_cons, ih]
      by_cases hothers : others = key
      · subst hothers
        simp [hkey]
      · rw [beq_eq_false_iff_ne.2 hothers]

@[simp] theorem find?_nil (d : Disk) : d.find? [] = some .directory := if_pos rfl

theorem find?_erase (hne : names ≠ []) (d : Disk) (others : List String) :
    (d.erase names).find? others = if others = names then none else d.find? others := by
  unfold find?
  by_cases hothers : others = []
  · subst hothers
    simp [hne.symm]
  · rw [if_neg hothers, if_neg hothers, erase, lookup_filter_ne]

theorem find?_set (hne : names ≠ []) (d : Disk) (entry : Entry) (others : List String) :
    (d.set names entry).find? others = if others = names then some entry else d.find? others := by
  unfold find?
  by_cases hothers : others = []
  · subst hothers
    simp [hne.symm]
  · rw [if_neg hothers, if_neg hothers, set, erase, List.lookup_cons, lookup_filter_ne]
    by_cases hnames : others = names
    · simp [hnames]
    · rw [if_neg hnames, if_neg hnames, beq_eq_false_iff_ne.2 hnames]

/-! ## Where paths lead -/

/-- The directories are the same. -/
def SameDirectories (d e : Disk) : Prop := ∀ names, d.find? names = some .directory ↔ e.find? names = some .directory

theorem SameDirectories.refl (d : Disk) : SameDirectories d d := fun _ => .rfl

theorem SameDirectories.symm (h : SameDirectories d e) : SameDirectories e d := fun names => (h names).symm

theorem SameDirectories.trans {f : Disk} (hd : SameDirectories d e) (he : SameDirectories e f) : SameDirectories d f :=
  fun names => (hd names).trans (he names)

/-- A step is made in a directory. -/
theorem find?_of_enter {name : String} {place : Place} (h : d.enter (.below names) name = .ok place) :
    d.find? names = some .directory := by
  rcases hfind : d.find? names with _ | ⟨_, _⟩ | _
  · simp [enter, hfind] at h
  · simp [enter, hfind] at h
  · rfl

theorem SameDirectories.enter (h : SameDirectories d e) {place place' : Place} {name : String}
    (hplace : d.enter place name = .ok place') : e.enter place name = .ok place' := by
  cases place with
  | outside => exact hplace
  | below names =>
    have hd := find?_of_enter hplace
    have he := (h names).1 hd
    simp only [Disk.enter, hd, he] at hplace ⊢
    exact hplace

/-- A path leads where it led as long as the directories are the same. -/
theorem SameDirectories.walk (h : SameDirectories d e) {place : Place} (hplace : d.walk path = .ok place) :
    e.walk path = .ok place := by
  unfold Disk.walk at hplace ⊢
  split at hplace
  · cases hplace
  · next hshort =>
    rw [if_neg hshort]
    generalize (if path.root = "" then Place.below [] else Place.outside) = start at hplace ⊢
    generalize path.names = names at hplace ⊢
    induction names generalizing start with
    | nil => exact hplace
    | cons name rest ih =>
      rw [List.foldlM_cons] at hplace ⊢
      obtain ⟨next, hnext, hplace⟩ := exists_of_bind_ok hplace
      rw [h.enter hnext]
      exact ih next hplace

theorem file_eq_ok {bytes : List UInt8} {rights : Nat} :
    d.file path = .ok (names, bytes, rights) ↔
      d.walk path = .ok (.below names) ∧ d.find? names = some (.file bytes rights) := by
  constructor
  · intro h
    obtain ⟨place, hplace, h⟩ := exists_of_bind_ok h
    cases place with
    | outside => cases h
    | below others =>
      rcases hfind : d.find? others with _ | ⟨bytes, rights⟩ | _ <;> simp only [hfind] at h <;> cases h
      exact ⟨hplace, hfind⟩
  · rintro ⟨hplace, hfind⟩
    simp only [file, hplace, bind, Except.bind, hfind]
    rfl

theorem slot_eq_ok :
    d.slot path = .ok names ↔ d.walk path = .ok (.below names) ∧ d.find? names ≠ some .directory := by
  constructor
  · intro h
    obtain ⟨place, hplace, h⟩ := exists_of_bind_ok h
    cases place with
    | outside => cases h
    | below others =>
      by_cases hfind : d.find? others = some .directory
      · simp only [hfind] at h
        cases h
      · simp only [hfind] at h
        cases h
        exact ⟨hplace, hfind⟩
  · rintro ⟨hplace, hfind⟩
    simp only [slot, hplace, bind, Except.bind, hfind]
    rfl

theorem ne_nil_of_find? (h : d.find? names ≠ some .directory) : names ≠ [] := by
  rintro rfl
  exact h (find?_nil d)

/-! ## Backups -/

theorem append_bak_ne (name : String) : name ++ ".bak" ≠ name ∧ name ++ ".bak" ≠ ".." := by
  have hlength : (name ++ ".bak").length = name.length + 4 := String.length_append ..
  constructor
  · intro h
    rw [h] at hlength
    omega
  · intro h
    have hdots : (name ++ ".bak").length = 2 := congrArg String.length h
    omega

/-- A step to a name that is no step upwards. -/
theorem eq_append_of_enter {place : Place} {name : String} (hname : name ≠ "..")
    (h : d.enter place name = .ok (.below names)) : ∃ parent, place = .below parent ∧ names = parent ++ [name] := by
  cases place with
  | outside =>
    simp only [enter, if_neg hname] at h
    split at h <;> cases h
  | below parent =>
    simp only [enter, find?_of_enter h, if_neg hname] at h
    split at h
    · cases h
    · cases h
      exact ⟨parent, rfl, rfl⟩

theorem walk_eq_ok_of_concat {first : List String} {name : String} {place : Place}
    (hnames : path.names = first ++ [name]) (h : d.walk path = .ok place) :
    ∃ middle, first.foldlM d.enter (if path.root = "" then .below [] else .outside) = .ok middle ∧
      d.enter middle name = .ok place := by
  unfold walk at h
  split at h
  · cases h
  · rw [hnames, List.foldlM_append] at h
    obtain ⟨middle, hmiddle, h⟩ := exists_of_bind_ok h
    obtain ⟨last, hlast, h⟩ := exists_of_bind_ok h
    cases h
    exact ⟨middle, hmiddle, hlast⟩

/-- Without names a path leads to a directory. -/
theorem find?_of_walk_nil (hnames : path.names = []) (h : d.walk path = .ok (.below names)) :
    d.find? names = some .directory := by
  unfold walk at h
  rw [hnames] at h
  split at h
  · cases h
  · split at h
    · cases h
      exact find?_nil d
    · cases h

/-- From the same place a name and the name of its backup lead to different entries. -/
theorem enter_bak_ne {place : Place} {name : String} {kept : List String}
    (h : d.enter place name = .ok (.below names)) (hkept : d.enter place (name ++ ".bak") = .ok (.below kept)) :
    kept ≠ names := by
  obtain ⟨parent, rfl, rfl⟩ := eq_append_of_enter (append_bak_ne name).2 hkept
  rintro rfl
  by_cases hdots : name = ".."
  · -- upwards there are fewer names, and the backup has one more
    simp only [enter, find?_of_enter h, if_pos hdots] at h
    split at h
    · cases h
    · have hlength := congrArg List.length (Place.below.inj (Except.ok.inj h))
      simp at hlength
  · obtain ⟨others, hothers, heq⟩ := eq_append_of_enter hdots h
    cases hothers
    exact (append_bak_ne name).1 (List.singleton_inj.1 (List.append_cancel_left heq))

/-- A file and its backup stand at different names. -/
theorem backup_ne {kept : List String} (hpath : d.walk path = .ok (.below names))
    (hfind : d.find? names ≠ some .directory) (hbackup : d.walk path.backup = .ok (.below kept)) : kept ≠ names := by
  rcases List.eq_nil_or_concat path.names with hnil | ⟨first, name, hnames⟩
  · exact absurd (find?_of_walk_nil hnil hpath) hfind
  · rw [List.concat_eq_append] at hnames
    have hkept : path.backup.names = first ++ [name ++ ".bak"] := by
      simp [Path.backup, hnames]
    obtain ⟨middle, hmiddle, hlast⟩ := walk_eq_ok_of_concat hnames hpath
    obtain ⟨middle', hmiddle', hlast'⟩ := walk_eq_ok_of_concat hkept hbackup
    -- both last steps are made from the same place
    cases hmiddle.symm.trans hmiddle'
    exact enter_bak_ne hlast hlast'

/-! ## Changes of files -/

theorem moved_eq_ok {target : Path} {others : List String} {bytes : List UInt8} {rights : Nat}
    (hfile : d.file path = .ok (names, bytes, rights)) (hslot : d.slot target = .ok others) :
    d.moved path target = .ok ((d.erase names).set others (.file bytes rights)) := by
  simp only [moved, hfile, hslot, bind, Except.bind]
  rfl

theorem moved_eq_error {target : Path} {bytes : List UInt8} {rights : Nat} {flaw : FileFlaw}
    (hfile : d.file path = .ok (names, bytes, rights)) (hslot : d.slot target = .error flaw) :
    d.moved path target = .error flaw := by
  simp only [moved, hfile, hslot, bind, Except.bind]

theorem published_eq_ok (hslot : d.slot path = .ok names) (draft : Entry) :
    d.published draft path = .ok { d.set names draft with drafts := d.drafts.erase draft } := by
  simp only [published, hslot, bind, Except.bind]
  rfl

end Disk

end ScriptTidy
