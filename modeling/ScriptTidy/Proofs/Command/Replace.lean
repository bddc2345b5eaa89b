/-
Replacing a file. The new text is drafted, the file becomes its own backup if one is kept, and the
draft takes the place of the file. Only the first two steps can fail, and then the disk is as it was:
a file that has been moved away is always replaced. A journal keeps every state that the disk passes
through, since between the steps there is a draft, and there may be no file at the path; even so
nothing but the path and its backup is ever touched.
-/
import ScriptTidy.Proofs.Command.Disk
import ScriptTidy.Proofs.Syntax.Forms

namespace ScriptTidy

/-! ## Journals -/

/-- A disk with the states that it has been in, the latest first. -/
structure Journal where
  disk : Disk
  past : List Disk

namespace Journal

variable {α : Type}

/-- The journal of a disk of which nothing has been done yet. -/
def start (d : Disk) : Journal := ⟨d, []⟩

/-- Does something to the disk and keeps the state before. -/
def record (act : StateM Disk α) : StateM Journal α := fun j => ((act j.disk).1, ⟨(act j.disk).2, j.disk :: j.past⟩)

end Journal

open Journal in
instance : Files (StateM Journal) where
  Draft := Entry
  read path := record (Files.read path)
  draft path bytes := record (Files.draft (m := StateM Disk) path bytes)
  move source target := record (Files.move source target)
  publish draft path := record (Files.publish (m := StateM Disk) draft path)
  discard draft := record (Files.discard (m := StateM Disk) draft)
  now := record Files.now

namespace Journal

variable {α β : Type}

/-- An action on a journal does what an action does on the disk alone, and every state that the journal has of it
has the property. -/
def Follows (P : Disk → Prop) (act : StateM Journal α) (ref : StateM Disk α) (d : Disk) : Prop :=
  ∀ past, ∃ more, act ⟨d, past⟩ = ((ref d).1, ⟨(ref d).2, more ++ past⟩) ∧ ∀ e ∈ more, P e

variable {P : Disk → Prop} {act : StateM Journal α} {ref : StateM Disk α} {d : Disk}

theorem follows_pure (a : α) : Follows P (pure a) (pure a) d := fun _ => ⟨[], rfl, nofun⟩

theorem follows_record (ref : StateM Disk α) (h : P d) : Follows P (record ref) ref d :=
  fun _ => ⟨[d], rfl, List.forall_mem_singleton.2 h⟩

theorem Follows.bind {next : α → StateM Journal β} {next' : α → StateM Disk β} (h : Follows P act ref d)
    (hnext : Follows P (next (ref d).1) (next' (ref d).1) (ref d).2) : Follows P (act >>= next) (ref >>= next') d := by
  intro past
  obtain ⟨more, hact, hmore⟩ := h past
  obtain ⟨more', hnext, hmore'⟩ := hnext (more ++ past)
  -- the later states come first
  refine ⟨more' ++ more, ?_, List.forall_mem_append.2 ⟨hmore', hmore⟩⟩
  rw [Form.bind_apply, hact, Form.bind_apply, List.append_assoc]
  exact hnext

theorem Follows.imp {Q : Disk → Prop} (h : Follows P act ref d) (himp : ∀ e, P e → Q e) : Follows Q act ref d :=
  fun past => (h past).imp fun _ hmore => ⟨hmore.1, fun e he => himp e (hmore.2 e he)⟩

end Journal

namespace Disk

variable {d e : Disk} {path : Path} {paths : List Path} {keepsBackup : Bool} {names : List String}
  {bytes new : List UInt8} {rights : Nat} {flaw : FileFlaw}

/-! ## What is touched -/

/-- The path leads to the names, or its backup does if one is kept. -/
def Leads (keepsBackup : Bool) (d : Disk) (path : Path) (names : List String) : Prop :=
  d.walk path = .ok (.below names) ∨ keepsBackup ∧ d.walk path.backup = .ok (.below names)

/-- A disk that differs from another one at some paths and their backups only. There may be a draft. -/
structure Near (keepsBackup : Bool) (paths : List Path) (d e : Disk) : Prop where
  directories : SameDirectories d e
  files : ∀ names, e.find? names = d.find? names ∨ ∃ path ∈ paths, Leads keepsBackup d path names
  drafts : e.drafts = d.drafts ∨ ∃ draft, e.drafts = draft :: d.drafts

theorem Near.refl (d : Disk) : Near keepsBackup paths d d := ⟨.refl d, fun _ => .inl rfl, .inl rfl⟩

theorem Near.mono {more : List Path} (h : Near keepsBackup paths d e) (hsub : paths ⊆ more) :
    Near keepsBackup more d e where
  directories := h.directories
  files names := (h.files names).imp_right fun ⟨path, hpath, hleads⟩ => ⟨path, hsub hpath, hleads⟩
  drafts := h.drafts

/-- Paths are looked up on the first disk, although some have been touched before. -/
theorem Near.trans {more : List Path} {f : Disk} (h : Near keepsBackup paths d e) (hdrafts : e.drafts = d.drafts)
    (h' : Near keepsBackup more e f) : Near keepsBackup (paths ++ more) d f where
  directories := h.directories.trans h'.directories
  files names := by
    have hback : ∀ path, Leads keepsBackup e path names → Leads keepsBackup d path names := fun _ =>
      Or.imp h.directories.symm.walk (And.imp_right h.directories.symm.walk)
    rcases h'.files names with heq | ⟨path, hpath, hleads⟩
    · rw [heq]
      exact (h.files names).imp_right fun ⟨path, hpath, hleads⟩ => ⟨path, List.mem_append_left _ hpath, hleads⟩
    · exact .inr ⟨path, List.mem_append_right _ hpath, hback path hleads⟩
  drafts := by
    rw [← hdrafts]
    exact h'.drafts

/-- Entries that differ are files, or are missing, before and after. -/
theorem near_of_find? (hfind : ∀ names, e.find? names = d.find? names ∨
      Leads keepsBackup d path names ∧ d.find? names ≠ some .directory ∧ e.find? names ≠ some .directory)
    (hdrafts : e.drafts = d.drafts ∨ ∃ draft, e.drafts = draft :: d.drafts) : Near keepsBackup [path] d e where
  directories names := by
    rcases hfind names with heq | ⟨-, hd, he⟩
    · rw [heq]
    · exact iff_of_false hd he
  files names := (hfind names).imp_right fun h => ⟨path, List.mem_singleton_self path, h.1⟩
  drafts := hdrafts

/-! ## Single actions -/

theorem draft_of_error (hfile : d.file path = .ok (names, bytes, rights))
    (hwalk : d.walk (path.draft stamp) = .error flaw) : (Files.draft path new : StateM Disk _) d =
      (.error ⟨flaw, path.draft stamp, none⟩, d) := by
  simp only [Files.draft, Form.bind_apply, get, getThe, MonadStateOf.get, StateT.get, pure, hfile, hwalk]
  rfl

theorem draft_of_ok {place : Place} (hfile : d.file path = .ok (names, bytes, rights))
    (hwalk : d.walk (path.draft stamp) = .ok place) : (Files.draft path new : StateM Disk _) d =
      (.ok (.file new rights), { d with drafts := .file new rights :: d.drafts }) := by
  simp only [Files.draft, Form.bind_apply, get, getThe, MonadStateOf.get, StateT.get, pure, hfile, hwalk]
  rfl

theorem move_apply (d : Disk) (source target : Path) : (Files.move source target : StateM Disk _) d =
    match d.moved source target with
    | .ok d' => (.ok (), d')
    | .error flaw => (.error ⟨flaw, source, some target⟩, d) := by
  simp only [Files.move, Form.bind_apply, get, getThe, MonadStateOf.get, StateT.get, pure]
  cases d.moved source target <;> rfl

theorem publish_apply (d : Disk) (draft : Entry) (path : Path) :
    (Files.publish (m := StateM Disk) draft path) d =
      match d.published draft path with
      | .ok d' => (.ok (), d')
      | .error flaw => (.error ⟨flaw, path, none⟩, d) := by
  simp only [Files.publish, Form.bind_apply, get, getThe, MonadStateOf.get, StateT.get, pure]
  cases d.published draft path <;> rfl

/-- Drafts are beside the files. -/
theorem file_with_drafts (d : Disk) (path : Path) (drafts : List Entry) :
    Disk.file { d with drafts := drafts } path = d.file path := rfl

/-! ## Installing a draft -/

section Install

variable (hfile : d.file path = .ok (names, bytes, rights)) {kept : List String} (draft : Entry)
include hfile

theorem find?_file : d.find? names = some (.file bytes rights) := (file_eq_ok.1 hfile).2

theorem names_ne_nil : names ≠ [] := by
  refine ne_nil_of_find? (d := d) ?_
  rw [find?_file hfile]
  nofun

theorem slot_of_file : d.slot path = .ok names := by
  refine slot_eq_ok.2 ⟨(file_eq_ok.1 hfile).1, ?_⟩
  rw [find?_file hfile]
  nofun

theorem install_without_backup : (Files.install (m := StateM Disk) draft path false) d =
    (.ok (), { d.set names draft with drafts := d.drafts.erase draft }) := by
  simp only [Files.install, Bool.false_eq_true, if_false, Form.bind_apply, Form.pure_apply, publish_apply,
    published_eq_ok (slot_of_file hfile)]

theorem install_of_error (hslot : d.slot path.backup = .error flaw) :
    (Files.install (m := StateM Disk) draft path true) d = (.error ⟨flaw, path, some path.backup⟩, d) := by
  simp only [Files.install, if_true, Form.bind_apply, Form.pure_apply, move_apply, moved_eq_error hfile hslot]

/-- What the disk passes through while a draft is installed: it is as before, or the file has become the backup. -/
theorem follows_install {P : Disk → Prop} (hd : P d) (hmoved : keepsBackup → ∀ kept, d.slot path.backup = .ok kept →
    P ((d.erase names).set kept (.file bytes rights))) :
    Journal.Follows P (Files.install (m := StateM Journal) draft path keepsBackup)
      (Files.install (m := StateM Disk) draft path keepsBackup) d := by
  cases keepsBackup with
  | false => exact (Journal.follows_pure (Except.ok ())).bind (Journal.follows_record _ hd)
  | true =>
    refine (Journal.follows_record _ hd).bind ?_
    rw [move_apply]
    rcases hslot : d.slot path.backup with flaw | kept
    · rw [moved_eq_error hfile hslot]
      exact Journal.follows_pure _
    · rw [moved_eq_ok hfile hslot]
      exact Journal.follows_record _ (hmoved rfl kept hslot)

variable (hslot : d.slot path.backup = .ok kept)
include hslot

theorem kept_ne : kept ≠ [] ∧ kept ≠ names := by
  obtain ⟨hwalk, hkept⟩ := slot_eq_ok.1 hslot
  refine ⟨ne_nil_of_find? hkept, backup_ne (file_eq_ok.1 hfile).1 ?_ hwalk⟩
  rw [find?_file hfile]
  nofun

theorem find?_moved (others : List String) :
    ((d.erase names).set kept (.file bytes rights)).find? others =
      if others = kept then some (.file bytes rights) else if others = names then none else d.find? others := by
  rw [find?_set (kept_ne hfile hslot).1, find?_erase (names_ne_nil hfile)]

/-- Between the two moves there is no file at the path. -/
theorem near_moved : Near true [path] d ((d.erase names).set kept (.file bytes rights)) := by
  obtain ⟨hwalk, hkept⟩ := slot_eq_ok.1 hslot
  refine near_of_find? (fun others => ?_) (.inl rfl)
  rw [find?_moved hfile hslot]
  split
  · next heq =>
    subst heq
    exact .inr ⟨.inr ⟨rfl, hwalk⟩, hkept, nofun⟩
  · split
    · next heq =>
      subst heq
      exact .inr ⟨.inl (file_eq_ok.1 hfile).1, by rw [find?_file hfile]; nofun, nofun⟩
    · exact .inl rfl

theorem slot_of_moved : ((d.erase names).set kept (.file bytes rights)).slot path = .ok names := by
  refine slot_eq_ok.2 ⟨(near_moved hfile hslot).directories.walk (file_eq_ok.1 hfile).1, ?_⟩
  rw [find?_moved hfile hslot, if_neg (kept_ne hfile hslot).2.symm, if_pos rfl]
  nofun

theorem install_with_backup : (Files.install (m := StateM Disk) draft path true) d =
    (.ok (), { ((d.erase names).set kept (.file bytes rights)).set names draft with
      drafts := d.drafts.erase draft }) := by
  simp only [Files.install, if_true, Form.bind_apply, move_apply, moved_eq_ok hfile hslot, publish_apply,
    published_eq_ok (slot_of_moved hfile hslot)]
  rfl

end Install

/-! ## Replacing a file -/

/-- The path leads to the text, with the rights that the file had before, and its backup to what was there before. -/
inductive Rewrites (d : Disk) (path : Path) (text : String) (keepsBackup : Bool) (d' : Disk) : Prop
  | intro {names : List String} {bytes : List UInt8} {rights : Nat} : d.file path = .ok (names, bytes, rights) →
      d'.file path = .ok (names, Text.encodeUtf8 text, rights) →
      (keepsBackup → ∃ kept, d'.file path.backup = .ok (kept, bytes, rights)) → Near keepsBackup [path] d d' →
      d'.drafts = d.drafts → Rewrites d path text keepsBackup d'

/-- What replacing a file comes to: nothing is done if the text cannot be drafted or the backup not be made. -/
inductive Replaced (d : Disk) (path : Path) (text : String) (keepsBackup : Bool) : Except FileFault Unit × Disk → Prop
  | undrafted {flaw : FileFlaw} : d.walk (path.draft stamp) = .error flaw →
      Replaced d path text keepsBackup (.error ⟨flaw, path.draft stamp, none⟩, d)
  | unkept {flaw : FileFlaw} : keepsBackup → d.slot path.backup = .error flaw →
      Replaced d path text keepsBackup (.error ⟨flaw, path, some path.backup⟩, d)
  | written {d' : Disk} : Rewrites d path text keepsBackup d' → Replaced d path text keepsBackup (.ok (), d')

section Replace

variable (hfile : d.file path = .ok (names, bytes, rights))
include hfile

theorem Rewrites.of_find? {text : String} (hdrafts : e.drafts = d.drafts)
    (hkept : keepsBackup → ∃ kept, d.slot path.backup = .ok kept)
    (hfind : ∀ others, e.find? others =
      if others = names then some (.file (Text.encodeUtf8 text) rights)
      else if keepsBackup ∧ d.slot path.backup = .ok others then some (.file bytes rights)
      else d.find? others) : Rewrites d path text keepsBackup e := by
  have hwalk := (file_eq_ok.1 hfile).1
  have hnear : Near keepsBackup [path] d e := by
    refine near_of_find? (fun others => ?_) (.inl hdrafts)
    rw [hfind]
    split
    · next heq =>
      subst heq
      exact .inr ⟨.inl hwalk, by rw [find?_file hfile]; nofun, nofun⟩
    · split
      · next hbackup =>
        obtain ⟨hothers, hdirectory⟩ := slot_eq_ok.1 hbackup.2
        exact .inr ⟨.inr ⟨hbackup.1, hothers⟩, hdirectory, nofun⟩
      · exact .inl rfl
  refine .intro hfile (file_eq_ok.2 ⟨hnear.directories.walk hwalk, ?_⟩) (fun hkeeps => ?_) hnear hdrafts
  · rw [hfind, if_pos rfl]
  · obtain ⟨kept, hslot⟩ := hkept hkeeps
    refine ⟨kept, file_eq_ok.2 ⟨hnear.directories.walk (slot_eq_ok.1 hslot).1, ?_⟩⟩
    rw [hfind, if_neg (kept_ne hfile hslot).2, if_pos ⟨hkeeps, hslot⟩]

theorem replaced_replace (text : String) :
    Replaced d path text keepsBackup ((Files.replace path text keepsBackup : StateM Disk _) d) := by
  rcases hdraft : d.walk (path.draft stamp) with flaw | place
  · simp only [Files.replace, Form.bind_apply, draft_of_error hfile hdraft]
    exact .undrafted hdraft
  · simp only [Files.replace, Form.bind_apply, draft_of_ok hfile hdraft]
    have hfile' := (file_with_drafts d path (.file (Text.encodeUtf8 text) rights :: d.drafts)).trans hfile
    have herase : (Entry.file (Text.encodeUtf8 text) rights :: d.drafts).erase (.file (Text.encodeUtf8 text) rights) =
      d.drafts := List.erase_cons_head ..
    cases keepsBackup with
    | false =>
      rw [install_without_backup hfile']
      refine .written (.of_find? hfile herase nofun fun others => ?_)
      simp only [Bool.false_eq_true, false_and, if_false]
      exact find?_set (names_ne_nil hfile) d _ others
    | true =>
      rcases hslot : d.slot path.backup with flaw | kept
      · rw [install_of_error hfile' _ hslot]
        show Replaced d path text true (_, { d with drafts := (_ :: d.drafts).erase _ })
        rw [herase]
        exact .unkept rfl hslot
      · rw [install_with_backup hfile' _ hslot]
        refine .written (.of_find? hfile herase (fun _ => ⟨kept, hslot⟩) fun others => ?_)
        have hset := find?_set (names_ne_nil hfile) ((d.erase names).set kept (.file bytes rights))
          (.file (Text.encodeUtf8 text) rights) others
        rw [find?_moved hfile hslot] at hset
        refine Eq.trans hset ?_
        simp only [hslot, true_and, Except.ok.injEq]
        by_cases hnames : others = names
        · rw [if_pos hnames, if_pos hnames]
        · rw [if_neg hnames, if_neg hnames, if_neg hnames]
          simp only [eq_comm]

/-- Replacing a file touches nothing but the path and its backup at any moment. -/
theorem follows_replace (text : String) :
    Journal.Follows (Near keepsBackup [path] d) (Files.replace path text keepsBackup)
      (Files.replace path text keepsBackup) d := by
  refine (Journal.follows_record _ (Near.refl d)).bind ?_
  rcases hdraft : d.walk (path.draft stamp) with flaw | place
  · rw [draft_of_error hfile hdraft]
    exact Journal.follows_pure _
  · rw [draft_of_ok hfile hdraft]
    have hfile' := (file_with_drafts d path (.file (Text.encodeUtf8 text) rights :: d.drafts)).trans hfile
    have hdrafted : Near keepsBackup [path] d { d with drafts := .file (Text.encodeUtf8 text) rights :: d.drafts } :=
      near_of_find? (fun _ => .inl rfl) (.inr ⟨_, rfl⟩)
    refine (follows_install hfile' _ hdrafted ?_).bind ?_
    · rintro rfl kept hslot
      have hnear := near_moved hfile hslot
      exact ⟨hnear.directories, hnear.files, .inr ⟨_, rfl⟩⟩
    · cases keepsBackup with
      | false =>
        rw [install_without_backup hfile']
        exact Journal.follows_pure _
      | true =>
        rcases hslot : d.slot path.backup with flaw | kept
        · rw [install_of_error hfile' _ hslot]
          exact (Journal.follows_record _ hdrafted).bind (Journal.follows_pure _)
        · rw [install_with_backup hfile' _ hslot]
          exact Journal.follows_pure _

end Replace

end Disk

end ScriptTidy
