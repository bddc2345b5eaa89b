/-
What a run over files does to the disk. The run visits the paths that it is given one after another,
each on the disk that the one before it has left. A visit leaves every file as it was, or puts the
formatted text in the place of the text that it finds and keeps that text as the backup. At every
moment of the run the disk differs from the first one at visited paths and their backups only, and
not at all if the run is to check; where the run stops early, what follows the first path that fails
is not visited. The report lists the paths whose texts have changed, or would, and its status tells
whether a path failed; a run that is ended at once leaves the list of the paths before.
-/
import ScriptTidy.Proofs.Command.Batch
import ScriptTidy.Proofs.Command.Replace

namespace ScriptTidy

namespace Command

open Disk

variable {i : Invocation} {options : Options} {d d' : Disk} {path : Path}

/-! ## One visit -/

/-- Something was wrong with the file. -/
def FileReport.isFailed (r : FileReport) : Bool :=
  match r.outcome with
  | .failed _ => true
  | _ => false

/-- What a visit finds at a path and makes of the disk. -/
inductive Visited (i : Invocation) (options : Options) (d : Disk) (path : Path) : Outcome → Disk → Prop
  | unreadable {flaw : FileFlaw} : d.file path = .error flaw →
      Visited i options d path (.failed (.file ⟨flaw, path, none⟩)) d
  | undecodable {names : List String} {bytes : List UInt8} {rights : Nat} {fault : Text.Utf8.Fault} :
      d.file path = .ok (names, bytes, rights) → Text.decodeUtf8 bytes = .error fault →
      Visited i options d path (.failed (.undecodable fault)) d
  | rejected {text : String} {fault : FormatFault} : Reads d path text → format options text = .error fault →
      noted fault → Visited i options d path (.failed (.format fault)) d
  | formatted {text : String} : Reads d path text → format options text = .ok text →
      Visited i options d path .unchanged d
  | differs {text output : String} : i.checksOnly → Reads d path text → format options text = .ok output →
      output ≠ text → Visited i options d path .changed d
  | rewritten {text output : String} {d' : Disk} : i.checksOnly = false → Reads d path text →
      format options text = .ok output → output ≠ text → Rewrites d path output i.keepsBackup d' →
      Visited i options d path .changed d'
  | unwritable {text output : String} {fault : FileFault} : i.checksOnly = false → Reads d path text →
      format options text = .ok output → output ≠ text → Replaced d path output i.keepsBackup (.error fault, d) →
      Visited i options d path (.failed (.file fault)) d

theorem Reads.replaced {text : String} (h : Reads d path text) (output : String) (keepsBackup : Bool) :
    Replaced d path output keepsBackup ((Files.replace path output keepsBackup : StateM Disk _) d) := by
  obtain ⟨names, bytes, rights, chars, hfile, -, -⟩ := h
  exact replaced_replace hfile output

theorem Handled.visited {report : FileReport} (h : Handled i options d path report d') :
    report.path = path ∧ Visited i options d path report.outcome d' := by
  cases h with
  | unchanged hreads hformat => exact ⟨rfl, .formatted hreads hformat⟩
  | checked hreads hformat hne hchecks => exact ⟨rfl, .differs hchecks hreads hformat hne⟩
  | unreadable hfile => exact ⟨rfl, .unreadable hfile⟩
  | undecodable hfile hbytes => exact ⟨rfl, .undecodable hfile hbytes⟩
  | unformattable hreads hformat hnoted => exact ⟨rfl, .rejected hreads hformat hnoted⟩
  | @replaced text output notes _ hreads hformat hne hchecks hreplace =>
    have hreplaced := hreads.replaced output i.keepsBackup
    rw [hreplace] at hreplaced
    cases hreplaced with
    | written hwritten => exact ⟨rfl, .rewritten hchecks hreads hformat hne hwritten⟩
  | @irreplaceable text output notes _ _ hreads hformat hne hchecks hreplace =>
    have hreplaced := hreads.replaced output i.keepsBackup
    rw [hreplace] at hreplaced
    -- a text that cannot be written leaves the disk as it was
    cases hreplaced with
    | undrafted hdraft => exact ⟨rfl, .unwritable hchecks hreads hformat hne (.undrafted hdraft)⟩
    | unkept hkeeps hslot => exact ⟨rfl, .unwritable hchecks hreads hformat hne (.unkept hkeeps hslot)⟩

/-! ## The disk at any moment -/

/-- What can have become of the disk when some paths have been visited: nothing if the run only checks. -/
structure Within (i : Invocation) (paths : List Path) (d e : Disk) : Prop where
  checked : i.checksOnly → e = d
  near : Near i.keepsBackup paths d e

theorem Within.refl (i : Invocation) (paths : List Path) (d : Disk) : Within i paths d d := ⟨fun _ => rfl, .refl d⟩

theorem Within.mono {e : Disk} {paths more : List Path} (h : Within i paths d e) (hsub : paths ⊆ more) :
    Within i more d e :=
  ⟨h.checked, h.near.mono hsub⟩

theorem Within.trans {e f : Disk} {paths more : List Path} (h : Within i paths d e) (hdrafts : e.drafts = d.drafts)
    (h' : Within i more e f) : Within i (paths ++ more) d f :=
  ⟨fun hchecks => (h'.checked hchecks).trans (h.checked hchecks), h.near.trans hdrafts h'.near⟩

theorem Visited.within {outcome : Outcome} (h : Visited i options d path outcome d') :
    Within i [path] d d' ∧ d'.drafts = d.drafts := by
  cases h with
  | rewritten hchecks _ _ _ hwritten =>
    obtain ⟨-, -, -, hnear, hdrafts⟩ := hwritten
    exact ⟨⟨fun h => absurd h (by rw [hchecks]; exact Bool.false_ne_true), hnear⟩, hdrafts⟩
  | _ => exact ⟨.refl i _ d, rfl⟩

section Moments

variable {s : Session}

theorem follows_settle {text : String} (hreads : Reads d path text) (notes : List Note) (result : Formatted) :
    Journal.Follows (Within i [path] d) (settle i path notes result) (settle i path notes result) d := by
  unfold settle
  cases hchanged : result.changed with
  | false => exact Journal.follows_pure _
  | true =>
    cases hchecks : i.checksOnly with
    | true => exact Journal.follows_pure _
    | false =>
      obtain ⟨names, bytes, rights, chars, hfile, -, -⟩ := hreads
      have hreplace : Journal.Follows (Near i.keepsBackup [path] d) (Files.replace path result.output i.keepsBackup)
          (Files.replace path result.output i.keepsBackup) d := follows_replace hfile result.output
      refine (hreplace.imp fun e he => ⟨fun h => absurd (hchecks.symm.trans h) Bool.false_ne_true, he⟩).bind ?_
      generalize (Files.replace path result.output i.keepsBackup : StateM Disk _) d = replaced
      rcases replaced with ⟨fault | ⟨⟩, e⟩ <;> exact Journal.follows_pure _

theorem follows_formatText {text : String} (hreads : Reads d path text) :
    Journal.Follows (Within i [path] d) (formatText i s path text) (formatText i s path text) d := by
  refine (Journal.follows_record _ (.refl i _ d)).bind ?_
  rw [now_apply]
  rcases s.format text with ⟨(fault | fault) | memory, after⟩
  · dsimp only
    split <;> exact Journal.follows_pure _
  · exact Journal.follows_pure _
  · refine (Journal.follows_record _ (.refl i _ d)).bind ?_
    rw [now_apply]
    exact (follows_settle hreads _ _).bind (Journal.follows_pure _)

/-- While a file is formatted nothing but its path and the backup is touched. -/
theorem follows_formatFile (i : Invocation) (s : Session) (d : Disk) (path : Path) :
    Journal.Follows (Within i [path] d) (formatFile i s path) (formatFile i s path) d := by
  unfold formatFile
  split
  · exact Journal.follows_pure _
  · refine (Journal.follows_record _ (.refl i _ d)).bind ?_
    rw [read_apply]
    rcases hfile : d.file path with flaw | ⟨names, bytes, rights⟩
    · exact Journal.follows_pure _
    · cases hbytes : Text.decodeUtf8 bytes with
      | error fault =>
        simp only [hbytes]
        exact Journal.follows_pure _
      | ok chars =>
        simp only [hbytes]
        exact follows_formatText ⟨names, bytes, rights, chars, hfile, hbytes, rfl⟩

end Moments

/-! ## All visits -/

/-- Visits one after another, each reported. -/
inductive Trail (i : Invocation) (options : Options) : Disk → List FileReport → Disk → Prop
  | nil {d : Disk} : Trail i options d [] d
  | cons {d d₁ d₂ : Disk} {report : FileReport} {reports : List FileReport} :
      Visited i options d report.path report.outcome d₁ → Trail i options d₁ reports d₂ →
      Trail i options d (report :: reports) d₂

theorem Trail.within {reports : List FileReport} (h : Trail i options d reports d') :
    Within i (reports.map FileReport.path) d d' ∧ d'.drafts = d.drafts := by
  induction h with
  | nil => exact ⟨.refl i _ _, rfl⟩
  | cons hvisited _ ih =>
    obtain ⟨hfirst, hdrafts⟩ := hvisited.within
    exact ⟨hfirst.trans hdrafts ih.1, ih.2.trans hdrafts⟩

/-- The visits end with the first failure if the run stops early, and with the last path otherwise. -/
structure Halts (i : Invocation) (reports : List FileReport) (rest : List Path) : Prop where
  goesOn : i.stopsEarly → ∀ report ∈ reports.dropLast, report.isFailed = false
  halts : rest = [] ∨ i.stopsEarly ∧ ∃ report ∈ reports.getLast?, report.isFailed

/-- What the visits come to, and what the disk has been seen as meanwhile. -/
inductive Passed (i : Invocation) (options : Options) (d : Disk) (paths : List Path) (seen : List Disk) :
    (List FileReport × Option Crash) × Disk → Prop
  | done {reports : List FileReport} {rest : List Path} {d' : Disk} :
      paths = reports.map FileReport.path ++ rest → Halts i reports rest → Trail i options d reports d' →
      (∀ e ∈ seen, Within i (reports.map FileReport.path) d e) → Passed i options d paths seen ((reports, none), d')
  | stopped {reports : List FileReport} {path : Path} {rest : List Path} {crash : Crash} {d' : Disk} :
      paths = reports.map FileReport.path ++ path :: rest →
      (i.stopsEarly → ∀ report ∈ reports, report.isFailed = false) → Trail i options d reports d' →
      Stopped options d' path crash → (∀ e ∈ seen, Within i (reports.map FileReport.path ++ [path]) d e) →
      Passed i options d paths seen ((reports, some crash), d')

theorem isLast_eq (i : Invocation) (report : FileReport) : isLast i report = (i.stopsEarly && report.isFailed) := by
  unfold isLast FileReport.isFailed
  cases report.outcome <;> simp

theorem Halts.cons {report : FileReport} {reports : List FileReport} {rest : List Path}
    (hreport : i.stopsEarly → report.isFailed = false) (h : Halts i reports rest) :
    Halts i (report :: reports) rest := by
  obtain ⟨hgoes, hhalts⟩ := h
  cases reports with
  | nil => exact ⟨fun _ => nofun, .inl (hhalts.resolve_right fun ⟨_, _, hlast, _⟩ => nomatch hlast)⟩
  | cons next reports =>
    refine ⟨fun hstops => ?_, by rwa [List.getLast?_cons_cons]⟩
    rw [List.dropLast_cons_cons]
    exact List.forall_mem_cons.2 ⟨hreport hstops, hgoes hstops⟩

/-- A visit after which the run goes on comes before what the other visits come to. -/
theorem Passed.cons {report : FileReport} {rest : List Path} {seen more : List Disk}
    {result : (List FileReport × Option Crash) × Disk}
    (hvisited : Visited i options d report.path report.outcome d')
    (hgoes : i.stopsEarly → report.isFailed = false) (hmore : ∀ e ∈ more, Within i [report.path] d e)
    (h : Passed i options d' rest seen result) :
    Passed i options d (report.path :: rest) (seen ++ more) (result.1.map (report :: ·) id, result.2) := by
  obtain ⟨hwithin, hdrafts⟩ := hvisited.within
  have hseen {paths : List Path} (h : ∀ e ∈ seen, Within i paths d' e) :
      ∀ e ∈ seen ++ more, Within i (report.path :: paths) d e := by
    refine List.forall_mem_append.2 ⟨fun e he => hwithin.trans hdrafts (h e he), fun e he => ?_⟩
    exact (hmore e he).mono (List.cons_subset_cons _ (List.nil_subset _))
  cases h with
  | done hpaths hhalts htrail hpast =>
    exact .done (congrArg (report.path :: ·) hpaths) (hhalts.cons hgoes) (.cons hvisited htrail) (hseen hpast)
  | @stopped reports next after _ _ hpaths hothers htrail hstopped hpast =>
    have hall : report.path :: rest = (report :: reports).map FileReport.path ++ next :: after :=
      congrArg (report.path :: ·) hpaths
    refine .stopped hall (fun hstops => ?_) (.cons hvisited htrail) hstopped (hseen hpast)
    exact List.forall_mem_cons.2 ⟨hgoes hstops, hothers hstops⟩

/-- A run with a journal does what it does on the disk alone, and notes every state of the disk. -/
theorem passed_formatFiles {s : Session} (hs : s.Sound) (paths : List Path) (d : Disk) (past : List Disk) :
    ∃ seen, (formatFiles i s paths : StateM Journal _) ⟨d, past⟩ =
        (((formatFiles i s paths : StateM Disk _) d).1, ⟨((formatFiles i s paths : StateM Disk _) d).2, seen ++ past⟩) ∧
      Passed i s.options d paths seen ((formatFiles i s paths : StateM Disk _) d) := by
  induction paths generalizing s d past with
  | nil => exact ⟨[], rfl, .done rfl ⟨fun _ => nofun, .inl rfl⟩ .nil nofun⟩
  | cons path rest ih =>
    -- the visit on the journal and the one on the disk alone give the same report
    obtain ⟨more, hact, hmore⟩ := follows_formatFile i s d path past
    have hstep := step_formatFile (i := i) hs d path
    generalize hresult : (formatFile i s path : StateM Disk _) d = result at hstep hact
    cases hstep with
    | stopped hstopped =>
      rw [formatFiles_of_error hresult, formatFiles_of_error hact]
      refine ⟨more, rfl, .stopped (List.nil_append _).symm (fun _ => ?_) .nil hstopped hmore⟩
      exact nofun
    | @handled s' report d' hs' hoptions hhandled =>
      obtain ⟨rfl, hvisited⟩ := hhandled.visited
      cases hlast : isLast i report with
      | true =>
        rw [formatFiles_of_last hresult hlast, formatFiles_of_last hact hlast]
        rw [isLast_eq, Bool.and_eq_true] at hlast
        have hhalts : Halts i [report] rest := ⟨fun _ => nofun, .inr ⟨hlast.1, report, rfl, hlast.2⟩⟩
        exact ⟨more, rfl, .done rfl hhalts (.cons hvisited .nil) hmore⟩
      | false =>
        obtain ⟨seen, hrest, hpassed⟩ := ih hs' d' (more ++ past)
        rw [formatFiles_of_ok hresult hlast, formatFiles_of_ok hact hlast, hrest, ← List.append_assoc]
        rw [isLast_eq, Bool.and_eq_false_imp] at hlast
        rw [hoptions] at hpassed
        exact ⟨seen ++ more, rfl, hpassed.cons hvisited hlast hmore⟩

/-! ## Reports -/

theorem output_ofFiles (i : Invocation) (reports : List FileReport) : (Report.ofFiles i reports).output =
    String.join ((reports.filter fun report => report.outcome = .changed).map fun report =>
      report.path.display ++ "\n") := by
  show String.join (reports.map FileReport.output) = _
  induction reports with
  | nil => rfl
  | cons report reports ih =>
    rw [List.map_cons, String.join_cons, ih]
    by_cases hchanged : report.outcome = .changed
    · rw [List.filter_cons_of_pos (by simpa using hchanged), List.map_cons, String.join_cons, FileReport.output,
        hchanged]
    · rw [List.filter_cons_of_neg (by simpa using hchanged)]
      have hnone : report.output = "" := by
        unfold FileReport.output
        split
        · next h => exact absurd h hchanged
        · rfl
      rw [hnone, String.empty_append]

theorem fails_iff (i : Invocation) (report : FileReport) :
    report.fails i ↔ report.isFailed ∨ i.checksOnly ∧ report.outcome = .changed := by
  unfold FileReport.fails FileReport.isFailed
  cases report.outcome <;> simp

theorem status_ofFiles_eq_one_iff (i : Invocation) (reports : List FileReport) :
    (Report.ofFiles i reports).status = 1 ↔
      (∃ report ∈ reports, report.isFailed) ∨ i.checksOnly ∧ ∃ report ∈ reports, report.outcome = .changed := by
  have hany : reports.any (·.fails i) ↔
      (∃ report ∈ reports, report.isFailed) ∨ i.checksOnly ∧ ∃ report ∈ reports, report.outcome = .changed := by
    simp only [List.any_eq_true, fails_iff]
    constructor
    · rintro ⟨report, hreport, hfailed | ⟨hchecks, hchanged⟩⟩
      · exact .inl ⟨report, hreport, hfailed⟩
      · exact .inr ⟨hchecks, report, hreport, hchanged⟩
    · rintro (⟨report, hreport, hfailed⟩ | ⟨hchecks, report, hreport, hchanged⟩)
      · exact ⟨report, hreport, .inl hfailed⟩
      · exact ⟨report, hreport, .inr ⟨hchecks, hchanged⟩⟩
  rw [← hany]
  show (if reports.any (·.fails i) then 1 else 0) = 1 ↔ _
  split
  · next h => exact iff_of_true rfl h
  · next h => exact iff_of_false nofun h

/-! ## Runs -/

/-- How a run over files ends, and what the disk has been meanwhile: without options, with a report on the paths that
have been visited, or at the first path that ends the program, with a report on the paths before it. -/
inductive Concludes (i : Invocation) (d : Disk) : Conclusion × Journal → Prop
  | unset {fault : OptionFault} : i.options = .error fault →
      Concludes i d (⟨⟨1, "", []⟩, some (.options fault)⟩, .start d)
  | reported {options : Options} {reports : List FileReport} {rest : List Path} {report : Report} {j : Journal} :
      i.options = .ok options → i.files.map Path.ofString = reports.map FileReport.path ++ rest →
      Halts i reports rest → Trail i options d reports j.disk →
      (∀ e ∈ j.disk :: j.past, Within i (reports.map FileReport.path) d e) →
      report.output = String.join ((reports.filter fun report => report.outcome = .changed).map fun report =>
        report.path.display ++ "\n") →
      (report.status = 1 ↔ (∃ report ∈ reports, report.isFailed) ∨
        i.checksOnly ∧ ∃ report ∈ reports, report.outcome = .changed) →
      (report.status = 0 ∨ report.status = 1) → j.disk.drafts = d.drafts → Concludes i d (⟨report, none⟩, j)
  | stopped {options : Options} {reports : List FileReport} {path : Path} {rest : List Path} {crash : Crash}
      {report : Report} {j : Journal} : i.options = .ok options →
      i.files.map Path.ofString = reports.map FileReport.path ++ path :: rest →
      (i.stopsEarly → ∀ report ∈ reports, report.isFailed = false) → Trail i options d reports j.disk →
      Stopped options j.disk path crash →
      (∀ e ∈ j.disk :: j.past, Within i (reports.map FileReport.path ++ [path]) d e) →
      report.output = String.join ((reports.filter fun report => report.outcome = .changed).map fun report =>
        report.path.display ++ "\n") →
      report.status = 1 → j.disk.drafts = d.drafts → Concludes i d (⟨report, some crash.breakdown⟩, j)

end Command

end ScriptTidy
