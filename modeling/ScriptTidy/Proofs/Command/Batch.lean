/-
Files one after another. What becomes of a file depends on its bytes and the options alone, not on
the files before it, although the session remembers their results: `Handled` says what it can be.
A run that does not stop early handles all of its files in order and reports on each of them, unless
it comes to one that ends the program: the path of such a file holds a null character, or its text
has a fault that is not noted. The files before that one have been handled and reported, and the
ones after it are not looked at.
-/
import ScriptTidy.Command.Disk
import ScriptTidy.Command.Run
import ScriptTidy.Proofs.Format.Sessions
import ScriptTidy.Proofs.Syntax.Forms

namespace ScriptTidy

namespace Command

variable {i : Invocation} {options : Options}

/-! ## One file -/

/-- The text of the file that a path leads to. -/
def Reads (d : Disk) (path : Path) (text : String) : Prop :=
  ∃ names bytes rights chars, d.file path = .ok (names, bytes, rights) ∧ Text.decodeUtf8 bytes = .ok chars ∧
    text = String.ofList chars

/-- What becomes of a file and the disk: the file is skipped as unchanged, reported or replaced as
changed, or reported with its path and what is wrong with it. -/
inductive Handled (i : Invocation) (options : Options) (d : Disk) (path : Path) : FileReport → Disk → Prop
  | unchanged {text : String} {notes : List Note} : Reads d path text → format options text = .ok text →
      Handled i options d path ⟨path, .unchanged, notes⟩ d
  | checked {text output : String} {notes : List Note} : Reads d path text → format options text = .ok output →
      output ≠ text → i.checksOnly → Handled i options d path ⟨path, .changed, notes⟩ d
  | replaced {text output : String} {notes : List Note} {d' : Disk} : Reads d path text →
      format options text = .ok output → output ≠ text → i.checksOnly = false →
      (Files.replace path output i.keepsBackup : StateM Disk _) d = (.ok (), d') →
      Handled i options d path ⟨path, .changed, notes⟩ d'
  | unreadable {flaw : FileFlaw} : d.file path = .error flaw →
      Handled i options d path (.failure path [] (.file ⟨flaw, path, none⟩)) d
  | undecodable {names : List String} {bytes : List UInt8} {rights : Nat} {fault : Text.Utf8.Fault} :
      d.file path = .ok (names, bytes, rights) → Text.decodeUtf8 bytes = .error fault →
      Handled i options d path (.failure path [] (.undecodable fault)) d
  | unformattable {text : String} {notes : List Note} {fault : FormatFault} : Reads d path text →
      format options text = .error fault → noted fault →
      Handled i options d path (.failure path notes (.format fault)) d
  | irreplaceable {text output : String} {notes : List Note} {fault : FileFault} {d' : Disk} : Reads d path text →
      format options text = .ok output → output ≠ text → i.checksOnly = false →
      (Files.replace path output i.keepsBackup : StateM Disk _) d = (.error fault, d') →
      Handled i options d path (.failure path notes (.file fault)) d'

/-- What ends the program at a file. -/
inductive Stopped (options : Options) (d : Disk) (path : Path) : Crash → Prop
  | badPath : path.display.contains '\x00' → Stopped options d path ⟨.badPath, []⟩
  | unnoted {text : String} {fault : FormatFault} {notes : List Note} : path.display.contains '\x00' = false →
      Reads d path text → format options text = .error fault → noted fault = false →
      Stopped options d path ⟨.session (.format fault), notes⟩

theorem read_apply (d : Disk) (path : Path) : (Files.read path : StateM Disk _) d =
    (match d.file path with
      | .ok (_, bytes, _) => .ok bytes
      | .error flaw => .error ⟨flaw, path, none⟩, d) := by
  change (match d.file path with
    | .ok (_, bytes, _) => (pure (.ok bytes) : StateM Disk (Except FileFault (List UInt8)))
    | .error flaw => pure (.error ⟨flaw, path, none⟩)) d = _
  cases d.file path <;> rfl

theorem handled_settle {d : Disk} {path : Path} {text output : String} (hreads : Reads d path text)
    (hformat : format options text = .ok output) (notes : List Note) :
    Handled i options d path ((settle i path notes ⟨output, output != text⟩ : StateM Disk _) d).1
      ((settle i path notes ⟨output, output != text⟩ : StateM Disk _) d).2 := by
  unfold settle
  by_cases hchanged : output = text
  · subst hchanged
    rw [bne_self_eq_false]
    exact .unchanged hreads hformat
  · rw [bne_iff_ne.2 hchanged]
    cases hchecks : i.checksOnly with
    | true => exact .checked hreads hformat hchanged hchecks
    | false =>
      rcases hreplace : (Files.replace path output i.keepsBackup : StateM Disk _) d with ⟨fault | ⟨⟩, d'⟩
      · have hfailed : Handled i options d path (.failure path notes (.file fault)) d' :=
          .irreplaceable hreads hformat hchanged hchecks hreplace
        simpa [Form.bind_apply, Form.pure_apply, hreplace] using hfailed
      · have hreplaced : Handled i options d path ⟨path, .changed, notes⟩ d' :=
          .replaced hreads hformat hchanged hchecks hreplace
        simpa [Form.bind_apply, Form.pure_apply, hreplace] using hreplaced

theorem now_apply (d : Disk) : (Files.now : StateM Disk Nat) d = (0, d) := rfl

/-- What one file comes to: a report and a sound session, or the end of the program. -/
inductive Step (i : Invocation) (s : Session) (d : Disk) (path : Path) :
    Except Crash (Session × FileReport) × Disk → Prop
  | handled {s' : Session} {report : FileReport} {d' : Disk} : s'.Sound → s'.options = s.options →
      Handled i s.options d path report d' → Step i s d path (.ok (s', report), d')
  | stopped {crash : Crash} : Stopped s.options d path crash → Step i s d path (.error crash, d)

variable {s : Session} {d : Disk} {path : Path}

theorem formatText_of_error (hs : s.Sound) {text : String} {fault : FormatFault}
    (hformat : format s.options text = .error fault) : (formatText i s path text : StateM Disk _) d =
      (if noted fault then .ok (s, .failure path (stageNotes i s text) (.format fault))
        else .error ⟨.session (.format fault), stageNotes i s text⟩, d) := by
  have hfault : formatted s.options text = .error fault := by rw [formatted, hformat]; rfl
  rw [formatText, Form.bind_apply, now_apply, hs.format_of_error hfault]
  cases hnoted : noted fault <;> simp only [hnoted] <;> rfl

theorem step_formatText (hs : s.Sound) (hpath : path.display.contains '\x00' = false) {text : String}
    (hreads : Reads d path text) : Step i s d path ((formatText i s path text : StateM Disk _) d) := by
  cases hformat : format s.options text with
  | error fault =>
    rw [formatText_of_error hs hformat]
    cases hnoted : noted fault with
    | true => exact .handled hs rfl (.unformattable hreads hformat hnoted)
    | false => exact .stopped (.unnoted hpath hreads hformat hnoted)
  | ok output =>
    have hresult : formatted s.options text = .ok ⟨output, output != text⟩ := by rw [formatted, hformat]; rfl
    obtain ⟨m, after, heq, hm, hafter, hoptions⟩ := hs.format_of_ok hresult
    rw [formatText, Form.bind_apply, now_apply]
    simp only [heq, hm, Form.bind_apply, now_apply]
    exact .handled hafter hoptions (handled_settle hreads hformat _)

/-- A file that can be read comes to what its text comes to. -/
theorem formatFile_of_reads (hpath : path.display.contains '\x00' = false) {text : String}
    (hreads : Reads d path text) :
    (formatFile i s path : StateM Disk _) d = (formatText i s path text : StateM Disk _) d := by
  obtain ⟨names, bytes, rights, chars, hfile, hbytes, rfl⟩ := hreads
  rw [formatFile, hpath, if_neg Bool.false_ne_true, Form.bind_apply, read_apply]
  simp only [hfile, hbytes]

theorem step_formatFile (hs : s.Sound) (d : Disk) (path : Path) :
    Step i s d path ((formatFile i s path : StateM Disk _) d) := by
  cases hpath : path.display.contains '\x00' with
  | true =>
    rw [formatFile, if_pos hpath]
    exact .stopped (.badPath hpath)
  | false =>
    rcases hfile : d.file path with flaw | ⟨names, bytes, rights⟩
    · rw [formatFile, hpath, if_neg Bool.false_ne_true, Form.bind_apply, read_apply]
      simp only [hfile]
      exact .handled hs rfl (.unreadable hfile)
    · cases hbytes : Text.decodeUtf8 bytes with
      | error fault =>
        rw [formatFile, hpath, if_neg Bool.false_ne_true, Form.bind_apply, read_apply]
        simp only [hfile, hbytes]
        exact .handled hs rfl (.undecodable hfile hbytes)
      | ok chars =>
        have hreads : Reads d path (String.ofList chars) := ⟨names, bytes, rights, chars, hfile, hbytes, rfl⟩
        rw [formatFile_of_reads hpath hreads]
        exact step_formatText hs hpath hreads

/-! ## All files -/

/-- Files handled one after another, each on the disk that the one before it has left. -/
inductive HandledAll (i : Invocation) (options : Options) : Disk → List Path → List FileReport → Disk → Prop
  | nil {d : Disk} : HandledAll i options d [] [] d
  | cons {d d₁ d₂ : Disk} {path : Path} {report : FileReport} {paths : List Path} {reports : List FileReport} :
      Handled i options d path report d₁ → HandledAll i options d₁ paths reports d₂ →
      HandledAll i options d (path :: paths) (report :: reports) d₂

/-- What all files come to: a report on each of them, or reports on those before the first that ends
the program. -/
inductive Steps (i : Invocation) (options : Options) (d : Disk) (paths : List Path) :
    (List FileReport × Option Crash) × Disk → Prop
  | handled {reports : List FileReport} {d' : Disk} : HandledAll i options d paths reports d' →
      Steps i options d paths ((reports, none), d')
  | stopped {before after : List Path} {path : Path} {reports : List FileReport} {d' : Disk} {crash : Crash} :
      paths = before ++ path :: after → HandledAll i options d before reports d' →
      Stopped options d' path crash → Steps i options d paths ((reports, some crash), d')

section Files

variable {σ : Type} [Files (StateM σ)] {t t' : σ}

/-- Where the program ends, the files that follow are not looked at. -/
theorem formatFiles_of_error {crash : Crash} (h : (formatFile i s path : StateM σ _) t = (.error crash, t'))
    (rest : List Path) : (formatFiles i s (path :: rest) : StateM σ _) t = (([], some crash), t') := by
  rw [formatFiles, Form.bind_apply, h]
  rfl

theorem formatFiles_of_last {s' : Session} {report : FileReport}
    (h : (formatFile i s path : StateM σ _) t = (.ok (s', report), t')) (hlast : isLast i report) (rest : List Path) :
    (formatFiles i s (path :: rest) : StateM σ _) t = (([report], none), t') := by
  rw [formatFiles, Form.bind_apply, h]
  simp only [hlast, if_true]
  rfl

theorem formatFiles_of_ok {s' : Session} {report : FileReport}
    (h : (formatFile i s path : StateM σ _) t = (.ok (s', report), t')) (hlast : isLast i report = false)
    (rest : List Path) :
    (formatFiles i s (path :: rest) : StateM σ _) t =
      (((formatFiles i s' rest : StateM σ _) t').1.map (report :: ·) id,
        ((formatFiles i s' rest : StateM σ _) t').2) := by
  rw [formatFiles, Form.bind_apply, h]
  simp only [hlast, Bool.false_eq_true, if_false]
  rw [Form.bind_apply]
  rfl

end Files

theorem steps_formatFiles (hgoes : i.stopsEarly = false) (hs : s.Sound) (paths : List Path) (d : Disk) :
    Steps i s.options d paths ((formatFiles i s paths : StateM Disk _) d) := by
  induction paths generalizing s d with
  | nil => exact .handled .nil
  | cons path rest ih =>
    have hlast (report : FileReport) : isLast i report = false := by
      unfold isLast
      split
      · exact hgoes
      · rfl
    have hstep := step_formatFile (i := i) hs d path
    generalize hresult : (formatFile i s path : StateM Disk _) d = result at hstep
    cases hstep with
    | stopped hstopped =>
      rw [formatFiles_of_error hresult]
      exact .stopped (List.nil_append _).symm .nil hstopped
    | @handled s' report d' hs' hoptions hhandled =>
      have hrest := ih hs' d'
      rw [hoptions] at hrest
      rw [formatFiles_of_ok hresult (hlast report)]
      generalize (formatFiles i s' rest : StateM Disk _) d' = result at hrest ⊢
      cases hrest with
      | handled hall => exact .handled (.cons hhandled hall)
      | stopped hpaths hall hstopped =>
        exact .stopped (congrArg (path :: ·) hpaths) (.cons hhandled hall) hstopped

/-! ## Reports -/

theorem HandledAll.paths {d d' : Disk} {paths : List Path} {reports : List FileReport}
    (h : HandledAll i options d paths reports d') : reports.map FileReport.path = paths := by
  induction h with
  | nil => rfl
  | cons hhandled _ ih =>
    rw [List.map_cons, ih]
    cases hhandled <;> rfl

/-- A file that something is wrong with is reported by its path and the words for what is wrong. -/
theorem HandledAll.failed_mem_notes {d d' : Disk} {paths : List Path} {reports : List FileReport}
    (h : HandledAll i options d paths reports d') {report : FileReport} (hreport : report ∈ reports)
    {trouble : Trouble} (htrouble : report.outcome = .failed trouble) :
    .failed report.path.display trouble ∈ report.notes := by
  induction h with
  | nil => cases hreport
  | cons hhandled _ ih =>
    rcases List.mem_cons.1 hreport with rfl | hreport
    · cases hhandled <;> cases htrouble <;> exact List.mem_append_right _ (List.mem_singleton_self _)
    · exact ih hreport

/-! ## Runs -/

/-- How a run over files ends: without options, with a report on every file, or at the first file that
ends the program. Then the files before it have been handled, and what was put out about them stays. -/
inductive Ends (i : Invocation) (d : Disk) : Conclusion × Disk → Prop
  | unset {fault : OptionFault} : i.options = .error fault → Ends i d (⟨⟨1, "", []⟩, some (.options fault)⟩, d)
  | reported {options : Options} {reports : List FileReport} {d' : Disk} : i.options = .ok options →
      HandledAll i options d (i.files.map Path.ofString) reports d' →
      reports.map FileReport.path = i.files.map Path.ofString →
      (∀ report ∈ reports, ∀ trouble, report.outcome = .failed trouble →
        .failed report.path.display trouble ∈ (Report.ofFiles i reports).notes ∧
          (Report.ofFiles i reports).status = 1) →
      Ends i d (⟨Report.ofFiles i reports, none⟩, d')
  | stopped {options : Options} {before after : List Path} {path : Path} {reports : List FileReport} {d' : Disk}
      {crash : Crash} {report : Report} : i.options = .ok options →
      i.files.map Path.ofString = before ++ path :: after → HandledAll i options d before reports d' →
      Stopped options d' path crash → reports.map FileReport.path = before → report.status = 1 →
      report.output = (Report.ofFiles i reports).output →
      report.notes = (Report.ofFiles i reports).notes ++ crash.notes →
      (∀ handled ∈ reports, ∀ trouble, handled.outcome = .failed trouble →
        .failed handled.path.display trouble ∈ report.notes) →
      Ends i d (⟨report, some crash.breakdown⟩, d')

theorem status_ofFiles {reports : List FileReport} {report : FileReport} (hreport : report ∈ reports)
    {trouble : Trouble} (htrouble : report.outcome = .failed trouble) : (Report.ofFiles i reports).status = 1 := by
  refine if_pos (List.any_eq_true.2 ⟨report, hreport, ?_⟩)
  rw [FileReport.fails, htrouble]

theorem conclude_apply {σ : Type} [Files (StateM σ)] {arguments : List String}
    (harguments : readArguments arguments = .ok (.run i)) (hfiles : i.files ≠ []) (hoptions : i.options = .ok options)
    (input : List UInt8) (t : σ) :
    (conclude arguments input : StateM σ _) t =
      let files := (formatFiles i (.new options Session.standardCapacity) (i.files.map Path.ofString) : StateM σ _) t
      (.ofFiles i files.1.1 files.1.2, files.2) := by
  have hnone : i.files.isEmpty = false := List.isEmpty_eq_false_iff.2 hfiles
  simp only [conclude, harguments, Invocation.perform, hoptions, hnone]
  rfl

theorem conclude_of_unset {σ : Type} [Files (StateM σ)] {arguments : List String}
    (harguments : readArguments arguments = .ok (.run i)) {fault : OptionFault} (hoptions : i.options = .error fault)
    (input : List UInt8) (t : σ) :
    (conclude arguments input : StateM σ _) t = (⟨⟨1, "", []⟩, some (.options fault)⟩, t) := by
  simp only [conclude, harguments, Invocation.perform, hoptions]
  rfl

/-- A run over files that does not stop early handles them all, in order, whatever their bytes are, and
fails if something is wrong with one of them; only a fault that is not noted, or a path with a null
character, ends it before its last file. -/
theorem run_files {arguments : List String} (harguments : readArguments arguments = .ok (.run i))
    (hfiles : i.files ≠ []) (hgoes : i.stopsEarly = false) (input : List UInt8) (d : Disk) :
    ∃ (c : Conclusion) (d' : Disk), (conclude arguments input : StateM Disk _) d = (c, d') ∧
      (run arguments input : StateM Disk _) d = (c.result, d') ∧ Ends i d (c, d') := by
  obtain ⟨c, d', hconclude⟩ : ∃ c d', (conclude arguments input : StateM Disk _) d = (c, d') := ⟨_, _, rfl⟩
  refine ⟨c, d', hconclude, ?_, ?_⟩
  · rw [run, Form.bind_apply, hconclude]
    rfl
  rw [← hconclude]
  cases hoptions : i.options with
  | error fault =>
    rw [conclude_of_unset harguments hoptions]
    exact .unset hoptions
  | ok options =>
    have hsteps := steps_formatFiles hgoes (Session.sound_new options Session.standardCapacity_ne_zero)
      (i.files.map Path.ofString) d
    rw [conclude_apply harguments hfiles hoptions]
    generalize (formatFiles i _ _ : StateM Disk _) d = result at hsteps ⊢
    cases hsteps with
    | @handled reports _ hall =>
      refine .reported hoptions hall hall.paths fun report hreport trouble htrouble => ⟨?_, ?_⟩
      · exact List.mem_flatMap.2 ⟨report, hreport, hall.failed_mem_notes hreport htrouble⟩
      · exact status_ofFiles hreport htrouble
    | stopped hpaths hall hstopped =>
      refine .stopped hoptions hpaths hall hstopped hall.paths rfl rfl rfl fun report hreport trouble htrouble => ?_
      exact List.mem_append_left _ (List.mem_flatMap.2 ⟨report, hreport, hall.failed_mem_notes hreport htrouble⟩)

/-- A directory with two files. -/
def twoFiles (first second : String) : Disk :=
  ⟨[(["a.js"], .file (Text.encodeUtf8 first) 420), (["b.js"], .file (Text.encodeUtf8 second) 420)], []⟩

theorem run_files_two : ∃ (c : Conclusion) (d' : Disk),
    (conclude ["a.js", "b.js"] [] : StateM Disk _) (twoFiles "(" "y\n") = (c, d') ∧
      (run ["a.js", "b.js"] [] : StateM Disk _) (twoFiles "(" "y\n") = (c.result, d') ∧
      Ends { Invocation.plain with files := ["a.js", "b.js"] } (twoFiles "(" "y\n") (c, d') :=
  run_files rfl (List.cons_ne_nil _ _) rfl [] _

/-- A file with an escape that stands for no character ends the program. The file after it is not
formatted, although its text is not as formatting would leave it. -/
theorem run_files_breaks :
    (conclude ["a.js", "b.js"] [] : StateM Disk _) (twoFiles "x = '\\u\x7b110000\x7d';\n" "y\n") =
        (⟨⟨1, "", []⟩, some (.session (.format (.read (.badEscape ⟨0x110000⟩))))⟩,
          twoFiles "x = '\\u\x7b110000\x7d';\n" "y\n") ∧
      format .standard "y\n" = .ok "y;\n" := by
  have hpath : (Path.ofString "a.js").display.contains '\x00' = false := by
    rw [String.contains_char_eq]
    decide +kernel
  have hreads : Reads (twoFiles "x = '\\u\x7b110000\x7d';\n" "y\n") (Path.ofString "a.js")
      "x = '\\u\x7b110000\x7d';\n" :=
    ⟨["a.js"], _, 420, "x = '\\u\x7b110000\x7d';\n".toList, rfl, by decide +kernel, rfl⟩
  have hformat : format .standard "x = '\\u\x7b110000\x7d';\n" = .error (.read (.badEscape ⟨0x110000⟩)) := by
    decide +kernel
  have hoptions : Invocation.options { Invocation.plain with files := ["a.js", "b.js"] } = .ok .standard := rfl
  have hsound := Session.sound_new .standard Session.standardCapacity_ne_zero
  refine ⟨?_, by decide +kernel⟩
  rw [conclude_apply rfl (List.cons_ne_nil _ _) hoptions]
  simp only [List.map_cons]
  rw [formatFiles_of_error ((formatFile_of_reads hpath hreads).trans (formatText_of_error hsound hformat))]
  rfl

end Command

end ScriptTidy
