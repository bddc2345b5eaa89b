/-
What the program does: it formats the files that it is given one after another, or else the standard
input. What is wrong with one file is noted, and the next one follows. A few faults end the program
at once; what has been put out before stays.
-/
import ScriptTidy.Command.Arguments
import ScriptTidy.Command.Files
import ScriptTidy.Session

namespace ScriptTidy.Command

/-! ## Faults and notes -/

/-- What can be wrong with a text that is to be formatted. -/
inductive Trouble where
  | file (fault : FileFault)
  | undecodable (fault : Text.Utf8.Fault)
  | format (fault : FormatFault)
deriving DecidableEq, Repr

/-- The words for a trouble. -/
def Trouble.message : Trouble → String
  | file fault => fault.message
  | undecodable fault => fault.message
  | format fault => fault.message

/-- What ends the program at once. -/
inductive Breakdown where
  | options (fault : OptionFault)
  | session (fault : SessionFault)
  /-- A path holds the character that ends texts for the system. -/
  | badPath

/-- The words for what ends the program. -/
def Breakdown.message : Breakdown → String
  | options fault => fault.message
  | session fault => fault.message
  | badPath => "embedded null byte"

/-- The fault lies in the text, as its author sees it, so it is noted. -/
def noted : FormatFault → Bool
  | .read (.malformed ..) | .read (.unsupported ..) | .read .tooDeep | .attach _ => true
  | _ => false

/-- A line for the error stream. -/
inductive Note where
  | stage (event : Event)
  /-- A file has been formatted, in so many nanoseconds. -/
  | timed (path : Path) (nanoseconds : Nat)
  | failed (name : String) (trouble : Trouble)
  | usage
  | misuse (fault : UsageFault)
deriving DecidableEq, Repr

/-- A time in milliseconds with one place. -/
def milliseconds (nanoseconds : Nat) : String :=
  let tenths := (nanoseconds + 50000) / 100000
  toString (tenths / 10) ++ "." ++ toString (tenths % 10)

/-- The words of a note. -/
def Note.message : Note → String
  | stage event => event.message
  | timed path nanoseconds =>
    "DEBUG jsclean.cli: formatted " ++ path.display ++ " in " ++ milliseconds nanoseconds ++ " ms"
  | failed name trouble => name ++ ": " ++ trouble.message
  | usage => usageLine
  | misuse fault => "jsclean: error: " ++ fault.message

/-! ## Options -/

/-- The named settings of an invocation. -/
def Invocation.settings (i : Invocation) : List (String × ScriptTidy.Setting) :=
  i.disabled.map (fun option => (option.spelling, .bool false)) ++
    (if i.stripsBraces then
      [(OptionName.extraBraces.spelling, .bool false),
        (OptionName.stripBraces.spelling, .bool true)]
    else []) ++
    (i.width.map fun width => ("spaces", ScriptTidy.Setting.integer width)).toList

/-- The options of an invocation. -/
def Invocation.options (i : Invocation) : Except OptionFault Options :=
  Options.ofEntries i.settings

/-! ## Files -/

/-- What became of a file. -/
inductive Outcome where
  | unchanged
  /-- It has been replaced, or would be. -/
  | changed
  | failed (trouble : Trouble)
deriving DecidableEq, Repr

/-- What became of a file, with the notes on it. -/
structure FileReport where
  path : Path
  outcome : Outcome
  notes : List Note
deriving DecidableEq, Repr

/-- What ends the program at a text, with the notes on that text. -/
structure Crash where
  breakdown : Breakdown
  notes : List Note

/-- A file that something is wrong with. -/
def FileReport.failure (path : Path) (notes : List Note) (trouble : Trouble) : FileReport :=
  ⟨path, .failed trouble, notes ++ [.failed path.display trouble]⟩

/-- Notes on the stages that a text goes through, if they are asked for. -/
def stageNotes (i : Invocation) (s : Session) (text : String) : List Note :=
  if i.isVerbose then (s.stages text).map .stage else []

section
variable {m : Type → Type} [Monad m] [Files m]

/-- Writes the result for a file, if it is another text and not merely to be checked. -/
def settle (i : Invocation) (path : Path) (notes : List Note) (result : Formatted) :
    m FileReport := do
  if !result.changed then return ⟨path, .unchanged, notes⟩
  else if i.checksOnly then return ⟨path, .changed, notes⟩
  else
    match ← Files.replace path result.output i.keepsBackup with
    | .ok () => return ⟨path, .changed, notes⟩
    | .error fault => return .failure path notes (.file fault)

/-- Formats the text of a file. -/
def formatText (i : Invocation) (s : Session) (path : Path) (text : String) :
    m (Except Crash (Session × FileReport)) := do
  let started ← Files.now
  let (result, after) := s.format text
  let notes := stageNotes i s text
  match result with
  | .ok memory =>
    let finished ← Files.now
    let timed := if i.isVerbose then [.timed path (finished - started)] else []
    let report ← settle i path (notes ++ timed) memory.result
    return .ok (after, report)
  | .error (.format fault) =>
    if noted fault then return .ok (after, .failure path notes (.format fault))
    else return .error ⟨.session (.format fault), notes⟩
  | .error fault => return .error ⟨.session fault, notes⟩

/-- Formats a file. -/
def formatFile (i : Invocation) (s : Session) (path : Path) :
    m (Except Crash (Session × FileReport)) := do
  if path.display.contains '\x00' then return .error ⟨.badPath, []⟩
  else
    match ← Files.read path with
    | .error fault => return .ok (s, .failure path [] (.file fault))
    | .ok bytes =>
      match Text.decodeUtf8 bytes with
      | .error fault => return .ok (s, .failure path [] (.undecodable fault))
      | .ok text => formatText i s path (String.ofList text)

/-- The report is the last one: something was wrong, and the invocation asks to stop then. -/
def isLast (i : Invocation) (report : FileReport) : Bool :=
  match report.outcome with
  | .failed _ => i.stopsEarly
  | _ => false

/-- Formats files one after another, and tells what ended the program if there are more of them. -/
def formatFiles (i : Invocation) : Session → List Path → m (List FileReport × Option Crash)
  | _, [] => return ([], none)
  | s, path :: rest => do
    match ← formatFile i s path with
    | .error crash => return ([], some crash)
    | .ok (s, report) =>
      if isLast i report then return ([report], none)
      else
        let (reports, crash?) ← formatFiles i s rest
        return (report :: reports, crash?)

end

/-! ## Reports -/

/-- What a run has put out, and its status. -/
structure Report where
  status : Nat
  /-- The text for the standard output. -/
  output : String
  notes : List Note
deriving DecidableEq, Repr

/-- What a run comes to: a report on what it has done, and what has ended it, if it was ended at once. -/
structure Conclusion where
  report : Report
  breakdown? : Option Breakdown

/-- The report of a run that has come to its end. -/
def Conclusion.result (c : Conclusion) : Except Breakdown Report :=
  match c.breakdown? with
  | some breakdown => .error breakdown
  | none => .ok c.report

/-- The file makes the run fail. -/
def FileReport.fails (i : Invocation) (r : FileReport) : Bool :=
  match r.outcome with
  | .unchanged => false
  | .changed => i.checksOnly
  | .failed _ => true

/-- The lines for the standard output: the path of a file that changes. -/
def FileReport.output (r : FileReport) : String :=
  match r.outcome with
  | .changed => r.path.display ++ "\n"
  | _ => ""

/-- The report on all files. -/
def Report.ofFiles (i : Invocation) (reports : List FileReport) : Report where
  status := if reports.any (·.fails i) then 1 else 0
  output := String.join (reports.map FileReport.output)
  notes := reports.flatMap FileReport.notes

/-- What the files come to. A run that is ended at once fails. -/
def Conclusion.ofFiles (i : Invocation) (reports : List FileReport) (crash? : Option Crash) : Conclusion :=
  let report := Report.ofFiles i reports
  match crash? with
  | none => ⟨report, none⟩
  | some crash => ⟨⟨1, report.output, report.notes ++ crash.notes⟩, some crash.breakdown⟩

/-- The text with every end of a line as a single character. -/
def universalLines : List Char → List Char
  | '\r' :: '\n' :: rest => '\n' :: universalLines rest
  | '\r' :: rest => '\n' :: universalLines rest
  | c :: rest => c :: universalLines rest
  | [] => []

/-- The name of the standard input in notes. -/
def inputName : String := "<stdin>"

/-- Formats the standard input to the standard output. -/
def formatInput (i : Invocation) (s : Session) (input : List UInt8) : Conclusion :=
  match Text.decodeUtf8 input with
  | .error fault => ⟨⟨1, "", [.failed inputName (.undecodable fault)]⟩, none⟩
  | .ok text =>
    let text := String.ofList (universalLines text)
    let notes := stageNotes i s text
    match (s.format text).1 with
    | .ok memory => ⟨⟨0, memory.result.output, notes⟩, none⟩
    | .error (.format fault) =>
      if noted fault then ⟨⟨1, "", notes ++ [.failed inputName (.format fault)]⟩, none⟩
      else ⟨⟨1, "", notes⟩, some (.session (.format fault))⟩
    | .error fault => ⟨⟨1, "", notes⟩, some (.session fault)⟩

/-- Does what an invocation asks for. -/
def Invocation.perform {m : Type → Type} [Monad m] [Files m] (i : Invocation)
    (input : List UInt8) : m Conclusion := do
  match i.options with
  | .error fault => return ⟨⟨1, "", []⟩, some (.options fault)⟩
  | .ok options =>
    let s := Session.new options Session.standardCapacity
    if i.files.isEmpty then return formatInput i s input
    else
      let (reports, crash?) ← formatFiles i s (i.files.map Path.ofString)
      return .ofFiles i reports crash?

/-- The arguments ask for the standard input to be formatted. -/
def readsInput (arguments : List String) : Bool :=
  match readArguments arguments with
  | .ok (.run i) => i.files.isEmpty
  | _ => false

/-- Does what the arguments ask for. -/
def conclude {m : Type → Type} [Monad m] [Files m] (arguments : List String) (input : List UInt8) :
    m Conclusion := do
  match readArguments arguments with
  | .error fault => return ⟨⟨2, "", [.usage, .misuse fault]⟩, none⟩
  | .ok .help => return ⟨⟨0, helpText, []⟩, none⟩
  | .ok .version => return ⟨⟨0, versionLine ++ "\n", []⟩, none⟩
  | .ok (.run i) => i.perform input

/-- Does what the arguments ask for, for a caller who asks for the report of a run that comes to its end. -/
def run {m : Type → Type} [Monad m] [Files m] (arguments : List String) (input : List UInt8) :
    m (Except Breakdown Report) := do
  return (← conclude arguments input).result

end ScriptTidy.Command
