/-
What a run needs of the files that it works on, and how a file is replaced: the new text is first
drafted beside the file, and takes its place when the backup has been made. `Disk.lean` holds a
model of the files in memory.
-/
import ScriptTidy.Command.Path
import ScriptTidy.Text.Display
import ScriptTidy.Text.Utf8

namespace ScriptTidy

/-! ## Faults -/

/-- Why something cannot be done with a file. -/
inductive FileFlaw where
  | missing
  | notDirectory
  | isDirectory
  | nameTooLong
  /-- Another reason that the system gives. -/
  | other (number : Nat) (reason : String)
deriving DecidableEq, Repr

/-- The number of a flaw. -/
def FileFlaw.number : FileFlaw → Nat
  | missing => 2
  | notDirectory => 20
  | isDirectory => 21
  | nameTooLong => 36
  | other number _ => number

/-- The words for a flaw. -/
def FileFlaw.reason : FileFlaw → String
  | missing => "No such file or directory"
  | notDirectory => "Not a directory"
  | isDirectory => "Is a directory"
  | nameTooLong => "File name too long"
  | other _ reason => reason

/-- A flaw with the path that it was met on, and the path that a file was to be moved to. -/
structure FileFault where
  flaw : FileFlaw
  path : Path
  target : Option Path
deriving DecidableEq, Repr

/-- The words for a fault. -/
def FileFault.message (f : FileFault) : String :=
  let target := match f.target with
    | some target => " -> " ++ Text.shown target.display
    | none => ""
  "[Errno " ++ toString f.flaw.number ++ "] " ++ f.flaw.reason ++ ": "
    ++ Text.shown f.path.display ++ target

/-! ## Files -/

/-- Files, and a clock. -/
class Files (m : Type → Type) where
  /-- A text that is not yet a file of its own. -/
  Draft : Type
  /-- The bytes of a file. -/
  read (path : Path) : m (Except FileFault (List UInt8))
  /-- Drafts a text beside a file, with the same rights. -/
  draft (path : Path) (bytes : List UInt8) : m (Except FileFault Draft)
  /-- Gives a file another name. A file that has the name already is lost. -/
  move (source target : Path) : m (Except FileFault Unit)
  /-- Makes a draft a file. A file that has the name already is lost. -/
  publish (draft : Draft) (path : Path) : m (Except FileFault Unit)
  /-- Throws a draft away. -/
  discard (draft : Draft) : m Unit
  /-- The time in nanoseconds since some moment. -/
  now : m Nat

namespace Files

variable {m : Type → Type} [Monad m] [Files m]

/-- Makes a draft the file of a path. What was there becomes the backup, if one is to be kept. -/
def install (draft : Draft m) (path : Path) (keepsBackup : Bool) : m (Except FileFault Unit) := do
  let kept ← if keepsBackup then move path path.backup else pure (.ok ())
  match kept with
  | .error fault => return .error fault
  | .ok () => publish draft path

/-- Puts a text in the place of a file. No draft is left, whatever happens. -/
def replace (path : Path) (text : String) (keepsBackup : Bool) : m (Except FileFault Unit) := do
  match ← draft path (Text.encodeUtf8 text) with
  | .error fault => return .error fault
  | .ok d =>
    match ← install d path keepsBackup with
    | .ok () => return .ok ()
    | .error fault =>
      discard d
      return .error fault

end Files

end ScriptTidy
