/-
The program: the files are those of the system, and the report goes to the standard streams.
-/
import ScriptTidy.Command.Run

namespace ScriptTidy

/-- The number of an error without its sign. -/
def absolute (code : UInt32) : Nat := code.toInt32.toInt.natAbs

/-- The number that the system has for an error, and its reason. -/
def systemReason (e : IO.Error) : Nat × String :=
  match e with
  | .noFileOrDirectory _ code reason | .interrupted _ code reason | .invalidArgument _ code reason
  | .permissionDenied _ code reason | .resourceExhausted _ code reason
  | .inappropriateType _ code reason | .noSuchThing _ code reason | .alreadyExists _ code reason
  | .otherError code reason | .resourceBusy code reason | .resourceVanished code reason
  | .unsupportedOperation code reason | .hardwareFault code reason
  | .unsatisfiedConstraints code reason | .illegalOperation code reason
  | .protocolError code reason | .timeExpired code reason => (absolute code, reason)
  | .unexpectedEof | .userError _ => (5, toString e)

/-- What is wrong with a file by the error of the system. -/
def FileFlaw.ofError (e : IO.Error) : FileFlaw :=
  let (number, reason) := systemReason e
  match [missing, notDirectory, isDirectory, nameTooLong].find? (·.number == number) with
  | some flaw => flaw
  | none => other number reason

/-- An action on files, with its error as a fault. -/
def attempt {α : Type} (path : Path) (target : Option Path) (action : IO α) :
    IO (Except FileFault α) := do
  match ← action.toBaseIO with
  | .ok a => return .ok a
  | .error e => return .error ⟨.ofError e, path, target⟩

/-- A draft is a hidden file in the directory of the file that it is meant for. It has the rights of
a new file. -/
instance : Files IO where
  Draft := Path
  read path := attempt path none do return (← IO.FS.readBinFile path.display).toList
  draft path bytes := do
    let stamp ← IO.monoNanosNow
    let draft := path.draft (toString stamp)
    attempt draft none do
      let file ← IO.FS.Handle.mk draft.display .writeNew
      try
        file.write ⟨bytes.toArray⟩
        file.flush
      catch e =>
        IO.FS.removeFile draft.display
        throw e
      return draft
  move source target := attempt source (some target) do
    IO.FS.rename source.display target.display
  publish draft path := attempt draft (some path) do IO.FS.rename draft.display path.display
  discard draft := do
    let _ ← attempt draft none (IO.FS.removeFile draft.display)
  now := IO.monoNanosNow

/-- All bytes of a stream. -/
partial def readAll (stream : IO.FS.Stream) (before : ByteArray) : IO ByteArray := do
  let bytes ← stream.read 65536
  if bytes.isEmpty then return before else readAll stream (before ++ bytes)

end ScriptTidy

open ScriptTidy in
def main (arguments : List String) : IO UInt32 := do
  let input ←
    if Command.readsInput arguments then readAll (← IO.getStdin) .empty else pure .empty
  let conclusion ← (Command.conclude arguments input.toList : IO _)
  IO.print conclusion.report.output
  for note in conclusion.report.notes do IO.eprintln note.message
  for breakdown in conclusion.breakdown? do IO.eprintln breakdown.message
  return conclusion.report.status.toUInt32
