/-
Files in memory: a directory with everything below it. Nothing is known of what lies outside but
that it consists of directories with no other names in them.
-/
import ScriptTidy.Command.Files

namespace ScriptTidy

/-! ## Entries -/

/-- A file with its bytes and rights, or a directory. -/
inductive Entry where
  | file (bytes : List UInt8) (rights : Nat)
  | directory
deriving DecidableEq, Repr

/-- What lies below the working directory, each entry by the names that lead to it, and the drafts
that are not yet files. -/
structure Disk where
  entries : List (List String × Entry)
  drafts : List Entry
deriving DecidableEq, Repr

namespace Disk

/-- The disk with no files. -/
def empty : Disk := ⟨[], []⟩

/-- The entry that some names lead to. -/
def find? (d : Disk) (names : List String) : Option Entry :=
  if names = [] then some .directory else d.entries.lookup names

/-- The disk without an entry. -/
def erase (d : Disk) (names : List String) : Disk :=
  { d with entries := d.entries.filter (·.1 != names) }

/-- The disk with an entry in the place of any other one of its names. -/
def set (d : Disk) (names : List String) (entry : Entry) : Disk :=
  { d with entries := (names, entry) :: (d.erase names).entries }

/-! ## Walks -/

/-- Where a walk has come to. -/
inductive Place where
  | below (names : List String)
  | outside
deriving DecidableEq, Repr

/-- The most bytes that a name may have. -/
def maxNameBytes : Nat := 255

/-- The most bytes that a path may have. -/
def maxPathBytes : Nat := 4095

/-- A step from a directory to a name in it. There need not be an entry of that name. -/
def enter (d : Disk) (place : Place) (name : String) : Except FileFlaw Place :=
  match place with
  | .outside =>
    if name = ".." then .ok .outside
    else if name.utf8ByteSize > maxNameBytes then .error .nameTooLong
    else .error .missing
  | .below names =>
    match d.find? names with
    | none => .error .missing
    | some (.file ..) => .error .notDirectory
    | some .directory =>
      if name = ".." then .ok (if names = [] then .outside else .below names.dropLast)
      else if name.utf8ByteSize > maxNameBytes then .error .nameTooLong
      else .ok (.below (names ++ [name]))

/-- Where a path leads. -/
def walk (d : Disk) (path : Path) : Except FileFlaw Place :=
  if path.display.utf8ByteSize > maxPathBytes then .error .nameTooLong
  else path.names.foldlM d.enter (if path.root = "" then .below [] else .outside)

/-- The names and the contents of the file that a path leads to. -/
def file (d : Disk) (path : Path) : Except FileFlaw (List String × List UInt8 × Nat) := do
  match ← d.walk path with
  | .outside => throw .isDirectory
  | .below names =>
    match d.find? names with
    | none => throw .missing
    | some .directory => throw .isDirectory
    | some (.file bytes rights) => return (names, bytes, rights)

/-- A stamp of a draft. Any other one of as many characters would do. -/
def stamp : String := "________"

/-- The names of a path that a file can be put at. -/
def slot (d : Disk) (path : Path) : Except FileFlaw (List String) := do
  match ← d.walk path with
  | .outside => throw .isDirectory
  | .below names => if d.find? names = some .directory then throw .isDirectory else return names

/-! ## Actions -/

/-- The disk after a file has got another name. -/
def moved (d : Disk) (source target : Path) : Except FileFlaw Disk := do
  let (names, bytes, rights) ← d.file source
  let others ← d.slot target
  return (d.erase names).set others (.file bytes rights)

/-- The disk after a draft has become a file. -/
def published (d : Disk) (draft : Entry) (path : Path) : Except FileFlaw Disk := do
  let names ← d.slot path
  return { d.set names draft with drafts := d.drafts.erase draft }

end Disk

open Disk in
instance : Files (StateM Disk) where
  Draft := Entry
  read path := do
    match (← get).file path with
    | .ok (_, bytes, _) => return .ok bytes
    | .error flaw => return .error ⟨flaw, path, none⟩
  draft path bytes := do
    match (← get).file path with
    | .ok (_, _, rights) =>
      match (← get).walk (path.draft stamp) with
      | .ok _ =>
        let entry := Entry.file bytes rights
        modify fun d => { d with drafts := entry :: d.drafts }
        return .ok entry
      | .error flaw => return .error ⟨flaw, path.draft stamp, none⟩
    | .error flaw => return .error ⟨flaw, path, none⟩
  move source target := do
    match (← get).moved source target with
    | .ok d =>
      set d
      return .ok ()
    | .error flaw => return .error ⟨flaw, source, some target⟩
  publish draft path := do
    match (← get).published draft path with
    | .ok d =>
      set d
      return .ok ()
    | .error flaw => return .error ⟨flaw, path, none⟩
  discard draft := modify fun d => { d with drafts := d.drafts.erase draft }
  now := pure 0

end ScriptTidy
