/-
Paths. `Path.ofString` drops repeated slashes and single points; a step upwards stays, since only
the files can tell where it leads.
-/

namespace ScriptTidy

/-- A path: where it starts, if not at the working directory, and the names on the way. -/
structure Path where
  root : String
  names : List String
deriving DecidableEq, Repr

namespace Path

/-- The slashes in front of a path that matter: two of them are kept, and any other number counts as
one. -/
def rootOf (s : List Char) : String :=
  match (s.takeWhile (· == '/')).length with
  | 0 => ""
  | 2 => "//"
  | _ => "/"

/-- The parts of a text between slashes. -/
def parts : List Char → List (List Char)
  | [] => [[]]
  | c :: rest =>
    if c = '/' then [] :: parts rest
    else
      match parts rest with
      | [] => [[c]]
      | first :: others => (c :: first) :: others

/-- The path that a text denotes. -/
def ofString (s : String) : Path where
  root := rootOf s.toList
  names := ((parts s.toList).map String.ofList).filter fun name => name ≠ "" ∧ name ≠ "."

/-- The path as a text. -/
def display (p : Path) : String :=
  if p.root = "" ∧ p.names = [] then "." else p.root ++ "/".intercalate p.names

/-- The path of the backup: the last name has an ending more. -/
def backup (p : Path) : Path where
  root := p.root
  names :=
    match p.names.getLast? with
    | some name => p.names.dropLast ++ [name ++ ".bak"]
    | none => p.names

/-- The path of another file in the same directory. -/
def sibling (p : Path) (name : String) : Path := { p with names := p.names.dropLast ++ [name] }

/-- The path of a draft for the file: it is hidden, and has a stamp in its name to tell it from others. -/
def draft (p : Path) (stamp : String) : Path :=
  p.sibling ("." ++ p.names.getLast?.getD "" ++ "." ++ stamp ++ ".tmp")

end Path

end ScriptTidy
