/-
Reading the arguments of the command line. Flags may be abbreviated, letters joined, and values
attached; a double hyphen ends the flags. All arguments are classified before the first flag takes
effect, so an ambiguous abbreviation is found wherever it stands.
-/
import ScriptTidy.Command.Flag
import ScriptTidy.Number.Numeral
import ScriptTidy.Text.Category
import ScriptTidy.Text.Display

namespace ScriptTidy.Command

/-! ## Faults -/

/-- Why the arguments make no sense. -/
inductive UsageFault where
  | ambiguous (argument : String) (candidates : List Flag)
  | ignoredValue (flag : Flag) (value : String)
  | missingValue (flag : Flag)
  | badWidth (flag : Flag) (value : String)
  | unrecognized (arguments : List String)
deriving DecidableEq, Repr

/-- The words for a fault of one flag. -/
def flagMessage (flag : Flag) (problem : String) : String :=
  "argument " ++ flag.title ++ ": " ++ problem

/-- The words for a fault. -/
def UsageFault.message : UsageFault → String
  | ambiguous argument candidates =>
    "ambiguous option: " ++ argument ++ " could match "
      ++ ", ".intercalate (candidates.map fun f => "--" ++ f.longName)
  | ignoredValue flag value =>
    flagMessage flag ("ignored explicit argument " ++ Text.shown value)
  | missingValue flag => flagMessage flag "expected one argument"
  | badWidth flag value =>
    flagMessage flag ("expected a positive integer, got " ++ Text.shown value)
  | unrecognized arguments => "unrecognized arguments: " ++ " ".intercalate arguments

/-! ## Words -/

/-- A value attached to the name of a flag. -/
structure Attached where
  /-- An equals sign stands between the name and the value. -/
  hasSign : Bool
  text : List Char
deriving DecidableEq, Repr

/-- A flag by one of its names. -/
structure Use where
  flag : Flag
  /-- The name is the one of a single letter. -/
  isShort : Bool
  attached : Option Attached
deriving DecidableEq, Repr

/-- What an argument is. -/
inductive Word where
  | operand (text : String)
  /-- The double hyphen, after which everything is an operand. -/
  | divider
  | use (use : Use)
  | unknown (text : String)
deriving DecidableEq, Repr

/-- A text up to its first equals sign, and what is attached by that sign. -/
def splitSign (s : List Char) : List Char × Option Attached :=
  match s.dropWhile (· != '=') with
  | [] => (s, none)
  | _ :: value => (s.takeWhile (· != '='), some ⟨true, value⟩)

/-- The text looks like a negative number. -/
def isNegativeNumber (s : List Char) : Bool :=
  let isDigit (c : Char) : Bool := (Text.decimalValue? c.toNat).isSome
  match s with
  | '-' :: rest =>
    let rest := if rest.getLast? = some '\n' then rest.dropLast else rest
    match rest.dropWhile isDigit with
    | [] => !rest.isEmpty
    | '.' :: places => !places.isEmpty && places.all isDigit
    | _ => false
  | _ => false

/-- The flags that an argument may mean which is not itself the name of one. -/
def candidates (s : List Char) : List Use :=
  match s with
  | '-' :: '-' :: _ =>
    let (name, attached) := splitSign s
    (Flag.startingWith (String.ofList name)).map fun f => ⟨f, false, attached⟩
  | '-' :: c :: rest => ((Flag.ofLetter? c).map fun f => ⟨f, true, some ⟨false, rest⟩⟩).toList
  | _ => []

/-- The name is the one of a single letter. -/
def isShortName (s : List Char) : Bool := s.length == 2

/-- The flag that an argument names in full, possibly with a value after an equals sign. -/
def exactUse? (s : List Char) : Option Use :=
  match Flag.ofName? (String.ofList s) with
  | some f => some ⟨f, isShortName s, none⟩
  | none =>
    match splitSign s with
    | (name, some attached) =>
      (Flag.ofName? (String.ofList name)).map fun f => ⟨f, isShortName name, some attached⟩
    | (_, none) => none

/-- What an argument is before the double hyphen. -/
def classify (argument : String) : Except UsageFault Word :=
  let s := argument.toList
  if s.head? != some '-' || s == ['-'] then .ok (.operand argument)
  else
    match exactUse? s with
    | some use => .ok (.use use)
    | none =>
      match candidates s with
      | [use] => .ok (.use use)
      | [] =>
        if isNegativeNumber s || s.contains ' ' then .ok (.operand argument)
        else .ok (.unknown argument)
      | uses => .error (.ambiguous argument (uses.map (·.flag)))

/-- What the arguments are. -/
def classifyAll : List String → Except UsageFault (List Word)
  | [] => .ok []
  | argument :: rest =>
    if argument = "--" then .ok (.divider :: rest.map .operand)
    else do
      let word ← classify argument
      return word :: (← classifyAll rest)

/-! ## Flags with their values -/

/-- A flag to take effect, with its value. -/
structure Choice where
  flag : Flag
  value : List Char
deriving DecidableEq, Repr

/-- What the name of a flag and the letters joined to it stand for. -/
structure Cluster where
  choices : List Choice
  /-- The last flag has its value in the next argument. -/
  awaits : Option Flag
  /-- What follows a letter that names no flag, with a hyphen in front. -/
  leftover : List String

/-- What is attached to a letter by the letters after it. -/
def attachedBy : List Char → Option Attached
  | [] => none
  | '=' :: rest => some ⟨true, rest⟩
  | rest => some ⟨false, rest⟩

/-- The flags of an argument. Letters may be joined up to the first one that takes a value. -/
def expand (flag : Flag) (isShort : Bool) (attached : Option Attached) :
    Except UsageFault Cluster :=
  match attached with
  | none => .ok (if flag.takesValue then ⟨[], some flag, []⟩ else ⟨[⟨flag, []⟩], none, []⟩)
  | some ⟨hasSign, text⟩ =>
    if flag.takesValue then .ok ⟨[⟨flag, text⟩], none, []⟩
    else
      match isShort, text with
      | true, c :: rest =>
        if hasSign || c = '-' then .error (.ignoredValue flag (String.ofList text))
        else
          match Flag.ofLetter? c with
          | none => .ok ⟨[⟨flag, []⟩], none, [String.ofList ('-' :: text)]⟩
          | some next => do
            let others ← expand next true (attachedBy rest)
            return { others with choices := ⟨flag, []⟩ :: others.choices }
      | _, _ => .error (.ignoredValue flag (String.ofList text))
termination_by (attached.map fun a => a.text.length + 1).getD 0
decreasing_by
  simp only [Option.map_some, Option.getD_some, List.length_cons]
  unfold attachedBy
  split <;> simp_all

/-! ## Invocations -/

/-- What the command line asks to be done with which files. -/
structure Invocation where
  files : List String
  /-- The options that are turned off. -/
  disabled : List OptionName
  stripsBraces : Bool
  keepsBackup : Bool
  /-- The width of the indent, if it consists of spaces. -/
  width : Option Nat
  checksOnly : Bool
  stopsEarly : Bool
  isVerbose : Bool
deriving DecidableEq, Repr

/-- The invocation without any arguments. -/
def Invocation.plain : Invocation := ⟨[], [], false, true, none, false, false, false⟩

/-- What the command line asks for. -/
inductive Request where
  | help
  | version
  | run (invocation : Invocation)
deriving DecidableEq, Repr

/-- Why reading the arguments stops: something is wrong with them, or a flag asks for no more than a
text. -/
inductive Stop where
  | fault (fault : UsageFault)
  | request (request : Request)

namespace Invocation

/-- The width that a text gives. -/
def width? (s : List Char) : Option Nat :=
  match Numeral.integer s with
  | .ok n => if 1 ≤ n then some n.toNat else none
  | .error _ => none

/-- The invocation after a flag has taken effect. -/
def take (i : Invocation) (choice : Choice) : Except Stop Invocation :=
  match choice.flag with
  | .help => .error (.request .help)
  | .version => .error (.request .version)
  | .without option => .ok { i with disabled := option :: i.disabled }
  | .stripBraces => .ok { i with stripsBraces := true }
  | .noBackup => .ok { i with keepsBackup := false }
  | .spaces =>
    match width? choice.value with
    | some width => .ok { i with width := some width }
    | none => .error (.fault (.badWidth .spaces (String.ofList choice.value)))
  | .check => .ok { i with checksOnly := true }
  | .failFast => .ok { i with stopsEarly := true }
  | .verbose => .ok { i with isVerbose := true }

end Invocation

/-- How far reading has come: the invocation so far, whether it has its files, and the arguments
that have no place. -/
structure Progress where
  invocation : Invocation
  hasFiles : Bool
  leftovers : List String

namespace Progress

/-- Takes a run of operands. The first run holds the files, without the first double hyphen in it;
there is no place for another one. -/
def takeOperands (p : Progress) (run : List String) : Progress :=
  if run.isEmpty then p
  else if p.hasFiles then { p with leftovers := p.leftovers ++ run }
  else { p with invocation := { p.invocation with files := run.erase "--" }, hasFiles := true }

/-- Takes the flags of an argument. -/
def takeChoices (p : Progress) (choices : List Choice) (leftover : List String) :
    Except Stop Progress := do
  let invocation ← choices.foldlM Invocation.take p.invocation
  return { p with invocation, leftovers := p.leftovers ++ leftover }

end Progress

/-- Takes the words one after another. `run` holds the operands since the last flag. -/
def takeWords (p : Progress) (run : List String) : List Word → Except Stop Progress
  | [] => .ok (p.takeOperands run)
  | .operand text :: rest => takeWords p (run ++ [text]) rest
  | .divider :: rest => takeWords p (run ++ ["--"]) rest
  | .unknown text :: rest =>
    let p := p.takeOperands run
    takeWords { p with leftovers := p.leftovers ++ [text] } [] rest
  | .use use :: rest => do
    let p := p.takeOperands run
    let cluster ← (expand use.flag use.isShort use.attached).mapError .fault
    match cluster.awaits, rest with
    | none, rest =>
      let p ← p.takeChoices cluster.choices cluster.leftover
      takeWords p [] rest
    | some flag, .operand value :: rest =>
      let p ← p.takeChoices (cluster.choices ++ [⟨flag, value.toList⟩]) cluster.leftover
      takeWords p [] rest
    | some flag, _ => .error (.fault (.missingValue flag))

/-- What the arguments ask for. -/
def readArguments (arguments : List String) : Except UsageFault Request := do
  let words ← classifyAll arguments
  match takeWords ⟨.plain, false, []⟩ [] words with
  | .error (.fault fault) => throw fault
  | .error (.request request) => return request
  | .ok p =>
    if p.leftovers.isEmpty then return .run p.invocation else throw (.unrecognized p.leftovers)

end ScriptTidy.Command
