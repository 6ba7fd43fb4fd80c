import AddressProtocols.CommandLine.Folder
import AddressProtocols.CommandLine.Match
import AddressProtocols.Registry
import AddressProtocols.Text.SystemBytes

/-!
# The program

The commands of the program and what they print:

* `protocols` lists the registered protocols, `lookup` shows one by name or code, `path` those of a
  path; all three can register the protocols of a table file first;
* `varint encode` and `varint decode` convert between integers and hexadecimal varints;
* `version` prints the version.

`Invocation` is what a command line asks for, `Invocation.read` finds it out, `perform` does it and
`run` does that for a whole command line.  An `Action` prints line by line and may get into trouble
in between; what it has printed stays printed.  `row` is the line that shows a descriptor.  A table
file is read through a function that is handed to `run`, so the program itself is a function of its
arguments and the files.  A `Breakage` is why a run can end without an answer.
-/

namespace AddressProtocols

def version : Text := Text.ofString "0.1.0"

namespace CommandLine

/-! ### Levels -/

def programName : Text := Text.ofString "maddr"

def tableFlag : Flag :=
  ⟨[Text.ofString "--protocols", Text.ofString "-p"], .value (Text.ofString "FILE"),
    Text.ofString "Register extra protocols from a JSON table"⟩

inductive Command where
  | protocols
  | lookup
  | path
  | varint
  | version
  deriving DecidableEq, Repr

inductive VarintCommand where
  | encode
  | decode
  deriving DecidableEq, Repr

namespace VarintCommand

def all : List VarintCommand := [encode, decode]

def name : VarintCommand → Text
  | encode => Text.ofString "encode"
  | decode => Text.ofString "decode"

def help : VarintCommand → Text
  | encode => Text.ofString "Integer to hex varint"
  | decode => Text.ofString "Hex varint to integer"

def level (c : VarintCommand) : Level where
  program := programName ++ Text.ofString " varint " ++ c.name
  description := []
  flags := [helpFlag]
  tail := match c with
    | encode => .integer (Text.ofString "value")
    | decode => .text (Text.ofString "HEX")

end VarintCommand

namespace Command

def all : List Command := [protocols, lookup, path, varint, version]

def name : Command → Text
  | protocols => Text.ofString "protocols"
  | lookup => Text.ofString "lookup"
  | path => Text.ofString "path"
  | varint => Text.ofString "varint"
  | version => Text.ofString "version"

def help : Command → Text
  | protocols => Text.ofString "List registered protocols"
  | lookup => Text.ofString "Show one protocol by name or code"
  | path => Text.ofString "Resolve a slash-delimited list of protocol names"
  | varint => Text.ofString "Encode or decode an unsigned varint"
  | version => Text.ofString "Print version and exit"

def level (c : Command) : Level where
  program := programName ++ spaces 1 ++ c.name
  description := []
  flags := match c with
    | protocols | lookup | path => [helpFlag, tableFlag]
    | varint | version => [helpFlag]
  tail := match c with
    | protocols | version => .nothing
    | lookup => .text (Text.ofString "NAME_OR_CODE")
    | path => .text (Text.ofString "STRING")
    | varint =>
      .command (Text.ofString "varint_command") true
        (VarintCommand.all.map fun v => (v.name, v.help))

end Command

def topLevel : Level where
  program := programName
  description :=
    Text.ofString "maddr: protocol registry and varint codec for self-describing addresses"
  flags := [helpFlag]
  tail := .command (Text.ofString "command") false (Command.all.map fun c => (c.name, c.help))

/-! ### Invocations -/

/-- What a command line asks for.  `table` is the path of a table file. -/
inductive Invocation where
  | nothing
  | protocols (table : Option Text)
  | lookup (table : Option Text) (key : Text)
  | path (table : Option Text) (path : Text)
  | encode (n : Int)
  | decode (hex : Text)
  | version
  deriving DecidableEq, Repr

namespace Invocation

/-- What the arguments of a command of `varint` ask for, and which of them are left over. -/
def readVarint (c : VarintCommand) (args : List Text) :
    Except Outcome (Invocation × List Text) := do
  let reading ← c.level.read args
  match reading.found with
  | some (.integer n) => return (encode n, reading.extras)
  | some (.text hex) => return (decode hex, reading.extras)
  | _ => return (nothing, reading.extras)

/-- What the arguments of a command ask for, and which of them are left over. -/
def readCommand (c : Command) (args : List Text) : Except Outcome (Invocation × List Text) := do
  let reading ← c.level.read args
  match c, reading.found with
  | .protocols, _ => return (protocols reading.value, reading.extras)
  | .lookup, some (.text key) => return (lookup reading.value key, reading.extras)
  | .path, some (.text names) => return (path reading.value names, reading.extras)
  | .varint, some (.command name rest) =>
    match VarintCommand.all.find? fun v => v.name = name with
    | some v =>
      let (invocation, extras) ← readVarint v rest
      return (invocation, reading.extras ++ extras)
    | none => return (nothing, reading.extras)
  | .version, _ => return (version, reading.extras)
  | _, _ => return (nothing, reading.extras)

/-- What the operand of the program's own level asks for, and which arguments are left over. -/
def readChosen : Option Found → Except Outcome (Invocation × List Text)
  | some (.command name rest) =>
    match Command.all.find? fun c => c.name = name with
    | some c => readCommand c rest
    | none => .ok (nothing, [])
  | _ => .ok (nothing, [])

/-- Arguments that no level takes are an error of the program's own level. -/
def requireNoneLeft (invocation : Invocation) : List Text → Except Outcome Invocation
  | [] => .ok invocation
  | left =>
    .error (topLevel.fail (Text.ofString "unrecognized arguments: " ++
      List.intercalate (spaces 1) left))

/-- What a command line asks for. -/
def read (args : List Text) : Except Outcome Invocation := do
  let reading ← topLevel.read args
  let (invocation, extras) ← readChosen reading.found
  requireNoneLeft invocation (reading.extras ++ extras)

/-- The path of the table file that an invocation reads, if it reads one. -/
def table? : Invocation → Option Text
  | protocols table => table
  | lookup table _ => table
  | path table _ => table
  | _ => none

end Invocation

/-! ### Rows -/

/-- Five fields in columns; a field that is too long moves the rest to the right. -/
def columns (code name size path tag : Text) : Text :=
  code.padLeft 6 ++ spaces 2 ++ name.padRight 10 ++ spaces 1 ++ size.padLeft 5 ++ spaces 2 ++
    path.padRight 4 ++ spaces 2 ++ tag

def header : Text :=
  columns (Text.ofString "CODE") (Text.ofString "NAME") (Text.ofString "SIZE")
    (Text.ofString "PATH") (Text.ofString "TAG")

def row (d : Descriptor) : Text :=
  columns (Text.ofNat d.code) d.name d.sizeLabel
    (Text.ofString (if d.path then "path" else "-")) (Text.ofBytes d.tag)

/-! ### Running -/

/-- Why a run breaks off: an argument cannot be converted to what it stands for. -/
inductive Breakage where
  /-- A numeral has more digits than are converted. -/
  | longNumeral
  /-- A path has a null character, which no path of the system has. -/
  | nullInPath
  /-- A path has a surrogate that spells no byte. -/
  | surrogateInPath
  deriving DecidableEq, Repr

inductive Ending where
  | exit (outcome : Outcome)
  /-- The run ends without an answer. -/
  | brokenOff (cause : Breakage)
  deriving DecidableEq, Repr

inductive Trouble where
  | failure (f : Failure)
  | unreadable (fault : ReadFault) (path : Text)
  | notHex (t : Text)
  | brokenOff (cause : Breakage)

/-- The end of a run in trouble that has printed something before: a report on the error stream,
status 2. -/
def Trouble.ending (printed : Text) : Trouble → Ending
  | failure f =>
    complain (Text.ofString ": error [" ++ f.code.text ++ Text.ofString "]: " ++ f.message)
  | unreadable fault path =>
    complain (Text.ofString ": cannot read protocol table: " ++ fault.message path)
  | notHex t => complain (Text.ofString ": not a hex string: " ++ t.quoted)
  | brokenOff cause => .brokenOff cause
where
  /-- The end of a run that complains. -/
  complain (message : Text) : Ending := .exit ⟨2, printed, programName ++ message ++ [newline]⟩

/-- A computation that prints and may get into trouble; its state is what has been printed. -/
abbrev Action := ExceptT Trouble (StateM Text)

/-- Prints a line. -/
def print (line : Text) : Action Unit := modify (· ++ line ++ [newline])

def printRows (ds : List Descriptor) : Action Unit := ds.forM fun d => print (row d)

/-- The path that a text spells.  Surrogates are looked at first, then null characters. -/
def systemPath (t : Text) : Except Trouble Path :=
  match t.systemBytes? with
  | none => .error (.brokenOff .surrogateInPath)
  | some bytes => if bytes.contains 0 then .error (.brokenOff .nullInPath) else .ok bytes

section Running

variable (readFile : Path → Except ReadFault (List UInt8))

/-- The registry of the built-in protocols and those of a table file; an empty path means none. -/
def loadRegistry : Option Text → Except Trouble Registry
  | none => .ok .builtin
  | some [] => .ok .builtin
  | some path => do
    let bytes ← systemPath path
    match readFile bytes with
    | .error fault => .error (.unreadable fault path)
    | .ok contents => (Registry.builtin.load (.bytes contents)).map (·.1) |>.mapError .failure

/-- The descriptor of a key: a code if it consists of decimal digits, else a name. -/
def lookupKey (r : Registry) (key : Text) : Except Trouble Descriptor :=
  if key.isDecimal then
    match key.nat? with
    | none => .error (.brokenOff .longNumeral)
    | some code =>
      match r.findCode code with
      | none => .error (.failure (.unknownCode code))
      | some d => .ok d
  else
    match r.findName key with
    | none => .error (.failure (.unknownName key))
    | some d => .ok d

/-- Does what an invocation asks for. -/
def perform : Invocation → Action Unit
  | .nothing => return
  | .protocols table => do
    let r ← loadRegistry readFile table
    print header
    printRows r.protocols
  | .lookup table key => do
    let r ← loadRegistry readFile table
    let d ← lookupKey r key
    print (row d)
  | .path table path => do
    let r ← loadRegistry readFile table
    let ds ← (r.parsePath path).mapError Trouble.failure
    printRows ds
  | .encode n => do
    let bytes ← (Varint.encodeInt? n).mapError fun fault => Trouble.failure (.varintRange fault)
    print (Text.ofBytes bytes)
  | .decode hex =>
    match hex.bytes? with
    | none => throw (.notHex hex)
    | some bytes => do
      let (v, n) ← (Varint.decodeFrom bytes 0).mapError fun fault => Trouble.failure (.varint fault)
      print (Text.ofNat v ++ Text.ofString " (" ++ Text.ofNat n ++ Text.ofString " bytes)")
  | .version => print (programName ++ spaces 1 ++ AddressProtocols.version)

/-- Runs a command line.  Without a command the help text is printed and the status is 1. -/
def run (args : List Text) : Ending :=
  match Invocation.read args with
  | .error outcome => .exit outcome
  | .ok .nothing => .exit ⟨1, topLevel.help, []⟩
  | .ok invocation =>
    match perform readFile invocation [] with
    | (.error trouble, printed) => trouble.ending printed
    | (.ok (), printed) => .exit ⟨0, printed, []⟩

end Running

end CommandLine

end AddressProtocols
