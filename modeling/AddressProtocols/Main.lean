import AddressProtocols.CommandLine.Program

/-!
# The executable

Reads the table file that the command line names, if any, runs the program on it, prints what the
program says and ends with its status.
-/

namespace AddressProtocols

namespace CommandLine

/-- The characters of a text; a lone surrogate is shown as the replacement character. -/
def printable (t : Text) : String :=
  String.ofList (t.map fun
    | .scalar c => c
    | .surrogate _ => Char.ofNat 0xFFFD)

/-- The system's number and wording of an error. -/
def faultOf : IO.Error → ReadFault
  | .noFileOrDirectory _ number reason => ⟨number.toNat, Text.ofString reason⟩
  | .inappropriateType _ number reason => ⟨number.toNat, Text.ofString reason⟩
  | .permissionDenied _ number reason => ⟨number.toNat, Text.ofString reason⟩
  | .invalidArgument _ number reason => ⟨number.toNat, Text.ofString reason⟩
  | .otherError number reason => ⟨number.toNat, Text.ofString reason⟩
  | other => ⟨5, Text.ofString (toString other)⟩

/-- The contents of a file.  Only paths in UTF-8 can be opened; no other path is looked for. -/
def readDisk (path : Path) : IO (Except ReadFault (List UInt8)) := do
  match String.fromUTF8? ⟨path.toArray⟩ with
  | none => return .error .notFound
  | some name =>
    try
      let contents ← IO.FS.readBinFile name
      return .ok contents.toList
    catch e => return .error (faultOf e)

/-- Runs a command line against the files on disk. -/
def runOnDisk (args : List Text) : IO Ending := do
  let table := (Invocation.read args).toOption.bind Invocation.table?
  match table.bind Text.systemBytes? with
  | some path =>
    let contents ← readDisk path
    return run (fun _ => contents) args
  | none => return run (fun _ => .error .notFound) args

/-- Runs a command line, prints what it says and gives its status. -/
def execute (args : List String) : IO UInt32 := do
  match ← runOnDisk (args.map Text.ofString) with
  | .exit outcome =>
    (← IO.getStdout).putStr (printable outcome.stdout)
    (← IO.getStderr).putStr (printable outcome.stderr)
    return UInt32.ofNat outcome.status
  | .brokenOff _ => return 1

end CommandLine

end AddressProtocols

def main (args : List String) : IO UInt32 := AddressProtocols.CommandLine.execute args
