import AddressProtocols.Text.Quoted

/-!
# Levels of a command line

A command line has levels: the program itself, its commands, and the commands of those.  Each level
has options, and at most one thing that is not an option: an operand, or the choice of a command of
the next level.

* `CommandLine.Level` describes a level;
* `Level.usage` and `Level.help` are its usage line and its help text;
* `Outcome` is how a run ends, `Level.fail` ends it with a usage error.

Help is laid out for 80 columns: every help text fits beside or under its label, so no line is
folded.
-/

namespace AddressProtocols

namespace CommandLine

/-- How a run ends: the exit status and what was printed. -/
structure Outcome where
  status : Nat
  stdout : Text
  stderr : Text
  deriving DecidableEq, Repr

inductive OptionKind where
  | help
  /-- Takes one value, shown as `label`. -/
  | value (label : Text)
  deriving DecidableEq, Repr

structure Flag where
  names : List Text
  kind : OptionKind
  help : Text
  deriving DecidableEq, Repr

inductive Tail where
  | nothing
  /-- A text, which must be there. -/
  | text (label : Text)
  /-- An integer, which must be there. -/
  | integer (label : Text)
  /-- A command of the next level and everything after it; each command has a help text. -/
  | command (label : Text) (required : Bool) (commands : List (Text × Text))
  deriving DecidableEq, Repr

/-- A level of a command line.  `program` is what messages call it. -/
structure Level where
  program : Text
  description : Text
  flags : List Flag
  tail : Tail
  deriving DecidableEq, Repr

def newline : CodePoint := .scalar '\n'

def spaces (n : Nat) : Text := List.replicate n (.scalar ' ')

def helpFlag : Flag :=
  ⟨[Text.ofString "-h", Text.ofString "--help"], .help,
    Text.ofString "show this help message and exit"⟩

namespace Flag

/-- The option in the usage line: its first name and its value, in brackets. -/
def usage (f : Flag) : Text :=
  let name := f.names.headD []
  let value := match f.kind with
    | .help => []
    | .value label => .scalar ' ' :: label
  .scalar '[' :: name ++ value ++ [.scalar ']']

/-- The option in the help text: all its names, each with the value. -/
def label (f : Flag) : Text :=
  Text.listed (f.names.map fun name => match f.kind with
    | .help => name
    | .value label => name ++ .scalar ' ' :: label)

/-- The option in error messages: all its names between slashes. -/
def title (f : Flag) : Text := List.intercalate [.scalar '/'] f.names

end Flag

namespace Tail

def braced (commands : List (Text × Text)) : Text :=
  .scalar '\x7b' :: List.intercalate [.scalar ','] (commands.map (·.1)) ++ [.scalar '\x7d']

/-- What the usage line says of it. -/
def usage : Tail → List Text
  | nothing => []
  | text label => [label]
  | integer label => [label]
  | command _ _ commands => [braced commands ++ Text.ofString " ..."]

/-- What error messages call it, if it must be there. -/
def required? : Tail → Option Text
  | nothing => none
  | text label => some label
  | integer label => some label
  | command label required _ => if required then some label else none

end Tail

/-! ### Help -/

/-- A line of the help text: a label and what it means. -/
structure HelpRow where
  indent : Nat
  label : Text
  help : Text

namespace HelpRow

/-- The row with its help text in a column, under the label if that is too long. -/
def render (column : Nat) (row : HelpRow) : Text :=
  let width := column - row.indent - 2
  let label := spaces row.indent ++ row.label
  if row.help.isEmpty then label ++ [newline]
  else if row.label.length ≤ width then
    spaces row.indent ++ row.label.padRight width ++ spaces 2 ++ row.help ++ [newline]
  else label ++ newline :: spaces column ++ row.help ++ [newline]

end HelpRow

namespace Level

def usage (level : Level) : Text :=
  Text.ofString "usage: " ++
    List.intercalate (spaces 1)
      (level.program :: level.flags.map Flag.usage ++ level.tail.usage) ++ [newline]

/-- The help rows of what is not an option. -/
def tailRows (level : Level) : List HelpRow :=
  match level.tail with
  | .nothing => []
  | .text label => [⟨2, label, []⟩]
  | .integer label => [⟨2, label, []⟩]
  | .command _ _ commands =>
    ⟨2, Tail.braced commands, []⟩ :: commands.map fun (name, help) => ⟨4, name, help⟩

/-- The help rows of the options. -/
def flagRows (level : Level) : List HelpRow :=
  level.flags.map fun f => ⟨2, f.label, f.help⟩

/-- Where the help texts start: past the longest label, but never past column 24. -/
def helpColumn (level : Level) : Nat :=
  let labels := (level.tailRows ++ level.flagRows).map (·.label.length)
  min 24 (labels.foldl max 0 + 4)

/-- A titled block of help rows; without rows there is no block. -/
def block (level : Level) (title : String) (rows : List HelpRow) : Text :=
  if rows.isEmpty then []
  else newline :: Text.ofString title ++ newline :: rows.flatMap (HelpRow.render level.helpColumn)

def help (level : Level) : Text :=
  let description :=
    if level.description.isEmpty then [] else newline :: level.description ++ [newline]
  level.usage ++ description ++ level.block "positional arguments:" level.tailRows ++
    level.block "options:" level.flagRows

/-- The end of a run whose command line is wrong at this level. -/
def fail (level : Level) (message : Text) : Outcome :=
  ⟨2, [], level.usage ++ level.program ++ Text.ofString ": error: " ++ message ++ [newline]⟩

end Level

end CommandLine

end AddressProtocols
