import AddressProtocols.CommandLine.Level
import AddressProtocols.Text.Numeral

/-!
# Matching arguments with a level

Before anything is used, every argument is classified: it is an option of the level, known or not,
or it is plain.  The argument `--` separates: whatever follows it is plain.  Then options take their
values and the level's operand takes the first plain argument that no option took; a command takes
everything that follows it.  What nothing takes is left over.

* `Mark` is the class of an argument, `Level.mark` classifies one and `Level.marks` all;
* `Level.useFlag` uses an option, with what is attached to it or follows it;
* `Level.read` matches all arguments: the result is a `Reading`, or the end of the run when help was
  asked for or an argument is wrong.

The matching follows the standard argument parser as it was before its releases 3.11.9 and 3.12.3.
Since then it prints help as soon as the letter of help is read, and takes an attached separator for
a value like any other.  Before, and so here, the letters after that of help are read to the end
first (`Level.showHelpAfter`), and an attached separator takes the value back
(`Level.attachedValue`, which `Level.useFlag` applies to both ways of attaching).
-/

namespace AddressProtocols

namespace CommandLine

/-! ### Classification -/

/-- What is attached to the name of an option in one argument. -/
inductive Attached where
  | nothing
  /-- A text after a long name and an equals sign. -/
  | long (t : Text)
  /-- A text after a one-letter name, right after it or after an equals sign. -/
  | short (t : Text)
  deriving DecidableEq, Repr

inductive Mark where
  | plain
  | separator
  | flag (flag : Flag) (attached : Attached)
  | unknownFlag
  deriving DecidableEq, Repr

/-- The argument that makes all later ones plain. -/
def separator : Text := [.scalar '-', .scalar '-']

/-- Whether a text is one or more decimal digits after a minus sign, or digits with a decimal point
before the last of them; a line feed at the end does not count. -/
def isNegativeNumber (t : Text) : Bool :=
  match (if t.getLast? = some newline then t.dropLast else t) with
  | .scalar '-' :: body =>
    Text.isDecimal body ||
      match body.dropWhile CodePoint.isDigit with
      | .scalar '.' :: fraction => Text.isDecimal fraction
      | _ => false
  | _ => false

namespace Level

def flagNames (level : Level) : List (Text × Flag) :=
  level.flags.flatMap fun f => f.names.map (·, f)

def findFlag (level : Level) (name : Text) : Option Flag := level.flagNames.lookup name

/-- Whether the name of an option is a long one: two minus signs come first. -/
def isLong (name : Text) : Bool := separator.isPrefixOf name

/-- The part of an argument before its first equals sign, and what is attached to it. -/
def splitEquals (arg : Text) : Text × Attached :=
  let name := arg.takeWhile (· != .scalar '=')
  match arg.drop name.length with
  | [] => (name, .nothing)
  | _ :: rest => (name, if isLong name then .long rest else .short rest)

/-- The options an argument may mean when it is no option's name: a long name may be cut short, and
a text may follow a one-letter name directly. -/
def candidates (level : Level) (arg : Text) : List (Text × Mark) :=
  if isLong arg then
    let (start, attached) := splitEquals arg
    level.flagNames.filterMap fun (name, f) =>
      if start.isPrefixOf name then some (name, .flag f attached) else none
  else
    level.flagNames.filterMap fun (name, f) =>
      if name = arg.take 2 then some (name, .flag f (.short (arg.drop 2))) else none

/-- The class of an argument that starts with a minus sign and something after it, and that is no
option's name. -/
def markDashed (level : Level) (arg : Text) : Except Outcome Mark :=
  match level.candidates arg with
  | [(_, mark)] => .ok mark
  | [] =>
    if isNegativeNumber arg || arg.contains (.scalar ' ') then .ok .plain else .ok .unknownFlag
  | several =>
    .error (level.fail (Text.ofString "ambiguous option: " ++ arg ++
      Text.ofString " could match " ++ Text.listed (several.map (·.1))))

/-- The class of an argument before the separator. -/
def mark (level : Level) (arg : Text) : Except Outcome Mark :=
  match arg with
  | .scalar '-' :: rest =>
    match level.findFlag arg, rest with
    | some f, _ => .ok (.flag f .nothing)
    | none, [] => .ok .plain
    | none, _ :: _ =>
      let (name, attached) := splitEquals arg
      match level.findFlag name with
      | some f => .ok (.flag f attached)
      | none => level.markDashed arg
  | _ => .ok .plain

def marks (level : Level) : List Text → Except Outcome (List (Text × Mark))
  | [] => .ok []
  | arg :: rest =>
    if arg = separator then .ok ((arg, .separator) :: rest.map (·, .plain))
    else do
      let m ← level.mark arg
      let ms ← level.marks rest
      return (arg, m) :: ms

/-! ### Options -/

def failFlag (level : Level) (f : Flag) (message : Text) : Outcome :=
  level.fail (Text.ofString "argument " ++ f.title ++ Text.ofString ": " ++ message)

def failAttached (level : Level) (f : Flag) (t : Text) : Outcome :=
  level.failFlag f (Text.ofString "ignored explicit argument " ++ t.quoted)

def showHelp (level : Level) : Outcome := ⟨0, level.help, []⟩

/-- The value that follows an option. -/
def followingValue (level : Level) (f : Flag) : List (Text × Mark) → Except Outcome Text
  | (arg, .plain) :: _ => .ok arg
  | _ => .error (level.failFlag f (Text.ofString "expected one argument"))

/-- The end of a run after the one-letter option `f`, which prints the help text, with more letters
attached: each must be an option again, and they are all checked before the help text is printed,
which later parsers do not do.  What follows an option that takes a value is its value. -/
def showHelpAfter (level : Level) (rest : List (Text × Mark)) (f : Flag) : Text → Outcome
  | [] => level.showHelp
  | letter :: more =>
    match level.findFlag [.scalar '-', letter] with
    | none => level.failAttached f (letter :: more)
    | some next =>
      match next.kind, more with
      | .help, _ => level.showHelpAfter rest next more
      | .value _, _ :: _ => level.showHelp
      | .value _, [] =>
        match level.followingValue next rest with
        | .error outcome => outcome
        | .ok _ => level.showHelp

/-- The value that is attached to an option; an attached separator takes back what was given, while
later parsers take it for the value. -/
def attachedValue (t : Text) : Option Text := if t = separator then none else some t

/-- Uses an option, given what follows it.  Gives its value and how many of the following arguments
it took; help ends the run. -/
def useFlag (level : Level) (f : Flag) (attached : Attached) (rest : List (Text × Mark)) :
    Except Outcome (Option Text × Nat) :=
  match f.kind, attached with
  | .value _, .nothing => (level.followingValue f rest).map (some ·, 1)
  | .value _, .long t => .ok (attachedValue t, 0)
  | .value _, .short t => .ok (attachedValue t, 0)
  | .help, .nothing => .error level.showHelp
  | .help, .long t => .error (level.failAttached f t)
  | .help, .short [] => .error (level.failAttached f [])
  | .help, .short t => .error (level.showHelpAfter rest f t)

end Level

/-! ### Operands -/

/-- What a level's operand took. -/
inductive Found where
  | text (t : Text)
  | integer (n : Int)
  | command (name : Text) (rest : List Text)
  deriving DecidableEq, Repr

/-- What the arguments say at one level. -/
structure Reading where
  /-- The value of the option that takes one, as its last use left it. -/
  value : Option Text
  found : Option Found
  /-- The arguments that nothing took. -/
  extras : List Text
  deriving DecidableEq, Repr

namespace Level

/-- The plain argument an operand takes, with the separator before or after it.  Gives the argument
and how many arguments after the first belong to it. -/
def takePlain : List (Text × Mark) → Option (Text × Nat)
  | (arg, .plain) :: (_, .separator) :: _ => some (arg, 1)
  | (arg, .plain) :: _ => some (arg, 0)
  | (_, .separator) :: (arg, .plain) :: _ => some (arg, 1)
  | _ => none

/-- Whether a command may start here: at a plain argument, or at the separator before one. -/
def startsCommand : List (Text × Mark) → Bool
  | (_, .plain) :: _ => true
  | (_, .separator) :: (_, .plain) :: _ => true
  | _ => false

def failInteger (level : Level) (label arg : Text) : Outcome :=
  level.fail (Text.ofString "argument " ++ label ++ Text.ofString ": invalid int value: " ++
    arg.quoted)

def failCommand (level : Level) (label : Text) (names : List Text) (name : Text) : Outcome :=
  level.fail (Text.ofString "argument " ++ label ++ Text.ofString ": invalid choice: " ++
    name.quoted ++ Text.ofString " (choose from " ++ Text.listed (names.map Text.quoted) ++
    Text.ofString ")")

/-- What the level's operand takes from arguments, if it takes anything, and how many arguments
after the first belong to it. -/
def takeTail (level : Level) (items : List (Text × Mark)) :
    Except Outcome (Option (Found × Nat)) :=
  match level.tail with
  | .nothing => .ok none
  | .text _ => .ok ((takePlain items).map fun (arg, more) => (.text arg, more))
  | .integer label =>
    match takePlain items with
    | none => .ok none
    | some (arg, more) =>
      match arg.int? with
      | some n => .ok (some (.integer n, more))
      | none => .error (level.failInteger label arg)
  | .command label _ commands =>
    match startsCommand items, items with
    | true, (name, _) :: rest =>
      let names := commands.map (·.1)
      if names.contains name then .ok (some (.command name (rest.map (·.1)), rest.length))
      else .error (level.failCommand label names name)
    | _, _ => .ok none

/-- Whether an argument is an option of the level or looks like one. -/
def isFlag : Text × Mark → Bool
  | (_, .flag _ _) => true
  | (_, .unknownFlag) => true
  | _ => false

/-- Takes the operand if it has not been found yet. -/
def findTail (level : Level) (reading : Reading) (items : List (Text × Mark)) :
    Except Outcome (Option (Found × Nat)) :=
  if reading.found.isSome then .ok none else level.takeTail items

/-- Uses classified arguments one after the other. -/
def readMarks (level : Level) (reading : Reading) :
    List (Text × Mark) → Except Outcome Reading
  | [] => .ok reading
  | (arg, .unknownFlag) :: rest =>
    readMarks level { reading with extras := reading.extras ++ [arg] } rest
  | (_, .flag f attached) :: rest =>
    match level.useFlag f attached rest with
    | .error outcome => .error outcome
    | .ok (value, more) => readMarks level { reading with value } (rest.drop more)
  | (arg, m) :: rest =>
    match level.findTail reading ((arg, m) :: rest) with
    | .error outcome => .error outcome
    | .ok (some (found, more)) =>
      readMarks level { reading with found := some found } (rest.drop more)
    | .ok none =>
      -- plain arguments that nothing takes, up to the next option
      let skipped := (rest.takeWhile fun item => !isFlag item).map (·.1)
      readMarks level { reading with extras := reading.extras ++ arg :: skipped }
        (rest.drop skipped.length)
  termination_by items => items.length
  decreasing_by all_goals simp; try omega

/-- Matches all arguments with a level. -/
def read (level : Level) (args : List Text) : Except Outcome Reading := do
  let items ← level.marks args
  let reading ← level.readMarks ⟨none, none, []⟩ items
  match reading.found, level.tail.required? with
  | none, some label =>
    .error (level.fail (Text.ofString "the following arguments are required: " ++ label))
  | _, _ => return reading

end Level

end CommandLine

end AddressProtocols
