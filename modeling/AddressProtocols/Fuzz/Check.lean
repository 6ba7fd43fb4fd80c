import AddressProtocols.Fuzz.Draw
import AddressProtocols.Json.OfValue
import AddressProtocols.Json.Writer
import AddressProtocols.Registry

/-!
# Fuzz checks

Three checks look for deviations of a varint codec and of the registry:

* `Check.roundTrip` encodes a random number, compares the length of the encoding with the least
  possible one and decodes it again with two more bytes behind it;
* `Check.decodeBytes` decodes random bytes: a number that is read must be in range, and the bytes it
  took must give it again;
* `Check.race` lets contenders register descriptors for one code or one name: the first of either
  side wins, and nobody else.

A check belongs to a `Round`, which a violation reports and a race uses for its codes and names.  It
runs in a `Setup`: the stream it draws from, the codec it looks at, which may answer every call
differently, and the order in which contenders act.  It ends by itself, with a violation, or with a
failure that the codec raised (`Stop`); `Check.finish` gives the status and the output of a check
that is run to its end.  A violation is reported in two lines, and only the first is printed if an
integer in the second has too many digits (`Stop.contextLine?`, `Ending.complete`). -/

namespace AddressProtocols

namespace Fuzz

/-- A varint codec; the first argument counts the calls before. -/
structure Codec where
  encode : Nat → Nat → Except Report (List UInt8)
  decode : Nat → List UInt8 → Except Report (Int × Int)

namespace Codec

def library : Codec where
  encode _ n := (Varint.encodeInt? n).mapError fun fault => (Failure.varintRange fault).report
  decode _ bytes :=
    match Varint.decodeFrom bytes 0 with
    | .ok (v, n) => .ok ((v : Int), (n : Int))
    | .error fault => .error (Failure.varint fault).report

end Codec

/-- What a round goes by. -/
structure Round where
  /-- How the context of a violation shows it. -/
  label : Json.Tree
  /-- How the names of a race spell it. -/
  name : Text
  /-- What the codes of a race count from; a round without number offers no code. -/
  number : Option Int

namespace Round

def ofInt (n : Int) : Round := ⟨.integer (Text.ofInt n), Text.ofInt n, some n⟩

/-- The round of a value that has a JSON form; booleans count as 0 and 1. -/
def ofValue (v : Value) : Round := ⟨(Json.ofValue? v).getD .null, v.display, v.int?⟩

end Round

structure Setup where
  stream : Stream
  codec : Codec
  /-- The contenders of a race, in the order in which they act. -/
  order : Round → List Nat

/-- How often a check has drawn, encoded and decoded. -/
structure Progress where
  drawn : Nat
  encoded : Nat
  decoded : Nat
  deriving DecidableEq, Repr, Inhabited

/-- Why a check does not end by itself. -/
inductive Stop where
  | violation (label : Text) (context : Json.Tree)
  | failure (r : Report)

namespace Stop

/-- The line that names what is violated. -/
def labelLine (label : Text) : Text :=
  Text.ofString "VIOLATION: " ++ label ++ Text.ofString "\n"

/-- The most code points of a context that are printed. -/
def contextLimit : Nat := 4000

/-- The line that shows the context, unless an integer in it has too many digits to be printed. -/
def contextLine? (context : Json.Tree) : Option Text :=
  (Json.write? context).map fun t =>
    Text.ofString "CTX: " ++ t.take contextLimit ++ Text.ofString "\n"

end Stop

/-- A computation in a setup that may stop early. -/
abbrev Check := ReaderT Setup (ExceptT Stop (StateM Progress))

namespace Check

def draw {α : Type} (d : Draw α) : Check α := do
  let setup ← read
  modifyGet fun progress =>
    let (a, drawn) := d setup.stream progress.drawn
    (a, { progress with drawn })

def raise {α : Type} (r : Report) : Check α := throw (.failure r)

/-- Stops with a violation of a round; the context tells the round and what was found. -/
def violation {α : Type} (label : String) (round : Round)
    (found : List (String × Json.Document)) : Check α :=
  let members := found.map fun (name, d) => (Text.ofString name, d.tree)
  throw (.violation (Text.ofString label)
    (.object ((Text.ofString "round", round.label) :: members)))

def encode (n : Nat) : Check (Except Report (List UInt8)) := do
  let setup ← read
  modifyGet fun progress =>
    (setup.codec.encode progress.encoded n, { progress with encoded := progress.encoded + 1 })

def decode (bytes : List UInt8) : Check (Except Report (Int × Int)) := do
  let setup ← read
  modifyGet fun progress =>
    (setup.codec.decode progress.decoded bytes, { progress with decoded := progress.decoded + 1 })

/-- The answer of a call, or its failure. -/
def orRaise {α : Type} : Except Report α → Check α
  | .ok a => return a
  | .error r => raise r

def hex (bytes : List UInt8) : Json.Document := .string (Text.ofBytes bytes)

/-! ### The codec -/

/-- A number is encoded with the least length and read back from the encoding. -/
def roundTrip (round : Round) : Check Unit := do
  let v ← draw Draw.number
  let bytes ← orRaise (← encode v)
  if bytes.length ≠ Varint.minLength v then
    violation "A non-minimal encoding" round [("value", .int v), ("hex", hex bytes)]
  let got ← orRaise (← decode (bytes ++ [0xFF, 0x00]))
  if got ≠ ((v : Int), (bytes.length : Int)) then
    violation "A round-trip" round
      [("value", .int v), ("got", .array [.int got.1, .int got.2])]

/-- A number read from bytes is in range, took some of them, and is read again from those.  Bytes
that hold no number are nothing to look at. -/
def decodeBytes (round : Round) : Check Unit := do
  let raw ← draw Draw.bytes
  match ← decode raw with
  | .error r => if r.blamesVarint then return else raise r
  | .ok (v, n) =>
    if ¬(0 ≤ v ∧ v ≤ Varint.maxValue ∧ 1 ≤ n ∧ n ≤ raw.length) then
      violation "B out-of-range decode" round
        [("hex", hex raw), ("value", .int v), ("n", .int n)]
    let again ← orRaise (← decode (raw.take n.toNat))
    if again ≠ (v, n) then
      violation "B prefix re-read" round [("hex", hex raw)]

/-! ### The registry -/

/-- The code that lies `offset` past the first one of a race. -/
def codeAt (round : Round) (offset : Nat) : Value :=
  match round.number with
  | some n => .int (10000 + n + offset)
  | none => .null

/-- The descriptor a contender wants to register: the odd ones want one code, the even ones one
name. -/
def contender (round : Round) (t : Nat) : Except Descriptor.Fault Descriptor :=
  if t % 2 = 1 then
    let name := Text.ofString "r" ++ round.name ++ Text.ofString "_" ++ Text.ofNat t
    Descriptor.ofFields (codeAt round 0) (.text name) (.int 0) (.bool false) .null
  else
    let name := Text.ofString "race" ++ round.name
    Descriptor.ofFields (codeAt round (1 + t)) (.text name) (.int 0) (.bool false) .null

/-- What a contender's turn does to a registry. -/
def turn (round : Round) (r : Registry) (t : Nat) : Registry × Except Failure Descriptor :=
  match (contender round t).mapError .descriptor with
  | .error failure => (r, .error failure)
  | .ok d =>
    match r.register d.value with
    | .error failure => (r, .error failure)
    | .ok (r', stored) => (r', .ok stored)

/-- All turns, one after the other: the registry in the end and how each turn went. -/
def turns (round : Round) (r : Registry) :
    List Nat → Registry × List (Nat × Except Failure Descriptor)
  | [] => (r, [])
  | t :: rest =>
    let (r', result) := turn round r t
    let (r'', results) := turns round r' rest
    (r'', (t, result) :: results)

/-- The contenders whose turn succeeded. -/
def winners (results : List (Nat × Except Failure Descriptor)) : List Nat :=
  (results.filter fun entry => entry.2.toBool).map (·.1)

/-- The winners as a context shows them. -/
def winnersJson (ts : List Nat) : Json.Document := .array (ts.map fun (t : Nat) => .int t)

/-- After a race for one code and one name, codes and names are still unique and two won. -/
def race (round : Round) : Check Unit := do
  let setup ← read
  let (r, results) := turns round .builtin (setup.order round)
  let found := [("winners", winnersJson (winners results))]
  if ¬((r.protocols.map (·.code)).Nodup ∧ (r.protocols.map (·.name)).Nodup) then
    violation "C uniqueness" round found
  if (winners results).length ≠ 2 then
    violation "C winner count" round found

end Check

/-! ### How a check ends -/

/-- How a check ends that no failure of the codec broke off: its status, what it gave, and what it
printed.  It is not complete if it was broken off between two lines, because a context could not be
printed. -/
structure Ending (α : Type) where
  status : Nat
  result : Option α
  stdout : Text
  complete : Bool
  deriving DecidableEq, Repr

/-- The end of a check that reports a violation: both lines, or the first alone. -/
def Stop.ending {α : Type} (label : Text) (context : Json.Tree) : Ending α :=
  match contextLine? context with
  | some line => ⟨1, none, labelLine label ++ line, true⟩
  | none => ⟨1, none, labelLine label, false⟩

/-- Runs a check that gives a result and a text to print at its end.  A violation is printed in its
place and ends the check with status 1; a failure breaks it off. -/
def Check.finish {α : Type} (check : Check (α × Text)) (setup : Setup) :
    Except Report (Ending α) × Progress :=
  match check setup default with
  | (.ok (result, stdout), progress) => (.ok ⟨0, some result, stdout, true⟩, progress)
  | (.error (.violation label context), progress) => (.ok (Stop.ending label context), progress)
  | (.error (.failure r), progress) => (.error r, progress)

end Fuzz

end AddressProtocols
