import AddressProtocols.Fuzz.Check
import AddressProtocols.Text.Numeral
import AddressProtocols.Text.SystemBytes
import AddressProtocols.Text.Utf8

/-!
# Fuzz campaigns

A campaign runs rounds of checks, each chosen by a draw, until the last round or the first stop.

* `Fuzz.Settings` are its seed, its rounds and the contenders of a race, read from variables of the
  environment; a `SettingsFault` is why they cannot be read;
* `Fuzz.campaign` is the campaign, `Fuzz.Settings.summary` what it prints if nothing was found, and
  `Fuzz.program` does both.
-/

namespace AddressProtocols

namespace Fuzz

structure Settings where
  seed : Int
  rounds : Int
  contenders : Int
  deriving DecidableEq, Repr

inductive SettingsFault where
  /-- The environment, which holds bytes, cannot hold the text of a setting. -/
  | notStorable
  /-- A setting is no integer. -/
  | notInteger
  deriving DecidableEq, Repr

namespace Settings

/-- The integer in a variable of the environment, or the default where it is not set. -/
def readVariable (default : Int) : Option Text → Except SettingsFault Int
  | none => .ok default
  | some t =>
    match t.systemBytes? with
    | none => .error .notStorable
    | some bytes =>
      match (Text.ofUtf8? bytes).bind Text.int? with
      | none => .error .notInteger
      | some n => .ok n

/-- The settings in three variables.  All of them are stored before the first is read. -/
def read (seed rounds contenders : Option Text) : Except SettingsFault Settings := do
  let set := seed.toList ++ rounds.toList ++ contenders.toList
  if set.any fun t => t.systemBytes?.isNone then .error .notStorable
  else
    return {
      seed := ← readVariable 4242 seed
      rounds := ← readVariable 5000 rounds
      contenders := ← readVariable 8 contenders }

/-- Contenders acting in the order of their numbers. -/
def inOrder (settings : Settings) : Round → List Nat :=
  fun _ => List.range settings.contenders.toNat

/-- What a campaign prints that found nothing. -/
def summary (settings : Settings) : Text :=
  Text.ofString "OK: fuzz rounds=" ++ Text.ofInt settings.rounds ++ Text.ofString " seed=" ++
    Text.ofInt settings.seed ++ Text.ofString " (no violations)\n"

end Settings

/-- One round: a round trip, random bytes or a race. -/
def oneRound (round : Round) : Check Unit := do
  let way ← Check.draw Draw.permille
  if way < 450 then Check.roundTrip round
  else if way < 950 then Check.decodeBytes round
  else Check.race round

/-- Rounds one after the other, from round `start` on. -/
def rounds (start : Nat) : Nat → Check Unit
  | 0 => return
  | n + 1 => do
    oneRound (.ofInt start)
    rounds (start + 1) n

def campaign (settings : Settings) : Check Unit := rounds 0 settings.rounds.toNat

/-- A campaign that gives the status 0 and prints its summary, unless it is stopped. -/
def program (settings : Settings) : Check (Nat × Text) := do
  campaign settings
  return (0, settings.summary)

end Fuzz

end AddressProtocols
