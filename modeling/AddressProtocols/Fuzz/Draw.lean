import AddressProtocols.Varint

/-!
# Random inputs

The fuzz campaign draws its inputs from a stream of integers.  What it does is a function of that
stream, so a campaign can be repeated, and statements about it range over all streams.

* `Fuzz.Stream` is a stream of draws, `Fuzz.Draw` a computation that takes some of them;
* `Draw.between`, `Draw.chance` and `Draw.bits` shape one draw;
* `Draw.number` draws a number of 64 bits, close to the length boundaries of varints more often than
  not; `Draw.bytes` draws a byte sequence, rich in continuation bytes half of the time;
* `Stream.seeded` is a stream for real campaigns.
-/

namespace AddressProtocols

namespace Fuzz

/-- A stream of draws, by position. -/
abbrev Stream := Nat → Int

/-- A computation that takes draws from a stream; its state is how many have been taken. -/
abbrev Draw := ReaderT Stream (StateM Nat)

namespace Stream

/-- The draws of a list, and zeros after its end. -/
def ofArray (draws : Array Int) : Stream := fun i => draws.getD i 0

/-- A word with its bits mixed. -/
def mix (z : UInt64) : UInt64 :=
  let z := (z ^^^ (z >>> 30)) * 0xBF58476D1CE4E5B9
  let z := (z ^^^ (z >>> 27)) * 0x94D049BB133111EB
  z ^^^ (z >>> 31)

/-- A stream of well-mixed words that depends on a seed. -/
def seeded (seed : Int) : Stream := fun i =>
  (mix (UInt64.ofInt seed + UInt64.ofNat (i + 1) * 0x9E3779B97F4A7C15)).toNat

end Stream

namespace Draw

def next : Draw Int := fun stream taken => (stream taken, taken + 1)

/-- A number from `low` to `high`, both included. -/
def between (low high : Int) : Draw Int := do
  let d ← next
  return low + d % (high - low + 1)

/-- True in so many of a thousand cases. -/
def chance (permille : Nat) : Draw Bool := do
  let d ← next
  return d % 1000 < permille

def bits (k : Nat) : Draw Nat := do
  let d ← next
  return (d % (Nat.pow 2 k : Nat)).toNat

/-- A byte of `low … 255`. -/
def byte (low : Nat) : Draw UInt8 := do
  let d ← between low 255
  return UInt8.ofNat d.toNat

/-- So many results of one computation, in order. -/
def times {α : Type} (draw : Draw α) : Nat → Draw (List α)
  | 0 => return []
  | n + 1 => do
    let a ← draw
    let as ← times draw n
    return a :: as

/-- The share of a thousand, given one draw: which of three ways to go. -/
def permille : Draw Nat := do
  let d ← next
  return (d % 1000).toNat

/-- A number of 64 bits: next to a power of 128, of a random length, or small. -/
def number : Draw Nat := do
  let way ← permille
  if way < 300 then
    let k ← between 1 9
    let offset ← between (-2) 1
    return min Varint.maxValue ((Nat.pow 2 (7 * k.toNat) : Nat) + offset).toNat
  else if way < 600 then
    let k ← between 1 64
    bits k.toNat
  else
    let n ← between 0 0x10000
    return n.toNat

/-- A byte sequence: continuation bytes with a short random end, or random bytes. -/
def bytes : Draw (List UInt8) := do
  let n ← between 0 14
  if ← chance 500 then
    let start ← times (byte 128) n.toNat
    let m ← between 0 2
    let rest ← times (byte 0) m.toNat
    return start ++ rest
  else times (byte 0) n.toNat

end Draw

end Fuzz

end AddressProtocols
