import AddressProtocols.Text.Basic
import AddressProtocols.Text.Hex

/-!
# Binary64 numbers

A dynamically typed argument may be a floating-point number.  The library compares such numbers with
integers and shows them in messages, both exactly, so a number is kept as its sign, significand and
exponent of two:

* `Binary64` is the type, `Binary64.equals` and `Binary64.equalsInt` compare by value;
* `Binary64.ofDecimal` rounds a decimal number to the nearest one, ties to the even significand;
* `Binary64.shortest` is the decimal number with the fewest digits that rounds back, and
  `Binary64.text` writes it;
* `Binary64.read?` reads the spelling of a number, an infinity or `nan`.
-/

namespace AddressProtocols

/-- A binary64 number: not a number, an infinity, or `± significand * 2 ^ exponent`. -/
inductive Binary64 where
  | nan
  | infinite (negative : Bool)
  | finite (negative : Bool) (significand : Nat) (exponent : Int)
  deriving DecidableEq, Repr, Inhabited

namespace Binary64

/-! ### Values -/

/-- `n * base ^ e` as a numerator over a denominator. -/
def scaled (n base : Nat) (e : Int) : Nat × Nat :=
  (n * Nat.pow base e.toNat, Nat.pow base (-e).toNat)

/-- Whether two finite numbers `± m * 2 ^ e` have one value. -/
def sameValue (s : Bool) (m : Nat) (e : Int) (s' : Bool) (m' : Nat) (e' : Int) : Bool :=
  let x := scaled m 2 e
  let y := scaled m' 2 e'
  x.1 * y.2 == y.1 * x.2 && (s == s' || m == 0)

/-- Equality of values: zeros of either sign are equal, `nan` equals nothing. -/
def equals : Binary64 → Binary64 → Bool
  | finite s m e, finite s' m' e' => sameValue s m e s' m' e'
  | infinite s, infinite s' => s == s'
  | _, _ => false

def equalsInt (x : Binary64) (n : Int) : Bool := x.equals (finite (n < 0) n.natAbs 0)

def isZero : Binary64 → Bool
  | finite _ m _ => m == 0
  | _ => false

/-! ### Rounding a decimal number -/

/-- The quotient rounded to the nearest integer, a half to the even neighbour. -/
def roundDiv (num den : Nat) : Nat :=
  let q := num / den
  let twice := 2 * (num % den)
  if twice < den then q else if den < twice then q + 1 else q + q % 2

/-- The least significand of a normal number, `2 ^ 52`. -/
def leastNormal : Nat := 0x10000000000000

/-- The greatest `k` with `2 ^ k ≤ num / den`, for positive arguments. -/
def floorLog2 (num den : Nat) : Int :=
  let k := (Nat.log2 num : Int) - Nat.log2 den
  if den * Nat.pow 2 k.toNat ≤ num * Nat.pow 2 (-k).toNat then k else k - 1

/-- The nearest number to `± num / den`, for a positive numerator and denominator. -/
def ofRatio (negative : Bool) (num den : Nat) : Binary64 :=
  let e := max (-1074) (floorLog2 num den - 52)
  let m := roundDiv (num * Nat.pow 2 (-e).toNat) (den * Nat.pow 2 e.toNat)
  let (m, e) := if m = 2 * leastNormal then (leastNormal, e + 1) else (m, e)
  if 971 < e then infinite negative else finite negative m e

/-- The nearest number to `± digits * 10 ^ exponent`. -/
def ofDecimal (negative : Bool) (digits : Nat) (exponent : Int) : Binary64 :=
  let lead := exponent + (Nat.toDigits 10 digits).length
  if digits = 0 ∨ lead < -330 then finite negative 0 (-1074)
  else if 320 < lead then infinite negative
  else
    let ratio := scaled digits 10 exponent
    ofRatio negative ratio.1 ratio.2

/-! ### The shortest decimal number -/

/-- The exponent of the leading decimal digit of `num / den`, for positive arguments. -/
def leadingExponent (num den : Nat) : Int :=
  if den ≤ num then (Nat.toDigits 10 (num / den)).length - 1
  else match (List.range 400).find? fun j => den ≤ num * Nat.pow 10 j with
    | some j => -(j : Int)
    | none => 0

/-- Of the two neighbours of `m * 2 ^ e` on the grid of multiples of `10 ^ g`, the nearer one of
those that round to it. -/
def onGrid (m : Nat) (e g : Int) : Option Nat :=
  -- every quantity is a multiple of a quarter unit in the last place
  let quarter := scaled 1 2 (e - 2)
  let step := scaled 1 10 g
  let point := fun d => d * step.1 * quarter.2
  let place := fun x => x * quarter.1 * step.2
  let below := if m = leastNormal ∧ -1074 < e then 4 * m - 1 else 4 * m - 2
  let inside := fun d =>
    if m % 2 = 0 then place below ≤ point d ∧ point d ≤ place (4 * m + 2)
    else place below < point d ∧ point d < place (4 * m + 2)
  let low := place (4 * m) / (step.1 * quarter.2)
  let gapLow := place (4 * m) - point low
  let gapHigh := point (low + 1) - place (4 * m)
  let lowFirst := gapLow < gapHigh ∨ (gapLow = gapHigh ∧ low % 2 = 0)
  let first := if lowFirst then low else low + 1
  let second := if lowFirst then low + 1 else low
  if inside first then some first else if inside second then some second else none

/-- The digits and exponent of ten of the shortest decimal number that rounds to `m * 2 ^ e`. -/
def shortest (m : Nat) (e : Int) : Nat × Int :=
  let value := scaled m 2 e
  let lead := leadingExponent value.1 value.2
  let found := (List.range 17).findSome? fun (i : Nat) =>
    (onGrid m e (lead - i)).map fun d => (d, lead - i)
  found.getD (m, e)

/-- `true` in front of a minus sign. -/
def sign (negative : Bool) : Text := if negative then Text.ofString "-" else []

def zeros (n : Int) : Text := List.replicate n.toNat (CodePoint.scalar '0')

/-- Positional notation for leading exponents from -4 to 15, scientific notation beyond. -/
def decimalText (digits : Text) (lead : Int) : Text :=
  if 16 ≤ lead ∨ lead < -4 then
    let fraction := match digits.drop 1 with
      | [] => []
      | rest => CodePoint.scalar '.' :: rest
    let size := Text.ofNat lead.natAbs
    digits.take 1 ++ fraction ++ Text.ofString "e" ++
      Text.ofString (if lead < 0 then "-" else "+") ++ zeros (2 - size.length) ++ size
  else if lead < 0 then
    Text.ofString "0." ++ zeros (-lead - 1) ++ digits
  else
    let whole := (lead + 1).toNat
    if digits.length ≤ whole then digits ++ zeros (whole - digits.length) ++ Text.ofString ".0"
    else digits.take whole ++ Text.ofString "." ++ digits.drop whole

/-- The shortest spelling that reads back, with a point or an exponent. -/
def text : Binary64 → Text
  | nan => Text.ofString "nan"
  | infinite negative => sign negative ++ Text.ofString "inf"
  | finite negative m e =>
    if m = 0 then sign negative ++ Text.ofString "0.0"
    else
      let (d, g) := shortest m e
      let digits := Text.ofNat d
      let kept := (digits.reverse.dropWhile (· == CodePoint.scalar '0')).reverse
      sign negative ++ decimalText kept (g + digits.length - 1)

/-! ### Reading a number -/

/-- The value of a sequence of ASCII digits. -/
def digits? (t : Text) : Option Nat :=
  t.foldlM (fun n c => (c.hexValue?.filter (· < 10)).map (10 * n + ·)) 0

/-- The exponent part of a number: an optional sign and digits. -/
def exponent? : Text → Option Int
  | [] => none
  | .scalar '-' :: t => if t.isEmpty then none else (digits? t).map fun n => -(n : Int)
  | .scalar '+' :: t => if t.isEmpty then none else (digits? t).map Int.ofNat
  | t => (digits? t).map Int.ofNat

/-- An unsigned decimal number: digits, an optional fraction, an optional exponent. -/
def magnitude? (negative : Bool) (t : Text) : Option Binary64 := do
  let isMark := fun c => c == CodePoint.scalar 'e' || c == CodePoint.scalar 'E'
  let mantissa := t.takeWhile fun c => !isMark c
  let whole := mantissa.takeWhile (· != CodePoint.scalar '.')
  let fraction := (mantissa.drop whole.length).drop 1
  let digits ← digits? (whole ++ fraction)
  let e ← match t.drop mantissa.length with
    | [] => some 0
    | _ :: rest => exponent? rest
  if (whole ++ fraction).isEmpty then none
  else some (ofDecimal negative digits (e - fraction.length))

/-- A code point with an ASCII capital made small. -/
def lowerCase : CodePoint → CodePoint
  | .scalar c => .scalar c.toLower
  | c => c

/-- The number a text spells; capitals and small letters count alike. -/
def read? (t : Text) : Option Binary64 :=
  let (negative, body) := match t.map lowerCase with
    | .scalar '-' :: rest => (true, rest)
    | .scalar '+' :: rest => (false, rest)
    | unsigned => (false, unsigned)
  if body = Text.ofString "nan" then some nan
  else if body = Text.ofString "inf" ∨ body = Text.ofString "infinity" then some (infinite negative)
  else magnitude? negative body

end Binary64

end AddressProtocols
