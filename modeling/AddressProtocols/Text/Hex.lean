import AddressProtocols.Text.Basic

/-!
# Hexadecimal text

Bytes are written as two lower-case hexadecimal digits each, and read with digits of either case and
with ASCII white space allowed between bytes, never inside one.

* `Text.hexNumeral` writes a number at a fixed width;
* `Text.ofBytes` and `Text.bytes?` convert between bytes and hexadecimal text.
-/

namespace AddressProtocols

/-- The lower-case digit of a number below sixteen. -/
def CodePoint.ofHexValue (n : Nat) : CodePoint :=
  .scalar (Nat.digitChar n)

/-- The value of a hexadecimal digit of either case. -/
def CodePoint.hexValue? (c : CodePoint) : Option Nat :=
  let n := c.value
  if 48 ≤ n ∧ n ≤ 57 then some (n - 48)
  else if 97 ≤ n ∧ n ≤ 102 then some (n - 87)
  else if 65 ≤ n ∧ n ≤ 70 then some (n - 55)
  else none

/-- The white space of ASCII: tab, line feed, vertical tab, form feed, carriage return, space. -/
def CodePoint.isAsciiBlank (c : CodePoint) : Bool :=
  (9 ≤ c.value && c.value ≤ 13) || c.value == 0x20

namespace Text

/-- The last `width` hexadecimal digits of a number, leading zeros included. -/
def hexNumeral (width n : Nat) : Text :=
  (List.range width).reverse.map fun i => CodePoint.ofHexValue (n / Nat.pow 16 i % 16)

def ofBytes (bytes : List UInt8) : Text :=
  bytes.flatMap fun b => hexNumeral 2 b.toNat

/-- The bytes that hexadecimal text spells, blanks between bytes skipped. -/
def bytes? : Text → Option (List UInt8)
  | [] => some []
  | [c] => if c.isAsciiBlank then some [] else none
  | c :: d :: rest =>
    if c.isAsciiBlank then bytes? (d :: rest)
    else do
      let high ← c.hexValue?
      let low ← d.hexValue?
      let tail ← bytes? rest
      return UInt8.ofNat (16 * high + low) :: tail

end Text

end AddressProtocols
