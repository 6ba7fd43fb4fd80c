import AddressProtocols.Text.Digit

/-!
# Reading integers a person typed

An integer may be surrounded by blanks, may carry a sign, may have decimal digits of any script, and
may have single underscores between digits.  A numeral of more than `maxDigits` digits is refused,
so that no reader spends quadratic time on one argument.

* `Text.int?` reads such an integer;
* `Text.nat?` reads a plain sequence of decimal digits under the same limit.
-/

namespace AddressProtocols

namespace CodePoint

/-- White space that may surround an integer: the ASCII blanks and, beyond ASCII, every space. -/
def isBlank (c : CodePoint) : Bool :=
  let n := c.value
  (9 ≤ n && n ≤ 13) || n == 0x20 || n == 0x85 || n == 0xA0 || n == 0x1680 ||
    (0x2000 ≤ n && n ≤ 0x200A) || n == 0x2028 || n == 0x2029 || n == 0x202F || n == 0x205F ||
    n == 0x3000

end CodePoint

namespace Text

/-- The most digits a numeral may have; leading zeros count. -/
def maxDigits : Nat := 4300

/-- The text without the blanks around it. -/
def trim (t : Text) : Text :=
  ((t.dropWhile CodePoint.isBlank).reverse.dropWhile CodePoint.isBlank).reverse

/-- The number a non-empty sequence of decimal digits denotes. -/
def nat? (t : Text) : Option Nat :=
  if t.isDecimal && t.length ≤ maxDigits then some (natOfDigits (t.filterMap CodePoint.digit?))
  else none

/-- An unsigned integer whose digits may be grouped by single underscores. -/
def grouped? (t : Text) : Option Nat :=
  let groups := t.splitOn (.scalar '_')
  if groups.all isDecimal then nat? groups.flatten else none

/-- An integer as typed: blanks around it, an optional sign, grouped digits. -/
def int? (t : Text) : Option Int :=
  match t.trim with
  | .scalar '-' :: body => (grouped? body).map fun n => -(n : Int)
  | .scalar '+' :: body => (grouped? body).map Int.ofNat
  | body => (grouped? body).map Int.ofNat

end Text

end AddressProtocols
