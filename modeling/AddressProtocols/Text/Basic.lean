/-!
# Text as code points

Protocol names come from JSON documents, and a JSON string may spell a lone surrogate, which no
`Char` can hold.  Text is therefore a list of code points:

* `CodePoint` is a Unicode scalar value or one of the 2048 surrogates, `CodePoint.value` its number;
* `Text` is a list of code points, and a string literal stands for the text of its characters;
* `Text.ofNat` and `Text.ofInt` write decimal numerals;
* `Text.strip`, `Text.padLeft` and `Text.padRight` are what paths and printed rows need.
-/

namespace AddressProtocols

/-- A Unicode code point: a scalar value, or the surrogate `0xD800 + n`. -/
inductive CodePoint where
  | scalar (c : Char)
  | surrogate (n : Fin 0x800)
  deriving DecidableEq, Repr, Inhabited

namespace CodePoint

def value : CodePoint → Nat
  | scalar c => c.toNat
  | surrogate n => 0xD800 + n.val

/-- The code point of a number; numbers past the last code point give `U+FFFD`. -/
def ofNat (n : Nat) : CodePoint :=
  if h : n.isValidChar then scalar (Char.ofNatAux n h)
  else if h : 0xD800 ≤ n ∧ n < 0xE000 then surrogate ⟨n - 0xD800, by omega⟩
  else scalar (Char.ofNat 0xFFFD)

instance : Coe Char CodePoint := ⟨scalar⟩

end CodePoint

abbrev Text := List CodePoint

namespace Text

/-- The text of a string: its characters, one code point each. -/
def ofString (s : String) : Text := s.toList.map CodePoint.scalar

instance : Coe String Text := ⟨ofString⟩

/-- The decimal numeral of a natural number, without leading zeros. -/
def ofNat (n : Nat) : Text := (Nat.toDigits 10 n).map CodePoint.scalar

/-- The decimal numeral of an integer, a minus sign in front of the negative ones. -/
def ofInt : Int → Text
  | .ofNat n => ofNat n
  | .negSucc n => .scalar '-' :: ofNat (n + 1)

/-- Order by the numbers of the code points, a proper prefix first. -/
def le : Text → Text → Bool
  | [], _ => true
  | _ :: _, [] => false
  | a :: s, b :: t => a.value < b.value || (a.value == b.value && le s t)

/-- The text without its leading and trailing occurrences of `d`. -/
def strip (d : CodePoint) (t : Text) : Text :=
  ((t.dropWhile (· == d)).reverse.dropWhile (· == d)).reverse

/-- The text moved to the right end of a column of `width` places; longer text overflows. -/
def padLeft (width : Nat) (t : Text) : Text :=
  List.replicate (width - t.length) (CodePoint.scalar ' ') ++ t

/-- The text moved to the left end of a column of `width` places; longer text overflows. -/
def padRight (width : Nat) (t : Text) : Text :=
  t ++ List.replicate (width - t.length) (CodePoint.scalar ' ')

/-- The texts with a comma and a space between neighbours. -/
def listed (ts : List Text) : Text := List.intercalate (ofString ", ") ts

end Text

end AddressProtocols
