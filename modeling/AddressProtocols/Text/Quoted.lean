import AddressProtocols.Text.Printable
import AddressProtocols.Text.Hex

/-!
# Quoted text in messages

Messages show a text between quotes, so that blanks and unprintable code points can be seen.  The
quote is `'`, or `"` when the text holds `'` but no `"`.  The quote in use and the backslash follow
a backslash; line feed, carriage return and tab have letters; every other unprintable code point is
written by its number at the shortest of the three widths that holds it.
-/

namespace AddressProtocols

namespace Text

/-- The quote that needs least escaping. -/
def quoteMark (t : Text) : CodePoint :=
  if t.contains (.scalar '\'') && !t.contains (.scalar '"') then .scalar '"' else .scalar '\''

/-- An unprintable code point by its number. -/
def escapeNumber (n : Nat) : Text :=
  if n < 0x100 then .scalar '\\' :: .scalar 'x' :: hexNumeral 2 n
  else if n < 0x10000 then .scalar '\\' :: .scalar 'u' :: hexNumeral 4 n
  else .scalar '\\' :: .scalar 'U' :: hexNumeral 8 n

/-- How a code point appears between quotes `quote`. -/
def escape (quote c : CodePoint) : Text :=
  if c = quote ∨ c = .scalar '\\' then [.scalar '\\', c]
  else if c = .scalar '\n' then ofString "\\n"
  else if c = .scalar '\r' then ofString "\\r"
  else if c = .scalar '\t' then ofString "\\t"
  else if c.isPrintable then [c]
  else escapeNumber c.value

/-- The text between quotes, escaped. -/
def quoted (t : Text) : Text :=
  quoteMark t :: t.flatMap (escape (quoteMark t)) ++ [quoteMark t]

end Text

end AddressProtocols
