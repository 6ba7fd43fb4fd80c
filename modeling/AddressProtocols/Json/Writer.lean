import AddressProtocols.Json.Tree
import AddressProtocols.Text.Hex
import AddressProtocols.Text.Numeral

/-!
# Writing JSON

`Json.write` writes a tree on one line in ASCII: a comma and a space between parts, a colon and a
space after a name.  Inside strings the quote and the backslash follow a backslash, five control
characters have letters, and every other code point outside `U+0020 … U+007E` is an escape of four
hexadecimal digits, or a surrogate pair of two of them beyond `U+FFFF`.

`Json.write?` does the same where printing is limited as reading is: an integer of more than
`Text.maxDigits` digits has no text then, and neither has a tree that holds one.
-/

namespace AddressProtocols

namespace Json

/-- The escape of a 16-bit unit. -/
def unitEscape (n : Nat) : Text := .scalar '\\' :: .scalar 'u' :: Text.hexNumeral 4 n

/-- The escape of a code point: one unit, or a surrogate pair beyond `U+FFFF`. -/
def codePointEscape (n : Nat) : Text :=
  if n < 0x10000 then unitEscape n
  else
    unitEscape (0xD800 + (n - 0x10000) / 0x400) ++ unitEscape (0xDC00 + (n - 0x10000) % 0x400)

/-- A code point as it appears inside a string. -/
def writeCodePoint (c : CodePoint) : Text :=
  if c = .scalar '"' ∨ c = .scalar '\\' then [.scalar '\\', c]
  else if c = .scalar '\n' then Text.ofString "\\n"
  else if c = .scalar '\r' then Text.ofString "\\r"
  else if c = .scalar '\t' then Text.ofString "\\t"
  else if c = .scalar '\x0c' then Text.ofString "\\f"
  else if c = .scalar '\x08' then Text.ofString "\\b"
  else if 0x20 ≤ c.value ∧ c.value < 0x7F then [c]
  else codePointEscape c.value

def writeString (t : Text) : Text :=
  .scalar '"' :: t.flatMap writeCodePoint ++ [.scalar '"']

mutual

/-- A tree on one line. -/
def write : Tree → Text
  | .null => Text.ofString "null"
  | .bool b => Text.ofString (if b then "true" else "false")
  | .integer numeral => numeral
  | .real numeral => numeral
  | .constant name => name
  | .string t => writeString t
  | .array items => .scalar '[' :: Text.listed (writeItems items) ++ [.scalar ']']
  | .object members => .scalar '\x7b' :: Text.listed (writeMembers members) ++ [.scalar '\x7d']

def writeItems : List Tree → List Text
  | [] => []
  | t :: rest => write t :: writeItems rest

def writeMembers : List (Text × Tree) → List Text
  | [] => []
  | (name, t) :: rest => (writeString name ++ Text.ofString ": " ++ write t) :: writeMembers rest

end

/-! ### Integers that are too long -/

mutual

/-- The numerals of the integers in a tree. -/
def numerals : Tree → List Text
  | .integer numeral => [numeral]
  | .array items => numeralsItems items
  | .object members => numeralsMembers members
  | _ => []

def numeralsItems : List Tree → List Text
  | [] => []
  | t :: rest => numerals t ++ numeralsItems rest

def numeralsMembers : List (Text × Tree) → List Text
  | [] => []
  | (_, t) :: rest => numerals t ++ numeralsMembers rest

end

/-- A tree on one line, unless an integer in it has too many digits. -/
def write? (t : Tree) : Option Text :=
  if (numerals t).all fun numeral => (unsignedPart numeral).length ≤ Text.maxDigits then
    some (write t)
  else none

end Json

end AddressProtocols
