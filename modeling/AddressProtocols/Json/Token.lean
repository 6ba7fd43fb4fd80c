import AddressProtocols.Text.Hex

/-!
# JSON tokens

The tokens of a JSON text, read one at a time.

* `Json.Token` is a token; a string that breaks off or holds a bad escape, and a code point that
  starts no token, are tokens too, so that the reader can decide which mistake comes first;
* `Json.scan` reads the token that starts with a given code point and says how many further code
  points belong to it;
* `Json.scanString` reads the rest of a string, `Json.joinPieces` puts the halves of escaped
  surrogate pairs together;
* `Json.scanNumber` reads the longest number there is.
-/

namespace AddressProtocols

namespace Json

inductive Mistake where
  | byteOrderMark
  | expectedValue
  | expectedName
  | expectedColon
  | expectedComma
  | extraData
  | unterminatedString
  | controlCharacter
  | badEscape
  | badUnicodeEscape
  deriving DecidableEq, Repr

def Mistake.message : Mistake → Text
  | byteOrderMark => Text.ofString "Unexpected UTF-8 BOM (decode using utf-8-sig)"
  | expectedValue => Text.ofString "Expecting value"
  | expectedName => Text.ofString "Expecting property name enclosed in double quotes"
  | expectedColon => Text.ofString "Expecting ':' delimiter"
  | expectedComma => Text.ofString "Expecting ',' delimiter"
  | extraData => Text.ofString "Extra data"
  | unterminatedString => Text.ofString "Unterminated string starting at"
  | controlCharacter => Text.ofString "Invalid control character at"
  | badEscape => Text.ofString "Invalid \\escape"
  | badUnicodeEscape => Text.ofString "Invalid \\uXXXX escape"

inductive Token where
  | leftBracket
  | rightBracket
  | leftBrace
  | rightBrace
  | comma
  | colon
  | null
  | bool (b : Bool)
  | integer (numeral : Text)
  | real (numeral : Text)
  | constant (name : Text)
  | string (t : Text)
  /-- A string with a mistake `offset` code points after its opening quote. -/
  | badString (mistake : Mistake) (offset : Nat)
  /-- A code point with which no token starts. -/
  | unknown
  deriving DecidableEq, Repr

def isSpace (c : CodePoint) : Bool :=
  c == .scalar ' ' || c == .scalar '\t' || c == .scalar '\n' || c == .scalar '\r'

/-! ### Strings -/

/-- A piece of a string: a code point as it stands, or the 16-bit unit of a `\u` escape. -/
inductive Piece where
  | plain (c : CodePoint)
  | unit (n : Nat)
  deriving DecidableEq, Repr

/-- The units that open a surrogate pair. -/
def isHighUnit (n : Nat) : Bool := 0xD800 ≤ n && n < 0xDC00

/-- The units that close a surrogate pair. -/
def isLowUnit (n : Nat) : Bool := 0xDC00 ≤ n && n < 0xE000

/-- The code point beyond `U+FFFF` of a surrogate pair. -/
def joinUnits (high low : Nat) : CodePoint :=
  .ofNat (0x10000 + (high - 0xD800) * 0x400 + (low - 0xDC00))

/-- The text of pieces given last to first, put before `tail`: neighbouring units that form a
surrogate pair are one code point. -/
def joinPieces (tail : Text) : List Piece → Text
  | [] => tail
  | .plain c :: rest => joinPieces (c :: tail) rest
  | .unit low :: .unit high :: rest =>
    if isHighUnit high && isLowUnit low then joinPieces (joinUnits high low :: tail) rest
    else joinPieces (.ofNat low :: tail) (.unit high :: rest)
  | .unit n :: rest => joinPieces (.ofNat n :: tail) rest

/-- What a letter after a backslash stands for. -/
def simpleEscape? : CodePoint → Option CodePoint
  | .scalar '"' => some (.scalar '"')
  | .scalar '\\' => some (.scalar '\\')
  | .scalar '/' => some (.scalar '/')
  | .scalar 'b' => some (.scalar '\x08')
  | .scalar 'f' => some (.scalar '\x0c')
  | .scalar 'n' => some (.scalar '\n')
  | .scalar 'r' => some (.scalar '\r')
  | .scalar 't' => some (.scalar '\t')
  | _ => none

/-- The unit of four hexadecimal digits. -/
def unit? (a b c d : CodePoint) : Option Nat := do
  return 4096 * (← a.hexValue?) + 256 * (← b.hexValue?) + 16 * (← c.hexValue?) + (← d.hexValue?)

/-- Reads an escape from after its backslash.  Gives the piece and how many code points it takes,
or the mistake and where it is: `taken` code points lie between the opening quote and the backslash.
A `\u` escape must not be the end of the text. -/
def scanEscape (taken : Nat) : Text → Except (Mistake × Nat) (Piece × Nat)
  | [] => .error (.unterminatedString, 0)
  | c :: rest =>
    if c = .scalar 'u' then
      match rest with
      | a :: b :: c :: d :: _ :: _ =>
        match unit? a b c d with
        | some n => .ok (.unit n, 5)
        | none => .error (.badUnicodeEscape, taken + 2)
      | _ => .error (.badUnicodeEscape, taken + 2)
    else
      match simpleEscape? c with
      | some d => .ok (.plain d, 1)
      | none => .error (.badEscape, taken + 1)

/-- Reads a string from after its opening quote, `taken` code points of which are behind and gave
`pieces`, last first.  Gives the token and how many code points follow the opening quote. -/
def scanString (pieces : List Piece) (taken : Nat) : Text → Token × Nat
  | [] => (.badString .unterminatedString 0, taken)
  | c :: rest =>
    if c = .scalar '"' then (.string (joinPieces [] pieces), taken + 1)
    else if c = .scalar '\\' then
      match scanEscape taken rest with
      | .ok (piece, n) => scanString (piece :: pieces) (taken + 1 + n) (rest.drop n)
      | .error (mistake, offset) => (.badString mistake offset, taken)
    else if c.value < 0x20 then (.badString .controlCharacter (taken + 1), taken)
    else scanString (.plain c :: pieces) (taken + 1) rest
  termination_by t => t.length
  decreasing_by all_goals simp; try omega

/-! ### Numbers and words -/

def isJsonDigit (c : CodePoint) : Bool := 48 ≤ c.value && c.value ≤ 57

/-- The digits before the point: a single zero, or digits that start with another one. -/
def wholePart : Text → Text
  | [] => []
  | c :: rest =>
    if c = .scalar '0' then [c] else if isJsonDigit c then c :: rest.takeWhile isJsonDigit else []

/-- The point and the digits after it, if there is at least one. -/
def fractionPart : Text → Text
  | .scalar '.' :: rest =>
    match rest.takeWhile isJsonDigit with
    | [] => []
    | digits => .scalar '.' :: digits
  | _ => []

/-- The exponent letter, its sign and its digits, if there is at least one. -/
def exponentPart : Text → Text
  | [] => []
  | c :: rest =>
    if c = .scalar 'e' ∨ c = .scalar 'E' then
      let sign := (rest.take 1).filter fun s => s == .scalar '+' || s == .scalar '-'
      match (rest.drop sign.length).takeWhile isJsonDigit with
      | [] => []
      | digits => c :: sign ++ digits
    else []

/-- The longest number at the front of a text, and its length; a number needs a digit before its
point. -/
def scanNumber (t : Text) : Token × Nat :=
  let sign := (t.take 1).filter (· == .scalar '-')
  let body := t.drop sign.length
  let whole := wholePart body
  let fraction := fractionPart (body.drop whole.length)
  let exponent := exponentPart (body.drop (whole.length + fraction.length))
  let numeral := sign ++ whole ++ fraction ++ exponent
  if whole.isEmpty then (.unknown, 0)
  else if fraction.isEmpty && exponent.isEmpty then (.integer numeral, numeral.length)
  else (.real numeral, numeral.length)

/-- The token `token` if the text goes on with `word`. -/
def scanWord (word : String) (token : Token) (rest : Text) : Token × Nat :=
  let expected := Text.ofString word
  if rest.take expected.length = expected then (token, expected.length) else (.unknown, 0)

/-- The token that starts with `c` and goes on in `rest`, and how much of `rest` it takes. -/
def scan (c : CodePoint) (rest : Text) : Token × Nat :=
  match c with
  | .scalar '[' => (.leftBracket, 0)
  | .scalar ']' => (.rightBracket, 0)
  | .scalar '\x7b' => (.leftBrace, 0)
  | .scalar '\x7d' => (.rightBrace, 0)
  | .scalar ',' => (.comma, 0)
  | .scalar ':' => (.colon, 0)
  | .scalar '"' => scanString [] 0 rest
  | .scalar 'n' => scanWord "ull" .null rest
  | .scalar 't' => scanWord "rue" (.bool true) rest
  | .scalar 'f' => scanWord "alse" (.bool false) rest
  | .scalar 'N' => scanWord "aN" (.constant (Text.ofString "NaN")) rest
  | .scalar 'I' => scanWord "nfinity" (.constant (Text.ofString "Infinity")) rest
  | .scalar '-' =>
    match scanWord "Infinity" (.constant (Text.ofString "-Infinity")) rest with
    | (.unknown, _) =>
      let (token, n) := scanNumber (c :: rest)
      (token, n - 1)
    | found => found
  | _ =>
    let (token, n) := scanNumber (c :: rest)
    (token, n - 1)

end Json

end AddressProtocols
