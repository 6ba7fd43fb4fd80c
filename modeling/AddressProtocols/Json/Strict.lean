import AddressProtocols.Json.Reader
import AddressProtocols.Text.Digit
import AddressProtocols.Varint

/-!
# Strict JSON

Protocol tables are read under strict rules: no number with a fraction or an exponent, no constant
such as `NaN`, no integer whose absolute value needs more than 64 bits, and no object with one name
twice.

* `Json.Refusal` says which rule a text breaks;
* `Json.integer` reads an integer numeral, and looks at its length before its value;
* `Json.strictBuilder` builds documents under the rules, `Json.readDocument` reads a text with it.
-/

namespace AddressProtocols

namespace Json

/-- A rule of strict JSON that a text breaks. -/
inductive Refusal where
  /-- A number with a fraction or an exponent. -/
  | real (numeral : Text)
  | constant (name : Text)
  /-- An integer whose absolute value needs more than 64 bits. -/
  | outOfRange (numeral : Text)
  /-- An object with one name twice. -/
  | repeatedName (name : Text)
  deriving DecidableEq, Repr

/-- How many digits the greatest number of 64 bits has. -/
def maxDigits : Nat := 20

/-- The wording of a refusal; an integer with too many digits is cut short. -/
def Refusal.message : Refusal → Text
  | real numeral => Text.ofString "float not allowed: " ++ numeral
  | constant name => Text.ofString "JSON constant not allowed: " ++ name
  | outOfRange numeral =>
    Text.ofString "integer outside uint64 range: " ++
      if maxDigits < (unsignedPart numeral).length then numeral.take 24 ++ Text.ofString "..."
      else numeral
  | repeatedName name => Text.ofString "duplicate key " ++ name.quoted

def numeralValue (numeral : Text) : Int :=
  let n := Text.natOfDigits ((unsignedPart numeral).map (·.value - 48))
  if numeral.head? = some (.scalar '-') then -(n : Int) else n

/-- The value of an integer numeral of at most 64 bits.  A numeral with more digits than the
greatest such number is refused unread. -/
def integer (numeral : Text) : Except Refusal Int :=
  if maxDigits < (unsignedPart numeral).length then .error (.outOfRange numeral)
  else
    let n := numeralValue numeral
    if Varint.maxValue < n.natAbs then .error (.outOfRange numeral) else .ok n

/-- The first text of a list that stood before, there or in `seen`. -/
def firstRepeated (seen : List Text) : List Text → Option Text
  | [] => none
  | t :: rest => if seen.contains t then some t else firstRepeated (t :: seen) rest

def strictBuilder : Builder Refusal Document where
  null := .null
  bool := .bool
  string := .string
  array := .array
  integer numeral := (integer numeral).map .int
  real numeral := .error (.real numeral)
  constant name := .error (.constant name)
  object members :=
    match firstRepeated [] (members.map (·.1)) with
    | some name => .error (.repeatedName name)
    | none => .ok (.object members)

/-- The document of a JSON text under the strict rules. -/
def readDocument (t : Text) : Except (Fault Refusal) Document := read strictBuilder t

end Json

end AddressProtocols
