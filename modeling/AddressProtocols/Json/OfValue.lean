import AddressProtocols.Json.Tree
import AddressProtocols.Value

/-!
# Values as JSON

`Json.ofValue?` gives the JSON tree of a value.  Numbers keep their spelling, except that the
infinities and not-a-number are constants; the key of a dictionary may be a text, a number, a truth
value or null, and is written as a name.  Bytes, handles and descriptors have no JSON form.
-/

namespace AddressProtocols

namespace Json

/-- A floating-point number: its shortest spelling, or a constant. -/
def ofFloat (x : Binary64) : Tree :=
  match x with
  | .nan => .constant (Text.ofString "NaN")
  | .infinite negative =>
    .constant (Text.ofString (if negative then "-Infinity" else "Infinity"))
  | .finite _ _ _ => .real x.text

/-- The name of a dictionary's key. -/
def nameOfKey? : Value → Option Text
  | .text t => some t
  | .null => some (Text.ofString "null")
  | .bool b => some (Text.ofString (if b then "true" else "false"))
  | .int n => some (Text.ofInt n)
  | .float x => match ofFloat x with
    | .constant name => some name
    | _ => some x.text
  | _ => none

mutual

def ofValue? : Value → Option Tree
  | .null => some .null
  | .bool b => some (.bool b)
  | .int n => some (.integer (Text.ofInt n))
  | .float x => some (ofFloat x)
  | .text t => some (.string t)
  | .bytes _ => none
  | .list items => (ofItems? items).map .array
  | .dict entries => (ofEntries? entries).map .object
  | .handle _ => none
  | .descriptor _ _ _ _ _ _ => none

def ofItems? : List Value → Option (List Tree)
  | [] => some []
  | v :: rest => do return (← ofValue? v) :: (← ofItems? rest)

def ofEntries? : List (Value × Value) → Option (List (Text × Tree))
  | [] => some []
  | (k, v) :: rest => do return (← nameOfKey? k, ← ofValue? v) :: (← ofEntries? rest)

end

end Json

end AddressProtocols
