import AddressProtocols.Text.Basic

/-!
# JSON values

Two types hold what a JSON text can say:

* `Json.Tree` is any JSON value: numbers are kept as written, objects as the list of their members
  in source order, repeated names included;
* `Json.Document` is a value a protocol table may contain: its numbers are integers.

`Json.Document.tree` writes the integers out again.
-/

namespace AddressProtocols

namespace Json

def unsignedPart (numeral : Text) : Text := numeral.dropWhile (· == .scalar '-')

/-- A JSON value as written.  The constants are `NaN`, `Infinity` and `-Infinity`. -/
inductive Tree where
  | null
  | bool (b : Bool)
  | integer (numeral : Text)
  | real (numeral : Text)
  | constant (name : Text)
  | string (t : Text)
  | array (items : List Tree)
  | object (members : List (Text × Tree))
  deriving Inhabited

/-- A JSON value whose numbers are integers. -/
inductive Document where
  | null
  | bool (b : Bool)
  | int (n : Int)
  | string (t : Text)
  | array (items : List Document)
  | object (members : List (Text × Document))
  deriving Inhabited

namespace Document

mutual

/-- The document with its integers in decimal. -/
def tree : Document → Tree
  | null => .null
  | bool b => .bool b
  | int n => .integer (Text.ofInt n)
  | string t => .string t
  | array items => .array (treeItems items)
  | object members => .object (treeMembers members)

def treeItems : List Document → List Tree
  | [] => []
  | d :: rest => tree d :: treeItems rest

def treeMembers : List (Text × Document) → List (Text × Tree)
  | [] => []
  | (name, d) :: rest => (name, tree d) :: treeMembers rest

end

end Document

end Json

end AddressProtocols
