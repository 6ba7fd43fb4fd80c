import AddressProtocols.Binary64
import AddressProtocols.Text.Quoted

/-!
# Dynamically typed values

Fields of a protocol description, offsets and lookup keys arrive from outside with no type attached,
and the checks that refuse them report what they were given.

* `Value` is such a value; `Value.handle` stands for an object the library only stores, and
  `Value.descriptor` for a protocol descriptor, whose fields nobody need have checked;
* `Value.typeName` and `Value.quoted` name its type and show it in messages; `Value.display` shows a
  text without quotes, and a descriptor by its name;
* `Value.equals` compares by value: booleans count as the integers 0 and 1, and a number equals the
  same number of the other numeric type.
-/

namespace AddressProtocols

/-- A value whose type is known only when it is inspected. -/
inductive Value where
  | null
  | bool (b : Bool)
  | int (n : Int)
  | float (x : Binary64)
  | text (t : Text)
  | bytes (b : List UInt8)
  | list (items : List Value)
  | dict (entries : List (Value × Value))
  | handle (label : Text)
  | descriptor (code name size path transcoder tag : Value)
  deriving Inhabited

namespace Value

def typeName : Value → Text
  | null => Text.ofString "NoneType"
  | bool _ => Text.ofString "bool"
  | int _ => Text.ofString "int"
  | float _ => Text.ofString "float"
  | text _ => Text.ofString "str"
  | bytes _ => Text.ofString "bytes"
  | list _ => Text.ofString "list"
  | dict _ => Text.ofString "dict"
  | handle _ => Text.ofString "object"
  | descriptor _ _ _ _ _ _ => Text.ofString "Protocol"

def boolName (b : Bool) : Text := Text.ofString (if b then "True" else "False")

/-- How one byte of a byte sequence appears between quotes `quote`. -/
def escapeByte (quote : CodePoint) (b : UInt8) : Text :=
  let c := CodePoint.ofNat b.toNat
  if c = quote ∨ c = .scalar '\\' then [.scalar '\\', c]
  else if c = .scalar '\n' then Text.ofString "\\n"
  else if c = .scalar '\r' then Text.ofString "\\r"
  else if c = .scalar '\t' then Text.ofString "\\t"
  else if 0x20 ≤ b.toNat ∧ b.toNat < 0x7F then [c]
  else .scalar '\\' :: .scalar 'x' :: Text.hexNumeral 2 b.toNat

/-- A byte sequence between quotes, after the letter `b`. -/
def quotedBytes (bytes : List UInt8) : Text :=
  let mark := Text.quoteMark (bytes.map fun b => CodePoint.ofNat b.toNat)
  .scalar 'b' :: mark :: bytes.flatMap (escapeByte mark) ++ [mark]

/-- A field of a descriptor in messages: its name and what it holds. -/
def quotedField (name : String) (shown : Text) : Text := Text.ofString name ++ .scalar '=' :: shown

mutual

/-- A value as messages show it, texts between quotes; a descriptor's tag is left out. -/
def quoted : Value → Text
  | null => Text.ofString "None"
  | bool b => boolName b
  | int n => Text.ofInt n
  | float x => x.text
  | text t => t.quoted
  | bytes b => quotedBytes b
  | list items => .scalar '[' :: Text.listed (quotedItems items) ++ [.scalar ']']
  | dict entries => .scalar '\x7b' :: Text.listed (quotedEntries entries) ++ [.scalar '\x7d']
  | handle label => .scalar '<' :: label ++ [.scalar '>']
  | descriptor code name size path transcoder _ =>
    Text.ofString "Protocol(" ++
      Text.listed [quotedField "code" (quoted code), quotedField "name" (quoted name),
        quotedField "size" (quoted size), quotedField "path" (quoted path),
        quotedField "transcoder" (quoted transcoder)] ++
      [.scalar ')']

def quotedItems : List Value → List Text
  | [] => []
  | v :: rest => quoted v :: quotedItems rest

def quotedEntries : List (Value × Value) → List Text
  | [] => []
  | (k, v) :: rest => (quoted k ++ Text.ofString ": " ++ quoted v) :: quotedEntries rest

end

/-- A value as messages show it, a text standing for itself and a descriptor for its name. -/
def display : Value → Text
  | text t => t
  | descriptor _ name _ _ _ _ => name.display
  | v => v.quoted

/-- The integer a value stands for; booleans stand for 0 and 1. -/
def int? : Value → Option Int
  | int n => some n
  | bool b => some (if b then 1 else 0)
  | _ => none

/-- Equality of values that hold no others. -/
def scalarEquals : Value → Value → Bool
  | null, null => true
  | text a, text b => a == b
  | bytes a, bytes b => a == b
  | handle a, handle b => a == b
  | float x, float y => x.equals y
  | float x, v => (v.int?.map x.equalsInt).getD false
  | v, float x => (v.int?.map x.equalsInt).getD false
  | v, w => match v.int?, w.int? with
    | some m, some n => m == n
    | _, _ => false

mutual

/-- Equality by value.  Descriptors are equal if all but their transcoders is. -/
def equals : Value → Value → Bool
  | list xs, list ys => equalItems xs ys
  | dict xs, dict ys => xs.length == ys.length && entriesIn xs ys
  | descriptor code name size path _ tag, descriptor code' name' size' path' _ tag' =>
    equals code code' && equals name name' && equals size size' && equals path path' &&
      equals tag tag'
  | v, w => scalarEquals v w

def equalItems : List Value → List Value → Bool
  | [], [] => true
  | x :: xs, y :: ys => equals x y && equalItems xs ys
  | _, _ => false

/-- Whether every entry of the first dictionary is one of the second. -/
def entriesIn : List (Value × Value) → List (Value × Value) → Bool
  | [], _ => true
  | (k, v) :: rest, ys =>
    (ys.any fun entry => equals k entry.1 && equals v entry.2) && entriesIn rest ys

end

/-- Whether a value counts as true: everything but zero, the empty and null. -/
def isTruthy : Value → Bool
  | null => false
  | bool b => b
  | int n => n != 0
  | float x => !x.isZero
  | text t => !t.isEmpty
  | bytes b => !b.isEmpty
  | list items => !items.isEmpty
  | dict entries => !entries.isEmpty
  | handle _ => true
  | descriptor _ _ _ _ _ _ => true

/-- The entries with `key` bound to `v`, in place when the key is there already. -/
def insertEntry (key v : Value) : List (Value × Value) → List (Value × Value)
  | [] => [(key, v)]
  | (k, w) :: rest => if k.equals key then (k, v) :: rest else (k, w) :: insertEntry key v rest

/-- The dictionary of a list of entries, of which later ones win. -/
def ofEntries (entries : List (Value × Value)) : Value :=
  dict (entries.foldl (fun known entry => insertEntry entry.1 entry.2 known) [])

end Value

end AddressProtocols
