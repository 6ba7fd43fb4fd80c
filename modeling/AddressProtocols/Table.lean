import AddressProtocols.Descriptor
import AddressProtocols.Json.Strict
import AddressProtocols.Text.Utf8

/-!
# Protocol tables

A protocol table is a JSON document `{"protocols": [entry, …]}`.  An entry has a `code`, a `name`
and a `size`, which is a width in bits or the text `var`, and may have a `path` flag.

* `Table.Source` is a table as it arrives: text, or bytes in UTF-8;
* `Table.readDocument` reads the JSON under the strict rules, `Table.ofDocument` turns a document
  into descriptors, and `Table.read` does both;
* `Table.Fault` says what is wrong with a table.

A table is read completely or not at all.
-/

namespace AddressProtocols

namespace Table

/-- A table as it arrives. -/
inductive Source where
  | text (t : Text)
  | bytes (b : List UInt8)

inductive EntryFault where
  | notObject
  | missing (names : List Text)
  | unknown (names : List Text)
  | nullField
  | negativeSize
  | descriptor (fault : Descriptor.Fault)

inductive Fault where
  | notUtf8
  | json (mistake : Json.Mistake) (line column position : Nat)
  | tooDeep
  | refused (reason : Json.Refusal)
  | notTable
  | notList
  | entry (index : Nat) (fault : EntryFault)

def EntryFault.message : EntryFault → Text
  | notObject => Text.ofString " must be an object"
  | missing names => Text.ofString " missing " ++ Text.listed names
  | unknown names => Text.ofString " unknown field " ++ Text.listed names
  | nullField => Text.ofString " null not allowed"
  | negativeSize => Text.ofString " size must be >= 0 or \"var\""
  | descriptor fault => Text.ofString ": " ++ fault.message

def Fault.message : Fault → Text
  | notUtf8 => Text.ofString "invalid UTF-8 in protocol table"
  | json mistake line column position =>
    Text.ofString "JSON parse error: " ++ mistake.message ++ Text.ofString ": line " ++
      Text.ofNat line ++ Text.ofString " column " ++ Text.ofNat column ++
      Text.ofString " (char " ++ Text.ofNat position ++ Text.ofString ")"
  | tooDeep => Text.ofString "protocol table nested too deeply"
  | refused reason => reason.message
  | notTable => Text.ofString "table must be an object with a single \"protocols\" key"
  | notList => Text.ofString "\"protocols\" must be a list"
  | entry index fault =>
    Text.ofString "protocols[" ++ Text.ofNat index ++ .scalar ']' :: fault.message

/-! ### Reading the JSON -/

def Source.text? : Source → Option Text
  | text t => some t
  | bytes b => Text.ofUtf8? b

/-- A fault of reading JSON, its position told as line and column as well. -/
def Fault.ofJson (t : Text) : Json.Fault Json.Refusal → Fault
  | .mistake mistake position =>
    json mistake (Json.lineOf t position) (Json.columnOf t position) position
  | .tooDeep => tooDeep
  | .refused reason => refused reason

/-- The document of a source under the strict rules. -/
def readDocument (source : Source) : Except Fault Json.Document :=
  match source.text? with
  | none => .error .notUtf8
  | some t => (Json.readDocument t).mapError (Fault.ofJson t)

/-! ### Entries -/

def requiredNames : List Text :=
  [Text.ofString "code", Text.ofString "name", Text.ofString "size"]

def allowedNames : List Text := requiredNames ++ [Text.ofString "path"]

mutual

def value : Json.Document → Value
  | .null => .null
  | .bool b => .bool b
  | .int n => .int n
  | .string t => .text t
  | .array items => .list (values items)
  | .object members => .dict (valueMembers members)

def values : List Json.Document → List Value
  | [] => []
  | d :: rest => value d :: values rest

/-- The members of an object as entries of a dictionary. -/
def valueMembers : List (Text × Json.Document) → List (Value × Value)
  | [] => []
  | (name, d) :: rest => (.text name, value d) :: valueMembers rest

end

/-- The size that an entry states: the text `var` marks a length-prefixed payload, and no other way
to state one is accepted. -/
def sizeField : Json.Document → Except EntryFault Value
  | .string t => .ok (if t = Text.ofString "var" then .int lengthPrefixedMark else .text t)
  | .int n => if n < 0 then .error .negativeSize else .ok (.int n)
  | d => .ok (value d)

def isNull : Json.Document → Bool
  | .null => true
  | _ => false

/-- The descriptor of the members of an entry. -/
def ofMembers (members : List (Text × Json.Document)) : Except EntryFault Descriptor := do
  let names := members.map (·.1)
  let missing := requiredNames.filter fun name => !names.contains name
  if !missing.isEmpty then .error (.missing missing)
  let unknown := names.filter fun name => !allowedNames.contains name
  if !unknown.isEmpty then .error (.unknown (unknown.mergeSort Text.le))
  if members.any fun member => isNull member.2 then .error .nullField
  let field := fun (name : String) (default : Json.Document) =>
    (members.lookup (Text.ofString name)).getD default
  let size ← sizeField (field "size" .null)
  (Descriptor.ofFields (value (field "code" .null)) (value (field "name" .null)) size
    (value (field "path" (.bool false))) .null).mapError .descriptor

/-- The descriptor of an entry. -/
def ofEntry : Json.Document → Except EntryFault Descriptor
  | .object members => ofMembers members
  | _ => .error .notObject

/-- The descriptors of entries, the first of which has the given index. -/
def ofEntries (index : Nat) : List Json.Document → Except Fault (List Descriptor)
  | [] => .ok []
  | d :: rest =>
    match ofEntry d with
    | .error fault => .error (.entry index fault)
    | .ok descriptor => (ofEntries (index + 1) rest).map (descriptor :: ·)

/-- The descriptors of a document, in order. -/
def ofDocument : Json.Document → Except Fault (List Descriptor)
  | .object [(name, entries)] =>
    if name = Text.ofString "protocols" then
      match entries with
      | .array items => ofEntries 0 items
      | _ => .error .notList
    else .error .notTable
  | _ => .error .notTable

/-- The descriptors of a table, in order. -/
def read (source : Source) : Except Fault (List Descriptor) :=
  readDocument source >>= ofDocument

end Table

end AddressProtocols
