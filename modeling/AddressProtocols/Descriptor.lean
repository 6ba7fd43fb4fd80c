import AddressProtocols.Varint

/-!
# Protocol descriptors

A descriptor describes one segment type of an address: its numeric code, its name in the textual
form, the size of its payload, whether its textual value is a path that takes up the rest of the
address, and the transcoder that converts the payload.  Its tag is the varint of its code.

* `Descriptor` is a descriptor, `Descriptor.ofFields` checks loosely typed fields and derives the
  tag;
* `Candidate` is a descriptor as it comes from outside: its fields may have been overwritten with
  anything;
* `Descriptor.ofValue` is the descriptor that a value stands for, all its fields checked again;
* `Descriptor.builtins` is the table every registry starts from.
-/

namespace AddressProtocols

/-- What separates the names in a path; no name contains it. -/
def pathDelimiter : CodePoint := .scalar '/'

/-- The size of a payload: a width in bits, zero for none, or a length that comes before it. -/
inductive PayloadSize where
  | bits (n : Nat)
  | lengthPrefixed
  deriving DecidableEq, Repr, Inhabited

/-- The number that marks a length-prefixed payload. -/
def lengthPrefixedMark : Int := -1

def PayloadSize.toInt : PayloadSize → Int
  | bits n => n
  | lengthPrefixed => lengthPrefixedMark

/-- One segment type of an address.  `transcoder` is null when there is none. -/
structure Descriptor where
  code : Nat
  name : Text
  size : PayloadSize
  path : Bool
  transcoder : Value
  tag : List UInt8
  deriving Inhabited

/-- A descriptor whose fields nobody has checked. -/
structure Candidate where
  code : Value
  name : Value
  size : Value
  path : Value
  transcoder : Value
  tag : Value
  deriving Inhabited

namespace Descriptor

/-! ### Checking fields -/

/-- Why fields, or a value, do not make a descriptor. -/
inductive Fault where
  | codeType
  | codeRange (code : Int)
  | emptyName
  | delimiterInName (name : Text)
  | sizeType
  | negativeSize (size : Int)
  | pathType
  | notDescriptor (typeName : Text)
  /-- Transcoders were given for names that no descriptor has. -/
  | unmatchedTranscoders (names : List Text)

/-- What is wrong, in words.  A code or a size out of range is shown in full, so the message is for
integers of which a text can be made, those of at most `Text.maxDigits` digits. -/
def Fault.message : Fault → Text
  | codeType => Text.ofString "protocol code must be an int"
  | codeRange code =>
    Text.ofString "protocol code " ++ Text.ofInt code ++ Text.ofString " outside uint64 range"
  | emptyName => Text.ofString "protocol name must be a non-empty string"
  | delimiterInName name =>
    Text.ofString "protocol name " ++ name.quoted ++ Text.ofString " contains " ++
      Text.quoted [pathDelimiter]
  | sizeType => Text.ofString "protocol size must be an int"
  | negativeSize size =>
    Text.ofString "protocol size " ++ Text.ofInt size ++ Text.ofString " is negative"
  | pathType => Text.ofString "protocol path flag must be a bool"
  | notDescriptor typeName => Text.ofString "expected a Protocol, got " ++ typeName
  | unmatchedTranscoders names =>
    Text.ofString "transcoders given for unknown protocols: " ++ Text.listed names

/-- A code is an integer of at most 64 bits. -/
def checkCode : Value → Except Fault Nat
  | .int n => if n < 0 ∨ (Varint.maxValue : Int) < n then .error (.codeRange n) else .ok n.toNat
  | _ => .error .codeType

/-- A name is a text that is not empty and holds no path delimiter. -/
def checkName : Value → Except Fault Text
  | .text [] => .error .emptyName
  | .text name =>
    if pathDelimiter ∈ name then .error (.delimiterInName name) else .ok name
  | _ => .error .emptyName

/-- A size is a width in bits or the mark of a length-prefixed payload. -/
def checkSize : Value → Except Fault PayloadSize
  | .int n =>
    if n < lengthPrefixedMark then .error (.negativeSize n)
    else if n = lengthPrefixedMark then .ok .lengthPrefixed
    else .ok (.bits n.toNat)
  | _ => .error .sizeType

/-- A path flag is a boolean. -/
def checkPath : Value → Except Fault Bool
  | .bool b => .ok b
  | _ => .error .pathType

/-- The descriptor of the fields, checked from left to right, with the tag of its code. -/
def ofFields (code name size path transcoder : Value) : Except Fault Descriptor := do
  let code ← checkCode code
  let name ← checkName name
  let size ← checkSize size
  let path ← checkPath path
  return ⟨code, name, size, path, transcoder, Varint.encode code⟩

/-- The descriptor that a value stands for, from its current fields.  Its current tag does not
matter: it is derived again. -/
def ofValue : Value → Except Fault Descriptor
  | .descriptor code name size path transcoder _ => ofFields code name size path transcoder
  | v => .error (.notDescriptor v.typeName)

/-! ### The built-in table -/

def plain (code : Nat) (name : String) (size : PayloadSize) (path : Bool) : Descriptor :=
  ⟨code, Text.ofString name, size, path, .null, Varint.encode code⟩

/-- The protocols every registry knows unless it is told otherwise. -/
def builtins : List Descriptor := [
  plain 4 "ip4" (.bits 32) false,
  plain 6 "tcp" (.bits 16) false,
  plain 17 "udp" (.bits 16) false,
  plain 33 "dccp" (.bits 16) false,
  plain 41 "ip6" (.bits 128) false,
  plain 132 "sctp" (.bits 16) false,
  plain 444 "onion" (.bits 96) false,
  plain 301 "utp" (.bits 0) false,
  plain 302 "udt" (.bits 0) false,
  plain 480 "http" (.bits 0) false,
  plain 443 "https" (.bits 0) false,
  plain 421 "ipfs" .lengthPrefixed false,
  plain 400 "unix" .lengthPrefixed true]

/-! ### Views -/

def candidate (d : Descriptor) : Candidate :=
  ⟨.int d.code, .text d.name, .int d.size.toInt, .bool d.path, d.transcoder, .bytes d.tag⟩

def value (d : Descriptor) : Value :=
  .descriptor (.int d.code) (.text d.name) (.int d.size.toInt) (.bool d.path) d.transcoder
    (.bytes d.tag)

/-- How a size appears in tables: the width, or `var`. -/
def sizeLabel (d : Descriptor) : Text :=
  match d.size with
  | .bits n => Text.ofNat n
  | .lengthPrefixed => Text.ofString "var"

end Descriptor

namespace Candidate

def value (c : Candidate) : Value :=
  .descriptor c.code c.name c.size c.path c.transcoder c.tag

/-- The candidate that a value is, if it is one. -/
def ofValue? : Value → Option Candidate
  | .descriptor code name size path transcoder tag =>
    some ⟨code, name, size, path, transcoder, tag⟩
  | _ => none

/-- Whether the payload carries its own length. -/
def isLengthPrefixed (c : Candidate) : Bool := c.size.equals (.int lengthPrefixedMark)

/-- Whether there is a payload at all. -/
def hasPayload (c : Candidate) : Bool := !c.size.equals (.int 0)

/-- The payload's length in whole bytes, unless it carries its own. -/
def byteSize? (c : Candidate) : Option Int :=
  if c.isLengthPrefixed then none else c.size.int?.map fun bits => Int.fdiv (bits + 7) 8

/-- The fields of a table entry: the size by its label, the path flag only when it is set. -/
def entry (c : Candidate) : List (Text × Value) :=
  [(Text.ofString "code", c.code), (Text.ofString "name", c.name),
    (Text.ofString "size",
      if c.isLengthPrefixed then .text (Text.ofString "var") else c.size)] ++
    if c.path.isTruthy then [(Text.ofString "path", .bool true)] else []

end Candidate

end AddressProtocols
