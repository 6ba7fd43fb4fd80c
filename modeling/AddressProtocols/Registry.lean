import AddressProtocols.Failure

/-!
# The protocol registry

A registry holds descriptors in the order of their registration.  Entries are never replaced or
removed; codes and names are unique.

* `Registry` is the list of descriptors with an index by code and an index by name;
* `Registry.register` adds one descriptor, `Registry.registerAll` several or none at all, and
  `Registry.load` those of a table; all three check what they are given once more;
* `Registry.create` makes a registry from a seed, with transcoders attached by name;
* `Registry.findName`, `Registry.findCode` and `Registry.contains` look things up;
* `Registry.parsePath` resolves a path of names, `Registry.walk` reads a sequence of tags.
-/

namespace AddressProtocols

/-- Descriptors in order of registration, and where to find them by code and by name.  The indices
list the latest registration first. -/
structure Registry where
  protocols : List Descriptor
  byCode : List (Nat × Descriptor)
  byName : List (Text × Descriptor)
  deriving Inhabited

namespace Registry

def empty : Registry := ⟨[], [], []⟩

/-! ### Lookup -/

def findCode (r : Registry) (code : Nat) : Option Descriptor := r.byCode.lookup code

def findName (r : Registry) (name : Text) : Option Descriptor := r.byName.lookup name

/-- The descriptor of a value as a code: only integers are codes, booleans are none. -/
def lookupCode (r : Registry) : Value → Option Descriptor
  | .int (.ofNat n) => r.findCode n
  | _ => none

/-- The descriptor of a value as a name: only texts are names. -/
def lookupName (r : Registry) : Value → Option Descriptor
  | .text name => r.findName name
  | _ => none

/-- Whether a name, a code or a descriptor is registered.  A descriptor is looked up by its code,
and counts if all but its transcoder agrees. -/
def contains (r : Registry) (v : Value) : Bool :=
  match v with
  | .text name => (r.findName name).isSome
  | .descriptor code _ _ _ _ _ =>
    match r.byCode.find? fun entry => (Value.int entry.1).equals code with
    | some entry => entry.2.value.equals v
    | none => false
  | v => (r.lookupCode v).isSome

/-! ### Registration -/

/-- The failure to report if a descriptor's code or name is taken; the code comes first. -/
def collision? (r : Registry) (d : Descriptor) : Option Failure :=
  match r.findCode d.code, r.findName d.name with
  | some existing, _ => some (.codeTaken d existing)
  | none, some existing => some (.nameTaken d existing)
  | none, none => none

def push (r : Registry) (d : Descriptor) : Registry :=
  ⟨r.protocols ++ [d], (d.code, d) :: r.byCode, (d.name, d) :: r.byName⟩

/-- Adds a descriptor unless its code or name is taken. -/
def add (r : Registry) (d : Descriptor) : Except Failure Registry :=
  match r.collision? d with
  | some failure => .error failure
  | none => .ok (r.push d)

/-- Adds descriptors one after the other, as long as none collides. -/
def extend (r : Registry) (ds : List Descriptor) : Except Failure Registry := ds.foldlM add r

/-- The descriptor that a value stands for, all its fields checked. -/
def checkOne (v : Value) : Except Failure Descriptor :=
  (Descriptor.ofValue v).mapError .descriptor

/-- The descriptors that values stand for, up to the first fault. -/
def checkAll (vs : List Value) : Except Failure (List Descriptor) := vs.mapM checkOne

/-- Adds one descriptor; gives the new registry and the descriptor as stored. -/
def register (r : Registry) (v : Value) : Except Failure (Registry × Descriptor) := do
  let d ← checkOne v
  let r' ← r.add d
  return (r', d)

/-- Adds several descriptors, or none at all if one is faulty or collides; gives the new registry
and the descriptors as stored. -/
def registerAll (r : Registry) (vs : List Value) :
    Except Failure (Registry × List Descriptor) := do
  let ds ← checkAll vs
  let r' ← r.extend ds
  return (r', ds)

/-- Adds the descriptors of a table, or none at all. -/
def load (r : Registry) (source : Table.Source) :
    Except Failure (Registry × List Descriptor) := do
  let ds ← (Table.read source).mapError .table
  r.registerAll (ds.map Descriptor.value)

/-! ### Creation -/

def nameOf : Value → Option Text
  | .descriptor _ (.text name) _ _ _ _ => some name
  | _ => none

/-- A seed entry with the transcoder of its name attached and its fields checked; an entry without
one stays as it is. -/
def attach (transcoders : List (Text × Value)) (v : Value) : Except Failure Value :=
  match v, (nameOf v).bind fun name => transcoders.lookup name with
  | .descriptor code name size path _ tag, some transcoder =>
    (checkOne (.descriptor code name size path transcoder tag)).map Descriptor.value
  | v, _ => .ok v

/-- The names of transcoders that no seed entry has, in order. -/
def unmatched (transcoders : List (Text × Value)) (seed : List Value) : List Text :=
  let names := seed.map nameOf
  ((transcoders.map (·.1)).filter fun name => !names.contains (some name)).mergeSort Text.le

def builtinSeed : List Value := Descriptor.builtins.map Descriptor.value

/-- A registry that starts from a seed, or from the built-in table, with transcoders attached by
name.  Every transcoder must have an entry to go to. -/
def create (seed : Option (List Value)) (transcoders : List (Text × Value)) :
    Except Failure Registry := do
  let seed := seed.getD builtinSeed
  let names := unmatched transcoders seed
  if !names.isEmpty then .error (.descriptor (.unmatchedTranscoders names))
  let seed ← seed.mapM (attach transcoders)
  let (r, _) ← empty.registerAll seed
  return r

def builtin : Registry := Descriptor.builtins.foldl push empty

/-! ### Paths and tags -/

/-- The descriptors of names, up to the first name that is not registered. -/
def resolve (r : Registry) : List Text → Except Failure (List Descriptor)
  | [] => .ok []
  | segment :: rest =>
    match r.findName segment with
    | none => .error (.unknownName segment)
    | some d => (r.resolve rest).map (d :: ·)

/-- The descriptors of the names between the delimiters of a path; delimiters at either end do not
count, and a path without names is empty. -/
def parsePath (r : Registry) (path : Text) : Except Failure (List Descriptor) :=
  match path.strip pathDelimiter with
  | [] => .ok []
  | stripped => r.resolve (stripped.splitOn pathDelimiter)

/-- The codes of a sequence of tags, each with the length of its tag and its descriptor. -/
def walk (r : Registry) (bytes : List UInt8) :
    Except Failure (List (Nat × Nat × Option Descriptor)) :=
  match Varint.decodeAll bytes 0 with
  | (tags, none) => .ok (tags.map fun (code, n) => (code, n, r.findCode code))
  | (_, some malformed) => .error (.varint malformed)

/-- A registry as messages show it: its names in order. -/
def quoted (r : Registry) : Text :=
  Text.ofString "Registry(" ++ Text.listed (r.protocols.map (·.name)) ++ Text.ofString ")"

end Registry

end AddressProtocols
