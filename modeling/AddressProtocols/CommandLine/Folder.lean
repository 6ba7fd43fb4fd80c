import AddressProtocols.Text.Quoted

/-!
# Files a run may read

* `ReadFault` is why a file cannot be read: the system's error number and its wording;
* `Folder` is a folder of files without subfolders, and `Folder.open?` resolves a path in it the way
  a POSIX system does.  Names and paths are sequences of bytes.  Nothing but the folder itself and
  the folders above it exists, and a name or path that is too long is a fault of its own.
-/

namespace AddressProtocols

namespace CommandLine

structure ReadFault where
  number : Nat
  reason : Text
  deriving DecidableEq, Repr

namespace ReadFault

def notFound : ReadFault := ⟨2, Text.ofString "No such file or directory"⟩

/-- The path goes on after the name of a file. -/
def notFolder : ReadFault := ⟨20, Text.ofString "Not a directory"⟩

def isFolder : ReadFault := ⟨21, Text.ofString "Is a directory"⟩

/-- The path, or a name in it, is longer than the system allows. -/
def nameTooLong : ReadFault := ⟨36, Text.ofString "File name too long"⟩

def message (fault : ReadFault) (path : Text) : Text :=
  Text.ofString "[Errno " ++ Text.ofNat fault.number ++ Text.ofString "] " ++ fault.reason ++
    Text.ofString ": " ++ path.quoted

end ReadFault

/-- The name of a file, or a path of names with slashes between them. -/
abbrev Path := List UInt8

namespace Path

def slash : UInt8 := 0x2F

/-- The name by which a folder refers to itself. -/
def itself : Path := [0x2E]

/-- The name by which a folder refers to the folder above it. -/
def parent : Path := [0x2E, 0x2E]

end Path

/-- A folder of files, by name. -/
abbrev Folder := List (Path × List UInt8)

namespace Folder

def longestName : Nat := 255

def longestPath : Nat := 4095

/-- Where a path has led to. -/
inductive Place where
  /-- The folder itself. -/
  | inside
  /-- A folder above it. -/
  | above
  deriving DecidableEq, Repr

/-- What a name that leads nowhere special refers to.  Above the folder there is nothing. -/
def find (folder : Folder) (place : Place) (name : Path) : Option (List UInt8) :=
  match place with
  | .inside => folder.lookup name
  | .above => none

/-- The contents of the file that the names of a path lead to. -/
def follow (folder : Folder) (place : Place) : List Path → Except ReadFault (List UInt8)
  | [] => .error .isFolder
  | name :: rest =>
    if name.isEmpty ∨ name = Path.itself then folder.follow place rest
    else if name = Path.parent then folder.follow .above rest
    else if longestName < name.length then .error .nameTooLong
    else
      match folder.find place name, rest with
      | some contents, [] => .ok contents
      | some _, _ :: _ => .error .notFolder
      | none, _ => .error .notFound

/-- The contents of the file at a path. -/
def open? (folder : Folder) (path : Path) : Except ReadFault (List UInt8) :=
  if longestPath < path.length then .error .nameTooLong
  else
    let start := if path.head? = some Path.slash then Place.above else .inside
    folder.follow start (path.splitOn Path.slash)

end Folder

end CommandLine

end AddressProtocols
