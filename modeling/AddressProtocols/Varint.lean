import AddressProtocols.Value

/-!
# Unsigned varints

A number is cut into groups of seven bits, least significant first, one group to a byte; the high
bit of a byte says that another follows.  `1` is `01`, `127` is `7f`, `128` is `80 01`, `300` is
`ac 02`.

* `Varint.encode` writes a number with the fewest groups; `Varint.encode?` refuses what is no
  integer of `0 … 2 ^ 64 - 1`;
* `Varint.decode` reads one number from the front of a byte sequence and counts the bytes it took;
  it refuses a sequence that ends inside a number, and any number that needs more than 64 bits;
* `Varint.decodeAt` reads at an offset, `Varint.decodeAll` reads one number after the other.
-/

namespace AddressProtocols

namespace Varint

/-- The greatest number of 64 bits. -/
def maxValue : Nat := 0xFFFFFFFFFFFFFFFF

/-- The most bytes a number of 64 bits takes. -/
def maxLength : Nat := 10

/-- The high bit of a byte, which says that another byte follows. -/
def continuation : Nat := 0x80

/-- The bits of a byte that carry its group. -/
def payloadMask : Nat := 0x7F

def groupBits : Nat := 7

/-! ### Encoding -/

/-- The groups of a number, least significant first, the high bit set on all but the last. -/
def encode (n : Nat) : List UInt8 :=
  if n < continuation then [UInt8.ofNat n]
  else UInt8.ofNat ((n &&& payloadMask) ||| continuation) :: encode (n >>> groupBits)
  termination_by n
  decreasing_by
    rename_i h
    simp only [continuation, groupBits, Nat.shiftRight_eq_div_pow] at h ⊢
    omega

inductive RangeFault where
  /-- Not an integer; booleans are none. -/
  | notInteger (typeName : Text)
  /-- An integer that is negative or needs more than 64 bits. -/
  | outside (n : Int)

def RangeFault.message : RangeFault → Text
  | notInteger typeName => Text.ofString "varint value must be an int, not " ++ typeName
  | outside n =>
    Text.ofString "varint value " ++ Text.ofInt n ++ Text.ofString " outside uint64 range"

/-- The encoding of an integer of at most 64 bits. -/
def encodeInt? (n : Int) : Except RangeFault (List UInt8) :=
  if n < 0 ∨ (maxValue : Int) < n then .error (.outside n) else .ok (encode n.toNat)

/-- The encoding of a value, which must be an integer of at most 64 bits. -/
def encode? : Value → Except RangeFault (List UInt8)
  | .int n => encodeInt? n
  | v => .error (.notInteger v.typeName)

/-- The fewest bytes that hold a number: one for each seven bits, and one for zero. -/
def minLength (n : Nat) : Nat :=
  let bits := if n = 0 then 0 else Nat.log2 n + 1
  max 1 ((bits + 6) / 7)

/-! ### Decoding -/

inductive Defect where
  /-- The bytes end before the number does. -/
  | truncated
  /-- The number needs more than 64 bits. -/
  | overflow
  deriving DecidableEq, Repr

/-- Reads on inside a number, of which `taken` bytes are read and `value` holds the groups.  The
last byte that a number may have carries a single bit and must end it.  Gives the number and how
many bytes it took in all. -/
def decodeGroups (value taken : Nat) : List UInt8 → Except Defect (Nat × Nat)
  | [] => .error .truncated
  | b :: rest =>
    if taken = maxLength - 1 ∧ 1 < b.toNat then .error .overflow
    else
      let grown := value ||| ((b.toNat &&& payloadMask) <<< (groupBits * taken))
      if b.toNat < continuation then .ok (grown, taken + 1) else decodeGroups grown (taken + 1) rest

/-- Reads the number at the front of a byte sequence. -/
def decode (bytes : List UInt8) : Except Defect (Nat × Nat) := decodeGroups 0 0 bytes

inductive Malformed where
  | truncated (offset : Nat)
  | overflow (offset : Nat)
  /-- The offset itself is no integer, or negative. -/
  | badOffset (offset : Value)

namespace Malformed

/-- A defect found in the number that starts at `offset`. -/
def ofDefect (offset : Nat) : Defect → Malformed
  | .truncated => truncated offset
  | .overflow => overflow offset

def message : Malformed → Text
  | truncated _ => Text.ofString "buffer ends inside varint"
  | overflow _ => Text.ofString "varint exceeds 64 bits"
  | badOffset v => Text.ofString "invalid varint offset " ++ v.quoted

def offset? : Malformed → Option Nat
  | truncated n => some n
  | overflow n => some n
  | badOffset _ => none

end Malformed

/-- Reads the number that starts at an offset; at or past the end there are no bytes. -/
def decodeFrom (bytes : List UInt8) (offset : Nat) : Except Malformed (Nat × Nat) :=
  (decode (bytes.drop offset)).mapError (Malformed.ofDefect offset)

/-- Reads the number that starts at an offset, which must be an integer and not negative. -/
def decodeAt (bytes : List UInt8) : Value → Except Malformed (Nat × Nat)
  | .int (.ofNat offset) => decodeFrom bytes offset
  | v => .error (.badOffset v)

/-- The number at the front of a byte sequence, without its length. -/
def first (bytes : List UInt8) : Except Malformed Nat :=
  (decodeFrom bytes 0).map (·.1)

/-- A successful read takes another byte, and no more bytes than there are. -/
theorem decodeGroups_taken {value taken v n : Nat} {bytes : List UInt8}
    (h : decodeGroups value taken bytes = .ok (v, n)) :
    taken < n ∧ n ≤ taken + bytes.length := by
  induction bytes generalizing value taken with
  | nil => simp [decodeGroups] at h
  | cons b rest ih =>
    simp only [decodeGroups] at h
    split at h
    · simp at h
    · split at h
      · simp only [Except.ok.injEq, Prod.mk.injEq] at h
        simp only [List.length_cons]
        omega
      · have := ih h
        simp only [List.length_cons]
        omega

theorem decode_pos {bytes : List UInt8} {v n : Nat} (h : decode bytes = .ok (v, n)) : 0 < n :=
  (decodeGroups_taken h).1

theorem decode_le_length {bytes : List UInt8} {v n : Nat} (h : decode bytes = .ok (v, n)) :
    n ≤ bytes.length := by
  have := (decodeGroups_taken h).2
  omega

/-- Reads numbers to the end of the bytes, or to the first malformed one; `offset` is where they
start. -/
def decodeRest (offset : Nat) (bytes : List UInt8) : List (Nat × Nat) × Option Malformed :=
  if bytes.isEmpty then ([], none)
  else
    match _h : decode bytes with
    | .error defect => ([], some (.ofDefect offset defect))
    | .ok (v, n) =>
      let (values, stopped) := decodeRest (offset + n) (bytes.drop n)
      ((v, n) :: values, stopped)
  termination_by bytes.length
  decreasing_by
    have := decode_pos _h
    have := decode_le_length _h
    simp only [List.length_drop]
    omega

/-- Reads numbers from an offset to the end of the bytes, or to the first malformed one. -/
def decodeAll (bytes : List UInt8) (offset : Nat) : List (Nat × Nat) × Option Malformed :=
  decodeRest offset (bytes.drop offset)

end Varint

end AddressProtocols
