import AddressProtocols.Proofs.Json.Written
import AddressProtocols.Proofs.Text.Utf8

/-!
# Written documents are ASCII

Whatever code points stand in a document, its text has only the printable characters of ASCII
(`Json.ascii_write`): the others are escapes, and the numerals, the constants and the marks are such
characters anyway.  In UTF-8 the text therefore takes a byte for each code point
(`Text.Ascii.utf8?_eq`). -/

namespace AddressProtocols

/-- The printable characters of ASCII. -/
def CodePoint.Ascii (c : CodePoint) : Prop := 0x20 ≤ c.value ∧ c.value < 0x7F

instance (c : CodePoint) : Decidable c.Ascii := inferInstanceAs (Decidable (_ ∧ _))

namespace Text

/-- A text of printable characters of ASCII. -/
def Ascii (t : Text) : Prop := ∀ c ∈ t, c.Ascii

instance (t : Text) : Decidable t.Ascii := inferInstanceAs (Decidable (∀ c ∈ t, _))

variable {c : CodePoint} {t u : Text}

theorem ascii_cons : Ascii (c :: t) ↔ c.Ascii ∧ t.Ascii := List.forall_mem_cons

theorem ascii_append : (t ++ u).Ascii ↔ t.Ascii ∧ u.Ascii := List.forall_mem_append

theorem Ascii.newline_notMem (h : t.Ascii) : .scalar '\n' ∉ t :=
  fun hmem => absurd (h _ hmem) (by decide)

theorem ascii_listed {ts : List Text} (h : ∀ t ∈ ts, t.Ascii) : (listed ts).Ascii := by
  induction ts with
  | nil => exact fun _ hc => absurd hc List.not_mem_nil
  | cons t rest ih =>
    obtain ⟨ht, hrest⟩ := List.forall_mem_cons.mp h
    cases rest with
    | nil =>
      have hlisted : listed [t] = t := List.intercalate_singleton
      rw [hlisted]
      exact ht
    | cons u rest =>
      have hcomma : Ascii [.scalar ',', .scalar ' '] := by decide
      have hlisted : listed (t :: u :: rest) =
          t ++ ([.scalar ',', .scalar ' '] ++ listed (u :: rest)) := Json.listed_cons_cons t u rest
      rw [hlisted, ascii_append, ascii_append]
      exact ⟨ht, hcomma, ih hrest⟩

theorem ascii_hexNumeral (width n : ℕ) : (hexNumeral width n).Ascii := by
  have hdigit : ∀ k < 16, (CodePoint.ofHexValue k).Ascii := by decide
  intro c hc
  obtain ⟨i, -, rfl⟩ := List.mem_map.mp hc
  exact hdigit _ (Nat.mod_lt _ (by omega))

/-- The bytes of a text of ASCII are the numbers of its code points. -/
theorem Ascii.utf8?_eq (h : t.Ascii) : t.utf8? = some (t.map fun c => UInt8.ofNat c.value) := by
  induction t with
  | nil => rfl
  | cons c rest ih =>
    obtain ⟨hc, hrest⟩ := ascii_cons.mp h
    cases c with
    | surrogate n =>
      obtain ⟨-, hlt⟩ := hc
      rw [CodePoint.value] at hlt
      omega
    | scalar char =>
      have hchar : char.val.toNat ≤ 0x7F := Nat.le_of_lt hc.2
      have hbyte : String.utf8EncodeChar char = [UInt8.ofNat char.toNat] := if_pos hchar
      rw [utf8?_scalar_cons, ih hrest, hbyte]
      rfl

end Text

namespace Json

theorem ascii_codePointEscape (n : ℕ) : (codePointEscape n).Ascii := by
  have hunit : ∀ k, (unitEscape k).Ascii := fun k =>
    Text.ascii_cons.mpr ⟨by decide, Text.ascii_cons.mpr ⟨by decide, Text.ascii_hexNumeral 4 k⟩⟩
  rw [codePointEscape]
  split
  · exact hunit n
  · exact Text.ascii_append.mpr ⟨hunit _, hunit _⟩

theorem ascii_writeCodePoint (c : CodePoint) : (writeCodePoint c).Ascii := by
  rw [writeCodePoint]
  split_ifs with hquoted hnewline hreturn htab hfeed hback hplain
  · rcases hquoted with rfl | rfl <;> decide
  · decide
  · decide
  · decide
  · decide
  · decide
  · exact List.forall_mem_singleton.mpr hplain
  · exact ascii_codePointEscape c.value

theorem ascii_writeString (t : Text) : (writeString t).Ascii := by
  have hpoints : Text.Ascii (t.flatMap writeCodePoint) := by
    intro c hc
    obtain ⟨d, -, hd⟩ := List.mem_flatMap.mp hc
    exact ascii_writeCodePoint d c hd
  exact Text.ascii_append.mpr ⟨Text.ascii_cons.mpr ⟨by decide, hpoints⟩, by decide⟩

theorem ascii_ofInt (n : ℤ) : (Text.ofInt n).Ascii := by
  have hdigits : (Text.ofNat n.natAbs).Ascii := by
    intro c hc
    have hdigit := isJsonDigit_of_mem_ofNat hc
    rw [isJsonDigit, Bool.and_eq_true, decide_eq_true_eq, decide_eq_true_eq] at hdigit
    exact ⟨by omega, by omega⟩
  have hsign : (signOf n).Ascii := by
    rw [signOf]
    split <;> decide
  rw [ofInt_eq_signOf_append, Text.ascii_append]
  exact ⟨hsign, hdigits⟩

theorem writeItems_eq_map (items : List Tree) : writeItems items = items.map write := by
  induction items with
  | nil => rfl
  | cons t rest ih => rw [writeItems, ih, List.map_cons]

theorem writeMembers_eq_map (members : List (Text × Tree)) :
    writeMembers members = members.map fun m => writeString m.1 ++ Text.ofString ": " ++
      write m.2 := by
  induction members with
  | nil => rfl
  | cons m rest ih =>
    obtain ⟨name, t⟩ := m
    rw [writeMembers, ih, List.map_cons]

/-- Whatever stands in a document, its text is ASCII. -/
theorem ascii_write (d : Document) : (write d.tree).Ascii := by
  induction d using Document.induction with
  | null => exact (by decide : (Text.ofString "null").Ascii)
  | bool b => cases b <;> decide
  | int n => exact ascii_ofInt n
  | string t => exact ascii_writeString t
  | array items ih =>
    have hlisted : (Text.listed (writeItems (Document.treeItems items))).Ascii := by
      refine Text.ascii_listed ?_
      rw [writeItems_eq_map, Document.treeItems_eq_map, List.map_map]
      exact List.forall_mem_map.mpr ih
    exact Text.ascii_append.mpr ⟨Text.ascii_cons.mpr ⟨by decide, hlisted⟩, by decide⟩
  | object members ih =>
    have hlisted : (Text.listed (writeMembers (Document.treeMembers members))).Ascii := by
      refine Text.ascii_listed ?_
      rw [writeMembers_eq_map, Document.treeMembers_eq_map, List.map_map]
      refine List.forall_mem_map.mpr fun m hm => ?_
      exact Text.ascii_append.mpr
        ⟨Text.ascii_append.mpr ⟨ascii_writeString m.1, by decide⟩, ih m hm⟩
    exact Text.ascii_append.mpr ⟨Text.ascii_cons.mpr ⟨by decide, hlisted⟩, by decide⟩

end Json

end AddressProtocols
