import AddressProtocols.CommandLine.Program
import AddressProtocols.Proofs.Descriptor.Construction
import AddressProtocols.Proofs.Text.Hex
import AddressProtocols.Proofs.Text.Numeral
import AddressProtocols.Proofs.Text.Words

/-!
# Rows

A row shows a descriptor in five columns.  A field that is too long for its column moves the rest to
the right, but the blanks between columns stay, so that the words of a row are its fields.

* `words_columns`: the words of a row are those of its fields, whatever their lengths;
* `words_row`: each field of a descriptor is one word, as long as its name is;
* `Descriptor.size_eq_of_sizeLabel_eq` and `row_lossless`: the fields tell the descriptor, its
  transcoder apart, and the tag tells the code. -/

namespace AddressProtocols

/-! ### Fields are words -/

namespace Text

theorem isSpace_of_isJsonDigit {c : CodePoint} (h : Json.isJsonDigit c = true) :
    c.isSpace = false := by
  rw [CodePoint.isSpace, isBlank_of_isJsonDigit h, Bool.false_or]
  rw [Json.isJsonDigit_iff] at h
  simp only [Bool.and_eq_false_iff, decide_eq_false_iff_not]
  omega

theorem words_ofNat (n : ℕ) : words (ofNat n) = [ofNat n] :=
  words_eq_singleton (ofNat_ne_nil n) fun _ hc =>
    isSpace_of_isJsonDigit (Json.isJsonDigit_of_mem_ofNat hc)

theorem words_ofBytes {bytes : List UInt8} (h : bytes ≠ []) :
    words (ofBytes bytes) = [ofBytes bytes] := by
  refine words_eq_singleton ?_ fun c hc => ?_
  · rw [← List.length_pos_iff, length_ofBytes]
    have := List.length_pos_iff.mpr h
    omega
  · obtain ⟨k, hk, rfl⟩ := mem_ofBytes hc
    have hall : ∀ k < 16, (CodePoint.ofHexValue k).isSpace = false := by decide
    exact hall k hk

end Text

namespace Descriptor

variable {d d' : Descriptor}

theorem words_sizeLabel (d : Descriptor) : Text.words d.sizeLabel = [d.sizeLabel] := by
  rw [sizeLabel]
  split
  · exact Text.words_ofNat _
  · rfl

/-- Labels tell sizes apart: no numeral is `var`. -/
theorem size_eq_of_sizeLabel_eq (h : d.sizeLabel = d'.sizeLabel) : d.size = d'.size := by
  have hvar : ∀ n : ℕ, Text.ofNat n ≠ Text.ofString "var" := by
    intro n hn
    have hmem : CodePoint.scalar 'v' ∈ Text.ofNat n := hn ▸ List.mem_cons_self
    cases Json.isJsonDigit_of_mem_ofNat hmem
  rw [sizeLabel, sizeLabel] at h
  cases hsize : d.size with
  | bits n =>
    cases hsize' : d'.size with
    | bits m =>
      rw [hsize, hsize'] at h
      exact congrArg PayloadSize.bits (Text.ofNat_injective h)
    | lengthPrefixed =>
      rw [hsize, hsize'] at h
      exact absurd h (hvar n)
  | lengthPrefixed =>
    cases hsize' : d'.size with
    | bits m =>
      rw [hsize, hsize'] at h
      exact absurd h.symm (hvar m)
    | lengthPrefixed => rfl

/-- The label of a size is `var` for the mark of a length-prefixed payload, and else a numeral. -/
theorem sizeLabel_eq (d : Descriptor) :
    d.sizeLabel = if d.size.toInt = lengthPrefixedMark then Text.ofString "var"
      else Text.ofInt d.size.toInt := by
  rw [sizeLabel]
  cases d.size with
  | bits n =>
    have hne : (PayloadSize.bits n).toInt ≠ lengthPrefixedMark := by
      rw [PayloadSize.toInt, lengthPrefixedMark]
      omega
    exact (if_neg hne).symm
  | lengthPrefixed => exact (if_pos rfl).symm

end Descriptor

namespace CommandLine

/-! ### Rows and their words -/

theorem words_append_spaces (n : ℕ) (s t : Text) :
    Text.words (s ++ spaces (n + 1) ++ t) = Text.words s ++ Text.words t := by
  have hne : spaces (n + 1) ≠ [] := List.cons_ne_nil _ _
  exact Text.words_append_gap_append hne Text.isSpace_of_mem_replicate s t

/-- However long the fields are, there are blanks between them. -/
theorem words_columns (code name size path tag : Text) :
    Text.words (columns code name size path tag) =
      Text.words code ++ Text.words name ++ Text.words size ++ Text.words path ++
        Text.words tag := by
  simp only [columns, words_append_spaces, Text.words_padLeft, Text.words_padRight]

/-- The word of a path flag. -/
theorem words_pathLabel (path : Bool) :
    Text.words (Text.ofString (if path then "path" else "-")) =
      [Text.ofString (if path then "path" else "-")] := by
  cases path <;> rfl

section Fields

variable {d d' : Descriptor}

theorem words_row (hd : d.Checked) (hname : ∀ c ∈ d.name, c.isSpace = false) :
    Text.words (row d) = [Text.ofNat d.code, d.name, d.sizeLabel,
      Text.ofString (if d.path then "path" else "-"), Text.ofBytes d.tag] := by
  have htag : d.tag ≠ [] := by
    obtain ⟨init, last, henc, -⟩ := Varint.encode_framed d.code
    rw [hd.tag_eq, henc]
    exact List.append_ne_nil_of_right_ne_nil init (List.cons_ne_nil last [])
  rw [row, words_columns, Text.words_ofNat, Text.words_eq_singleton hd.name_ne_nil hname,
    d.words_sizeLabel, words_pathLabel, Text.words_ofBytes htag]
  rfl

/-- **Rows lose nothing.**  Cut at white space, the row of a descriptor whose name contains none
gives five fields, however long they are: the decimal code, the name, `var` or the decimal size,
`path` or `-`, and the tag in hexadecimal.  Two such descriptors with one row agree in code, name,
size and path flag.  The last field spells the bytes of a varint, which decode to the number that
the first field denotes. -/
theorem row_lossless (hd : d.Checked) (hname : ∀ c ∈ d.name, c.isSpace = false) :
    Text.words (row d) = [Text.ofNat d.code, d.name,
        if d.size.toInt = lengthPrefixedMark then Text.ofString "var" else Text.ofInt d.size.toInt,
        Text.ofString (if d.path then "path" else "-"), Text.ofBytes d.tag] ∧
      (∀ d' : Descriptor, d'.Checked → (∀ c ∈ d'.name, c.isSpace = false) → row d' = row d →
        d'.code = d.code ∧ d'.name = d.name ∧ d'.size = d.size ∧ d'.path = d.path) ∧
      (Text.ofBytes d.tag).bytes? = some d.tag ∧
      Varint.decodeFrom d.tag 0 = .ok (d.code, d.tag.length) ∧ (Text.ofNat d.code).nat? =
        some d.code := by
  have hwords := words_row hd hname
  refine ⟨?_, fun d' hd' hname' hrow => ?_, ?_, ?_, ?_⟩
  · rw [hwords, Descriptor.sizeLabel_eq]
  · rw [← hrow, words_row hd' hname'] at hwords
    simp only [List.cons.injEq] at hwords
    obtain ⟨hcode, hname, hsize, hpath, -⟩ := hwords
    have hflag : ∀ p q : Bool,
        Text.ofString (if p then "path" else "-") = Text.ofString (if q then "path" else "-") →
          p = q := by
      decide
    exact ⟨Text.ofNat_injective hcode, hname, Descriptor.size_eq_of_sizeLabel_eq hsize,
      hflag _ _ hpath⟩
  · exact Text.bytes?_eq_some.mpr (Text.hex_ofBytes d.tag)
  · exact hd.decodeFrom_tag
  · exact Text.nat?_ofNat (Text.lt_pow_maxDigits hd.code_le)

/-- A descriptor all of whose fields are too long for their columns. -/
def overflowing : Descriptor :=
  ⟨Varint.maxValue, Text.ofString "protocol-of-old", .bits 1000000, true, .null,
    Varint.encode Varint.maxValue⟩

/-- Its fields stand one blank or two apart. -/
theorem row_lossless_overflowing :
    overflowing.Checked ∧ (∀ c ∈ overflowing.name, c.isSpace = false) ∧
      row overflowing = Text.ofString
        "18446744073709551615  protocol-of-old 1000000  path  ffffffffffffffffff01" ∧
      Text.words (row overflowing) = ["18446744073709551615", "protocol-of-old", "1000000", "path",
        "ffffffffffffffffff01"].map Text.ofString := by
  have hchecked : overflowing.Checked := ⟨Nat.le_refl _, by decide, by decide, rfl⟩
  have hname : ∀ c ∈ overflowing.name, c.isSpace = false := by decide
  have hrow : row overflowing = Text.ofString
      "18446744073709551615  protocol-of-old 1000000  path  ffffffffffffffffff01" := by
    decide +kernel
  obtain ⟨hwords, -⟩ := row_lossless hchecked hname
  refine ⟨hchecked, hname, hrow, hwords.trans ?_⟩
  decide +kernel

end Fields

end CommandLine

end AddressProtocols
