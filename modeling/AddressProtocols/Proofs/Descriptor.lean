import AddressProtocols.Descriptor
import AddressProtocols.Proofs.Outcome

/-!
# What the checks of a descriptor accept

The four field checks each accept one type of value and give the very number, text or flag it
holds.  Together they accept exactly the fields of a `Descriptor.Checked` descriptor
(`Descriptor.ofFields_eq_ok`), whose tag is derived from its code; a value that comes with a tag of
its own is accepted whatever that tag is (`Descriptor.ofValue_eq_ok`).
-/

namespace AddressProtocols

namespace Descriptor

/-- What the checks of its fields ensure of a descriptor. -/
structure Checked (d : Descriptor) : Prop where
  code_le : d.code ≤ Varint.maxValue
  name_ne_nil : d.name ≠ []
  delimiter_notMem : pathDelimiter ∉ d.name
  tag_eq : d.tag = Varint.encode d.code

/-! ### One field -/

theorem checkCode_eq_ok {v : Value} {n : ℕ} :
    checkCode v = .ok n ↔ v = .int n ∧ n ≤ Varint.maxValue := by
  cases v with
  | int z =>
    simp only [checkCode]
    split
    · simp only [reduceCtorEq, Value.int.injEq, false_iff, not_and]
      omega
    · simp only [Except.ok.injEq, Value.int.injEq]
      omega
  | _ => simp [checkCode]

theorem checkName_eq_ok {v : Value} {name : Text} :
    checkName v = .ok name ↔ v = .text name ∧ name ≠ [] ∧ pathDelimiter ∉ name := by
  cases v with
  | text t =>
    cases t with
    | nil => simp +contextual [checkName, eq_comm]
    | cons c rest =>
      simp only [checkName]
      split
      · rename_i hmem
        simp only [reduceCtorEq, Value.text.injEq, false_iff]
        intro h
        obtain ⟨rfl, -, hnot⟩ := h
        exact hnot hmem
      · rename_i hnot
        simp only [Except.ok.injEq, Value.text.injEq]
        constructor
        · intro h
          subst h
          exact ⟨rfl, List.cons_ne_nil c rest, hnot⟩
        · exact And.left
  | _ => simp [checkName]

/-- The number that stands for a size is never below the mark of a length-prefixed payload. -/
theorem lengthPrefixedMark_le_toInt (size : PayloadSize) : lengthPrefixedMark ≤ size.toInt := by
  cases size with
  | bits n => simp [PayloadSize.toInt, lengthPrefixedMark]
  | lengthPrefixed => exact Int.le_refl _

theorem checkSize_eq_ok {v : Value} {size : PayloadSize} :
    checkSize v = .ok size ↔ v = .int size.toInt := by
  cases v with
  | int z =>
    simp only [checkSize, Value.int.injEq]
    by_cases hlow : z < lengthPrefixedMark
    · have hmark := lengthPrefixedMark_le_toInt size
      rw [if_pos hlow]
      simp only [reduceCtorEq, false_iff]
      omega
    · rw [if_neg hlow]
      by_cases hmark : z = lengthPrefixedMark
      · rw [if_pos hmark, hmark]
        cases size with
        | bits n => simp [PayloadSize.toInt, lengthPrefixedMark]
        | lengthPrefixed => simp [PayloadSize.toInt]
      · rw [if_neg hmark]
        cases size with
        | bits n =>
          simp only [Except.ok.injEq, PayloadSize.bits.injEq, PayloadSize.toInt]
          simp only [lengthPrefixedMark] at hlow hmark
          omega
        | lengthPrefixed => simpa [PayloadSize.toInt] using hmark
  | _ => simp [checkSize]

theorem checkPath_eq_ok {v : Value} {path : Bool} : checkPath v = .ok path ↔ v = .bool path := by
  cases v <;> simp [checkPath]

/-! ### All fields -/

/-- Fields are accepted exactly if they are those of a checked descriptor. -/
theorem ofFields_eq_ok {code name size path transcoder : Value} {d : Descriptor} :
    ofFields code name size path transcoder = .ok d ↔
      d.Checked ∧ code = .int d.code ∧ name = .text d.name ∧ size = .int d.size.toInt ∧
        path = .bool d.path ∧ transcoder = d.transcoder := by
  simp only [ofFields, Outcome.bind_eq_ok, checkCode_eq_ok, checkName_eq_ok, checkSize_eq_ok,
    checkPath_eq_ok]
  constructor
  · intro hsteps
    obtain ⟨c, ⟨hc, hle⟩, n, ⟨hn, hne, hdel⟩, s, hs, p, hp, h⟩ := hsteps
    cases h
    exact ⟨⟨hle, hne, hdel, rfl⟩, hc, hn, hs, hp, rfl⟩
  · intro hfields
    obtain ⟨⟨hle, hne, hdel, htag⟩, hc, hn, hs, hp, rfl⟩ := hfields
    refine ⟨_, ⟨hc, hle⟩, _, ⟨hn, hne, hdel⟩, _, hs, _, hp, ?_⟩
    rw [← htag]
    rfl

/-- A value is accepted exactly if it is a checked descriptor, but for its tag. -/
theorem ofValue_eq_ok {v : Value} {d : Descriptor} :
    ofValue v = .ok d ↔
      d.Checked ∧ ∃ tag, v = .descriptor (.int d.code) (.text d.name) (.int d.size.toInt)
        (.bool d.path) d.transcoder tag := by
  cases v with
  | descriptor code name size path transcoder tag =>
    rw [ofValue, ofFields_eq_ok]
    simp
  | _ => simp [ofValue]

end Descriptor

end AddressProtocols
