import AddressProtocols.Json.Writer
import AddressProtocols.Proofs.Json.Strict
import AddressProtocols.Proofs.Text.Numeral

/-!
# Documents that can be printed

Where printing is limited, `Json.write?` gives the text of a document exactly if none of its
integers is too long.

* `Json.Document.Printable`: every integer of the document has at most `Text.maxDigits` digits;
* `Json.write?_eq_some` and `Json.write?_eq_none`: what that means for the text;
* `Json.Document.Strict.printable`: the strict rules leave no integer that is too long.
-/

namespace AddressProtocols

namespace Json

/-- A document whose integers have at most `Text.maxDigits` digits. -/
inductive Document.Printable : Document → Prop where
  | null : Printable .null
  | bool (b : Bool) : Printable (.bool b)
  | int {n : ℤ} (hn : n.natAbs < 10 ^ Text.maxDigits) : Printable (.int n)
  | string (t : Text) : Printable (.string t)
  | array {items : List Document} (hitems : ∀ d ∈ items, Printable d) : Printable (.array items)
  | object {members : List (Text × Document)} (hmembers : ∀ m ∈ members, Printable m.2) :
      Printable (.object members)

theorem Document.Strict.printable {d : Document} (h : d.Strict) : d.Printable := by
  induction h with
  | null => exact .null
  | bool b => exact .bool b
  | int hn => exact .int (Text.lt_pow_maxDigits hn)
  | string t => exact .string t
  | array _ ih => exact .array ih
  | object _ _ ih => exact .object ih

/-! ### The numerals of a tree -/

theorem mem_numeralsItems {items : List Document} {numeral : Text} :
    numeral ∈ numeralsItems (Document.treeItems items) ↔
      ∃ d ∈ items, numeral ∈ numerals d.tree := by
  induction items with
  | nil => simp [Document.treeItems, numeralsItems]
  | cons d rest ih =>
    rw [Document.treeItems, numeralsItems, List.mem_append, ih, List.exists_mem_cons_iff]

theorem mem_numeralsMembers {members : List (Text × Document)} {numeral : Text} :
    numeral ∈ numeralsMembers (Document.treeMembers members) ↔
      ∃ m ∈ members, numeral ∈ numerals m.2.tree := by
  induction members with
  | nil => simp [Document.treeMembers, numeralsMembers]
  | cons m rest ih =>
    obtain ⟨name, d⟩ := m
    rw [Document.treeMembers, numeralsMembers, List.mem_append, ih, List.exists_mem_cons_iff]

theorem length_unsignedPart_ofInt_le_iff (n : ℤ) :
    (unsignedPart (Text.ofInt n)).length ≤ Text.maxDigits ↔ n.natAbs < 10 ^ Text.maxDigits := by
  rw [unsignedPart_ofInt, Text.length_ofNat_le_iff (by decide)]

/-- A document can be printed exactly if no numeral of its tree is too long. -/
theorem printable_iff {d : Document} :
    d.Printable ↔
      ∀ numeral ∈ numerals d.tree, (unsignedPart numeral).length ≤ Text.maxDigits := by
  induction d using Document.induction with
  | null => exact iff_of_true .null nofun
  | bool b => exact iff_of_true (.bool b) nofun
  | int n =>
    rw [Document.tree, numerals, List.forall_mem_singleton, length_unsignedPart_ofInt_le_iff]
    constructor
    · intro h
      cases h with
      | int hn => exact hn
    · exact .int
  | string t => exact iff_of_true (.string t) nofun
  | array items ih =>
    constructor
    · intro h numeral hmem
      obtain ⟨d, hd, hmem⟩ := mem_numeralsItems.mp hmem
      cases h with
      | array hitems => exact (ih d hd).mp (hitems d hd) numeral hmem
    · intro h
      refine .array fun d hd => (ih d hd).mpr fun numeral hmem => ?_
      exact h numeral (mem_numeralsItems.mpr ⟨d, hd, hmem⟩)
  | object members ih =>
    constructor
    · intro h numeral hmem
      obtain ⟨m, hm, hmem⟩ := mem_numeralsMembers.mp hmem
      cases h with
      | object hmembers => exact (ih m hm).mp (hmembers m hm) numeral hmem
    · intro h
      refine .object fun m hm => (ih m hm).mpr fun numeral hmem => ?_
      exact h numeral (mem_numeralsMembers.mpr ⟨m, hm, hmem⟩)

/-! ### Texts -/

theorem write?_eq_some {d : Document} {t : Text} :
    write? d.tree = some t ↔ d.Printable ∧ t = write d.tree := by
  rw [write?, printable_iff, Option.ite_none_right_eq_some, Option.some.injEq, List.all_eq_true,
    eq_comm (a := t)]
  simp only [decide_eq_true_eq]

theorem write?_eq_none {d : Document} : write? d.tree = none ↔ ¬d.Printable := by
  rw [Option.eq_none_iff_forall_ne_some]
  simp [write?_eq_some]

end Json

end AddressProtocols
