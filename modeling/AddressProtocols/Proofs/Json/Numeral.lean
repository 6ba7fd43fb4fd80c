import AddressProtocols.Proofs.Json.Integer
import Mathlib.Data.List.TakeWhile

/-!
# Integer numerals

An integer token is an optional minus sign and digits without leading zeros, and the reader takes
nothing else for one.  So its value can be bounded by its length.

* `Json.IntegerNumeral.length_le`: without leading zeros, a number of 64 bits has few digits;
* `Json.integer_of_integerNumeral`: the guard that looks at the number of digits before the value
  refuses no numeral of 64 bits, so a numeral is accepted exactly if its absolute value has at most
  64 bits;
* `Json.integerNumeral_of_scan`: the scanner gives no other integer tokens.
-/

namespace AddressProtocols

namespace Json

/-! ### Integer numerals -/

theorem IntegerNumeral.whole {numeral : Text} (h : IntegerNumeral numeral) :
    Whole (unsignedPart numeral) := by
  cases h with
  | positive h =>
    rw [h.unsignedPart]
    exact h
  | negative h =>
    rw [h.unsignedPart_neg]
    exact h

theorem natAbs_numeralValue (numeral : Text) :
    (numeralValue numeral).natAbs =
      Text.natOfDigits ((unsignedPart numeral).map (·.value - 48)) := by
  rw [numeralValue]
  split
  · exact Int.natAbs_neg _
  · rfl

/-- The numeral of a number of 64 bits has no more digits than the greatest of them. -/
theorem IntegerNumeral.length_le {numeral : Text} (h : IntegerNumeral numeral)
    (hle : (numeralValue numeral).natAbs ≤ Varint.maxValue) :
    (unsignedPart numeral).length ≤ maxDigits := by
  obtain ⟨n, hn⟩ := h.whole.exists_eq_ofNat
  rw [natAbs_numeralValue, hn, Text.natOfDigits_ofNat] at hle
  rw [hn, Text.length_ofNat_le_iff (by decide)]
  exact Nat.lt_of_le_of_lt hle (by decide)

/-- The guard that looks at the number of digits refuses no numeral of 64 bits. -/
theorem integer_of_integerNumeral {numeral : Text} (h : IntegerNumeral numeral) :
    integer numeral =
      if (numeralValue numeral).natAbs ≤ Varint.maxValue then .ok (numeralValue numeral)
      else .error (.outOfRange numeral) := by
  rw [integer]
  by_cases hle : (numeralValue numeral).natAbs ≤ Varint.maxValue
  · rw [if_neg (Nat.not_lt.mpr (h.length_le hle)), if_pos hle]
    exact if_neg (Nat.not_lt.mpr hle)
  · rw [if_neg hle]
    split
    · rfl
    · exact if_pos (Nat.not_le.mp hle)

theorem integer_ofInt (n : ℤ) :
    integer (Text.ofInt n) =
      if n.natAbs ≤ Varint.maxValue then .ok n else .error (.outOfRange (Text.ofInt n)) := by
  rw [integer_of_integerNumeral (integerNumeral_ofInt n), numeralValue_ofInt]

/-! ### What the scanner takes for an integer -/

theorem wholePart_cases (t : Text) : wholePart t = [] ∨ Whole (wholePart t) := by
  cases t with
  | nil => exact .inl rfl
  | cons c rest =>
    rw [wholePart]
    split
    · rename_i hzero
      subst hzero
      exact .inr .zero
    · rename_i hzero
      split
      · rename_i hc
        exact .inr (.digits hc hzero fun d hd => List.mem_takeWhile_imp hd)
      · exact .inl rfl

theorem filter_take_one (t : Text) :
    (t.take 1).filter (· == .scalar '-') = [] ∨
      (t.take 1).filter (· == .scalar '-') = [.scalar '-'] := by
  cases t with
  | nil => exact .inl rfl
  | cons c rest =>
    rw [List.take_succ_cons, List.take_zero, List.filter_cons]
    split
    · rename_i hc
      rw [beq_iff_eq.mp hc]
      exact .inr rfl
    · exact .inl rfl

theorem integerNumeral_of_scanNumber {t numeral : Text}
    (h : (scanNumber t).1 = .integer numeral) : IntegerNumeral numeral := by
  simp only [scanNumber] at h
  split at h
  · cases h
  · rename_i hwhole
    split at h
    · rename_i hparts
      rw [Bool.and_eq_true, List.isEmpty_iff, List.isEmpty_iff] at hparts
      obtain ⟨hfraction, hexponent⟩ := hparts
      rw [hexponent, hfraction, List.append_nil, List.append_nil] at h
      cases h
      have hw := (wholePart_cases _).resolve_left fun hnil => hwhole (List.isEmpty_iff.mpr hnil)
      rcases filter_take_one t with hsign | hsign
      · rw [hsign] at hw ⊢
        exact .positive hw
      · rw [hsign] at hw ⊢
        exact .negative hw
    · cases h

theorem scanString_ne_integer (pieces : List Piece) (taken : ℕ) (t numeral : Text) :
    (scanString pieces taken t).1 ≠ .integer numeral := by
  fun_induction scanString pieces taken t with
  | case1 => exact nofun
  | case2 => exact nofun
  | case3 => assumption
  | case4 => exact nofun
  | case5 => exact nofun
  | case6 => assumption

theorem scanWord_ne_integer {token : Token} (htoken : ∀ numeral, token ≠ .integer numeral)
    (word : String) (rest numeral : Text) : (scanWord word token rest).1 ≠ .integer numeral := by
  rw [scanWord]
  split
  · exact htoken numeral
  · intro h
    cases h

/-- Only a number can be an integer. -/
theorem integerNumeral_of_scan {c : CodePoint} {rest numeral : Text}
    (h : (scan c rest).1 = .integer numeral) : IntegerNumeral numeral := by
  unfold scan at h
  split at h
  case h_7 => exact absurd h (scanString_ne_integer _ _ _ _)
  case h_13 =>
    split at h
    · exact integerNumeral_of_scanNumber h
    · exact absurd h (scanWord_ne_integer (by simp) _ _ _)
  case h_14 => exact integerNumeral_of_scanNumber h
  all_goals first | cases h | exact absurd h (scanWord_ne_integer (by simp) _ _ _)

end Json

end AddressProtocols
