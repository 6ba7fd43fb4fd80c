import AddressProtocols.Proofs.Json.Integer
import AddressProtocols.Text.Numeral

/-!
# Decimal numerals

The numeral of a natural number consists of decimal digits and denotes the number
(`Text.nat?_ofNat`); it is read unless it has more than `Text.maxDigits` digits
(`Text.nat?_eq_none`).  With its sign, the numeral of an integer is read as that integer under the
same limit (`Text.int?_ofInt`). -/

namespace AddressProtocols

namespace Text

theorem digit?_of_isJsonDigit {c : CodePoint} (h : Json.isJsonDigit c = true) :
    c.digit? = some (c.value - 48) := by
  rw [Json.isJsonDigit_iff] at h
  have hzero : CodePoint.digitZeros.find? (fun start => start ≤ c.value && c.value < start + 10) =
      some 0x30 := by
    refine List.find?_cons_of_pos ?_
    simp only [Bool.and_eq_true, decide_eq_true_eq]
    omega
  rw [CodePoint.digit?, hzero]
  rfl

theorem isDecimal_ofNat (n : ℕ) : (ofNat n).isDecimal = true := by
  have hdigits : (ofNat n).all CodePoint.isDigit = true := by
    rw [List.all_eq_true]
    intro c hc
    rw [CodePoint.isDigit, digit?_of_isJsonDigit (Json.isJsonDigit_of_mem_ofNat hc)]
    rfl
  simp [isDecimal, hdigits, ofNat_ne_nil]

/-- A sequence of decimal digits denotes a number unless it is too long. -/
theorem nat?_eq_none {t : Text} (h : t.isDecimal = true) :
    t.nat? = none ↔ maxDigits < t.length := by
  rw [nat?, h, Bool.true_and]
  simp

theorem nat?_ofNat {n : ℕ} (h : n < 10 ^ maxDigits) : (ofNat n).nat? = some n := by
  have hlength : (ofNat n).length ≤ maxDigits := (length_ofNat_le_iff (by decide)).mpr h
  have hdigits : (ofNat n).filterMap CodePoint.digit? = (ofNat n).map (·.value - 48) := by
    rw [List.filterMap_eq_map_iff_forall_eq_some]
    exact fun c hc => digit?_of_isJsonDigit (Json.isJsonDigit_of_mem_ofNat hc)
  rw [nat?, isDecimal_ofNat, Bool.true_and, decide_eq_true hlength, if_pos rfl, hdigits,
    natOfDigits_ofNat]

/-- Numbers of at most 64 bits are never too long. -/
theorem lt_pow_maxDigits {n : ℕ} (h : n ≤ Varint.maxValue) : n < 10 ^ maxDigits :=
  calc n ≤ Varint.maxValue := h
    _ < 10 ^ 20 := by decide
    _ ≤ 10 ^ maxDigits := Nat.pow_le_pow_right (by decide) (by decide)

theorem ofNat_injective : Function.Injective ofNat := by
  intro m n h
  rw [← natOfDigits_ofNat m, h, natOfDigits_ofNat]

/-! ### Integers as typed -/

theorem isBlank_of_isJsonDigit {c : CodePoint} (h : Json.isJsonDigit c = true) :
    c.isBlank = false := by
  rw [Json.isJsonDigit_iff] at h
  rw [← Bool.not_eq_true, CodePoint.isBlank]
  simp only [Bool.or_eq_true, Bool.and_eq_true, decide_eq_true_eq, beq_iff_eq]
  omega

theorem mem_ofInt {c : CodePoint} {z : ℤ} (hc : c ∈ ofInt z) :
    c = .scalar '-' ∨ Json.isJsonDigit c = true := by
  rw [Json.ofInt_eq_signOf_append, Json.signOf] at hc
  rcases List.mem_append.mp hc with hsign | hdigit
  · split at hsign
    · exact .inl (List.mem_singleton.mp hsign)
    · cases hsign
  · exact .inr (Json.isJsonDigit_of_mem_ofNat hdigit)

theorem isBlank_of_mem_ofInt {c : CodePoint} {z : ℤ} (hc : c ∈ ofInt z) : c.isBlank = false := by
  rcases mem_ofInt hc with rfl | hdigit
  · decide
  · exact isBlank_of_isJsonDigit hdigit

theorem trim_eq_self {t : Text} (h : ∀ c ∈ t, c.isBlank = false) : t.trim = t := by
  have hfront : ∀ {u : Text}, (∀ c ∈ u, c.isBlank = false) → u.dropWhile CodePoint.isBlank = u := by
    intro u hu
    cases u with
    | nil => rfl
    | cons c rest => rw [List.dropWhile_cons_of_neg (by simp [hu c List.mem_cons_self])]
  rw [trim, hfront h, hfront fun c hc => h c (List.mem_reverse.mp hc), List.reverse_reverse]

theorem grouped?_ofNat {n : ℕ} (h : n < 10 ^ maxDigits) : grouped? (ofNat n) = some n := by
  have hmark : CodePoint.scalar '_' ∉ ofNat n :=
    fun hmem => Json.ne_of_isJsonDigit (Json.isJsonDigit_of_mem_ofNat hmem) (by decide) rfl
  rw [grouped?, List.splitOn_eq_singleton hmark, List.all_cons, List.all_nil, isDecimal_ofNat,
    List.flatten_cons, List.flatten_nil, List.append_nil]
  exact nat?_ofNat h

/-- The numeral of an integer is read as the integer. -/
theorem int?_ofInt {z : ℤ} (h : z.natAbs < 10 ^ maxDigits) : (ofInt z).int? = some z := by
  rw [int?, trim_eq_self fun c => isBlank_of_mem_ofInt]
  cases z with
  | ofNat n =>
    -- a digit is no sign, so the numeral is taken whole
    have hsign : ∀ {c : CodePoint} {body : Text}, ofInt (Int.ofNat n) = c :: body →
        Json.isJsonDigit c = true :=
      fun heq => Json.isJsonDigit_of_mem_ofNat (heq ▸ List.mem_cons_self)
    split
    · rename_i heq
      exact absurd rfl (Json.ne_of_isJsonDigit (hsign heq) (by decide))
    · rename_i heq
      exact absurd rfl (Json.ne_of_isJsonDigit (hsign heq) (by decide))
    · show (grouped? (ofNat n)).map Int.ofNat = some (Int.ofNat n)
      rw [grouped?_ofNat (show n < 10 ^ maxDigits from h)]
      rfl
  | negSucc n =>
    have hbody : grouped? (ofNat (n + 1)) = some (n + 1) := grouped?_ofNat h
    simp only [ofInt, hbody]
    rfl

end Text

end AddressProtocols
