import AddressProtocols.Json.Strict
import AddressProtocols.Proofs.Text.Order
import Mathlib.Algebra.Group.Nat.Defs
import Mathlib.Data.List.Basic

/-!
# Integers in JSON

A decimal numeral without leading zeros is read back as the number it was written for.

* `Text.head?_ofNat` and `Text.natOfDigits_ofNat`: the numeral of a number does not start with a
  zero unless it is zero, and its digits spell the number;
* `Json.Whole`: digits without leading zeros, which are the numerals of numbers (`Json.whole_ofNat`,
  `Json.Whole.exists_eq_ofNat`), and `Json.IntegerNumeral`: such digits, or a minus sign and such
  digits;
* `Json.EndsNumber`: a text with which no number can go on;
* `Json.IntegerNumeral.scan`: before such a text, the numeral of an integer is one token;
* `Json.numeralValue_ofInt`: the value of the numeral that is written for an integer.
-/

namespace AddressProtocols

namespace Text

/-! ### Decimal numerals -/

theorem ofNat_ne_nil (n : ℕ) : ofNat n ≠ [] := by
  rw [ofNat, ne_eq, List.map_eq_nil_iff]
  exact Nat.toDigits_ne_nil

theorem ofNat_of_lt {n : ℕ} (h : n < 10) : ofNat n = [.scalar n.digitChar] := by
  rw [ofNat, Nat.toDigits_of_lt_base h]
  rfl

/-- The first digits of a numeral are the numeral of the number without its last digit. -/
theorem ofNat_of_le {n : ℕ} (h : 10 ≤ n) :
    ofNat n = ofNat (n / 10) ++ [.scalar (n % 10).digitChar] := by
  rw [ofNat, Nat.toDigits_of_base_le (by omega) h, List.map_append]
  rfl

/-- Only the numeral of zero starts with a zero. -/
theorem head?_ofNat {n : ℕ} (hn : n ≠ 0) : (ofNat n).head? ≠ some (.scalar '0') := by
  induction n using Nat.strongRecOn with
  | ind n ih =>
    rcases Nat.lt_or_ge n 10 with hlt | hge
    · have hdigit : ∀ k < 10, k ≠ 0 → k.digitChar ≠ '0' := by decide
      rw [ofNat_of_lt hlt]
      simpa using hdigit n hlt hn
    · rw [ofNat_of_le hge, List.head?_append_of_ne_nil _ (ofNat_ne_nil (n / 10))]
      exact ih (n / 10) (by omega) (by omega)

theorem natOfDigits_ofNat (n : ℕ) : natOfDigits ((ofNat n).map (·.value - 48)) = n := by
  have hdigits := Nat.ofDigitChars_ten_toDigits (n := n)
  rw [Nat.ofDigitChars_eq_foldl] at hdigits
  rw [natOfDigits, ofNat, List.map_map, List.foldl_map]
  exact hdigits

theorem length_ofNat_le_iff {n k : ℕ} (hk : 0 < k) : (ofNat n).length ≤ k ↔ n < 10 ^ k := by
  rw [ofNat, List.length_map]
  exact Nat.length_toDigits_le_iff (by omega) hk

end Text

namespace Json

theorem isJsonDigit_iff {c : CodePoint} : isJsonDigit c = true ↔ 48 ≤ c.value ∧ c.value ≤ 57 := by
  rw [isJsonDigit, Bool.and_eq_true, decide_eq_true_eq, decide_eq_true_eq]

theorem isJsonDigit_of_mem_ofNat {n : ℕ} {c : CodePoint} (hc : c ∈ Text.ofNat n) :
    isJsonDigit c = true := by
  obtain ⟨digit, hdigit, rfl⟩ := List.mem_map.mp hc
  have h := Nat.isDigit_of_mem_toDigits (by omega) (by omega) hdigit
  simp only [Char.isDigit, Bool.and_eq_true, decide_eq_true_eq, ge_iff_le,
    UInt32.le_iff_toNat_le] at h
  exact isJsonDigit_iff.mpr h

theorem scalar_digitChar {c : CodePoint} (hc : isJsonDigit c = true) :
    CodePoint.scalar (c.value - 48).digitChar = c := by
  have hvalue : ∀ k < 10, (CodePoint.scalar k.digitChar).value = 48 + k := by decide
  obtain ⟨hlow, hhigh⟩ := isJsonDigit_iff.mp hc
  apply CodePoint.value_injective
  rw [hvalue _ (by omega)]
  omega

/-- Digits of which the first is a zero only if it stands alone. -/
inductive Whole : Text → Prop where
  | zero : Whole [.scalar '0']
  | digits {c : CodePoint} {rest : Text} (hc : isJsonDigit c = true) (hzero : c ≠ .scalar '0')
      (hrest : ∀ d ∈ rest, isJsonDigit d = true) : Whole (c :: rest)

theorem Whole.exists_cons {whole : Text} (h : Whole whole) :
    ∃ c rest, whole = c :: rest ∧ isJsonDigit c = true := by
  cases h with
  | zero => exact ⟨_, _, rfl, rfl⟩
  | digits hc _ _ => exact ⟨_, _, rfl, hc⟩

theorem whole_ofNat (n : ℕ) : Whole (Text.ofNat n) := by
  by_cases hn : n = 0
  · subst hn
    exact .zero
  · have hhead := Text.head?_ofNat hn
    have hdigits := fun c => isJsonDigit_of_mem_ofNat (n := n) (c := c)
    cases hnumeral : Text.ofNat n with
    | nil => exact absurd hnumeral (Text.ofNat_ne_nil n)
    | cons c rest =>
      rw [hnumeral] at hhead hdigits
      obtain ⟨hc, hrest⟩ := List.forall_mem_cons.mp hdigits
      exact .digits hc (by simpa using hhead) hrest

/-- Digits without leading zeros are the numeral of a number. -/
theorem Whole.exists_eq_ofNat {whole : Text} (h : Whole whole) : ∃ n, whole = Text.ofNat n := by
  cases h with
  | zero => exact ⟨0, rfl⟩
  | @digits c rest hc hzero hrest =>
    -- the first digit makes the number positive, so that each further one ends a longer numeral
    suffices hpositive : ∃ n, 0 < n ∧ c :: rest = Text.ofNat n by
      obtain ⟨n, -, hnumeral⟩ := hpositive
      exact ⟨n, hnumeral⟩
    induction rest using List.reverseRecOn with
    | nil =>
      obtain ⟨hlow, hhigh⟩ := isJsonDigit_iff.mp hc
      have hchar := scalar_digitChar hc
      refine ⟨c.value - 48, Nat.pos_of_ne_zero fun hvalue => hzero ?_, ?_⟩
      · rw [← hchar, hvalue]
        rfl
      · rw [Text.ofNat_of_lt (by omega), hchar]
    | append_singleton rest d ih =>
      obtain ⟨n, hn, hnumeral⟩ := ih fun e he => hrest e (List.mem_append_left _ he)
      have hd := hrest d (List.mem_append_right _ (List.mem_singleton_self d))
      obtain ⟨hlow, hhigh⟩ := isJsonDigit_iff.mp hd
      have hfirst : (10 * n + (d.value - 48)) / 10 = n := by omega
      have hlast : (10 * n + (d.value - 48)) % 10 = d.value - 48 := by omega
      refine ⟨10 * n + (d.value - 48), by omega, ?_⟩
      rw [Text.ofNat_of_le (by omega), hfirst, hlast, scalar_digitChar hd, ← hnumeral,
        List.cons_append]

/-- The numeral of an integer: a whole part, and a minus sign in front of it or nothing. -/
inductive IntegerNumeral : Text → Prop where
  | positive {whole : Text} (h : Whole whole) : IntegerNumeral whole
  | negative {whole : Text} (h : Whole whole) : IntegerNumeral (.scalar '-' :: whole)

theorem integerNumeral_ofInt (n : ℤ) : IntegerNumeral (Text.ofInt n) := by
  cases n with
  | ofNat n => exact .positive (whole_ofNat n)
  | negSucc n => exact .negative (whole_ofNat (n + 1))

/-! ### Numerals as tokens -/

/-- No number can go on with the text. -/
def EndsNumber (rest : Text) : Prop :=
  ∀ c ∈ rest.head?, isJsonDigit c = false ∧ c ≠ .scalar '.' ∧ c ≠ .scalar 'e' ∧ c ≠ .scalar 'E'

theorem endsNumber_nil : EndsNumber [] := by simp [EndsNumber]

variable {rest : Text}

theorem EndsNumber.takeWhile (h : EndsNumber rest) : rest.takeWhile isJsonDigit = [] := by
  cases rest with
  | nil => rfl
  | cons c rest => simp [(h c rfl).1]

theorem EndsNumber.fractionPart (h : EndsNumber rest) : fractionPart rest = [] := by
  unfold Json.fractionPart
  split
  · exact absurd rfl (h _ rfl).2.1
  · rfl

theorem EndsNumber.exponentPart (h : EndsNumber rest) : exponentPart rest = [] := by
  cases rest with
  | nil => rfl
  | cons c rest =>
    obtain ⟨-, -, hlower, hupper⟩ := h c rfl
    rw [Json.exponentPart, if_neg (not_or.mpr ⟨hlower, hupper⟩)]

theorem Whole.wholePart {whole : Text} (hwhole : Whole whole) (h : EndsNumber rest) :
    wholePart (whole ++ rest) = whole := by
  cases hwhole with
  | zero => rfl
  | digits hc hzero hdigits =>
    rw [List.cons_append, Json.wholePart, if_neg hzero, if_pos hc,
      List.takeWhile_append_of_pos hdigits, h.takeWhile, List.append_nil]

/-- The minus sign of a negative number. -/
def signOf (n : ℤ) : Text := if n < 0 then [.scalar '-'] else []

theorem ofInt_eq_signOf_append (n : ℤ) : Text.ofInt n = signOf n ++ Text.ofNat n.natAbs := by
  cases n with
  | ofNat n => rfl
  | negSucc n =>
    rw [signOf, if_pos (Int.negSucc_lt_zero n)]
    rfl

/-- A digit is no character that is not one. -/
theorem ne_of_isJsonDigit {c d : CodePoint} (hc : isJsonDigit c = true)
    (hd : isJsonDigit d = false) : c ≠ d := by
  rintro rfl
  rw [hc] at hd
  cases hd

theorem ne_minus_of_isJsonDigit {c : CodePoint} (hc : isJsonDigit c = true) :
    (c == .scalar '-') = false :=
  beq_eq_false_iff_ne.mpr (ne_of_isJsonDigit hc rfl)

theorem isSpace_of_isJsonDigit {c : CodePoint} (hc : isJsonDigit c = true) : isSpace c = false := by
  have hne : ∀ s : CodePoint, isJsonDigit s = false → (c == s) = false :=
    fun s hs => beq_eq_false_iff_ne.mpr (ne_of_isJsonDigit hc hs)
  simp only [isSpace, hne _ (show isJsonDigit (.scalar ' ') = false by decide),
    hne _ (show isJsonDigit (.scalar '\t') = false by decide),
    hne _ (show isJsonDigit (.scalar '\n') = false by decide),
    hne _ (show isJsonDigit (.scalar '\r') = false by decide), Bool.or_self]

/-- Digits without leading zeros are one number, with the sign in front of them. -/
theorem scanNumber_append (sign : Text) {whole : Text} (hwhole : Whole whole) (h : EndsNumber rest)
    (hsign : ((sign ++ (whole ++ rest)).take 1).filter (· == .scalar '-') = sign) :
    scanNumber (sign ++ (whole ++ rest)) = (.integer (sign ++ whole), (sign ++ whole).length) := by
  have hne : whole.isEmpty = false := by
    obtain ⟨c, digits, rfl, -⟩ := hwhole.exists_cons
    rfl
  rw [scanNumber]
  simp only [hsign]
  rw [List.drop_left]
  simp only [hwhole.wholePart h, List.drop_left, h.fractionPart, List.length_nil, Nat.add_zero,
    h.exponentPart, List.append_nil, hne, List.isEmpty_nil, Bool.and_self, if_true,
    Bool.false_eq_true, if_false]

theorem IntegerNumeral.scanNumber {numeral : Text} (hnumeral : IntegerNumeral numeral)
    (h : EndsNumber rest) :
    Json.scanNumber (numeral ++ rest) = (.integer numeral, numeral.length) := by
  cases hnumeral with
  | positive hwhole =>
    refine scanNumber_append [] hwhole h ?_
    obtain ⟨c, digits, rfl, hc⟩ := hwhole.exists_cons
    rw [List.nil_append, List.cons_append, List.take_succ_cons, List.take_zero, List.filter_cons,
      ne_minus_of_isJsonDigit hc]
    rfl
  | negative hwhole => exact scanNumber_append [.scalar '-'] hwhole h rfl

/-- A digit starts a number and no other token. -/
theorem scan_of_isJsonDigit {c : CodePoint} (hc : isJsonDigit c = true) (rest : Text) :
    scan c rest = ((scanNumber (c :: rest)).1, (scanNumber (c :: rest)).2 - 1) := by
  unfold scan
  split
  all_goals first | rfl | exact absurd hc (by decide)

/-- A minus sign before a digit starts a number. -/
theorem scan_minus {c : CodePoint} (hc : isJsonDigit c = true) (rest : Text) :
    scan (.scalar '-') (c :: rest) =
      ((scanNumber (.scalar '-' :: c :: rest)).1,
        (scanNumber (.scalar '-' :: c :: rest)).2 - 1) := by
  have hword : scanWord "Infinity" (.constant (Text.ofString "-Infinity")) (c :: rest) =
      (.unknown, 0) := by
    rw [scanWord, if_neg]
    intro h
    have hfirst : c = .scalar 'I' := (List.cons.inj h).1
    subst hfirst
    exact absurd hc (by decide)
  unfold scan
  simp only [hword]

/-- The numeral of an integer is one token. -/
theorem IntegerNumeral.scan {numeral : Text} (hnumeral : IntegerNumeral numeral)
    (h : EndsNumber rest) :
    ∃ c body, numeral = c :: body ∧ isSpace c = false ∧
      Json.scan c (body ++ rest) = (.integer numeral, body.length) := by
  have hnumber := hnumeral.scanNumber h
  cases hnumeral with
  | positive hwhole =>
    obtain ⟨c, digits, rfl, hc⟩ := hwhole.exists_cons
    refine ⟨c, digits, rfl, isSpace_of_isJsonDigit hc, ?_⟩
    rw [List.cons_append] at hnumber
    rw [scan_of_isJsonDigit hc, hnumber]
    rfl
  | negative hwhole =>
    obtain ⟨c, digits, rfl, hc⟩ := hwhole.exists_cons
    refine ⟨.scalar '-', c :: digits, rfl, by decide, ?_⟩
    rw [List.cons_append, List.cons_append] at hnumber
    rw [List.cons_append, scan_minus hc, hnumber]
    rfl

/-! ### The value of a numeral -/

theorem Whole.unsignedPart {whole : Text} (h : Whole whole) : unsignedPart whole = whole := by
  obtain ⟨c, rest, rfl, hc⟩ := h.exists_cons
  rw [Json.unsignedPart, List.dropWhile_cons, ne_minus_of_isJsonDigit hc, if_neg Bool.false_ne_true]

theorem Whole.unsignedPart_neg {whole : Text} (h : Whole whole) :
    Json.unsignedPart (.scalar '-' :: whole) = whole := h.unsignedPart

theorem unsignedPart_ofInt (n : ℤ) : unsignedPart (Text.ofInt n) = Text.ofNat n.natAbs := by
  cases n with
  | ofNat n => exact (whole_ofNat n).unsignedPart
  | negSucc n => exact (whole_ofNat (n + 1)).unsignedPart_neg

theorem numeralValue_ofInt (n : ℤ) : numeralValue (Text.ofInt n) = n := by
  rw [numeralValue, unsignedPart_ofInt, Text.natOfDigits_ofNat]
  obtain ⟨c, digits, hnumeral, hc⟩ := (whole_ofNat n.natAbs).exists_cons
  rw [ofInt_eq_signOf_append, hnumeral, signOf]
  split
  · have hhead : ([CodePoint.scalar '-'] ++ c :: digits).head? = some (.scalar '-') := rfl
    rw [if_pos hhead]
    omega
  · have hhead : ([] ++ c :: digits).head? ≠ some (.scalar '-') := by
      simpa using ne_minus_of_isJsonDigit hc
    rw [if_neg hhead]
    omega

end Json

end AddressProtocols
