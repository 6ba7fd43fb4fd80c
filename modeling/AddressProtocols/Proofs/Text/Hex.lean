import AddressProtocols.Proofs.Json.String

/-!
# Hexadecimal text

Hexadecimal text spells each byte by two digits of either case, with blanks before, between and
after the bytes.

* `Text.Hex` is that grammar, and `Text.bytes?_eq_some` says that the reader follows it;
* `Text.hex_ofBytes`: what is written for bytes spells them, by two digits each
  (`Text.length_ofBytes`), none of which ends a line (`Text.newline_notMem_ofBytes`).
-/

namespace AddressProtocols

namespace CodePoint

theorem isAsciiBlank_of_hexValue? {c : CodePoint} {n : ℕ} (h : c.hexValue? = some n) :
    c.isAsciiBlank = false := by
  rw [← Bool.not_eq_true, isAsciiBlank]
  intro hblank
  simp only [Bool.or_eq_true, Bool.and_eq_true, decide_eq_true_eq, beq_iff_eq] at hblank
  have hnone : c.hexValue? = none := by
    rw [hexValue?, if_neg (by omega), if_neg (by omega), if_neg (by omega)]
  rw [hnone] at h
  cases h

end CodePoint

namespace Text

/-! ### The grammar -/

/-- Texts and the bytes they spell. -/
inductive Hex : Text → List UInt8 → Prop
  | nil : Hex [] []
  | blank {c : CodePoint} {t : Text} {bytes : List UInt8} (hc : c.isAsciiBlank = true)
      (ht : Hex t bytes) : Hex (c :: t) bytes
  | byte {c d : CodePoint} {high low : ℕ} {t : Text} {bytes : List UInt8}
      (hc : c.hexValue? = some high) (hd : d.hexValue? = some low) (ht : Hex t bytes) :
      Hex (c :: d :: t) (UInt8.ofNat (16 * high + low) :: bytes)

theorem bytes?_blank {c : CodePoint} (hc : c.isAsciiBlank = true) (t : Text) :
    bytes? (c :: t) = bytes? t := by
  cases t with
  | nil => simp only [bytes?, hc, if_true]
  | cons d rest => rw [bytes?, if_pos hc]

theorem bytes?_byte {c d : CodePoint} {t : Text} {high low : ℕ} (hc : c.hexValue? = some high)
    (hd : d.hexValue? = some low) :
    bytes? (c :: d :: t) = (bytes? t).map (UInt8.ofNat (16 * high + low) :: ·) := by
  have hblank : ¬c.isAsciiBlank = true :=
    Bool.not_eq_true _ ▸ CodePoint.isAsciiBlank_of_hexValue? hc
  rw [bytes?, if_neg hblank, hc, hd]
  cases bytes? t <;> rfl

/-- Hexadecimal text is read as the bytes that it spells, and no other text is read. -/
theorem bytes?_eq_some {t : Text} {bytes : List UInt8} : bytes? t = some bytes ↔ Hex t bytes := by
  constructor
  · intro h
    fun_induction bytes? t generalizing bytes with
    | case1 =>
      cases h
      exact Hex.nil
    | case2 c hc =>
      cases h
      exact Hex.blank hc Hex.nil
    | case3 c hc => cases h
    | case4 c d rest hc ih => exact Hex.blank hc (ih h)
    | case5 c d rest hc ih =>
      simp only [Option.bind_eq_bind, Option.bind_eq_some_iff] at h
      obtain ⟨high, hhigh, low, hlow, tail, htail, h⟩ := h
      cases h
      exact Hex.byte hhigh hlow (ih htail)
  · intro h
    induction h with
    | nil => rfl
    | blank hc _ ih => rw [bytes?_blank hc, ih]
    | byte hc hd _ ih =>
      rw [bytes?_byte hc hd, ih]
      rfl

/-! ### Writing -/

/-- A byte is written as its high half and its low half. -/
theorem hexNumeral_two (n : ℕ) :
    hexNumeral 2 n = [CodePoint.ofHexValue (n / 16 % 16), CodePoint.ofHexValue (n % 16)] := by
  have hlow : n / Nat.pow 16 0 = n := Nat.div_one n
  show [CodePoint.ofHexValue (n / Nat.pow 16 1 % 16),
    CodePoint.ofHexValue (n / Nat.pow 16 0 % 16)] = _
  rw [hlow]

theorem ofBytes_cons (b : UInt8) (bytes : List UInt8) :
    ofBytes (b :: bytes) = CodePoint.ofHexValue (b.toNat / 16 % 16) ::
      CodePoint.ofHexValue (b.toNat % 16) :: ofBytes bytes := by
  rw [ofBytes, List.flatMap_cons, hexNumeral_two]
  rfl

theorem hex_ofBytes (bytes : List UInt8) : Hex (ofBytes bytes) bytes := by
  induction bytes with
  | nil => exact Hex.nil
  | cons b rest ih =>
    have hdigit (n : ℕ) : (CodePoint.ofHexValue (n % 16)).hexValue? = some (n % 16) :=
      CodePoint.hexValue?_ofHexValue (Nat.mod_lt _ (by omega))
    have hbyte : UInt8.ofNat (16 * (b.toNat / 16 % 16) + b.toNat % 16) = b := by
      have hlt : b.toNat < 256 := b.toNat_lt
      rw [show 16 * (b.toNat / 16 % 16) + b.toNat % 16 = b.toNat by omega, UInt8.ofNat_toNat]
    have hspelled := Hex.byte (hdigit (b.toNat / 16)) (hdigit b.toNat) ih
    rw [hbyte] at hspelled
    rw [ofBytes_cons]
    exact hspelled

/-- Two digits for each byte. -/
theorem length_ofBytes (bytes : List UInt8) : (ofBytes bytes).length = 2 * bytes.length := by
  induction bytes with
  | nil => rfl
  | cons b rest ih =>
    rw [ofBytes_cons, List.length_cons, List.length_cons, ih, List.length_cons]
    omega

theorem mem_ofBytes {c : CodePoint} {bytes : List UInt8} (hc : c ∈ ofBytes bytes) :
    ∃ k < 16, c = CodePoint.ofHexValue k := by
  induction bytes with
  | nil => cases hc
  | cons b rest ih =>
    rw [ofBytes_cons] at hc
    rcases List.mem_cons.mp hc with rfl | hc
    · exact ⟨_, Nat.mod_lt _ (by omega), rfl⟩
    · rcases List.mem_cons.mp hc with rfl | hc
      · exact ⟨_, Nat.mod_lt _ (by omega), rfl⟩
      · exact ih hc

theorem newline_notMem_ofBytes (bytes : List UInt8) : CodePoint.scalar '\n' ∉ ofBytes bytes := by
  intro hmem
  obtain ⟨k, hk, heq⟩ := mem_ofBytes hmem
  have hvalue := CodePoint.hexValue?_ofHexValue hk
  rw [← heq] at hvalue
  cases hvalue

theorem Hex.head?_ne_dash {t : Text} {bytes : List UInt8} (h : Hex t bytes) :
    t.head? ≠ some (.scalar '-') := by
  cases h with
  | nil => simp
  | blank hc _ =>
    intro heq
    cases heq
    cases hc
  | byte hc _ _ =>
    intro heq
    cases heq
    cases hc

end Text

end AddressProtocols
