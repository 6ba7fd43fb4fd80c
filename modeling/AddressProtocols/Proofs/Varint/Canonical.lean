import AddressProtocols.Proofs.Varint.Decoding
import Mathlib.Data.Nat.Size
import Mathlib.Order.Bounds.Defs

/-!
# Canonical encodings

A number can be read from many byte sequences, since empty groups may follow its own.  The encoder
writes the one without: the shortest there is (`decode_length_le`), of the length that the number of
bits predicts (`length_encode`).  A sequence that was read is the encoding of its number exactly if
its last group is not empty or is the only one (`encode_eq_take_iff`).
-/

namespace AddressProtocols

namespace Varint

/-! ### The least length -/

theorem minLength_eq (n : ℕ) : minLength n = max 1 ((n.size + 6) / 7) := by
  have hsize : n.size = if n = 0 then 0 else Nat.log2 n + 1 := by
    rcases Nat.eq_zero_or_pos n with hzero | hpos
    · subst hzero
      rfl
    · rw [if_neg (by omega)]
      apply Nat.le_antisymm
      · rw [Nat.size_le, ← Nat.log2_lt (by omega)]
        omega
      · rw [Nat.succ_le_iff, Nat.lt_size, ← Nat.le_log2 (by omega)]
  rw [minLength, hsize]

theorem one_le_minLength (n : ℕ) : 1 ≤ minLength n := by
  rw [minLength_eq]
  exact Nat.le_max_left _ _

/-- The predicted length suffices exactly if the groups can hold the number. -/
theorem minLength_le_iff {n k : ℕ} (hk : 1 ≤ k) : minLength n ≤ k ↔ n < 128 ^ k := by
  have hbits : n.size ≤ 7 * k ↔ n < 128 ^ k := by
    rw [Nat.size_le, Nat.pow_mul]
  rw [minLength_eq, ← hbits]
  omega

theorem minLength_isLeast (n : ℕ) : IsLeast {k | 1 ≤ k ∧ n < 128 ^ k} (minLength n) := by
  constructor
  · exact ⟨one_le_minLength n, (minLength_le_iff (one_le_minLength n)).mp (Nat.le_refl _)⟩
  · intro k hk
    exact (minLength_le_iff hk.1).mpr hk.2

theorem length_encode (n : ℕ) : (encode n).length = minLength n := by
  have hpos : 1 ≤ (encode n).length := by
    obtain ⟨init, last, henc, -, -⟩ := encode_framed n
    simp [henc]
  apply Nat.le_antisymm
  · rw [length_encode_le_iff (one_le_minLength n), ← minLength_le_iff (one_le_minLength n)]
  · rw [minLength_le_iff hpos, ← length_encode_le_iff hpos]

/-! ### Other encodings of a number -/

/-- No sequence that a number was read from is shorter than its encoding. -/
theorem decode_length_le {bytes : List UInt8} {v n : ℕ} (h : decode bytes = .ok (v, n)) :
    (encode v).length ≤ n := by
  obtain ⟨hcomplete, rfl⟩ := decode_eq_ok_iff.mp h
  have hvalue := groupValue_lt (bytes.take n)
  rw [List.length_take_of_le (by have := hcomplete.le; omega)] at hvalue
  exact (length_encode_le_iff hcomplete.pos).mpr hvalue

/-- The bytes a number was read from are its encoding if the last group is not empty or is the only
one; otherwise the encoding is shorter. -/
theorem encode_eq_take_iff {bytes : List UInt8} {v n : ℕ} (h : decode bytes = .ok (v, n)) :
    (encode v = bytes.take n ↔ n = 1 ∨ bytes.getD (n - 1) 0 ≠ 0) ∧
      (¬(n = 1 ∨ bytes.getD (n - 1) 0 ≠ 0) → (encode v).length < n) := by
  cases decode_eq_iff.mp h with
  | @number init last rest framed short fits =>
    rw [take_append_cons, Nat.add_sub_cancel, getD_append_cons]
    refine ⟨⟨fun henc => ?_, fun hlast => ?_⟩, fun hempty => ?_⟩
    · obtain ⟨init', last', henc', -, hlast'⟩ :=
        encode_framed (groupValue (init ++ [last]))
      rw [henc] at henc'
      obtain ⟨rfl, hlasts⟩ := List.append_inj' henc' rfl
      cases hlasts
      by_cases hinit : init = []
      · exact Or.inl (by rw [hinit]; rfl)
      · exact Or.inr (hlast' hinit)
    · apply eq_encode framed
      intro hinit
      rcases hlast with hone | hne
      · exact absurd (List.length_eq_zero_iff.mp (by omega)) hinit
      · exact hne
    · obtain ⟨hlen, hzero⟩ := not_or.mp hempty
      have hlast : last = 0 := not_not.mp hzero
      -- the empty last group adds nothing, so the groups before it hold the number
      have hvalue : groupValue (init ++ [last]) < 128 ^ init.length := by
        rw [framed.groupValue_eq, hlast]
        exact groupValue_lt init
      have hle := (length_encode_le_iff (show 1 ≤ init.length by omega)).mpr hvalue
      omega

/-- A number read from as few bytes as can hold it was read from its encoding. -/
theorem take_eq_encode_of_minimal {bytes : List UInt8} {v n : ℕ} (h : decode bytes = .ok (v, n))
    (hmin : n = minLength v) : bytes.take n = encode v := by
  obtain ⟨hiff, hlonger⟩ := encode_eq_take_iff h
  refine (hiff.mpr ?_).symm
  by_contra hempty
  have hlt := hlonger hempty
  rw [length_encode] at hlt
  omega

/-- **Minimality and canonical form.**  The encoding of a number of 64 bits has the length that its
bits predict, which is the least number of groups that can hold it, and is no longer than any
sequence the number can be read from.  Conversely a number that was read has an encoding; this is
the sequence it was read from exactly if that is one byte long or ends in a byte that is not zero,
and is shorter otherwise. -/
theorem encoding_canonical :
    (∀ v : ℕ, v ≤ maxValue → ∃ code, encode? (.int v) = .ok code ∧
      code.length = minLength v ∧
      minLength v = max 1 ((v.size + 6) / 7) ∧
      IsLeast {k | 1 ≤ k ∧ v < 128 ^ k} (minLength v) ∧
      ∀ (bytes : List UInt8) (w : Value) (n : ℕ),
        decodeAt bytes w = .ok (v, n) → code.length ≤ n) ∧
    ∀ (bytes : List UInt8) (w : Value) (v n : ℕ), decodeAt bytes w = .ok (v, n) →
      ∃ k : ℕ, w = .int k ∧ ∃ code, encode? (.int v) = .ok code ∧
        (code = (bytes.drop k).take n ↔ n = 1 ∨ (bytes.drop k).getD (n - 1) 0 ≠ 0) ∧
        (¬(n = 1 ∨ (bytes.drop k).getD (n - 1) 0 ≠ 0) → code.length < n) := by
  constructor
  · intro v hv
    refine ⟨encode v, encode?_natCast hv, length_encode v, minLength_eq v, minLength_isLeast v, ?_⟩
    intro bytes w n h
    obtain ⟨k, -, hdecode⟩ := decodeAt_eq_ok.mp h
    exact decode_length_le hdecode
  · intro bytes w v n h
    obtain ⟨k, hw, hdecode⟩ := decodeAt_eq_ok.mp h
    exact ⟨k, hw, encode v, encode?_natCast (le_maxValue_of_decode hdecode),
      encode_eq_take_iff hdecode⟩

/-- One is read from two bytes, the second of them empty, behind another byte; its encoding is
shorter. -/
theorem encoding_canonical_overlong :
    decodeAt [0xFF, 0x81, 0x00] (.int 1) = .ok (1, 2) ∧
      ∃ code, encode? (.int 1) = .ok code ∧ code ≠ [0x81, 0x00] ∧ code.length < 2 := by
  have hread : decodeAt [0xFF, 0x81, 0x00] (.int 1) = .ok (1, 2) := by rfl
  obtain ⟨k, hk, code, hcode, hiff, hshort⟩ :=
    encoding_canonical.2 [0xFF, 0x81, 0x00] (.int 1) 1 2 hread
  cases hk
  exact ⟨hread, code, hcode, fun heq => absurd (hiff.mp heq) (by decide), hshort (by decide)⟩

end Varint

end AddressProtocols
