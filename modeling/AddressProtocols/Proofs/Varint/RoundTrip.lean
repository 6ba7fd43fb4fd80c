import AddressProtocols.Proofs.Varint.Decoding

/-!
# Reading back what was written

An encoding is a number in the sense of `Reads`, so reading it gives the number it was made of and
takes exactly its bytes, wherever it stands (`decode_encode_append`).  Numbers of 64 bits fit: their
tenth byte carries one bit (`encode_fits`).
-/

namespace AddressProtocols

namespace Varint

/-- The bytes of a number of 64 bits are at most ten, and a tenth one carries a single bit. -/
theorem encode_fits {v : ℕ} (hv : v ≤ maxValue) {init : List UInt8} {last : UInt8}
    (henc : encode v = init ++ [last]) (hframed : Framed init last) :
    init.length < maxLength ∧ (init.length = maxLength - 1 → last.toNat ≤ 1) := by
  simp only [maxValue] at hv
  constructor
  · have hlen : (encode v).length ≤ 10 := (length_encode_le_iff (by decide)).mpr (by omega)
    rw [henc, List.length_append, List.length_singleton] at hlen
    exact hlen
  · intro hfull
    have hvalue : groupValue (init ++ [last]) = v := by
      rw [← henc, groupValue_encode]
    rw [hframed.groupValue_eq, hfull] at hvalue
    simp only [maxLength] at hvalue
    omega

theorem decode_encode_append {v : ℕ} (hv : v ≤ maxValue) (rest : List UInt8) :
    decode (encode v ++ rest) = .ok (v, (encode v).length) := by
  obtain ⟨init, last, henc, hframed, -⟩ := encode_framed v
  obtain ⟨hshort, hfits⟩ := encode_fits hv henc hframed
  have hreads := Reads.number rest hframed hshort hfits
  rw [← henc, groupValue_encode] at hreads
  rw [decode_eq_iff, henc, List.append_assoc, List.singleton_append, List.length_append,
    List.length_singleton]
  exact hreads

/-- **Round trip.**  Every number of 64 bits has an encoding, and reading at its place, whatever
bytes stand before and after, gives the number and the length of the encoding.  A value is refused
exactly if it is no integer, or an integer that is negative or needs more than 64 bits. -/
theorem decodeAt_append_encoding :
    (∀ v : ℕ, v ≤ maxValue → ∃ code, encode? (.int v) = .ok code ∧
      ∀ before rest : List UInt8,
        decodeAt (before ++ code ++ rest) (.int before.length) = .ok (v, code.length)) ∧
    ∀ (w : Value) (fault : RangeFault), encode? w = .error fault ↔
      ((∀ z : ℤ, w ≠ .int z) ∧ fault = .notInteger w.typeName) ∨
        ∃ z : ℤ, w = .int z ∧ (z < 0 ∨ (maxValue : ℤ) < z) ∧ fault = .outside z := by
  constructor
  · intro v hv
    refine ⟨encode v, encode?_natCast hv, fun before rest => ?_⟩
    rw [decodeAt_eq_ok]
    refine ⟨before.length, rfl, ?_⟩
    rw [List.append_assoc, List.drop_left]
    exact decode_encode_append hv rest
  · intro w fault
    exact encode?_eq_error

/-- The greatest number of 64 bits takes ten bytes and is read back behind one other byte. -/
theorem decodeAt_append_encoding_maxValue :
    maxValue ≤ maxValue ∧ ∃ code, encode? (.int maxValue) = .ok code ∧
      decodeAt ([0x80] ++ code ++ [0xFF]) (.int 1) = .ok (maxValue, code.length) := by
  obtain ⟨code, hcode, hread⟩ := decodeAt_append_encoding.1 maxValue (Nat.le_refl maxValue)
  exact ⟨Nat.le_refl maxValue, code, hcode, hread [0x80] [0xFF]⟩

end Varint

end AddressProtocols
