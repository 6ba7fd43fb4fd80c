import AddressProtocols.Proofs.Fuzz.Draw
import AddressProtocols.Proofs.Varint.Streaming

/-!
# The inputs of the campaign

The numbers and byte sequences that the campaign can draw are known exactly, so that no input it
should try is out of its reach: `Fuzz.Draw.inputs_exact`.  Among the byte sequences there are some
for every way in which reading a number can end (`Varint.exists_decode_replicate`,
`Fuzz.Draw.exists_stream_bytes`). -/

namespace AddressProtocols

/-- Empty groups, and one that is not, make a number of as many bytes. -/
theorem Varint.exists_decode_replicate {n : ℕ} (hn : n < maxLength) :
    ∃ v, decode (List.replicate n 0x80 ++ [1]) = .ok (v, n + 1) := by
  have hframed : Framed (List.replicate n 0x80) 1 := by
    refine ⟨fun b hb => ?_, by decide⟩
    rw [List.eq_of_mem_replicate hb]
    decide
  have hreads := Reads.number [] hframed (by rw [List.length_replicate]; exact hn)
    fun _ => by decide
  rw [List.length_replicate] at hreads
  exact ⟨_, decode_eq_iff.mpr hreads⟩

namespace Fuzz

namespace Draw

/-- Every sequence of up to fourteen bytes is drawn on some stream, however much of it has been
taken. -/
theorem exists_stream_bytes {b : List UInt8} (hb : b.length ≤ 14) (taken : ℕ) :
    ∃ stream, (bytes stream taken).1 = b :=
  (ranges_bytes.canGive b (.inl hb)).exists_stream taken

/-- **The inputs of the campaign.**  Over all streams, and however much of them has been taken, the
numbers that are drawn are those of 64 bits, and the byte sequences are those of up to fourteen
bytes and those of up to fourteen bytes with the high bit set and up to two bytes of any kind behind
them.  On some stream, a number of each length from one byte to ten is read from the bytes that are
drawn; on some, reading them fails as an overflow, and on some as truncated. -/
theorem inputs_exact (taken : ℕ) :
    (Set.range fun stream => (number stream taken).1) = {n | n ≤ Varint.maxValue} ∧
    (Set.range fun stream => (bytes stream taken).1) =
      {b | b.length ≤ 14} ∪
        {b | ∃ start rest, b = start ++ rest ∧ start.length ≤ 14 ∧ (∀ c ∈ start, 0x80 ≤ c.toNat) ∧
          rest.length ≤ 2} ∧
    (∀ n, 1 ≤ n → n ≤ 10 →
      ∃ stream v, Varint.decodeAt (bytes stream taken).1 (.int (0 : ℕ)) = .ok (v, n)) ∧
    (∃ stream, Varint.FailsWith (bytes stream taken).1 0 .varintOverflow) ∧
    ∃ stream, Varint.FailsWith (bytes stream taken).1 0 .varintTruncated := by
  refine ⟨ranges_number.range_eq taken, ranges_bytes.range_eq taken, fun n hpos hle => ?_, ?_, ?_⟩
  · obtain ⟨v, hdecode⟩ :=
        Varint.exists_decode_replicate (n := n - 1) (by rw [Varint.maxLength]; omega)
    obtain ⟨stream, hstream⟩ :=
      exists_stream_bytes (b := List.replicate (n - 1) 0x80 ++ [1]) (by simp; omega) taken
    refine ⟨stream, v, ?_⟩
    rw [hstream, Varint.decodeAt_int_eq_ok, List.drop_zero, hdecode, Nat.sub_add_cancel hpos]
  · obtain ⟨stream, hstream⟩ := exists_stream_bytes (b := List.replicate 10 0x80) (by decide) taken
    refine ⟨stream, ?_⟩
    rw [hstream, Varint.failsWith_overflow_iff]
    rfl
  · obtain ⟨stream, hstream⟩ := exists_stream_bytes (b := []) (by decide) taken
    refine ⟨stream, ?_⟩
    rw [hstream, Varint.failsWith_truncated_iff]
    rfl

/-- From the start of some stream, bytes are drawn from which a number of ten bytes is read. -/
theorem inputs_exact_longest :
    1 ≤ 10 ∧ 10 ≤ 10 ∧
      ∃ stream v, Varint.decodeAt (bytes stream 0).1 (.int (0 : ℕ)) = .ok (v, 10) := by
  obtain ⟨-, -, hlengths, -⟩ := inputs_exact 0
  exact ⟨by decide, by decide, hlengths 10 (by decide) (by decide)⟩

end Draw

end Fuzz

end AddressProtocols
