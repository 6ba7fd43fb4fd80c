import AddressProtocols.Proofs.Varint.Decoding

/-!
# Reading from a stream

Bytes of a stream arrive one piece after the other, so a reader sees a beginning of what there will
be.  What the decoder says of a beginning, and what it says of the whole:

* a number, and an overflow, are final: further bytes change nothing
  (`decode_append_of_ne_truncated`);
* a number needs all the bytes it takes and no others (`decode_take`, `decode_take_of_lt`);
* truncation asks for more bytes, and with some there is a number
  (`decode_eq_truncated_iff_exists`); overflow says that no bytes will ever help
  (`decode_eq_overflow_iff_forall`).

`Malformed.moved` is an error in a number that starts further on, as when other bytes come before.
-/

namespace AddressProtocols

namespace Varint

/-! ### More bytes -/

/-- Every outcome but truncation stays as it is when bytes follow. -/
theorem Reads.append {bytes : List UInt8} {outcome : Except Defect (ℕ × ℕ)}
    (h : Reads bytes outcome) (hne : outcome ≠ .error .truncated) (ext : List UInt8) :
    Reads (bytes ++ ext) outcome := by
  cases h with
  | number rest framed short fits =>
    rw [List.append_assoc, List.cons_append]
    exact Reads.number (rest ++ ext) framed short fits
  | cutOff continues short => exact absurd rfl hne
  | tooLong rest continues full heavy =>
    rw [List.append_assoc, List.cons_append]
    exact Reads.tooLong (rest ++ ext) continues full heavy

theorem decode_append_of_ne_truncated {bytes : List UInt8} (h : decode bytes ≠ .error .truncated)
    (ext : List UInt8) : decode (bytes ++ ext) = decode bytes := by
  have hreads : Reads bytes (decode bytes) := decode_eq_iff.mp rfl
  exact decode_eq_iff.mpr (hreads.append h ext)

/-- One empty group completes bytes that end too early. -/
theorem decode_append_zero {bytes : List UInt8} (h : decode bytes = .error .truncated) :
    decode (bytes ++ [0]) = .ok (groupValue (bytes ++ [0]), bytes.length + 1) := by
  obtain ⟨hshort, hcontinues⟩ := decode_eq_truncated_iff.mp h
  exact decode_eq_iff.mpr (Reads.number [] ⟨hcontinues, by decide⟩ hshort (fun _ => by decide))

/-! ### Fewer bytes -/

/-- The bytes a number takes are enough to read it. -/
theorem decode_take {bytes : List UInt8} {v n : ℕ} (h : decode bytes = .ok (v, n)) :
    decode (bytes.take n) = .ok (v, n) := by
  cases decode_eq_iff.mp h with
  | number rest framed short fits =>
    rw [take_append_cons]
    exact decode_eq_iff.mpr (Reads.number [] framed short fits)

/-- None of the bytes a number takes can be missing. -/
theorem decode_take_of_lt {bytes : List UInt8} {v n m : ℕ} (h : decode bytes = .ok (v, n))
    (hm : m < n) : decode (bytes.take m) = .error .truncated := by
  obtain ⟨hcomplete, -⟩ := decode_eq_ok_iff.mp h
  have hle := hcomplete.le
  rw [decode_eq_truncated_iff, List.length_take]
  refine ⟨by omega, fun b hb => ?_⟩
  exact hcomplete.continues b (List.take_subset_take_left bytes (show m ≤ n - 1 by omega) hb)

/-! ### What the defects mean -/

theorem decode_eq_truncated_iff_exists {bytes : List UInt8} :
    decode bytes = .error .truncated ↔
      (¬∃ p, decode bytes = .ok p) ∧ ∃ ext p, decode (bytes ++ ext) = .ok p := by
  constructor
  · intro h
    exact ⟨by simp [h], [0], _, decode_append_zero h⟩
  · intro h
    obtain ⟨hnone, ext, p, hext⟩ := h
    by_contra hne
    -- the outcome would be final, so the bytes would already hold the number
    rw [decode_append_of_ne_truncated hne] at hext
    exact hnone ⟨p, hext⟩

theorem decode_eq_overflow_iff_forall {bytes : List UInt8} :
    decode bytes = .error .overflow ↔ ¬∃ ext p, decode (bytes ++ ext) = .ok p := by
  constructor
  · intro h hext
    obtain ⟨ext, p, hext⟩ := hext
    rw [decode_append_of_ne_truncated (by simp [h]), h] at hext
    cases hext
  · intro hnone
    cases h : decode bytes with
    | ok p => exact absurd ⟨[], p, by rw [List.append_nil, h]⟩ hnone
    | error defect =>
      cases defect with
      | truncated => exact absurd ⟨[0], _, decode_append_zero h⟩ hnone
      | overflow => rfl

/-! ### Offsets -/

/-- The extensions of bytes extend what stands from an offset on in every way. -/
theorem exists_drop_append_iff {bytes : List UInt8} {k : ℕ} {P : List UInt8 → Prop} :
    (∃ ext, P ((bytes ++ ext).drop k)) ↔ ∃ ext, P (bytes.drop k ++ ext) := by
  simp only [List.drop_append]
  constructor
  · intro h
    obtain ⟨ext, hext⟩ := h
    exact ⟨_, hext⟩
  · intro h
    obtain ⟨ext, hext⟩ := h
    -- an offset past the end skips the first bytes that follow
    refine ⟨List.replicate (k - bytes.length) 0 ++ ext, ?_⟩
    rw [List.drop_left' (List.length_replicate ..)]
    exact hext

/-- Reading at an offset fails, and reports a code. -/
def FailsWith (bytes : List UInt8) (k : ℕ) (code : ErrorCode) : Prop :=
  ∃ e, decodeAt bytes (.int k) = .error e ∧ (Failure.varint e).code = code

theorem failsWith_overflow_iff {bytes : List UInt8} {k : ℕ} :
    FailsWith bytes k .varintOverflow ↔ decode (bytes.drop k) = .error .overflow :=
  decodeAt_error_code_iff bytes k .overflow

theorem failsWith_truncated_iff {bytes : List UInt8} {k : ℕ} :
    FailsWith bytes k .varintTruncated ↔ decode (bytes.drop k) = .error .truncated :=
  decodeAt_error_code_iff bytes k .truncated

/-- What is read at an offset depends on nothing but the bytes from there on. -/
theorem decodeAt_congr {bytes bytes' : List UInt8} {k : ℕ}
    (h : decode (bytes'.drop k) = decode (bytes.drop k)) :
    decodeAt bytes' (.int k) = decodeAt bytes (.int k) :=
  congrArg (Except.mapError (Malformed.ofDefect k)) h

/-- The same error in a number that starts `n` bytes further on. -/
def Malformed.moved (n : ℕ) : Malformed → Malformed
  | truncated offset => truncated (n + offset)
  | overflow offset => overflow (n + offset)
  | badOffset v => badOffset v

theorem Malformed.moved_ofDefect (n k : ℕ) (defect : Defect) :
    moved n (ofDefect k defect) = ofDefect (n + k) defect := by
  cases defect with
  | truncated => rfl
  | overflow => rfl

theorem decodeAt_append_left (before bytes : List UInt8) (k : ℕ) :
    decodeAt (before ++ bytes) (.int (before.length + k : ℕ)) =
      (decodeAt bytes (.int k)).mapError (Malformed.moved before.length) := by
  show ((decode ((before ++ bytes).drop (before.length + k))).mapError
      (Malformed.ofDefect (before.length + k))) =
    ((decode (bytes.drop k)).mapError (Malformed.ofDefect k)).mapError
      (Malformed.moved before.length)
  rw [List.drop_length_add_append]
  cases decode (bytes.drop k) with
  | ok p => rfl
  | error defect => exact congrArg Except.error (Malformed.moved_ofDefect _ _ _).symm

/-- **What an outcome says of a stream.**  At every offset, whether or not there are bytes:

* a number and an overflow stay when bytes follow;
* a number is read from the bytes it takes alone, and with fewer of them reading fails as truncated;
* reading fails as truncated exactly if there is no number yet and some bytes would complete one,
  and as an overflow exactly if no bytes would;
* bytes before the offset change nothing but the offset that an error tells. -/
theorem decodeAt_streaming (bytes : List UInt8) (k : ℕ) :
    ((∃ p, decodeAt bytes (.int k) = .ok p) ∨ FailsWith bytes k .varintOverflow →
        ∀ ext, decodeAt (bytes ++ ext) (.int k) = decodeAt bytes (.int k)) ∧
      (∀ v n, decodeAt bytes (.int k) = .ok (v, n) →
        decodeAt (bytes.take (k + n)) (.int k) = .ok (v, n) ∧
          ∀ m, k ≤ m → m < k + n → FailsWith (bytes.take m) k .varintTruncated) ∧
      (FailsWith bytes k .varintTruncated ↔
        (¬∃ p, decodeAt bytes (.int k) = .ok p) ∧
          ∃ ext p, decodeAt (bytes ++ ext) (.int k) = .ok p) ∧
      (FailsWith bytes k .varintOverflow ↔ ¬∃ ext p, decodeAt (bytes ++ ext) (.int k) = .ok p) ∧
      ∀ before, decodeAt (before ++ bytes) (.int (before.length + k : ℕ)) =
        (decodeAt bytes (.int k)).mapError (Malformed.moved before.length) := by
  simp only [failsWith_overflow_iff, failsWith_truncated_iff, decodeAt_int_eq_ok]
  refine ⟨fun h ext => ?_, fun v n h => ⟨?_, fun m hkm hm => ?_⟩, ?_, ?_, fun before => ?_⟩
  · have hfinal : decode (bytes.drop k) ≠ .error .truncated := by
      rcases h with ⟨p, hp⟩ | hoverflow
      · simp [hp]
      · simp [hoverflow]
    apply decodeAt_congr
    rw [List.drop_append, decode_append_of_ne_truncated hfinal]
  · rw [List.drop_take, Nat.add_sub_cancel_left]
    exact decode_take h
  · rw [List.drop_take]
    exact decode_take_of_lt h (by omega)
  · rw [decode_eq_truncated_iff_exists,
      exists_drop_append_iff (P := fun rest => ∃ p, decode rest = .ok p)]
  · rw [decode_eq_overflow_iff_forall,
      exists_drop_append_iff (P := fun rest => ∃ p, decode rest = .ok p)]
  · exact decodeAt_append_left before bytes k

/-- Three hundred is read whatever follows it, and not without its second byte; nine bytes that say
another follows, with a heavy tenth one, are an overflow whatever follows them. -/
theorem decodeAt_streaming_three_hundred :
    decodeAt [0x05, 0xAC, 0x02] (.int (1 : ℕ)) = .ok (300, 2) ∧
      decodeAt ([0x05, 0xAC, 0x02] ++ [0x80]) (.int (1 : ℕ)) = .ok (300, 2) ∧
      1 ≤ 2 ∧ 2 < 1 + 2 ∧ FailsWith [0x05, 0xAC] 1 .varintTruncated ∧
      FailsWith (List.replicate 10 0xFF) 0 .varintOverflow ∧
      decodeAt (List.replicate 10 0xFF ++ [0x00]) (.int (0 : ℕ)) =
        decodeAt (List.replicate 10 0xFF) (.int (0 : ℕ)) := by
  have hread : decodeAt [0x05, 0xAC, 0x02] (.int (1 : ℕ)) = .ok (300, 2) := by rfl
  have hover : FailsWith (List.replicate 10 0xFF) 0 .varintOverflow := ⟨.overflow 0, by rfl, rfl⟩
  obtain ⟨hfinal, hcut, -⟩ := decodeAt_streaming [0x05, 0xAC, 0x02] 1
  obtain ⟨hfinal', -⟩ := decodeAt_streaming (List.replicate 10 0xFF) 0
  obtain ⟨-, hshort⟩ := hcut 300 2 hread
  exact ⟨hread, (hfinal (Or.inl ⟨_, hread⟩) [0x80]).trans hread, by decide, by decide,
    hshort 2 (by decide) (by decide), hover, hfinal' (Or.inr hover) [0x00]⟩

end Varint

end AddressProtocols
