import AddressProtocols.Failure
import AddressProtocols.Proofs.Outcome
import AddressProtocols.Proofs.Varint.Groups
import Mathlib.Algebra.BigOperators.Group.Finset.Basic
import Mathlib.Data.List.GetD
import Mathlib.Data.List.Induction

/-!
# What the decoder reads

`Reads` relates a byte sequence to what reading a number from its front must give: the number of the
bytes up to the first one without high bit, or the reason why there is none.  `decode_eq_iff` says
that the decoder computes this relation.

* `decodeGroups_step` is one round of the decoder in base 128, and `decode_append` its invariant:
  after bytes that say another follows, it holds the number that their groups carry;
* `Reads.le_maxValue`: no number that is read needs more than 64 bits;
* `Complete` tells by position which bytes are a number, and `decodeAt_spec` is the decoder's
  specification in these terms, at every offset.
-/

namespace AddressProtocols

namespace Varint

/-! ### The relation -/

/-- What reading a number from the front of bytes must give. -/
inductive Reads : List UInt8 → Except Defect (ℕ × ℕ) → Prop
  /-- A number of few enough bytes, of which a tenth one carries a single bit. -/
  | number {init : List UInt8} {last : UInt8} (rest : List UInt8) (framed : Framed init last)
      (short : init.length < maxLength) (fits : init.length = maxLength - 1 → last.toNat ≤ 1) :
      Reads (init ++ last :: rest) (.ok (groupValue (init ++ [last]), init.length + 1))
  /-- The bytes end where another has to follow. -/
  | cutOff {bytes : List UInt8} (continues : ∀ b ∈ bytes, 128 ≤ b.toNat)
      (short : bytes.length < maxLength) : Reads bytes (.error .truncated)
  /-- A tenth byte that carries more than a single bit, or says that another follows. -/
  | tooLong {init : List UInt8} {b : UInt8} (rest : List UInt8)
      (continues : ∀ c ∈ init, 128 ≤ c.toNat) (full : init.length = maxLength - 1)
      (heavy : 1 < b.toNat) : Reads (init ++ b :: rest) (.error .overflow)

/-! ### The rounds of the decoder -/

theorem groupValue_append_singleton (done : List UInt8) (b : UInt8) :
    groupValue (done ++ [b]) = groupValue done + 128 ^ done.length * (b.toNat % 128) := by
  rw [groupValue_append, groupValue_cons]
  rfl

/-- One round, when the bytes `done` have been read. -/
theorem decodeGroups_step (done : List UInt8) (b : UInt8) (rest : List UInt8) :
    decodeGroups (groupValue done) done.length (b :: rest) =
      if done.length = maxLength - 1 ∧ 1 < b.toNat then .error .overflow
      else if b.toNat < 128 then .ok (groupValue (done ++ [b]), done.length + 1)
      else decodeGroups (groupValue (done ++ [b])) (done ++ [b]).length rest := by
  have hgrown : groupValue done ||| ((b.toNat &&& payloadMask) <<< (groupBits * done.length)) =
      groupValue (done ++ [b]) := by
    rw [and_payloadMask, or_shiftLeft_group (groupValue_lt done), groupValue_append_singleton]
  simp only [decodeGroups, hgrown, List.length_append, List.length_singleton]
  rfl

/-- Bytes that say another follows lead to the round after them. -/
theorem decode_append {done : List UInt8} (hdone : ∀ b ∈ done, 128 ≤ b.toNat)
    (hlen : done.length < maxLength) (rest : List UInt8) :
    decode (done ++ rest) = decodeGroups (groupValue done) done.length rest := by
  -- from the front, as the decoder goes: the last byte of `done` is the round to account for
  induction done using List.reverseRecOn generalizing rest with
  | nil => rfl
  | append_singleton done b ih =>
    rw [List.length_append, List.length_singleton] at hlen
    have hb : 128 ≤ b.toNat := hdone b (by simp)
    have hprev := ih (fun c hc => hdone c (List.mem_append_left _ hc)) (by omega) (b :: rest)
    rw [List.append_assoc, List.singleton_append, hprev, decodeGroups_step, if_neg (by omega),
      if_neg (by omega)]

/-- What is left to read after such bytes decides what the whole of them gives. -/
theorem decodeGroups_reads {done : List UInt8} (hdone : ∀ b ∈ done, 128 ≤ b.toNat)
    (hlen : done.length < maxLength) (rest : List UInt8) :
    Reads (done ++ rest) (decodeGroups (groupValue done) done.length rest) := by
  -- on the bytes still to read; a byte that says another follows joins `done`, whatever that is
  induction rest generalizing done with
  | nil =>
    rw [List.append_nil]
    exact Reads.cutOff hdone hlen
  | cons b rest ih =>
    rw [decodeGroups_step]
    by_cases hfull : done.length = maxLength - 1 ∧ 1 < b.toNat
    · rw [if_pos hfull]
      exact Reads.tooLong rest hdone hfull.1 hfull.2
    · rw [if_neg hfull]
      by_cases hends : b.toNat < 128
      · rw [if_pos hends]
        exact Reads.number rest ⟨hdone, hends⟩ hlen (by omega)
      · rw [if_neg hends]
        have hdone' : ∀ c ∈ done ++ [b], 128 ≤ c.toNat := by
          intro c hc
          rcases List.mem_append.mp hc with hold | hnew
          · exact hdone c hold
          · rw [List.mem_singleton.mp hnew]
            omega
        have hlen' : (done ++ [b]).length < maxLength := by
          rw [List.length_append, List.length_singleton]
          omega
        simpa using ih hdone' hlen'

/-- The decoder computes what the relation demands. -/
theorem decode_eq_iff {bytes : List UInt8} {outcome : Except Defect (ℕ × ℕ)} :
    decode bytes = outcome ↔ Reads bytes outcome := by
  constructor
  · intro h
    subst h
    exact @decodeGroups_reads [] (by simp) (by decide) bytes
  · intro h
    cases h with
    | number rest framed short fits =>
      rw [decode_append framed.continues short, decodeGroups_step, if_neg (by omega),
        if_pos framed.ends]
    | cutOff continues short =>
      rw [← List.append_nil bytes, decode_append continues short]
      rfl
    | tooLong rest continues full heavy =>
      rw [decode_append continues (by rw [full]; decide), decodeGroups_step,
        if_pos ⟨full, heavy⟩]

/-- No number that is read needs more than 64 bits. -/
theorem le_maxValue_of_decode {bytes : List UInt8} {v n : ℕ} (h : decode bytes = .ok (v, n)) :
    v ≤ maxValue := by
  cases decode_eq_iff.mp h with
  | @number init last rest framed short fits =>
    have hinit := groupValue_lt init
    rw [framed.groupValue_eq]
    -- below ten bytes the groups have no more than 63 bits; at ten the last group is at most one
    by_cases hfull : init.length = 9
    · have hlast : last.toNat ≤ 1 := fits hfull
      rw [hfull] at hinit ⊢
      simp only [maxValue]
      omega
    · have hvalue := groupValue_lt (init ++ [last])
      rw [framed.groupValue_eq, List.length_append, List.length_singleton] at hvalue
      have hpow : 128 ^ (init.length + 1) ≤ 128 ^ 9 :=
        Nat.pow_le_pow_right (by decide) (by simp only [maxLength] at short; omega)
      simp only [maxValue]
      omega

/-! ### The relation by position -/

/-- The first `n` of the bytes are a number of 64 bits. -/
structure Complete (bytes : List UInt8) (n : ℕ) : Prop where
  pos : 1 ≤ n
  le : n ≤ min maxLength bytes.length
  continues : ∀ b ∈ bytes.take (n - 1), 0x80 ≤ b.toNat
  ends : (bytes.getD (n - 1) 0).toNat < 0x80
  fits : n = maxLength → (bytes.getD (n - 1) 0).toNat ≤ 1

theorem eq_take_append_getD_cons_drop {bytes : List UInt8} {k : ℕ} (h : k < bytes.length) :
    bytes = bytes.take k ++ bytes.getD k 0 :: bytes.drop (k + 1) := by
  rw [List.getD_eq_getElem _ _ h, List.cons_getElem_drop_succ, List.take_append_drop]

theorem getD_append_cons (init : List UInt8) (b : UInt8) (rest : List UInt8) :
    (init ++ b :: rest).getD init.length 0 = b := by
  simp [List.getD]

theorem take_append_cons (init : List UInt8) (b : UInt8) (rest : List UInt8) :
    (init ++ b :: rest).take (init.length + 1) = init ++ [b] := by
  rw [List.take_length_add_append]
  rfl

theorem groupValue_take (bytes : List UInt8) (n : ℕ) :
    groupValue (bytes.take n) =
      ∑ i ∈ Finset.range n, (bytes.getD i 0).toNat % 128 * 128 ^ i := by
  induction n with
  | zero => rfl
  | succ n ih =>
    rw [Finset.sum_range_succ, ← ih]
    rcases Nat.lt_or_ge n bytes.length with hlt | hge
    · rw [List.take_succ_eq_append_getElem hlt, groupValue_append_singleton,
        List.length_take_of_le (Nat.le_of_lt hlt), List.getD_eq_getElem _ _ hlt, Nat.mul_comm]
    · rw [List.take_of_length_le hge, List.take_of_length_le (by omega),
        List.getD_eq_default _ _ hge]
      simp

theorem decode_eq_ok_iff {bytes : List UInt8} {v n : ℕ} :
    decode bytes = .ok (v, n) ↔ Complete bytes n ∧ v = groupValue (bytes.take n) := by
  rw [decode_eq_iff]
  constructor
  · intro h
    cases h with
    | @number init last rest framed short fits =>
      refine ⟨⟨by omega, ?_, ?_, ?_, ?_⟩, by rw [take_append_cons]⟩
      · rw [List.length_append, List.length_cons]
        omega
      · rw [Nat.add_sub_cancel, List.take_left]
        exact framed.continues
      · rw [Nat.add_sub_cancel, getD_append_cons]
        exact framed.ends
      · rw [Nat.add_sub_cancel, getD_append_cons]
        intro hlen
        exact fits (by omega)
  · intro h
    obtain ⟨⟨hpos, hle, hcontinues, hends, hfits⟩, rfl⟩ := h
    obtain ⟨k, rfl⟩ : ∃ k, n = k + 1 := ⟨n - 1, by omega⟩
    rw [Nat.add_sub_cancel] at hcontinues hends hfits
    have hlen : (bytes.take k).length = k := List.length_take_of_le (by omega)
    have hsplit := eq_take_append_getD_cons_drop (show k < bytes.length by omega)
    have htake : bytes.take (k + 1) = bytes.take k ++ [bytes.getD k 0] := by
      rw [List.take_succ_eq_append_getElem (by omega), List.getD_eq_getElem]
    have hreads := Reads.number (bytes.drop (k + 1)) ⟨hcontinues, hends⟩ (by omega)
      (fun h => hfits (by rw [hlen] at h; rw [h]; rfl))
    rw [← hsplit, ← htake, hlen] at hreads
    exact hreads

theorem decode_eq_truncated_iff {bytes : List UInt8} :
    decode bytes = .error .truncated ↔ bytes.length < maxLength ∧ ∀ b ∈ bytes, 0x80 ≤ b.toNat := by
  rw [decode_eq_iff]
  constructor
  · intro h
    cases h with
    | cutOff continues short => exact ⟨short, continues⟩
  · intro h
    exact Reads.cutOff h.2 h.1

theorem decode_eq_overflow_iff {bytes : List UInt8} :
    decode bytes = .error .overflow ↔
      maxLength ≤ bytes.length ∧ (∀ b ∈ bytes.take (maxLength - 1), 0x80 ≤ b.toNat) ∧
        1 < (bytes.getD (maxLength - 1) 0).toNat := by
  rw [decode_eq_iff]
  constructor
  · intro h
    cases h with
    | @tooLong init b rest continues full heavy =>
      rw [← full, List.take_left, getD_append_cons, List.length_append, List.length_cons]
      exact ⟨by simp only [maxLength] at full ⊢; omega, continues, heavy⟩
  · intro h
    obtain ⟨hlen, hcontinues, hheavy⟩ := h
    have hsplit := eq_take_append_getD_cons_drop (show maxLength - 1 < bytes.length from hlen)
    rw [hsplit]
    exact Reads.tooLong _ hcontinues (List.length_take_of_le (by omega)) hheavy

/-! ### Offsets -/

/-- Only an offset that is an integer and not negative can be read at. -/
theorem decodeAt_eq_ok {bytes : List UInt8} {w : Value} {p : ℕ × ℕ} :
    decodeAt bytes w = .ok p ↔ ∃ k : ℕ, w = .int k ∧ decode (bytes.drop k) = .ok p := by
  cases w with
  | int z =>
    cases z with
    | ofNat k =>
      rw [decodeAt, decodeFrom, Outcome.mapError_eq_ok]
      simp [eq_comm]
    | negSucc k =>
      simp only [decodeAt, reduceCtorEq, Value.int.injEq, false_iff, not_exists, not_and]
      intro j hj
      cases hj
  | _ => simp [decodeAt]

theorem decodeAt_int_eq_ok {bytes : List UInt8} {k : ℕ} {p : ℕ × ℕ} :
    decodeAt bytes (.int k) = .ok p ↔ decode (bytes.drop k) = .ok p :=
  Outcome.mapError_eq_ok

theorem decodeAt_eq_error {bytes : List UInt8} {k : ℕ} {e : Malformed} :
    decodeAt bytes (.int k) = .error e ↔
      ∃ defect, decode (bytes.drop k) = .error defect ∧ Malformed.ofDefect k defect = e :=
  Outcome.mapError_eq_error

/-- The code of the error tells which defect was found. -/
theorem decodeAt_error_code_iff (bytes : List UInt8) (k : ℕ) (defect : Defect) :
    (∃ e, decodeAt bytes (.int k) = .error e ∧
        (Failure.varint e).code = (Failure.varint (.ofDefect k defect)).code) ↔
      decode (bytes.drop k) = .error defect := by
  constructor
  · intro herror
    obtain ⟨e, h, hcode⟩ := herror
    obtain ⟨found, hdecode, rfl⟩ := decodeAt_eq_error.mp h
    have hfound : found = defect := by
      cases found <;> cases defect <;> first | rfl | cases hcode
    rw [hdecode, hfound]
  · intro hdecode
    exact ⟨.ofDefect k defect, decodeAt_eq_error.mpr ⟨defect, hdecode, rfl⟩, rfl⟩

theorem decodeAt_of_ne {w : Value} (h : ∀ k : ℕ, w ≠ .int k) (bytes : List UInt8) :
    decodeAt bytes w = .error (.badOffset w) := by
  cases w with
  | int z =>
    cases z with
    | ofNat k => exact absurd rfl (h k)
    | negSucc k => rfl
  | _ => rfl

/-- **What reading at an offset gives.**  At an offset that is not negative, the number of the bytes
up to the first one without high bit, or an error that tells the offset: an overflow if ten bytes
are there and the tenth does not fit, cut off if fewer are there and all say another follows.  Any
other offset is refused. -/
theorem decodeAt_spec (bytes : List UInt8) :
    (∀ k : ℕ,
      (∀ v n, decodeAt bytes (.int k) = .ok (v, n) ↔
        Complete (bytes.drop k) n ∧
          v = ∑ i ∈ Finset.range n, ((bytes.drop k).getD i 0).toNat % 128 * 128 ^ i) ∧
      (∀ v n, decodeAt bytes (.int k) = .ok (v, n) → v ≤ maxValue) ∧
      (∀ e, decodeAt bytes (.int k) = .error e →
        (Failure.varint e).report.kind = .malformedVarint (.int k)) ∧
      ((∃ e, decodeAt bytes (.int k) = .error e ∧ (Failure.varint e).code = .varintOverflow) ↔
        10 ≤ (bytes.drop k).length ∧ (∀ b ∈ (bytes.drop k).take 9, 0x80 ≤ b.toNat) ∧
          1 < ((bytes.drop k).getD 9 0).toNat) ∧
      ((∃ e, decodeAt bytes (.int k) = .error e ∧ (Failure.varint e).code = .varintTruncated) ↔
        (bytes.drop k).length < 10 ∧ ∀ b ∈ bytes.drop k, 0x80 ≤ b.toNat)) ∧
    ∀ w : Value, (∀ k : ℕ, w ≠ .int k) →
      ∃ e, decodeAt bytes w = .error e ∧ (Failure.varint e).code = .varintTruncated ∧
        (Failure.varint e).report.kind = .malformedVarint .null := by
  refine ⟨fun k => ⟨?_, ?_, ?_, ?_, ?_⟩, ?_⟩
  · intro v n
    rw [← groupValue_take, ← decode_eq_ok_iff, decodeAt_eq_ok]
    simp
  · intro v n h
    obtain ⟨k', -, hdecode⟩ := decodeAt_eq_ok.mp h
    exact le_maxValue_of_decode hdecode
  · intro e h
    obtain ⟨defect, -, rfl⟩ := decodeAt_eq_error.mp h
    cases defect with
    | truncated => rfl
    | overflow => rfl
  · exact (decodeAt_error_code_iff bytes k .overflow).trans decode_eq_overflow_iff
  · exact (decodeAt_error_code_iff bytes k .truncated).trans decode_eq_truncated_iff
  · intro w hw
    exact ⟨.badOffset w, decodeAt_of_ne hw bytes, rfl, rfl⟩

/-- Three hundred is read between other bytes, and a truth value is no offset. -/
theorem decodeAt_spec_three_hundred :
    Complete [0xAC, 0x02, 0xFF] 2 ∧
      decodeAt [0x05, 0xAC, 0x02, 0xFF] (.int 1) = .ok (300, 2) ∧
      (∀ k : ℕ, Value.bool true ≠ .int k) ∧
      ∃ e, decodeAt [0x05, 0xAC, 0x02, 0xFF] (.bool true) = .error e ∧
        (Failure.varint e).code = .varintTruncated ∧
        (Failure.varint e).report.kind = .malformedVarint .null := by
  have hcomplete : Complete [0xAC, 0x02, 0xFF] 2 :=
    ⟨by decide, by decide, by simp, by decide, by decide⟩
  have hbool : ∀ k : ℕ, Value.bool true ≠ .int k := by simp
  obtain ⟨hoffset, hother⟩ := decodeAt_spec [0x05, 0xAC, 0x02, 0xFF]
  exact ⟨hcomplete, ((hoffset 1).1 300 2).mpr ⟨hcomplete, by decide⟩, hbool, hother _ hbool⟩

end Varint

end AddressProtocols
