import AddressProtocols.Varint
import Mathlib.Data.Nat.Digits.Defs

/-!
# Groups of seven bits

The codec cuts and joins groups with masks, shifts and bitwise or.  Here these operations are read
as arithmetic in base 128, and the bytes of a number as its digits.

* `groupValue` is the number whose groups a byte sequence carries, whatever its high bits are;
  `groupValue_append` and `groupValue_lt` are its two laws;
* `Framed` is the shape of a number on the wire: a byte without high bit ends it, and those before
  have theirs set;
* `encode_of_lt` and `encode_of_le` are the two steps of the encoder in base 128;
  `groupValue_encode` says that an encoding carries its number, `encode_framed` that it is framed
  and has no empty last group, `eq_encode` that nothing else is, and `length_encode_le_iff` how long
  it is; `encode?_eq_ok` and `encode?_eq_error` say which values have one. -/

namespace AddressProtocols

namespace Varint

/-! ### Bits -/

theorem and_payloadMask (n : ℕ) : n &&& payloadMask = n % 128 :=
  Nat.and_two_pow_sub_one_eq_mod n 7

theorem shiftRight_groupBits (n : ℕ) : n >>> groupBits = n / 128 :=
  Nat.shiftRight_eq_div_pow n 7

theorem or_continuation {g : ℕ} (h : g < 128) : g ||| continuation = g + 128 := by
  have hor := Nat.two_pow_add_eq_or_of_lt (show g < 2 ^ 7 from h) 1
  rw [Nat.or_comm, show continuation = 2 ^ 7 * 1 from rfl, ← hor, Nat.add_comm]

theorem two_pow_groupBits_mul (k : ℕ) : 2 ^ (groupBits * k) = 128 ^ k :=
  Nat.pow_mul 2 7 k

/-- A group that lies above all the bits of a number is added to it by bitwise or. -/
theorem or_shiftLeft_group {value k : ℕ} (h : value < 128 ^ k) (g : ℕ) :
    value ||| (g <<< (groupBits * k)) = value + 128 ^ k * g := by
  rw [← two_pow_groupBits_mul] at h ⊢
  rw [Nat.or_comm, ← Nat.shiftLeft_add_eq_or_of_lt h, Nat.shiftLeft_eq, Nat.mul_comm, Nat.add_comm]

/-! ### The number that bytes carry -/

/-- The number whose groups are those of the bytes, least significant first. -/
def groupValue (bytes : List UInt8) : ℕ := Nat.ofDigits 128 (bytes.map fun b => b.toNat % 128)

theorem groupValue_cons (b : UInt8) (rest : List UInt8) :
    groupValue (b :: rest) = b.toNat % 128 + 128 * groupValue rest :=
  Nat.ofDigits_cons

theorem groupValue_append (xs ys : List UInt8) :
    groupValue (xs ++ ys) = groupValue xs + 128 ^ xs.length * groupValue ys := by
  rw [groupValue, List.map_append, Nat.ofDigits_append, List.length_map]
  rfl

theorem groupValue_singleton {b : UInt8} (h : b.toNat < 128) : groupValue [b] = b.toNat := by
  rw [groupValue_cons, Nat.mod_eq_of_lt h]
  rfl

theorem groupValue_lt (bytes : List UInt8) : groupValue bytes < 128 ^ bytes.length := by
  have h : ∀ g ∈ bytes.map fun b => b.toNat % 128, g < 128 := by
    intro g hg
    obtain ⟨b, -, rfl⟩ := List.mem_map.mp hg
    exact Nat.mod_lt _ (by decide)
  simpa [groupValue] using Nat.ofDigits_lt_base_pow_length (by decide) h

/-! ### The shape of a number -/

/-- The bytes `init` say that another follows, and `last` that none does. -/
structure Framed (init : List UInt8) (last : UInt8) : Prop where
  continues : ∀ b ∈ init, 128 ≤ b.toNat
  ends : last.toNat < 128

theorem framed_nil {last : UInt8} (h : last.toNat < 128) : Framed [] last :=
  ⟨by simp, h⟩

theorem Framed.cons {b : UInt8} {init : List UInt8} {last : UInt8} (h : Framed init last)
    (hb : 128 ≤ b.toNat) : Framed (b :: init) last :=
  ⟨List.forall_mem_cons.mpr ⟨hb, h.continues⟩, h.ends⟩

/-- The last group of a number weighs most. -/
theorem Framed.groupValue_eq {init : List UInt8} {last : UInt8} (h : Framed init last) :
    groupValue (init ++ [last]) = groupValue init + 128 ^ init.length * last.toNat := by
  rw [groupValue_append, groupValue_singleton h.ends]

/-! ### The encoder -/

theorem encode_of_lt {n : ℕ} (h : n < 128) : encode n = [UInt8.ofNat n] := by
  rw [encode, if_pos (show n < continuation from h)]

theorem encode_of_le {n : ℕ} (h : 128 ≤ n) :
    encode n = UInt8.ofNat (n % 128 + 128) :: encode (n / 128) := by
  rw [encode, if_neg (show ¬n < continuation from Nat.not_lt.mpr h), and_payloadMask,
    or_continuation (Nat.mod_lt n (by decide)), shiftRight_groupBits]

theorem toNat_ofNat_byte {n : ℕ} (h : n < 256) : (UInt8.ofNat n).toNat = n :=
  UInt8.toNat_ofNat_of_lt' h

theorem groupValue_encode (n : ℕ) : groupValue (encode n) = n := by
  induction n using Nat.strongRecOn with
  | ind n ih =>
    rcases Nat.lt_or_ge n 128 with hlt | hge
    · have hbyte := toNat_ofNat_byte (show n < 256 by omega)
      rw [encode_of_lt hlt, groupValue_singleton (by omega), hbyte]
    · have hbyte := toNat_ofNat_byte (show n % 128 + 128 < 256 by omega)
      rw [encode_of_le hge, groupValue_cons, hbyte, ih (n / 128) (by omega)]
      omega

/-- An encoding is framed, and its last group is empty only where it is the only one. -/
theorem encode_framed (n : ℕ) :
    ∃ init last, encode n = init ++ [last] ∧ Framed init last ∧ (init ≠ [] → last ≠ 0) := by
  induction n using Nat.strongRecOn with
  | ind n ih =>
    rcases Nat.lt_or_ge n 128 with hlt | hge
    · have hbyte := toNat_ofNat_byte (show n < 256 by omega)
      exact ⟨[], UInt8.ofNat n, encode_of_lt hlt, framed_nil (by omega), by simp⟩
    · obtain ⟨init, last, henc, hframed, hlast⟩ := ih (n / 128) (by omega)
      have hbyte := toNat_ofNat_byte (show n % 128 + 128 < 256 by omega)
      refine ⟨UInt8.ofNat (n % 128 + 128) :: init, last, ?_, hframed.cons (by omega), fun _ => ?_⟩
      · rw [encode_of_le hge, henc, List.cons_append]
      · intro hzero
        -- an empty last group would have to be the only one, that is `n / 128 = 0`
        have hinit : init = [] := by
          by_contra hne
          exact hlast hne hzero
        have hvalue : groupValue (encode (n / 128)) = n / 128 := groupValue_encode (n / 128)
        rw [henc, hinit, hzero] at hvalue
        have hempty : groupValue ([] ++ [0]) = 0 := rfl
        omega

/-- Framed bytes whose last group is not empty, or is the only one, are the encoding of their
number. -/
theorem eq_encode {init : List UInt8} {last : UInt8} (h : Framed init last)
    (hlast : init ≠ [] → last ≠ 0) : encode (groupValue (init ++ [last])) = init ++ [last] := by
  induction init with
  | nil =>
    rw [List.nil_append, groupValue_singleton h.ends, encode_of_lt h.ends, UInt8.ofNat_toNat]
  | cons b init ih =>
    have hb : 128 ≤ b.toNat := h.continues b List.mem_cons_self
    have hb256 : b.toNat < 256 := b.toNat_lt
    have hrest : Framed init last :=
      ⟨fun c hc => h.continues c (List.mem_cons_of_mem b hc), h.ends⟩
    have hne : last ≠ 0 := hlast (List.cons_ne_nil b init)
    -- the rest carries a positive number, so the encoder does not stop at `b`
    have hpos : 0 < last.toNat := by
      rw [Nat.pos_iff_ne_zero]
      intro hzero
      exact hne (UInt8.toNat_inj.mp hzero)
    have hvalue : 0 < groupValue (init ++ [last]) := by
      rw [hrest.groupValue_eq]
      have := Nat.mul_pos (Nat.pow_pos (n := init.length) (show 0 < 128 by decide)) hpos
      omega
    rw [List.cons_append, groupValue_cons, encode_of_le (by omega)]
    have hmod : (b.toNat % 128 + 128 * groupValue (init ++ [last])) % 128 + 128 = b.toNat := by
      omega
    have hdiv : (b.toNat % 128 + 128 * groupValue (init ++ [last])) / 128
        = groupValue (init ++ [last]) := by
      omega
    rw [hmod, hdiv, ih hrest (fun _ => hne), UInt8.ofNat_toNat]

/-- How many bytes a number takes: those whose groups can hold it. -/
theorem length_encode_le_iff {n k : ℕ} (hk : 1 ≤ k) : (encode n).length ≤ k ↔ n < 128 ^ k := by
  induction k generalizing n with
  | zero => omega
  | succ k ih =>
    rcases Nat.lt_or_ge n 128 with hlt | hge
    · rw [encode_of_lt hlt, List.length_singleton]
      have hpow : 128 ^ 1 ≤ 128 ^ (k + 1) := Nat.pow_le_pow_right (by decide) hk
      omega
    · rw [encode_of_le hge, List.length_cons, Nat.add_le_add_iff_right, Nat.pow_succ]
      rcases Nat.eq_zero_or_pos k with hzero | hpos
      · subst hzero
        obtain ⟨init, last, henc, -, -⟩ := encode_framed (n / 128)
        rw [henc, List.length_append, List.length_singleton]
        omega
      · rw [ih hpos, Nat.div_lt_iff_lt_mul (by decide)]

/-! ### Values -/

/-- The values that have an encoding are the integers of 64 bits. -/
theorem encode?_eq_ok {w : Value} {code : List UInt8} :
    encode? w = .ok code ↔ ∃ n : ℕ, w = .int n ∧ n ≤ maxValue ∧ code = encode n := by
  cases w with
  | int z =>
    rw [encode?, encodeInt?]
    by_cases hz : z < 0 ∨ (maxValue : Int) < z
    · rw [if_pos hz]
      simp only [reduceCtorEq, Value.int.injEq, false_iff, not_exists, not_and]
      omega
    · rw [if_neg hz]
      simp only [Except.ok.injEq, Value.int.injEq]
      constructor
      · intro h
        exact ⟨z.toNat, by omega, by omega, h.symm⟩
      · intro h
        obtain ⟨n, rfl, -, rfl⟩ := h
        rfl
  | _ => simp [encode?]

theorem encode?_natCast {n : ℕ} (h : n ≤ maxValue) : encode? (.int n) = .ok (encode n) :=
  encode?_eq_ok.mpr ⟨n, rfl, h, rfl⟩

/-- Any other value is refused, for its type or for its size. -/
theorem encode?_eq_error {w : Value} {fault : RangeFault} :
    encode? w = .error fault ↔
      ((∀ z : Int, w ≠ .int z) ∧ fault = .notInteger w.typeName) ∨
        ∃ z : Int, w = .int z ∧ (z < 0 ∨ (maxValue : Int) < z) ∧ fault = .outside z := by
  cases w with
  | int z =>
    rw [encode?, encodeInt?]
    by_cases hz : z < 0 ∨ (maxValue : Int) < z
    · rw [if_pos hz]
      simp [hz, eq_comm]
    · rw [if_neg hz]
      simp [hz]
  | _ => simp [encode?, eq_comm]

end Varint

end AddressProtocols
