import AddressProtocols.Proofs.Varint.Canonical
import AddressProtocols.Proofs.Varint.RoundTrip

/-!
# Numbers one after the other

`Walks` relates the bytes and the offset at which a reader starts to what it meets: the numbers with
their lengths, where it stops, and the malformed number there, if that is why.  It reads at its
offset and goes on by the length of what it read, until the bytes end or a number is malformed.

* `walks_decodeAll` and `Walks.decodeAll_eq`: every walk comes to an end, in one way only, which
  `decodeAll` computes;
* `Walks.final_eq`: a walk that meets no malformed number stops exactly where the bytes end;
* `walks_encodings`: a walk over encodings finds the numbers they were made of;
* `Walks.eq_flatMap_encode_iff`: the bytes of a walk are the encodings of its numbers exactly if
  each was read from as few bytes as can hold it. -/

namespace AddressProtocols

namespace Varint

/-- What a reader meets that reads one number after the other, from an offset on. -/
inductive Walks (bytes : List UInt8) : ℕ → List (ℕ × ℕ) → ℕ → Option Malformed → Prop
  /-- There are no bytes left. -/
  | finished {pos : ℕ} (h : bytes.length ≤ pos) : Walks bytes pos [] pos none
  | stopped {pos : ℕ} {e : Malformed} (h : pos < bytes.length)
      (hread : decodeAt bytes (.int pos) = .error e) : Walks bytes pos [] pos (some e)
  | next {pos v n final : ℕ} {tags : List (ℕ × ℕ)} {stop : Option Malformed}
      (h : pos < bytes.length) (hread : decodeAt bytes (.int pos) = .ok (v, n))
      (hrest : Walks bytes (pos + n) tags final stop) : Walks bytes pos ((v, n) :: tags) final stop

/-! ### The loop -/

/-- One round of the loop, where bytes are left. -/
theorem decodeAll_of_lt {bytes : List UInt8} {pos : ℕ} (h : pos < bytes.length) :
    decodeAll bytes pos =
      match decodeAt bytes (.int pos) with
      | .error e => ([], some e)
      | .ok (v, n) => ((v, n) :: (decodeAll bytes (pos + n)).1, (decodeAll bytes (pos + n)).2) := by
  have hread : decodeAt bytes (.int pos) =
      (decode (bytes.drop pos)).mapError (Malformed.ofDefect pos) := rfl
  rw [hread, decodeAll, decodeRest, if_neg (by simpa using h)]
  split
  · rename_i hdecode
    rw [hdecode]
    rfl
  · rename_i hdecode
    rw [hdecode, List.drop_drop]
    rfl

theorem decodeAll_of_le {bytes : List UInt8} {pos : ℕ} (h : bytes.length ≤ pos) :
    decodeAll bytes pos = ([], none) := by
  rw [decodeAll, decodeRest, List.drop_of_length_le h]
  rfl

/-- What is read at an offset takes a byte, and ends no later than the bytes. -/
theorem add_le_length_of_decodeAt {bytes : List UInt8} {pos v n : ℕ} (h : pos < bytes.length)
    (hread : decodeAt bytes (.int pos) = .ok (v, n)) : 0 < n ∧ pos + n ≤ bytes.length := by
  have hdecode := decodeAt_int_eq_ok.mp hread
  have hle := decode_le_length hdecode
  rw [List.length_drop] at hle
  exact ⟨decode_pos hdecode, by omega⟩

/-- Every walk ends: each number takes a byte at least. -/
theorem walks_decodeAll (bytes : List UInt8) (pos : ℕ) :
    ∃ final, Walks bytes pos (decodeAll bytes pos).1 final (decodeAll bytes pos).2 := by
  -- on the bytes left, which every number makes fewer
  induction hleft : bytes.length - pos using Nat.strongRecOn generalizing pos with
  | ind left ih =>
    rcases Nat.lt_or_ge pos bytes.length with hlt | hge
    · rw [decodeAll_of_lt hlt]
      cases hread : decodeAt bytes (.int pos) with
      | error e => exact ⟨pos, Walks.stopped hlt hread⟩
      | ok p =>
        obtain ⟨v, n⟩ := p
        obtain ⟨hpos, hle⟩ := add_le_length_of_decodeAt hlt hread
        obtain ⟨final, hrest⟩ := ih (bytes.length - (pos + n)) (by omega) (pos + n) rfl
        exact ⟨final, Walks.next hlt hread hrest⟩
    · rw [decodeAll_of_le hge]
      exact ⟨pos, Walks.finished hge⟩

namespace Walks

variable {bytes : List UInt8} {pos final : ℕ} {tags : List (ℕ × ℕ)} {stop : Option Malformed}

theorem decodeAll_eq (h : Walks bytes pos tags final stop) :
    decodeAll bytes pos = (tags, stop) := by
  induction h with
  | finished h => exact decodeAll_of_le h
  | stopped h hread => rw [decodeAll_of_lt h, hread]
  | next h hread _ ih => simp only [decodeAll_of_lt h, hread, ih]

/-- A walk stops where the bytes end, unless a number before that is malformed. -/
theorem final_eq (h : Walks bytes pos tags final stop) (hpos : pos ≤ bytes.length)
    (hstop : stop = none) : final = bytes.length := by
  induction h with
  | finished h => exact Nat.le_antisymm hpos h
  | stopped h hread => cases hstop
  | next h hread _ ih => exact ih (add_le_length_of_decodeAt h hread).2 hstop

theorem le_maxValue (h : Walks bytes pos tags final stop) : ∀ t ∈ tags, t.1 ≤ maxValue := by
  induction h with
  | finished h => simp
  | stopped h hread => simp
  | next h hread _ ih =>
    exact List.forall_mem_cons.mpr ⟨le_maxValue_of_decode (decodeAt_int_eq_ok.mp hread), ih⟩

end Walks

/-! ### Encodings -/

theorem decodeAt_append_encode {v : ℕ} (hv : v ≤ maxValue) (before rest : List UInt8) :
    decodeAt (before ++ (encode v ++ rest)) (.int before.length) = .ok (v, (encode v).length) := by
  rw [decodeAt_int_eq_ok, List.drop_left]
  exact decode_encode_append hv rest

/-- A walk over encodings finds their numbers, whatever stands before. -/
theorem walks_encodings {vs : List ℕ} (hvs : ∀ v ∈ vs, v ≤ maxValue) (before : List UInt8) :
    Walks (before ++ vs.flatMap encode) before.length (vs.map fun v => (v, (encode v).length))
      (before ++ vs.flatMap encode).length none := by
  induction vs generalizing before with
  | nil =>
    rw [List.flatMap_nil, List.append_nil]
    exact Walks.finished (Nat.le_refl _)
  | cons v vs ih =>
    have hread := decodeAt_append_encode (hvs v List.mem_cons_self) before (vs.flatMap encode)
    have hrest := ih (fun w hw => hvs w (List.mem_cons_of_mem v hw)) (before ++ encode v)
    rw [show (before ++ encode v).length = before.length + (encode v).length from
      List.length_append, List.append_assoc] at hrest
    refine Walks.next ?_ hread hrest
    have hpos : 0 < (encode v).length := by
      rw [length_encode]
      exact one_le_minLength v
    simp only [List.flatMap_cons, List.length_append]
    omega

namespace Walks

variable {bytes : List UInt8} {pos final : ℕ} {tags : List (ℕ × ℕ)} {stop : Option Malformed}

/-- If every number was read from as few bytes as can hold it, these bytes are the encodings. -/
theorem drop_eq_append (h : Walks bytes pos tags final stop)
    (hmin : ∀ t ∈ tags, t.2 = minLength t.1) :
    bytes.drop pos = (tags.map Prod.fst).flatMap encode ++ bytes.drop final := by
  induction h with
  | finished h => rfl
  | stopped h hread => rfl
  | @next pos v n final tags stop h hread _ ih =>
    obtain ⟨hfirst, hothers⟩ := List.forall_mem_cons.mp hmin
    have htake := take_eq_encode_of_minimal (decodeAt_int_eq_ok.mp hread) hfirst
    rw [← List.take_append_drop n (bytes.drop pos), htake, List.drop_drop, ih hothers,
      List.map_cons, List.flatMap_cons, List.append_assoc]

/-- The bytes of a walk that meets no malformed number are the encodings of its numbers exactly if
each was read from as few bytes as can hold it. -/
theorem eq_flatMap_encode_iff (h : Walks bytes 0 tags final none) :
    bytes = (tags.map Prod.fst).flatMap encode ↔ ∀ t ∈ tags, t.2 = minLength t.1 := by
  constructor
  · intro hbytes
    have hvs : ∀ v ∈ tags.map Prod.fst, v ≤ maxValue := by
      intro v hv
      obtain ⟨t, ht, rfl⟩ := List.mem_map.mp hv
      exact h.le_maxValue t ht
    -- walked over as encodings, the bytes give the same numbers with the encodings' lengths
    have hwalk := walks_encodings hvs []
    rw [List.nil_append, ← hbytes] at hwalk
    obtain ⟨htags, -⟩ := Prod.mk.inj (h.decodeAll_eq.symm.trans hwalk.decodeAll_eq)
    intro t ht
    rw [htags] at ht
    obtain ⟨v, -, rfl⟩ := List.mem_map.mp ht
    exact length_encode v
  · intro hmin
    have hdrop := h.drop_eq_append hmin
    rw [h.final_eq (Nat.zero_le _) rfl, List.drop_length, List.append_nil] at hdrop
    exact hdrop

end Walks

end Varint

end AddressProtocols
