import AddressProtocols.Fuzz.Draw
import AddressProtocols.Proofs.Varint.Groups
import Mathlib.Data.Set.Operations

/-!
# The range of random inputs

What a draw gives depends on the stream.  `Fuzz.Draw.Gives` bounds it on every stream and from every
position in it; `Fuzz.Draw.Takes` says what it gives if certain numbers come next, and so what it
can give (`Fuzz.Draw.CanGive`).  Where the two meet, the range of a draw is known exactly:
`Fuzz.Draw.Ranges`.

* `Fuzz.Draw.Ranges.bind`: a draw that depends on what has been drawn before ranges over what any of
  these draws can give;
* `Fuzz.Draw.ranges_between` and its siblings: the ranges of single draws; `Fuzz.Draw.Ranges.times`:
  of repeated ones;
* `Fuzz.Draw.ranges_number` and `Fuzz.Draw.ranges_bytes`: the inputs of the campaign.
-/

namespace AddressProtocols

namespace Fuzz

namespace Draw

/-- Whatever the stream and however much of it has been taken, the draw gives what `P` says. -/
def Gives {α : Type} (d : Draw α) (P : α → Prop) : Prop := ∀ stream taken, P (d stream taken).1

/-- Wherever these numbers come next in a stream, the draw takes them and no more, and gives `a`. -/
def Takes {α : Type} (d : Draw α) (numbers : List ℤ) (a : α) : Prop :=
  ∀ (stream : Stream) (taken : ℕ), (∀ i n, numbers[i]? = some n → stream (taken + i) = n) →
    d stream taken = (a, taken + numbers.length)

/-- There are numbers for which the draw gives `a`. -/
def CanGive {α : Type} (d : Draw α) (a : α) : Prop := ∃ numbers, d.Takes numbers a

/-- The draw gives what `P` says, all of it and nothing else. -/
structure Ranges {α : Type} (d : Draw α) (P : α → Prop) : Prop where
  gives : d.Gives P
  canGive : ∀ a, P a → d.CanGive a

section Rules

variable {α β : Type} {P P' : α → Prop}

/-! ### What is always given -/

theorem gives_pure {a : α} (h : P a) : Gives (pure a) P := fun _ _ => h

theorem Gives.bind {d : Draw α} {f : α → Draw β} {Q : β → Prop} (hd : d.Gives P)
    (hf : ∀ a, P a → (f a).Gives Q) : Gives (d >>= f) Q :=
  fun stream taken => hf _ (hd stream taken) stream (d stream taken).2

theorem Gives.mono {d : Draw α} (hd : d.Gives P) (h : ∀ a, P a → P' a) : d.Gives P' :=
  fun stream taken => h _ (hd stream taken)

theorem gives_true (d : Draw α) : d.Gives fun _ => True := fun _ _ => trivial

/-! ### What can be given -/

theorem takes_pure (a : α) : Takes (pure a) [] a := fun _ _ _ => rfl

theorem Takes.bind {d : Draw α} {f : α → Draw β} {numbers more : List ℤ} {a : α} {b : β}
    (hd : d.Takes numbers a) (hf : (f a).Takes more b) : Takes (d >>= f) (numbers ++ more) b := by
  intro stream taken h
  have hfirst : d stream taken = (a, taken + numbers.length) := by
    refine hd stream taken fun i n hn => h i n ?_
    rw [List.getElem?_append_left (List.getElem?_eq_some_iff.mp hn).1]
    exact hn
  have hnext : f a stream (taken + numbers.length) = (b, taken + numbers.length + more.length) := by
    refine hf stream _ fun i n hn => ?_
    rw [Nat.add_assoc]
    refine h (numbers.length + i) n ?_
    rw [List.getElem?_append_right (Nat.le_add_right _ _), Nat.add_sub_cancel_left]
    exact hn
  show f (d stream taken).1 stream (d stream taken).2 = _
  rw [hfirst, List.length_append, ← Nat.add_assoc]
  exact hnext

theorem CanGive.bind {d : Draw α} {f : α → Draw β} {a : α} {b : β} (hd : d.CanGive a)
    (hf : (f a).CanGive b) : CanGive (d >>= f) b := by
  obtain ⟨numbers, hnumbers⟩ := hd
  obtain ⟨more, hmore⟩ := hf
  exact ⟨numbers ++ more, hnumbers.bind hmore⟩

/-- Numbers for which a draw gives something can come next in a stream, however much of it has been
taken. -/
theorem CanGive.exists_stream {d : Draw α} {a : α} (h : d.CanGive a) (taken : ℕ) :
    ∃ stream, (d stream taken).1 = a := by
  obtain ⟨numbers, hnumbers⟩ := h
  refine ⟨fun i => numbers.getD (i - taken) 0, ?_⟩
  rw [hnumbers]
  intro i n hn
  rw [Nat.add_sub_cancel_left, List.getD_eq_getElem?_getD, hn]
  rfl

/-! ### Ranges -/

theorem Ranges.congr {d : Draw α} (hd : d.Ranges P) (h : ∀ a, P a ↔ P' a) : d.Ranges P' where
  gives := hd.gives.mono fun a => (h a).mp
  canGive a ha := hd.canGive a ((h a).mpr ha)

theorem ranges_pure (a : α) : Ranges (pure a) (· = a) where
  gives := gives_pure rfl
  canGive b hb := by
    rw [hb]
    exact ⟨[], takes_pure a⟩

theorem Ranges.bind {d : Draw α} {f : α → Draw β} {Q : α → β → Prop} (hd : d.Ranges P)
    (hf : ∀ a, P a → (f a).Ranges (Q a)) : Ranges (d >>= f) fun b => ∃ a, P a ∧ Q a b where
  gives := hd.gives.bind fun a ha => (hf a ha).gives.mono fun b hb => ⟨a, ha, hb⟩
  canGive b hb := by
    obtain ⟨a, ha, hab⟩ := hb
    exact (hd.canGive a ha).bind ((hf a ha).canGive b hab)

theorem Ranges.map {d : Draw α} (hd : d.Ranges P) (g : α → β) :
    Ranges (d >>= fun a => pure (g a)) fun b => ∃ a, P a ∧ b = g a :=
  hd.bind fun a _ => ranges_pure (g a)

theorem Ranges.range_eq {d : Draw α} (hd : d.Ranges P) (taken : ℕ) :
    (Set.range fun stream => (d stream taken).1) = {a | P a} := by
  ext a
  constructor
  · intro ha
    obtain ⟨stream, rfl⟩ := ha
    exact hd.gives stream taken
  · intro ha
    exact (hd.canGive a ha).exists_stream taken

theorem Ranges.times {d : Draw α} (hd : d.Ranges P) (n : ℕ) :
    (times d n).Ranges fun as => as.length = n ∧ ∀ a ∈ as, P a := by
  induction n with
  | zero =>
    refine (ranges_pure []).congr fun as => ?_
    constructor
    · rintro rfl
      simp
    · intro h
      exact List.length_eq_zero_iff.mp h.1
  | succ n ih =>
    refine (hd.bind fun a _ => ih.map (a :: ·)).congr fun as => ?_
    constructor
    · intro h
      obtain ⟨a, ha, rest, ⟨hlength, hrest⟩, rfl⟩ := h
      exact ⟨congrArg (· + 1) hlength, List.forall_mem_cons.mpr ⟨ha, hrest⟩⟩
    · intro h
      obtain ⟨hlength, hall⟩ := h
      cases as with
      | nil => cases hlength
      | cons a rest =>
        obtain ⟨ha, hrest⟩ := List.forall_mem_cons.mp hall
        exact ⟨a, ha, rest, ⟨Nat.succ.inj hlength, hrest⟩, rfl⟩

end Rules

/-! ### Single draws -/

theorem ranges_next : next.Ranges fun _ => True where
  gives := gives_true next
  canGive n _ := by
    refine ⟨[n], fun stream taken h => ?_⟩
    show (stream taken, taken + 1) = _
    rw [← h 0 n rfl]
    rfl

theorem ranges_between {low high : ℤ} (h : low ≤ high) :
    (between low high).Ranges fun n => low ≤ n ∧ n ≤ high := by
  refine (ranges_next.map _).congr fun n => ?_
  constructor
  · intro hn
    obtain ⟨d, -, rfl⟩ := hn
    have hnonneg := Int.emod_nonneg d (show high - low + 1 ≠ 0 by omega)
    have hlt := Int.emod_lt_of_pos d (show 0 < high - low + 1 by omega)
    omega
  · intro hn
    refine ⟨n - low, trivial, ?_⟩
    rw [Int.emod_eq_of_lt (by omega) (by omega)]
    omega

/-- Cutting a number down to a remainder gives all natural numbers below the divisor. -/
theorem exists_toNat_emod_iff {m n : ℕ} (hm : 0 < m) :
    (∃ d : ℤ, True ∧ n = (d % (m : ℤ)).toNat) ↔ n < m := by
  constructor
  · intro h
    obtain ⟨d, -, rfl⟩ := h
    exact (Int.toNat_lt' hm).mpr (Int.emod_lt_of_pos d (Int.natCast_pos.mpr hm))
  · intro h
    refine ⟨n, trivial, ?_⟩
    rw [Int.emod_eq_of_lt (Int.natCast_nonneg n) (Int.ofNat_lt.mpr h)]
    rfl

theorem ranges_bits (k : ℕ) : (bits k).Ranges fun n => n < 2 ^ k :=
  (ranges_next.map _).congr fun _ => exists_toNat_emod_iff (Nat.two_pow_pos k)

theorem ranges_permille : permille.Ranges fun n => n < 1000 :=
  (ranges_next.map _).congr fun _ => exists_toNat_emod_iff (m := 1000) (by decide)

/-- Where there is a chance, either way can be taken. -/
theorem ranges_chance {share : ℕ} (hpos : 0 < share) (hlt : share < 1000) :
    (chance share).Ranges fun _ => True := by
  refine (ranges_next.map _).congr fun b => ?_
  refine iff_of_true ?_ trivial
  cases b with
  | false => exact ⟨999, trivial, by simp; omega⟩
  | true => exact ⟨0, trivial, by simp; omega⟩

/-- Where there is a chance, what either way gives can be drawn. -/
theorem Ranges.choose {α : Type} {P P' : α → Prop} {d e : Draw α} {share : ℕ} (hd : d.Ranges P)
    (he : e.Ranges P') (hpos : 0 < share) (hlt : share < 1000) :
    Ranges (chance share >>= fun b => if b then d else e) fun a => P a ∨ P' a := by
  refine ((ranges_chance hpos hlt).bind
    (Q := fun b a => if b then P a else P' a) fun b _ => ?_).congr fun a => ?_
  · cases b with
    | true => exact hd
    | false => exact he
  · simp [or_comm]

theorem ranges_byte {low : ℕ} (h : low ≤ 255) : (byte low).Ranges fun b => low ≤ b.toNat := by
  refine ((ranges_between (Int.ofNat_le.mpr h)).map _).congr fun b => ?_
  constructor
  · intro hb
    obtain ⟨d, hd, rfl⟩ := hb
    rw [Varint.toNat_ofNat_byte (by omega)]
    omega
  · intro hb
    have hlt : b.toNat < 256 := b.toNat_lt
    refine ⟨b.toNat, by omega, ?_⟩
    rw [Int.toNat_natCast, UInt8.ofNat_toNat]

/-! ### The inputs of a campaign -/

/-- A number that is drawn has at most 64 bits, whichever way it is drawn. -/
theorem gives_number : number.Gives fun n => n ≤ Varint.maxValue := by
  refine (gives_true permille).bind fun way _ => ?_
  split
  · refine (gives_true (between 1 9)).bind fun k _ => ?_
    exact (gives_true (between (-2) 1)).bind fun offset _ => gives_pure (Nat.min_le_left _ _)
  · split
    · refine (ranges_between (show (1 : ℤ) ≤ 64 by decide)).gives.bind fun k hk => ?_
      refine (ranges_bits k.toNat).gives.mono fun n hn =>
        Nat.le_of_lt_succ (Nat.lt_of_lt_of_le hn ?_)
      exact Nat.pow_le_pow_right (by decide) (show k.toNat ≤ 64 by omega)
    · refine (ranges_between (show (0 : ℤ) ≤ 0x10000 by decide)).gives.bind fun n hn =>
        gives_pure ?_
      rw [Varint.maxValue]
      omega

/-- Every number of 64 bits is drawn as so many bits. -/
theorem ranges_number : number.Ranges fun n => n ≤ Varint.maxValue where
  gives := gives_number
  canGive n hn := by
    have hway : permille.CanGive 300 := ranges_permille.canGive 300 (by decide)
    have hlength : (between 1 64).CanGive 64 :=
      (ranges_between (by decide)).canGive 64 ⟨by decide, by decide⟩
    refine hway.bind (hlength.bind ((ranges_bits 64).canGive n ?_))
    exact Nat.lt_of_le_of_lt hn (by decide)

/-- Continuation bytes, and up to two bytes of any kind behind them. -/
theorem ranges_continued (n : ℕ) :
    Ranges (do
      let start ← times (byte 128) n
      let m ← between 0 2
      let rest ← times (byte 0) m.toNat
      return start ++ rest) fun bytes =>
      ∃ start rest, bytes = start ++ rest ∧ start.length = n ∧ (∀ b ∈ start, 0x80 ≤ b.toNat) ∧
        rest.length ≤ 2 := by
  have hstart := (ranges_byte (show 128 ≤ 255 by decide)).times n
  have hcount := ranges_between (show (0 : ℤ) ≤ 2 by decide)
  have hrest := fun m : ℤ => (ranges_byte (show 0 ≤ 255 by decide)).times m.toNat
  refine (hstart.bind fun start _ => hcount.bind fun m _ => (hrest m).map (start ++ ·)).congr
    fun bytes => ?_
  constructor
  · intro h
    obtain ⟨start, ⟨hlength, hall⟩, m, hm, rest, ⟨hrest, -⟩, rfl⟩ := h
    exact ⟨start, rest, rfl, hlength, hall, by omega⟩
  · intro h
    obtain ⟨start, rest, rfl, hlength, hall, hrest⟩ := h
    exact ⟨start, ⟨hlength, hall⟩, rest.length, by omega, rest,
      ⟨(Int.toNat_natCast _).symm, fun b _ => Nat.zero_le _⟩, rfl⟩

/-- Up to fourteen bytes of any kind, or up to fourteen continuation bytes and up to two of any
kind. -/
theorem ranges_bytes : bytes.Ranges fun bytes =>
    bytes.length ≤ 14 ∨ ∃ start rest, bytes = start ++ rest ∧ start.length ≤ 14 ∧
      (∀ b ∈ start, 0x80 ≤ b.toNat) ∧ rest.length ≤ 2 := by
  have hlength := ranges_between (show (0 : ℤ) ≤ 14 by decide)
  have hplain := fun n : ℤ => (ranges_byte (show 0 ≤ 255 by decide)).times n.toNat
  refine (hlength.bind fun n _ => (ranges_continued n.toNat).choose (hplain n) (by decide)
    (by decide)).congr fun bytes => ?_
  constructor
  · intro h
    obtain ⟨n, hn, ⟨start, rest, rfl, hstart, hall, hrest⟩ | ⟨hplain, -⟩⟩ := h
    · exact .inr ⟨start, rest, rfl, by omega, hall, hrest⟩
    · exact .inl (by omega)
  · intro h
    rcases h with hplain | ⟨start, rest, rfl, hstart, hall, hrest⟩
    · exact ⟨bytes.length, by omega, .inr ⟨(Int.toNat_natCast _).symm, fun b _ => Nat.zero_le _⟩⟩
    · exact ⟨start.length, by omega,
        .inl ⟨start, rest, rfl, (Int.toNat_natCast _).symm, hall, hrest⟩⟩

end Draw

end Fuzz

end AddressProtocols
