import AddressProtocols.Fuzz.Check
import AddressProtocols.Proofs.Fuzz.Draw
import AddressProtocols.Proofs.Json.Strict
import AddressProtocols.Proofs.Varint.Canonical
import AddressProtocols.Proofs.Varint.RoundTrip
import AddressProtocols.Proofs.Varint.Streaming

/-!
# Checks, step by step

Every check can be run step by step (`Check.run_bind` and the lemmas after it).  `Fuzz.Check.Ends`
says that a check ends by itself, without a violation and without a failure, however far its setup
has been used before.

* `Check.ends_pure`, `Check.Ends.bind` and `Check.ends_of_not` go through a check step by step; what
  is not the case is not reported;
* `Check.ends_draw`, `Check.ends_encode` and `Check.ends_decode`: what a check is given by its
  setup;
* `Codec.encode_library`, `Codec.decode_library_eq_ok` and `Codec.blamesVarint_of_decode_library`:
  the answers of the library's own codec;
* `Check.ends_roundTrip` and `Check.ends_decodeBytes`: the checks find nothing in that codec.
-/

namespace AddressProtocols

namespace Fuzz

/-- The context of a violation in round `n`. -/
def contextOf (n : ℤ) (found : List (String × Json.Document)) : Json.Document :=
  .object ((Text.ofString "round", .int n) :: found.map fun (name, d) => (Text.ofString name, d))

/-! ### Running a check step by step -/

namespace Check

section Steps

variable {α β : Type} (setup : Setup) (progress : Progress)

/-- A check goes on from where its first part ended, unless that part stopped it. -/
theorem run_bind (check : Check α) (next : α → Check β) :
    (check >>= next) setup progress =
      match check setup progress with
      | (.ok a, progress') => next a setup progress'
      | (.error stop, progress') => (.error stop, progress') := by
  show ExceptT.bindCont (fun a => next a setup) (check setup progress).1 _ = _
  cases check setup progress with
  | mk result progress' => cases result <;> rfl

@[simp] theorem run_pure (a : α) : (pure a : Check α) setup progress = (.ok a, progress) := rfl

@[simp] theorem run_read_bind (next : Setup → Check β) :
    (read >>= next : Check β) setup progress = next setup setup progress := rfl

@[simp] theorem run_raise (r : Report) :
    (raise r : Check α) setup progress = (.error (.failure r), progress) := rfl

@[simp] theorem run_draw_bind (d : Draw α) (next : α → Check β) :
    (draw d >>= next) setup progress =
      next (d setup.stream progress.drawn).1 setup
        { progress with drawn := (d setup.stream progress.drawn).2 } := rfl

@[simp] theorem run_encode_bind (v : ℕ) (next : Except Report (List UInt8) → Check β) :
    (encode v >>= next) setup progress =
      next (setup.codec.encode progress.encoded v) setup
        { progress with encoded := progress.encoded + 1 } := rfl

@[simp] theorem run_decode_bind (bytes : List UInt8) (next : Except Report (ℤ × ℤ) → Check β) :
    (decode bytes >>= next) setup progress =
      next (setup.codec.decode progress.decoded bytes) setup
        { progress with decoded := progress.decoded + 1 } := rfl

@[simp] theorem run_orRaise_ok_bind (a : α) (next : α → Check β) :
    (orRaise (.ok a) >>= next) setup progress = next a setup progress := rfl

@[simp] theorem run_violation (n : ℤ) (label : String) (found : List (String × Json.Document)) :
    (violation label (.ofInt n) found : Check α) setup progress =
      (.error (.violation (Text.ofString label) (contextOf n found).tree), progress) := by
  have hmembers : Json.Document.treeMembers (found.map fun (name, d) => (Text.ofString name, d)) =
      found.map fun (name, d) => (Text.ofString name, d.tree) := by
    rw [Json.Document.treeMembers_eq_map, List.map_map]
    rfl
  rw [contextOf, Json.Document.tree, Json.Document.treeMembers, hmembers]
  rfl

@[simp] theorem run_violation_bind (n : ℤ) (label : String) (found : List (String × Json.Document))
    (next : α → Check β) :
    (violation label (.ofInt n) found >>= next) setup progress =
      (.error (.violation (Text.ofString label) (contextOf n found).tree), progress) := by
  rw [run_bind, run_violation]

@[simp] theorem run_orRaise_error_bind (r : Report) (next : α → Check β) :
    (orRaise (.error r) >>= next) setup progress = (.error (.failure r), progress) := rfl

end Steps

/-! ### Checks that end by themselves -/

/-- Whatever has been drawn, encoded and decoded before, the check ends by itself and gives what `P`
says. -/
def Ends {α : Type} (setup : Setup) (check : Check α) (P : α → Prop) : Prop :=
  ∀ progress, ∃ a progress', check setup progress = (.ok a, progress') ∧ P a

variable {setup : Setup}

section Rules

variable {α β : Type} {P : α → Prop} {Q : β → Prop}

theorem ends_pure {a : α} (h : P a) : Ends setup (pure a) P := fun progress => ⟨a, progress, rfl, h⟩

theorem Ends.bind {check : Check α} {next : α → Check β} (hcheck : Ends setup check P)
    (hnext : ∀ a, P a → Ends setup (next a) Q) : Ends setup (check >>= next) Q := by
  intro progress
  obtain ⟨a, progress₁, hrun, ha⟩ := hcheck progress
  obtain ⟨b, progress₂, hrun', hb⟩ := hnext a ha progress₁
  refine ⟨b, progress₂, ?_, hb⟩
  rw [run_bind, hrun]
  exact hrun'

/-- A step that is taken in one case only, in the other. -/
theorem ends_of_not {c : Prop} [Decidable c] {stop check : Check α} (hc : ¬c)
    (h : Ends setup check P) : Ends setup (if c then stop else check) P := by
  rw [if_neg hc]
  exact h

end Rules

theorem ends_draw {α : Type} {P : α → Prop} {d : Draw α} (h : d.Gives P) : Ends setup (draw d) P :=
  fun progress => ⟨_, _, rfl, h setup.stream progress.drawn⟩

theorem ends_encode (n : ℕ) :
    Ends setup (encode n) fun answer => ∃ k, answer = setup.codec.encode k n :=
  fun progress => ⟨_, _, rfl, progress.encoded, rfl⟩

theorem ends_decode (bytes : List UInt8) :
    Ends setup (decode bytes) fun answer => ∃ k, answer = setup.codec.decode k bytes :=
  fun progress => ⟨_, _, rfl, progress.decoded, rfl⟩

end Check

/-! ### The library's codec -/

theorem Codec.encode_library {n : ℕ} (hn : n ≤ Varint.maxValue) (k : ℕ) :
    library.encode k n = .ok (Varint.encode n) := by
  show (Varint.encode? (.int n)).mapError _ = _
  rw [Varint.encode?_natCast hn]
  rfl

theorem Codec.decode_library_eq_ok {bytes : List UInt8} {k : ℕ} {p : ℤ × ℤ} :
    library.decode k bytes = .ok p ↔ ∃ v n : ℕ, Varint.decode bytes = .ok (v, n) ∧
      p = (↑v, ↑n) := by
  have hdecode : Varint.decodeFrom bytes 0 =
      (Varint.decode bytes).mapError (Varint.Malformed.ofDefect 0) := rfl
  simp only [library, hdecode]
  cases Varint.decode bytes with
  | ok result =>
    obtain ⟨v, n⟩ := result
    simp [Except.mapError, eq_comm]
  | error defect => simp [Except.mapError]

theorem Codec.blamesVarint_of_decode_library {bytes : List UInt8} {k : ℕ} {r : Report}
    (h : library.decode k bytes = .error r) : r.blamesVarint = true := by
  simp only [library] at h
  split at h
  · cases h
  · cases h
    rfl

namespace Check

variable {setup : Setup} (hcodec : setup.codec = Codec.library) (round : Round)
include hcodec

theorem ends_roundTrip : Ends setup (roundTrip round) fun _ => True := by
  refine (ends_draw Draw.gives_number).bind fun v hv => ?_
  refine (ends_encode v).bind fun answer hanswer => ?_
  obtain ⟨k, rfl⟩ := hanswer
  rw [hcodec, Codec.encode_library hv]
  have hlength : ¬(Varint.encode v).length ≠ Varint.minLength v :=
    not_not.mpr (Varint.length_encode v)
  refine ends_of_not hlength ?_
  refine (ends_decode _).bind fun answer hanswer => ?_
  obtain ⟨k, rfl⟩ := hanswer
  have hread : Codec.library.decode k (Varint.encode v ++ [0xFF, 0x00]) =
      .ok (↑v, ↑(Varint.encode v).length) :=
    Codec.decode_library_eq_ok.mpr ⟨v, _, Varint.decode_encode_append hv _, rfl⟩
  rw [hcodec, hread]
  exact ends_of_not (not_not.mpr rfl) (ends_pure trivial)

theorem ends_decodeBytes : Ends setup (decodeBytes round) fun _ => True := by
  refine (ends_draw (Draw.gives_true _)).bind fun raw _ => ?_
  refine (ends_decode raw).bind fun answer hanswer => ?_
  obtain ⟨k, rfl⟩ := hanswer
  rw [hcodec]
  cases hanswer : Codec.library.decode k raw with
  | error r =>
    simp only [Codec.blamesVarint_of_decode_library hanswer, if_true]
    exact ends_pure trivial
  | ok p =>
    obtain ⟨v, n, hread, rfl⟩ := Codec.decode_library_eq_ok.mp hanswer
    have hvalue := Varint.le_maxValue_of_decode hread
    have hpos := Varint.decode_pos hread
    have hlength := Varint.decode_le_length hread
    refine ends_of_not (by omega) ?_
    refine (ends_decode _).bind fun answer hanswer => ?_
    obtain ⟨k, rfl⟩ := hanswer
    have hagain : Codec.library.decode k (raw.take (n : ℤ).toNat) = .ok (↑v, ↑n) :=
      Codec.decode_library_eq_ok.mpr ⟨v, n, Varint.decode_take hread, rfl⟩
    rw [hcodec, hagain]
    exact ends_of_not (not_not.mpr rfl) (ends_pure trivial)

end Check

end Fuzz

end AddressProtocols
