import AddressProtocols.Proofs.Json.Numeral
import AddressProtocols.Proofs.Json.Written
import AddressProtocols.Table

/-!
# The guard on integers

An integer of a table must have an absolute value of at most 64 bits.  A token can be far longer
than that, so its digits are counted before it is read.

* `Json.Denotes`: the integer that a numeral stands for, told by how integers are written; the
  numerals that stand for one are the integer tokens (`Json.exists_denotes_iff`), and each stands
  for its value (`Json.denotes_iff`);
* `Json.integerVia` is the guard over any way of reading numerals; with `Json.recorded` it keeps a
  record of those that it reads, which does not change the outcome (`Json.integerVia_recorded`);
* `Json.read_numeral`: a text that is an integer token and nothing else is read by the guard alone.
-/

namespace AddressProtocols

namespace Json

/-! ### What a numeral stands for -/

/-- The integer that a numeral stands for: the one it is written for, or zero if it is a negative
zero. -/
inductive Denotes : Text → ℤ → Prop where
  | written (n : ℤ) : Denotes (Text.ofInt n) n
  | negativeZero : Denotes (Text.ofString "-0") 0

/-- The numerals that stand for an integer are the integer tokens. -/
theorem exists_denotes_iff {numeral : Text} : (∃ n, Denotes numeral n) ↔
    IntegerNumeral numeral := by
  constructor
  · rintro ⟨n, hn⟩
    cases hn with
    | written n => exact integerNumeral_ofInt n
    | negativeZero => exact .negative .zero
  · intro h
    cases h with
    | positive hwhole =>
      obtain ⟨n, rfl⟩ := hwhole.exists_eq_ofNat
      exact ⟨n, .written n⟩
    | negative hwhole =>
      obtain ⟨n, rfl⟩ := hwhole.exists_eq_ofNat
      cases n with
      | zero => exact ⟨0, .negativeZero⟩
      | succ n => exact ⟨.negSucc n, .written (.negSucc n)⟩

theorem Denotes.numeralValue_eq {numeral : Text} {n : ℤ} (h : Denotes numeral n) :
    numeralValue numeral = n := by
  cases h with
  | written n => exact numeralValue_ofInt n
  | negativeZero => decide

/-- An integer token stands for its value and for nothing else. -/
theorem denotes_iff {numeral : Text} (h : IntegerNumeral numeral) {n : ℤ} :
    Denotes numeral n ↔ n = numeralValue numeral := by
  constructor
  · intro hn
    exact hn.numeralValue_eq.symm
  · intro hn
    obtain ⟨m, hm⟩ := exists_denotes_iff.mpr h
    rw [hn, hm.numeralValue_eq]
    exact hm

/-! ### What the guard reads -/

/-- The guard on integers, whatever reads the numerals. -/
def integerVia {m : Type → Type} [Monad m] (value : Text → m ℤ) (numeral : Text) :
    m (Except Refusal ℤ) := do
  if maxDigits < (unsignedPart numeral).length then return .error (.outOfRange numeral)
  let n ← value numeral
  if Varint.maxValue < n.natAbs then return .error (.outOfRange numeral)
  return .ok n

/-- The value of a numeral, which is put on record. -/
def recorded (numeral : Text) : StateM (List Text) ℤ := do
  modify (numeral :: ·)
  return numeralValue numeral

theorem run_recorded_bind {α : Type} (numeral : Text) (next : ℤ → StateM (List Text) α)
    (record : List Text) :
    (recorded numeral >>= next).run record =
      (next (numeralValue numeral)).run (numeral :: record) := rfl

/-- With a record of what is read, the outcome is the same; what is read is the numeral itself,
unless it has too many digits. -/
theorem integerVia_recorded (numeral : Text) (record : List Text) :
    (integerVia recorded numeral).run record =
      (integer numeral,
        if maxDigits < (unsignedPart numeral).length then record else numeral :: record) := by
  by_cases hlong : maxDigits < (unsignedPart numeral).length
  · rw [integer, integerVia, if_pos hlong, if_pos hlong, if_pos hlong]
    rfl
  · rw [integer, integerVia, if_neg hlong, if_neg hlong, if_neg hlong, run_recorded_bind]
    by_cases hlarge : Varint.maxValue < (numeralValue numeral).natAbs
    · simp only [if_pos hlarge]
      rfl
    · simp only [if_neg hlarge]
      rfl

/-! ### Texts that are one token -/

theorem read_numeral {ε α : Type} (build : Builder ε α) {numeral : Text}
    (h : IntegerNumeral numeral) :
    read build numeral = (build.integer numeral).mapError .refused := by
  have hreads : ReadsAs numeral (.integer numeral) [] := h.scan endsNumber_nil
  have hhead := hreads.head?_ne nofun
  have hrun : run build (.value []) 0 (numeral ++ []) = _ := hreads.run (.value [])
  rw [List.append_nil] at hhead hrun
  rw [read, if_neg hhead, hrun]
  show (complete [] (build.integer numeral) >>= _) = _
  cases build.integer numeral with
  | ok v =>
    show run build (.after v []) _ [] = _
    rw [run]
    rfl
  | error reason => rfl

theorem readDocument_numeral {numeral : Text} (h : IntegerNumeral numeral) :
    Table.readDocument (.text numeral) =
      ((integer numeral).map Document.int).mapError .refused := by
  show (read strictBuilder numeral).mapError _ = _
  rw [read_numeral strictBuilder h]
  show (((integer numeral).map Document.int).mapError _).mapError _ = _
  cases integer numeral with
  | ok n => rfl
  | error reason => rfl

/-- **The guard is an exact test of the range.**  An integer token stands for one integer.  The
guard gives that integer if its absolute value has at most 64 bits, and refuses the token otherwise;
so does a table that consists of the token.  Counting its digits refuses no token in the range, and
nothing of more than twenty digits is ever read: the guard is the same with a record of what it
reads, which holds no such numeral. -/
theorem integer_rangeTest {numeral : Text} (h : IntegerNumeral numeral) :
    ∃ n : ℤ, (∀ m, Denotes numeral m ↔ m = n) ∧
      integer numeral =
        (if n.natAbs ≤ Varint.maxValue then .ok n else .error (.outOfRange numeral)) ∧
      Table.readDocument (.text numeral) =
        (if n.natAbs ≤ Varint.maxValue then .ok (.int n)
        else .error (.refused (.outOfRange numeral))) ∧
      (n.natAbs ≤ Varint.maxValue → (unsignedPart numeral).length ≤ 20) ∧
      integer numeral = Id.run (integerVia (fun t => pure (numeralValue t)) numeral) ∧
      ∃ record, (integerVia recorded numeral).run [] = (integer numeral, record) ∧
        ∀ t ∈ record, (unsignedPart t).length ≤ 20 := by
  have hinteger := integer_of_integerNumeral h
  refine ⟨numeralValue numeral, fun m => denotes_iff h, hinteger, ?_, h.length_le, rfl, _,
    integerVia_recorded numeral [], fun t ht => ?_⟩
  · rw [readDocument_numeral h, hinteger]
    split
    · rfl
    · rfl
  · split at ht
    · cases ht
    · rename_i hshort
      rw [List.mem_singleton.mp ht]
      exact Nat.not_lt.mp hshort

/-- The least number that needs more than 64 bits has as many digits as the greatest that does not.
Its negative is read, and refused. -/
theorem integer_rangeTest_twenty_digits :
    IntegerNumeral (Text.ofInt (-18446744073709551616)) ∧
      integer (Text.ofInt (-18446744073709551616)) =
        .error (.outOfRange (Text.ofInt (-18446744073709551616))) ∧
      (unsignedPart (Text.ofInt (-18446744073709551616))).length = 20 := by
  have h := integerNumeral_ofInt (-18446744073709551616)
  obtain ⟨n, hdenotes, hinteger, -⟩ := integer_rangeTest h
  have hn : -18446744073709551616 = n := (hdenotes _).mp (.written _)
  subst hn
  exact ⟨h, hinteger.trans (if_neg (by decide)), by decide⟩

end Json

end AddressProtocols
