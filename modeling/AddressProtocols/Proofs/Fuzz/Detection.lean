import AddressProtocols.Proofs.Fuzz.Campaign
import AddressProtocols.Proofs.Json.Printable

/-!
# What the checks of a codec catch

Whatever a codec answers, a check of it ends in one of four ways: silently, with a report of two
lines, with a failure that the codec raised where the check does not expect one, or in the middle of
a report that cannot be printed.

* `Fuzz.RoundTrip.Deviates` and `Fuzz.DecodeBytes.Deviates`: the deviations that the two checks look
  for;
* `Fuzz.RoundTrip.Raises` and `Fuzz.DecodeBytes.Raises`: the failures that leave them;
* `Fuzz.RoundTrip.Finds` and `Fuzz.DecodeBytes.Finds`: what they are about to report, and
  `Fuzz.Chokes`: an integer in it is too long;
* `Fuzz.Decides`: these four decide how a check ends (`Fuzz.Check.decides_roundTrip`,
  `Fuzz.Check.decides_decodeBytes`);
* `Fuzz.keeps_iff_not_brokenOff`: both checks report every deviation and are silent otherwise,
  exactly as long as the codec raises nothing that they do not expect and gives no integer that
  cannot be printed. -/

namespace AddressProtocols

namespace Fuzz

namespace Check

/-- How a check ends that gives nothing and prints nothing at its end. -/
def ending (check : Check Unit) (setup : Setup) : Except Report (Ending Unit) :=
  (finish (do check; return ((), [])) setup).1

/-- How the check itself went decides how it ends. -/
theorem ending_eq (check : Check Unit) (setup : Setup) :
    ending check setup =
      match (check setup ⟨0, 0, 0⟩).1 with
      | .ok () => .ok ⟨0, some (), [], true⟩
      | .error (.violation label context) => .ok (Stop.ending label context)
      | .error (.failure r) => .error r := by
  have hstart : (default : Progress) = ⟨0, 0, 0⟩ := rfl
  cases hrun : check setup ⟨0, 0, 0⟩ with
  | mk result progress =>
    rw [ending, finish, hstart, run_bind, hrun]
    cases result with
    | ok => rfl
    | error stop => cases stop <;> rfl

end Check

/-! ### The ways a check ends -/

/-- A check ends with status 1 and two lines: what is violated, and in which round and with which
payload. -/
def Reports (n : ℤ) (payload : String × Json.Document) (ending : Except Report (Ending Unit)) :
    Prop :=
  ∃ (label context : Text) (found : List (String × Json.Document)),
    payload ∈ found ∧ context = (Json.write (contextOf n found).tree).take Stop.contextLimit ∧
    .scalar '\n' ∉ label ∧ .scalar '\n' ∉ context ∧
    ending = .ok ⟨1, none, Text.ofString "VIOLATION: " ++ label ++
      Text.ofString "\nCTX: " ++ context ++ Text.ofString "\n", true⟩

/-- A check is broken off after the line that names what is violated. -/
def CutShort (ending : Except Report (Ending Unit)) : Prop :=
  ∃ label : Text, .scalar '\n' ∉ label ∧
    ending = .ok ⟨1, none, Text.ofString "VIOLATION: " ++ label ++ Text.ofString "\n", false⟩

def Silent (ending : Except Report (Ending Unit)) : Prop := ending = .ok ⟨0, some (), [], true⟩

/-- Of what a check has found in round `n`, or of the number of the round, some integer has too many
digits to be printed. -/
def Chokes (n : ℤ) (finds : List (String × Json.Document) → Prop) : Prop :=
  ∃ found, finds found ∧ ¬(contextOf n found).Printable

/-- Whether the codec deviates, which failure it raises and whether that can be printed decide how a
check of it ends. -/
inductive Decides (n : ℤ) (payload : String × Json.Document) (deviates : Prop)
    (raises : Report → Prop) (finds : List (String × Json.Document) → Prop)
    (ending : Except Report (Ending Unit)) : Prop
  | raised (r : Report) (hraises : ∀ r', raises r' ↔ r' = r) (hfinds : ∀ found, ¬finds found)
    (h : ending = .error r)
  | cut (hraises : ∀ r, ¬raises r) (hchokes : Chokes n finds) (h : CutShort ending)
  | reported (hdeviates : deviates) (hraises : ∀ r, ¬raises r) (hchokes : ¬Chokes n finds)
    (h : Reports n payload ending)
  | silent (hdeviates : ¬deviates) (hraises : ∀ r, ¬raises r) (hfinds : ∀ found, ¬finds found)
    (h : Silent ending)

/-- A check reports a deviation and is silent otherwise; nothing else leaves it. -/
def Keeps (n : ℤ) (payload : String × Json.Document) (deviates : Prop)
    (ending : Except Report (Ending Unit)) : Prop :=
  (deviates → Reports n payload ending) ∧ (¬deviates → Silent ending)

section Decides

variable {n : ℤ} {payload : String × Json.Document} {deviates : Prop} {raises : Report → Prop}
  {finds : List (String × Json.Document) → Prop} {ending : Except Report (Ending Unit)}

theorem not_chokes (h : ∀ found, ¬finds found) : ¬Chokes n finds := by
  intro hchokes
  obtain ⟨found, hfound, -⟩ := hchokes
  exact h found hfound

/-- A report and silence leave nothing out. -/
theorem Keeps.exists_complete (h : Keeps n payload deviates ending) :
    ∃ e, ending = .ok e ∧ e.complete = true := by
  by_cases hdeviates : deviates
  · obtain ⟨label, context, found, -, -, -, -, hend⟩ := h.1 hdeviates
    exact ⟨_, hend, rfl⟩
  · exact ⟨_, h.2 hdeviates, rfl⟩

namespace Decides

variable (h : Decides n payload deviates raises finds ending)
include h

theorem eq_error_iff (r : Report) : ending = .error r ↔ raises r := by
  cases h with
  | raised r' hraises _ hend => rw [hend, hraises, Except.error.injEq, eq_comm]
  | cut hraises _ hcut =>
    obtain ⟨label, -, hend⟩ := hcut
    simp [hend, hraises]
  | reported _ hraises _ hreports =>
    obtain ⟨label, context, found, -, -, -, -, hend⟩ := hreports
    simp [hend, hraises]
  | silent _ hraises _ hsilent =>
    rw [Silent] at hsilent
    simp [hsilent, hraises]

theorem cutShort_iff : CutShort ending ↔ Chokes n finds := by
  cases h with
  | raised r _ hfinds hend =>
    refine iff_of_false (fun hcut => ?_) (not_chokes hfinds)
    obtain ⟨label, -, hend'⟩ := hcut
    cases hend.symm.trans hend'
  | cut _ hchokes hcut => exact iff_of_true hcut hchokes
  | reported _ _ hchokes hreports =>
    refine iff_of_false (fun hcut => ?_) hchokes
    obtain ⟨label, context, found, -, -, -, -, hend⟩ := hreports
    obtain ⟨label', -, hend'⟩ := hcut
    simp [hend] at hend'
  | silent _ _ hfinds hsilent =>
    refine iff_of_false (fun hcut => ?_) (not_chokes hfinds)
    obtain ⟨label, -, hend'⟩ := hcut
    cases hsilent.symm.trans hend'

theorem keeps_iff :
    Keeps n payload deviates ending ↔ (∀ r, ¬raises r) ∧ ¬Chokes n finds := by
  constructor
  · intro hkeeps
    obtain ⟨e, hend, hcomplete⟩ := hkeeps.exists_complete
    constructor
    · intro r hr
      cases hend.symm.trans ((h.eq_error_iff r).mpr hr)
    · intro hchokes
      obtain ⟨label, -, hcut⟩ := h.cutShort_iff.mpr hchokes
      cases hend.symm.trans hcut
      cases hcomplete
  · intro hgood
    obtain ⟨hraises, hchokes⟩ := hgood
    cases h with
    | raised r hr => exact absurd ((hr r).mpr rfl) (hraises r)
    | cut _ hchokes' => exact absurd hchokes' hchokes
    | reported hdeviates _ _ hreports => exact ⟨fun _ => hreports, absurd hdeviates⟩
    | silent hdeviates _ _ hsilent => exact ⟨fun hd => absurd hd hdeviates, fun _ => hsilent⟩

end Decides

end Decides

namespace Check

variable {check : Check Unit} {setup : Setup}

theorem ending_of_failure {r : Report} (h : (check setup ⟨0, 0, 0⟩).1 = .error (.failure r)) :
    ending check setup = .error r := by
  rw [ending_eq, h]

theorem silent_of_ok (h : (check setup ⟨0, 0, 0⟩).1 = .ok ()) : Silent (ending check setup) := by
  rw [Silent, ending_eq, h]

/-- A violation is reported, unless its context cannot be printed. -/
theorem decides_of_violation {n : ℤ} {payload : String × Json.Document} {deviates : Prop}
    {raises : Report → Prop} {finds : List (String × Json.Document) → Prop} {label : Text}
    {found : List (String × Json.Document)} (hdeviates : deviates) (hraises : ∀ r, ¬raises r)
    (hfinds : ∀ found', finds found' ↔ found' = found) (hpayload : payload ∈ found)
    (hlabel : .scalar '\n' ∉ label)
    (hrun : (check setup ⟨0, 0, 0⟩).1 = .error (.violation label (contextOf n found).tree)) :
    Decides n payload deviates raises finds (ending check setup) := by
  by_cases hprintable : (contextOf n found).Printable
  · have htext := Json.write?_eq_some.mpr ⟨hprintable, rfl⟩
    have hchokes : ¬Chokes n finds := by
      intro hchokes
      obtain ⟨found', hfound, hlong⟩ := hchokes
      rw [(hfinds found').mp hfound] at hlong
      exact hlong hprintable
    refine .reported hdeviates hraises hchokes ⟨label, _, found, hpayload, rfl, hlabel, ?_, ?_⟩
    · exact fun hmem => (Json.ascii_write _).newline_notMem (List.mem_of_mem_take hmem)
    · rw [ending_eq, hrun]
      simp only [Stop.ending, Stop.contextLine?, htext, Option.map_some, Stop.labelLine,
        List.append_assoc]
      rfl
  · have htext := Json.write?_eq_none.mpr hprintable
    refine .cut hraises ⟨found, (hfinds found).mpr rfl, hprintable⟩ ⟨label, hlabel, ?_⟩
    rw [ending_eq, hrun]
    simp only [Stop.ending, Stop.contextLine?, htext, Option.map_none, Stop.labelLine]

end Check

/-! ### Round trips -/

namespace RoundTrip

variable (setup : Setup)

/-- The number that a round trip draws. -/
abbrev drawn : ℕ := (Draw.number setup.stream 0).1

/-- The encoding of the drawn number is too long, or is not read back. -/
def Deviates : Prop :=
  ∃ bytes, setup.codec.encode 0 (drawn setup) = .ok bytes ∧
    (bytes.length ≠ Varint.minLength (drawn setup) ∨
      setup.codec.decode 0 (bytes ++ [0xFF, 0x00]) ≠ .ok (↑(drawn setup), ↑bytes.length))

/-- Encoding the drawn number fails, or reading an encoding of the right length does. -/
def Raises (r : Report) : Prop :=
  setup.codec.encode 0 (drawn setup) = .error r ∨
    ∃ bytes, setup.codec.encode 0 (drawn setup) = .ok bytes ∧
      bytes.length = Varint.minLength (drawn setup) ∧
      setup.codec.decode 0 (bytes ++ [0xFF, 0x00]) = .error r

/-- An encoding of the wrong length, or what is read instead of the drawn number. -/
def Finds (found : List (String × Json.Document)) : Prop :=
  ∃ bytes, setup.codec.encode 0 (drawn setup) = .ok bytes ∧
    ((bytes.length ≠ Varint.minLength (drawn setup) ∧
        found = [("value", .int (drawn setup)), ("hex", Check.hex bytes)]) ∨
      (bytes.length = Varint.minLength (drawn setup) ∧
        ∃ got, setup.codec.decode 0 (bytes ++ [0xFF, 0x00]) = .ok got ∧
          got ≠ (↑(drawn setup), ↑bytes.length) ∧
          found = [("value", .int (drawn setup)), ("got", .array [.int got.1, .int got.2])]))

variable {setup} {bytes : List UInt8} {found : List (String × Json.Document)}

theorem finds_of_length_ne (hencode : setup.codec.encode 0 (drawn setup) = .ok bytes)
    (hlength : bytes.length ≠ Varint.minLength (drawn setup)) :
    Finds setup found ↔ found = [("value", .int (drawn setup)), ("hex", Check.hex bytes)] := by
  constructor
  · intro h
    obtain ⟨bytes', hencode', hcases⟩ := h
    cases hencode.symm.trans hencode'
    rcases hcases with ⟨-, hfound⟩ | ⟨heq, -⟩
    · exact hfound
    · exact absurd heq hlength
  · intro hfound
    exact ⟨bytes, hencode, .inl ⟨hlength, hfound⟩⟩

theorem finds_of_length_eq (hencode : setup.codec.encode 0 (drawn setup) = .ok bytes)
    (hlength : bytes.length = Varint.minLength (drawn setup)) :
    Finds setup found ↔ ∃ got, setup.codec.decode 0 (bytes ++ [0xFF, 0x00]) = .ok got ∧
      got ≠ (↑(drawn setup), ↑bytes.length) ∧
      found = [("value", .int (drawn setup)), ("got", .array [.int got.1, .int got.2])] := by
  constructor
  · intro h
    obtain ⟨bytes', hencode', hcases⟩ := h
    cases hencode.symm.trans hencode'
    rcases hcases with ⟨hne, -⟩ | ⟨-, hgot⟩
    · exact absurd hlength hne
    · exact hgot
  · intro hgot
    exact ⟨bytes, hencode, .inr ⟨hlength, hgot⟩⟩

end RoundTrip

/-- How a round trip ends is decided by the codec. -/
abbrev RoundTrip.Decided (setup : Setup) (n : ℤ) : Prop :=
  Decides n ("value", .int (RoundTrip.drawn setup)) (RoundTrip.Deviates setup)
    (RoundTrip.Raises setup) (RoundTrip.Finds setup)
    (Check.ending (Check.roundTrip (.ofInt n)) setup)

/-- An encoding of the right length is read back, or something else is, or reading it fails. -/
theorem Check.decided_of_length_eq {setup : Setup} {bytes : List UInt8} (n : ℤ)
    (hencode : setup.codec.encode 0 (RoundTrip.drawn setup) = .ok bytes)
    (hlength : bytes.length = Varint.minLength (RoundTrip.drawn setup)) :
    RoundTrip.Decided setup n := by
  cases hdecode : setup.codec.decode 0 (bytes ++ [0xFF, 0x00]) with
  | error r =>
    have hrun : (roundTrip (.ofInt n) setup ⟨0, 0, 0⟩).1 = .error (.failure r) := by
      simp [roundTrip, hencode, hlength, hdecode]
    have hraises : ∀ r', RoundTrip.Raises setup r' ↔ r' = r := by
      simp [RoundTrip.Raises, hencode, hlength, hdecode, eq_comm]
    have hfinds : ∀ found, ¬RoundTrip.Finds setup found := by
      simp [RoundTrip.Finds, hencode, hlength, hdecode]
    exact .raised r hraises hfinds (ending_of_failure hrun)
  | ok got =>
    have hraises : ∀ r, ¬RoundTrip.Raises setup r := by
      simp [RoundTrip.Raises, hencode, hlength, hdecode]
    by_cases hgot :
        got = (↑(RoundTrip.drawn setup), ↑(Varint.minLength (RoundTrip.drawn setup)))
    · have hrun : (roundTrip (.ofInt n) setup ⟨0, 0, 0⟩).1 = .ok () := by
        simp [roundTrip, hencode, hlength, hdecode, hgot]
      have hdeviates : ¬RoundTrip.Deviates setup := by
        simp [RoundTrip.Deviates, hencode, hlength, hdecode, hgot]
      have hfinds : ∀ found, ¬RoundTrip.Finds setup found := by
        simp [RoundTrip.Finds, hencode, hlength, hdecode, hgot]
      exact .silent hdeviates hraises hfinds (silent_of_ok hrun)
    · have hrun : (roundTrip (.ofInt n) setup ⟨0, 0, 0⟩).1 =
          .error (.violation (Text.ofString "A round-trip") (contextOf n
            [("value", .int (RoundTrip.drawn setup)),
              ("got", .array [.int got.1, .int got.2])]).tree) := by
        simp [roundTrip, hencode, hlength, hdecode, hgot]
      have hdeviates : RoundTrip.Deviates setup :=
        ⟨bytes, hencode, .inr (by simpa [hdecode, hlength] using hgot)⟩
      have hfinds : ∀ found, RoundTrip.Finds setup found ↔
          found = [("value", .int (RoundTrip.drawn setup)),
            ("got", .array [.int got.1, .int got.2])] := by
        intro found
        rw [RoundTrip.finds_of_length_eq hencode hlength, hlength]
        constructor
        · intro h
          obtain ⟨got', hdecode', -, hfound⟩ := h
          cases hdecode.symm.trans hdecode'
          exact hfound
        · intro hfound
          exact ⟨got, hdecode, hgot, hfound⟩
      exact decides_of_violation hdeviates hraises hfinds List.mem_cons_self (by decide) hrun

theorem Check.decides_roundTrip (setup : Setup) (n : ℤ) : RoundTrip.Decided setup n := by
  cases hencode : setup.codec.encode 0 (RoundTrip.drawn setup) with
  | error r =>
    have hrun : (roundTrip (.ofInt n) setup ⟨0, 0, 0⟩).1 = .error (.failure r) := by
      simp [roundTrip, hencode]
    have hraises : ∀ r', RoundTrip.Raises setup r' ↔ r' = r := by
      simp [RoundTrip.Raises, hencode, eq_comm]
    have hfinds : ∀ found, ¬RoundTrip.Finds setup found := by
      simp [RoundTrip.Finds, hencode]
    exact .raised r hraises hfinds (ending_of_failure hrun)
  | ok bytes =>
    by_cases hlength : bytes.length = Varint.minLength (RoundTrip.drawn setup)
    · exact decided_of_length_eq n hencode hlength
    · have hrun : (roundTrip (.ofInt n) setup ⟨0, 0, 0⟩).1 =
          .error (.violation (Text.ofString "A non-minimal encoding") (contextOf n
            [("value", .int (RoundTrip.drawn setup)), ("hex", hex bytes)]).tree) := by
        simp [roundTrip, hencode, hlength]
      have hraises : ∀ r, ¬RoundTrip.Raises setup r := by
        simp [RoundTrip.Raises, hencode, hlength]
      have hdeviates : RoundTrip.Deviates setup := ⟨bytes, hencode, .inl hlength⟩
      have hfinds : ∀ found, RoundTrip.Finds setup found ↔
          found = [("value", .int (RoundTrip.drawn setup)), ("hex", hex bytes)] :=
        fun _ => RoundTrip.finds_of_length_ne hencode hlength
      exact decides_of_violation hdeviates hraises hfinds List.mem_cons_self (by decide) hrun

/-! ### Random bytes -/

namespace DecodeBytes

variable (setup : Setup)

/-- The bytes that the check draws. -/
abbrev drawn : List UInt8 := (Draw.bytes setup.stream 0).1

/-- A number of at most 64 bits that took some of the drawn bytes. -/
abbrev InRange (v n : ℤ) : Prop := 0 ≤ v ∧ v ≤ Varint.maxValue ∧ 1 ≤ n ∧ n ≤ (drawn setup).length

/-- What is read from the drawn bytes is out of range, or is not read again from the bytes it
took. -/
def Deviates : Prop :=
  ∃ v n, setup.codec.decode 0 (drawn setup) = .ok (v, n) ∧
    (¬InRange setup v n ∨ setup.codec.decode 1 ((drawn setup).take n.toNat) ≠ .ok (v, n))

/-- Reading the drawn bytes fails for another reason than that they hold no number, or reading the
bytes again fails that a number in range took. -/
def Raises (r : Report) : Prop :=
  (setup.codec.decode 0 (drawn setup) = .error r ∧ r.blamesVarint = false) ∨
    ∃ v n, setup.codec.decode 0 (drawn setup) = .ok (v, n) ∧ InRange setup v n ∧
      setup.codec.decode 1 ((drawn setup).take n.toNat) = .error r

/-- What is read out of range, or the bytes from which something else is read again. -/
def Finds (found : List (String × Json.Document)) : Prop :=
  ∃ v n, setup.codec.decode 0 (drawn setup) = .ok (v, n) ∧
    ((¬InRange setup v n ∧
        found = [("hex", Check.hex (drawn setup)), ("value", .int v), ("n", .int n)]) ∨
      (InRange setup v n ∧
        ∃ got, setup.codec.decode 1 ((drawn setup).take n.toNat) = .ok got ∧ got ≠ (v, n) ∧
          found = [("hex", Check.hex (drawn setup))]))

variable {setup} {v n : ℤ} {r : Report} {found : List (String × Json.Document)}

theorem raises_of_inRange (hdecode : setup.codec.decode 0 (drawn setup) = .ok (v, n))
    (hrange : InRange setup v n) :
    Raises setup r ↔ setup.codec.decode 1 ((drawn setup).take n.toNat) = .error r := by
  constructor
  · intro h
    rcases h with ⟨hfails, -⟩ | ⟨v', n', hdecode', -, hagain⟩
    · cases hdecode.symm.trans hfails
    · cases hdecode.symm.trans hdecode'
      exact hagain
  · intro hagain
    exact .inr ⟨v, n, hdecode, hrange, hagain⟩

theorem not_raises_of_outOfRange (hdecode : setup.codec.decode 0 (drawn setup) = .ok (v, n))
    (hrange : ¬InRange setup v n) : ¬Raises setup r := by
  intro h
  rcases h with ⟨hfails, -⟩ | ⟨v', n', hdecode', hrange', -⟩
  · cases hdecode.symm.trans hfails
  · cases hdecode.symm.trans hdecode'
    exact hrange hrange'

theorem finds_of_inRange (hdecode : setup.codec.decode 0 (drawn setup) = .ok (v, n))
    (hrange : InRange setup v n) :
    Finds setup found ↔ ∃ got, setup.codec.decode 1 ((drawn setup).take n.toNat) = .ok got ∧
      got ≠ (v, n) ∧ found = [("hex", Check.hex (drawn setup))] := by
  constructor
  · intro h
    obtain ⟨v', n', hdecode', hcases⟩ := h
    cases hdecode.symm.trans hdecode'
    rcases hcases with ⟨hout, -⟩ | ⟨-, hgot⟩
    · exact absurd hrange hout
    · exact hgot
  · intro hgot
    exact ⟨v, n, hdecode, .inr ⟨hrange, hgot⟩⟩

theorem finds_of_outOfRange (hdecode : setup.codec.decode 0 (drawn setup) = .ok (v, n))
    (hrange : ¬InRange setup v n) :
    Finds setup found ↔
      found = [("hex", Check.hex (drawn setup)), ("value", .int v), ("n", .int n)] := by
  constructor
  · intro h
    obtain ⟨v', n', hdecode', hcases⟩ := h
    cases hdecode.symm.trans hdecode'
    rcases hcases with ⟨-, hfound⟩ | ⟨hin, -⟩
    · exact hfound
    · exact absurd hin hrange
  · intro hfound
    exact ⟨v, n, hdecode, .inl ⟨hrange, hfound⟩⟩

end DecodeBytes

/-- How random bytes are checked is decided by the codec. -/
abbrev DecodeBytes.Decided (setup : Setup) (n : ℤ) : Prop :=
  Decides n ("hex", Check.hex (DecodeBytes.drawn setup)) (DecodeBytes.Deviates setup)
    (DecodeBytes.Raises setup) (DecodeBytes.Finds setup)
    (Check.ending (Check.decodeBytes (.ofInt n)) setup)

/-- Bytes that hold no number are nothing to look at; another failure leaves the check. -/
theorem Check.decided_of_decode_error {setup : Setup} {r : Report} (n : ℤ)
    (hdecode : setup.codec.decode 0 (DecodeBytes.drawn setup) = .error r) :
    DecodeBytes.Decided setup n := by
  have hfinds : ∀ found, ¬DecodeBytes.Finds setup found := by
    simp [DecodeBytes.Finds, hdecode]
  cases hblames : r.blamesVarint with
  | true =>
    have hrun : (decodeBytes (.ofInt n) setup ⟨0, 0, 0⟩).1 = .ok () := by
      simp [decodeBytes, hdecode, hblames]
    have hraises : ∀ r, ¬DecodeBytes.Raises setup r := by
      simp [DecodeBytes.Raises, hdecode, hblames]
    have hdeviates : ¬DecodeBytes.Deviates setup := by
      simp [DecodeBytes.Deviates, hdecode]
    exact .silent hdeviates hraises hfinds (silent_of_ok hrun)
  | false =>
    have hrun : (decodeBytes (.ofInt n) setup ⟨0, 0, 0⟩).1 = .error (.failure r) := by
      simp [decodeBytes, hdecode, hblames]
    have hraises : ∀ r', DecodeBytes.Raises setup r' ↔ r' = r := by
      intro r'
      constructor
      · intro h
        rcases h with ⟨hfails, -⟩ | ⟨v, taken, hread, -⟩
        · cases hdecode.symm.trans hfails
          rfl
        · cases hdecode.symm.trans hread
      · rintro rfl
        exact .inl ⟨hdecode, hblames⟩
    exact .raised r hraises hfinds (ending_of_failure hrun)

/-- The bytes that a number in range took are read again. -/
theorem Check.decided_of_inRange {setup : Setup} {v taken : ℤ} (n : ℤ)
    (hdecode : setup.codec.decode 0 (DecodeBytes.drawn setup) = .ok (v, taken))
    (hrange : DecodeBytes.InRange setup v taken) : DecodeBytes.Decided setup n := by
  cases hagain : setup.codec.decode 1 ((DecodeBytes.drawn setup).take taken.toNat) with
  | error r =>
    have hrun : (decodeBytes (.ofInt n) setup ⟨0, 0, 0⟩).1 = .error (.failure r) := by
      simp only [decodeBytes, run_draw_bind, run_decode_bind, hdecode,
        if_neg (not_not.mpr hrange), Nat.zero_add, hagain, run_orRaise_error_bind]
    have hraises : ∀ r', DecodeBytes.Raises setup r' ↔ r' = r := by
      intro r'
      rw [DecodeBytes.raises_of_inRange hdecode hrange, hagain, Except.error.injEq, eq_comm]
    have hfinds : ∀ found, ¬DecodeBytes.Finds setup found := by
      simp [DecodeBytes.finds_of_inRange hdecode hrange, hagain]
    exact .raised r hraises hfinds (ending_of_failure hrun)
  | ok got =>
    have hraises : ∀ r, ¬DecodeBytes.Raises setup r := by
      simp [DecodeBytes.raises_of_inRange hdecode hrange, hagain]
    by_cases hgot : got = (v, taken)
    · have hrun : (decodeBytes (.ofInt n) setup ⟨0, 0, 0⟩).1 = .ok () := by
        simp only [decodeBytes, run_draw_bind, run_decode_bind, hdecode,
          if_neg (not_not.mpr hrange), Nat.zero_add, hagain, run_orRaise_ok_bind,
          if_neg (not_not.mpr hgot), run_pure]
      have hdeviates : ¬DecodeBytes.Deviates setup := by
        simpa [DecodeBytes.Deviates, hdecode, hagain, hgot] using hrange
      have hfinds : ∀ found, ¬DecodeBytes.Finds setup found := by
        simp [DecodeBytes.finds_of_inRange hdecode hrange, hagain, hgot]
      exact .silent hdeviates hraises hfinds (silent_of_ok hrun)
    · have hrun : (decodeBytes (.ofInt n) setup ⟨0, 0, 0⟩).1 =
          .error (.violation (Text.ofString "B prefix re-read") (contextOf n
            [("hex", hex (DecodeBytes.drawn setup))]).tree) := by
        simp only [decodeBytes, run_draw_bind, run_decode_bind, hdecode,
          if_neg (not_not.mpr hrange), Nat.zero_add, hagain, run_orRaise_ok_bind, if_pos hgot,
          run_violation]
      have hdeviates : DecodeBytes.Deviates setup :=
        ⟨v, taken, hdecode, .inr (by simpa [hagain] using hgot)⟩
      have hfinds : ∀ found, DecodeBytes.Finds setup found ↔
          found = [("hex", hex (DecodeBytes.drawn setup))] := by
        intro found
        rw [DecodeBytes.finds_of_inRange hdecode hrange]
        constructor
        · intro h
          obtain ⟨got', -, -, hfound⟩ := h
          exact hfound
        · intro hfound
          exact ⟨got, hagain, hgot, hfound⟩
      exact decides_of_violation hdeviates hraises hfinds List.mem_cons_self (by decide) hrun

theorem Check.decides_decodeBytes (setup : Setup) (n : ℤ) : DecodeBytes.Decided setup n := by
  cases hdecode : setup.codec.decode 0 (DecodeBytes.drawn setup) with
  | error r => exact decided_of_decode_error n hdecode
  | ok read =>
    obtain ⟨v, taken⟩ := read
    by_cases hrange : DecodeBytes.InRange setup v taken
    · exact decided_of_inRange n hdecode hrange
    · have hrun : (decodeBytes (.ofInt n) setup ⟨0, 0, 0⟩).1 =
          .error (.violation (Text.ofString "B out-of-range decode") (contextOf n
            [("hex", hex (DecodeBytes.drawn setup)), ("value", .int v),
              ("n", .int taken)]).tree) := by
        simp only [decodeBytes, run_draw_bind, run_decode_bind, hdecode, if_pos hrange,
          run_violation_bind]
      have hraises : ∀ r, ¬DecodeBytes.Raises setup r :=
        fun _ => DecodeBytes.not_raises_of_outOfRange hdecode hrange
      have hdeviates : DecodeBytes.Deviates setup := ⟨v, taken, hdecode, .inl hrange⟩
      have hfinds : ∀ found, DecodeBytes.Finds setup found ↔ found =
          [("hex", hex (DecodeBytes.drawn setup)), ("value", .int v), ("n", .int taken)] :=
        fun _ => DecodeBytes.finds_of_outOfRange hdecode hrange
      exact decides_of_violation hdeviates hraises hfinds List.mem_cons_self (by decide) hrun

/-! ### What is caught and what is not -/

/-- **What the checks of a codec catch.**  Whatever a codec answers and whatever is drawn, each of
the two checks reports every deviation it looks for, with the number or the bytes that were drawn,
and is silent otherwise, exactly if nothing breaks it off.  Two things can.  The codec may raise a
failure where the check does not expect one: when the number is encoded, when its encoding is read
back, when the bytes of an accepted number are read again, or, if it is no blame of the bytes, when
they are first read.  Or the report has an integer that is too long to be printed, and its second
line is missing. -/
theorem keeps_iff_not_brokenOff (setup : Setup) (n : ℤ) :
    ((Keeps n ("value", .int (RoundTrip.drawn setup)) (RoundTrip.Deviates setup)
        (Check.ending (Check.roundTrip (.ofInt n)) setup) ↔
          (∀ r, ¬RoundTrip.Raises setup r) ∧ ¬Chokes n (RoundTrip.Finds setup)) ∧
      (∀ r, Check.ending (Check.roundTrip (.ofInt n)) setup = .error r ↔ RoundTrip.Raises setup r) ∧
      (CutShort (Check.ending (Check.roundTrip (.ofInt n)) setup) ↔
        Chokes n (RoundTrip.Finds setup))) ∧
    (Keeps n ("hex", Check.hex (DecodeBytes.drawn setup)) (DecodeBytes.Deviates setup)
        (Check.ending (Check.decodeBytes (.ofInt n)) setup) ↔
          (∀ r, ¬DecodeBytes.Raises setup r) ∧ ¬Chokes n (DecodeBytes.Finds setup)) ∧
      (∀ r, Check.ending (Check.decodeBytes (.ofInt n)) setup = .error r ↔
        DecodeBytes.Raises setup r) ∧
      (CutShort (Check.ending (Check.decodeBytes (.ofInt n)) setup) ↔
        Chokes n (DecodeBytes.Finds setup)) := by
  have hroundTrip := Check.decides_roundTrip setup n
  have hdecodeBytes := Check.decides_decodeBytes setup n
  exact ⟨⟨hroundTrip.keeps_iff, hroundTrip.eq_error_iff, hroundTrip.cutShort_iff⟩,
    hdecodeBytes.keeps_iff, hdecodeBytes.eq_error_iff, hdecodeBytes.cutShort_iff⟩

/-- The failure of reading bytes that end inside a number. -/
def truncatedReport : Report := (Failure.varint (.truncated 0)).report

/-- The library's codec, except that it reads nothing from the call on with so many before it. -/
def Codec.failingFrom (calls : ℕ) : Codec where
  encode := library.encode
  decode k bytes := if k < calls then library.decode k bytes else .error truncatedReport

/-- A codec that reads one number from all bytes, the least that is too long to be printed. -/
def Codec.overlong : Codec where
  encode := library.encode
  decode _ _ := .ok (10 ^ Text.maxDigits, 1)

/-- A codec that cannot read back what it has written, and one that cannot read a number twice,
deviate, but no check reports it: the failure leaves both.  Nor is a report finished of a number
that is too long. -/
theorem deviations_not_reported :
    RoundTrip.Deviates ⟨fun _ => 1, .failingFrom 0, fun _ => []⟩ ∧
    Check.ending (Check.roundTrip (.ofInt 0)) ⟨fun _ => 1, .failingFrom 0, fun _ => []⟩ =
      .error truncatedReport ∧
    DecodeBytes.Deviates ⟨fun _ => 1, .failingFrom 1, fun _ => []⟩ ∧
    Check.ending (Check.decodeBytes (.ofInt 0)) ⟨fun _ => 1, .failingFrom 1, fun _ => []⟩ =
      .error truncatedReport ∧
    DecodeBytes.Deviates ⟨fun _ => 1, .overlong, fun _ => []⟩ ∧
    CutShort (Check.ending (Check.decodeBytes (.ofInt 0))
      ⟨fun _ => 1, .overlong, fun _ => []⟩) := by
  have hencode : (Codec.failingFrom 0).encode 0 16383 = .ok [0xFF, 0x7F] := by
    have hbytes : Varint.encode 16383 = [0xFF, 0x7F] := by cbv
    have hfits : 16383 ≤ Varint.maxValue := by decide
    rw [← hbytes]
    exact Codec.encode_library hfits 0
  have hlength : [0xFF, 0x7F].length = Varint.minLength 16383 := by decide
  have hread : (Codec.failingFrom 0).decode 0 [0xFF, 0x7F, 0xFF, 0x00] ≠ .ok (16383, 2) := by
    intro h
    cases h
  have hagain : (Codec.failingFrom 1).decode 1 [0x81, 0x01] ≠ .ok (129, 2) := by
    intro h
    cases h
  have houtside : ¬DecodeBytes.InRange ⟨fun _ => 1, .overlong, fun _ => []⟩
      (10 ^ Text.maxDigits) 1 := by
    intro h
    have hlt : (10 ^ Text.maxDigits : ℤ) < 10 ^ Text.maxDigits :=
      h.2.1.trans_lt (by exact_mod_cast Text.lt_pow_maxDigits (Nat.le_refl Varint.maxValue))
    exact lt_irrefl _ hlt
  refine ⟨⟨[0xFF, 0x7F], hencode, .inr hread⟩, ?_, ⟨129, 2, rfl, .inr hagain⟩, ?_,
    ⟨_, _, rfl, .inl houtside⟩, ?_⟩
  · exact ((Check.decides_roundTrip _ 0).eq_error_iff _).mpr
      (.inr ⟨[0xFF, 0x7F], hencode, hlength, rfl⟩)
  · have hrange : DecodeBytes.InRange ⟨fun _ => 1, .failingFrom 1, fun _ => []⟩ 129 2 := by decide
    exact ((Check.decides_decodeBytes _ 0).eq_error_iff _).mpr (.inr ⟨129, 2, rfl, hrange, rfl⟩)
  · refine (Check.decides_decodeBytes _ 0).cutShort_iff.mpr
      ⟨_, ⟨_, _, rfl, .inl ⟨houtside, rfl⟩⟩, ?_⟩
    intro hprintable
    cases hprintable with
    | object hmembers =>
      have hlong : ∀ k, ¬(10 ^ k : ℤ).natAbs < 10 ^ k := by
        intro k
        rw [Int.natAbs_pow]
        exact lt_irrefl _
      have hvalue := hmembers (Text.ofString "value", .int (10 ^ Text.maxDigits)) (by simp)
      cases hvalue with
      | int hlt => exact hlong _ hlt

end Fuzz

end AddressProtocols
