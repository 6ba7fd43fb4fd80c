import AddressProtocols.Fuzz.Campaign
import AddressProtocols.Proofs.Fuzz.Race
import AddressProtocols.Proofs.Json.Ascii

/-!
# Campaigns that find nothing

The library's codec and registry give a campaign nothing to find, whatever is drawn and in whatever
order the contenders of its races act.

* `Fuzz.oneRound_eq`: a round is the check that its draw picks;
* `Fuzz.usedAfter`: how far a setup has been used after some rounds, and `Fuzz.rounds_eq`: rounds
  that end by themselves, one after the other;
* `Fuzz.finish_of_ok`: what a check prints that ends by itself;
* `Fuzz.program_finds_nothing`: a campaign gives the status 0 and prints its summary, which is one
  line. -/

namespace AddressProtocols

namespace Fuzz

variable {setup : Setup} {progress : Progress}

theorem Check.Ends.eq_ok {check : Check Unit} {P : Unit → Prop} (h : Check.Ends setup check P)
    (progress : Progress) : (check setup progress).1 = .ok () := by
  obtain ⟨a, progress', hrun, -⟩ := h progress
  rw [hrun]

/-! ### Rounds -/

/-- The check that a round runs after drawing `way`. -/
def checkOf (way : ℕ) (round : Round) : Check Unit :=
  if way < 450 then Check.roundTrip round
  else if way < 950 then Check.decodeBytes round
  else Check.race round

/-- A round takes one draw, and then is the check that this draw picks. -/
theorem oneRound_eq (round : Round) (setup : Setup) (progress : Progress) :
    oneRound round setup progress =
      checkOf (setup.stream progress.drawn % 1000).toNat round setup
        { progress with drawn := progress.drawn + 1 } := by
  rw [oneRound, checkOf, Check.run_draw_bind]
  rfl

/-- How far a setup has been used after the first `n` rounds. -/
def usedAfter (setup : Setup) : ℕ → Progress
  | 0 => default
  | n + 1 => (oneRound (.ofInt n) setup (usedAfter setup n)).2

theorem rounds_eq (start n : ℕ)
    (h : ∀ i : ℕ, start ≤ i → i < start + n → ∀ progress,
      (oneRound (.ofInt i) setup progress).1 = .ok ()) :
    rounds start n setup (usedAfter setup start) = (.ok (), usedAfter setup (start + n)) := by
  induction n generalizing start with
  | zero => rfl
  | succ n ih =>
    have hfirst : oneRound (.ofInt start) setup (usedAfter setup start) =
        (.ok (), usedAfter setup (start + 1)) :=
      Prod.ext (h start (Nat.le_refl start) (by omega) _) rfl
    have hothers := ih (start + 1) fun i hstart hi => h i (by omega) (by omega)
    rw [rounds, Check.run_bind, hfirst]
    simp only [hothers, Nat.add_assoc, Nat.add_comm 1]

/-! ### What is printed -/

/-- A check that ends by itself has the status 0 and prints what it gives to print. -/
theorem finish_of_ok {α : Type} {check : Check (α × Text)} {result : α} {stdout : Text}
    (h : check setup default = (.ok (result, stdout), progress)) :
    Check.finish check setup = (.ok ⟨0, some result, stdout, true⟩, progress) := by
  rw [Check.finish, h]

theorem summary_eq_line (settings : Settings) :
    ∃ line, settings.summary = line ++ [.scalar '\n'] ∧ .scalar '\n' ∉ line := by
  refine ⟨Text.ofString "OK: fuzz rounds=" ++ Text.ofInt settings.rounds ++
    Text.ofString " seed=" ++ Text.ofInt settings.seed ++ Text.ofString " (no violations)", ?_, ?_⟩
  · rw [Settings.summary, List.append_assoc _ (Text.ofString " (no violations)")]
    rfl
  · refine Text.Ascii.newline_notMem ?_
    simp only [Text.ascii_append, Json.ascii_ofInt, and_true]
    decide

/-- **No false alarm.**  With the library's codec and registry, a campaign of any number of rounds
and with at least two contenders in a race, whose codes have 64 bits, gives the status 0 and prints
one line, whatever is drawn and in whatever order the contenders act.  It has then run all its
rounds, one after the other, each of them the check that its draw picked, and none of the three
checks reports anything in any round. -/
theorem program_finds_nothing {settings : Settings} (hcodec : setup.codec = Codec.library)
    (hcontenders : 2 ≤ settings.contenders)
    (hfits : settings.rounds + settings.contenders + 10000 ≤ Varint.maxValue)
    (horder : ∀ i : ℕ, (i : ℤ) < settings.rounds →
      (setup.order (Round.ofInt i)).Perm (List.range settings.contenders.toNat)) :
    Check.finish (program settings) setup =
      (.ok ⟨0, some 0, settings.summary, true⟩, usedAfter setup settings.rounds.toNat) ∧
    (∃ line, settings.summary = line ++ [.scalar '\n'] ∧ .scalar '\n' ∉ line) ∧
    (∀ (i : ℕ) (progress : Progress), oneRound (Round.ofInt i) setup progress =
      checkOf (setup.stream progress.drawn % 1000).toNat (Round.ofInt i) setup
        { progress with drawn := progress.drawn + 1 }) ∧
    ∀ i : ℕ, (i : ℤ) < settings.rounds → ∀ progress,
      (Check.roundTrip (Round.ofInt i) setup progress).1 = .ok () ∧
      (Check.decodeBytes (Round.ofInt i) setup progress).1 = .ok () ∧
      (Check.race (Round.ofInt i) setup progress).1 = .ok () := by
  have hchecks : ∀ i : ℕ, (i : ℤ) < settings.rounds → ∀ progress,
      (Check.roundTrip (Round.ofInt i) setup progress).1 = .ok () ∧
      (Check.decodeBytes (Round.ofInt i) setup progress).1 = .ok () ∧
      (Check.race (Round.ofInt i) setup progress).1 = .ok () := by
    intro i hi progress
    have hrace := race_eq_ok (by omega) (horder i hi) (by omega) rfl progress
    exact ⟨(Check.ends_roundTrip hcodec _).eq_ok progress,
      (Check.ends_decodeBytes hcodec _).eq_ok progress, congrArg Prod.fst hrace⟩
  have hround : ∀ i : ℕ, (i : ℤ) < settings.rounds → ∀ progress,
      (oneRound (Round.ofInt i) setup progress).1 = .ok () := by
    intro i hi progress
    obtain ⟨hroundTrip, hdecodeBytes, hrace⟩ :=
      hchecks i hi { progress with drawn := progress.drawn + 1 }
    rw [oneRound_eq, checkOf]
    split
    · exact hroundTrip
    · split
      · exact hdecodeBytes
      · exact hrace
  have hcampaign : campaign settings setup default =
      (.ok (), usedAfter setup settings.rounds.toNat) := by
    have hrounds := rounds_eq 0 settings.rounds.toNat fun i _ hi =>
      hround i (by omega)
    rwa [Nat.zero_add] at hrounds
  refine ⟨finish_of_ok ?_, summary_eq_line settings, fun i => oneRound_eq _ setup, hchecks⟩
  rw [program, Check.run_bind, hcampaign]
  rfl

/-- Two rounds, both of them races of three contenders who act from the last to the first. -/
theorem program_finds_nothing_reversed :
    (Check.finish (program ⟨4242, 2, 3⟩) ⟨fun _ => 999, Codec.library, fun _ => [2, 1, 0]⟩).1 =
      .ok ⟨0, some 0, Text.ofString "OK: fuzz rounds=2 seed=4242 (no violations)\n", true⟩ := by
  have horder : [2, 1, 0].Perm (List.range 3) := by decide
  exact congrArg Prod.fst
    (program_finds_nothing rfl (by decide) (by decide) fun _ _ => horder).1

end Fuzz

end AddressProtocols
