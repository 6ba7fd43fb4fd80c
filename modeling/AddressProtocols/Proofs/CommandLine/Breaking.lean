import AddressProtocols.Proofs.CommandLine.Running
import AddressProtocols.Proofs.Text.Numeral

/-!
# Runs that break off

A key of decimal digits is converted to a code before it is looked up, and a key of more than
`Text.maxDigits` digits is not converted: there a run breaks off, without a report.

* `LongLookup`: the command line asks for that, and the registry could be loaded;
* `answer_eq_brokenOff`: nothing else breaks off an answer, since the path of a table file comes
  from an argument and every argument that a process can be given spells a path;
* `run_exits_iff`: all other runs exit, and report what goes wrong.
-/

namespace AddressProtocols

namespace CommandLine

section Breaking

variable {readFile : Path → Except ReadFault (List UInt8)}

/-! ### Where an answer breaks off -/

/-- Looking up a key breaks off if it has too many decimal digits; every other failure is
reported. -/
theorem lookupKey_eq_brokenOff {r : Registry} {key : Text} {cause : Breakage} :
    lookupKey r key = .error (.brokenOff cause) ↔
      cause = .longNumeral ∧ key.isDecimal = true ∧ Text.maxDigits < key.length := by
  constructor
  · intro h
    rw [lookupKey] at h
    split at h
    · rename_i hdecimal
      split at h
      · rename_i hnone
        cases h
        exact ⟨rfl, hdecimal, (Text.nat?_eq_none hdecimal).mp hnone⟩
      · split at h <;> cases h
    · split at h <;> cases h
  · rintro ⟨rfl, hdecimal, hlength⟩
    rw [lookupKey, if_pos hdecimal, (Text.nat?_eq_none hdecimal).mpr hlength]

/-- Only a lookup breaks off, and only once its registry has been loaded. -/
theorem answer_eq_brokenOff {invocation : Invocation} {cause : Breakage}
    (htable : ∀ path, invocation.table? = some path → path.Receivable) :
    answer readFile invocation = .error (.brokenOff cause) ↔
      cause = .longNumeral ∧ ∃ table key r, invocation = .lookup table key ∧
        Loads readFile table r ∧ key.isDecimal = true ∧ Text.maxDigits < key.length := by
  constructor
  · intro h
    have hpath : ∀ file, invocation.table? = some file → ∃ path, systemPath file = .ok path :=
      fun file hfile => exists_systemPath_eq_ok (htable file hfile)
    cases invocation with
    | nothing | version => cases h
    | protocols table =>
      rcases Outcome.bind_eq_error.mp h with hload | ⟨r, -, h⟩
      · exact absurd hload (loadRegistry_ne_brokenOff hpath cause)
      · cases h
    | lookup table key =>
      rcases Outcome.bind_eq_error.mp h with hload | ⟨r, hload, h⟩
      · exact absurd hload (loadRegistry_ne_brokenOff hpath cause)
      · rcases Outcome.bind_eq_error.mp h with hkey | ⟨d, -, h⟩
        · obtain ⟨hcause, hdecimal, hlength⟩ := lookupKey_eq_brokenOff.mp hkey
          exact ⟨hcause, table, key, r, rfl, loadRegistry_eq_ok.mp hload, hdecimal, hlength⟩
        · cases h
    | path table path =>
      rcases Outcome.bind_eq_error.mp h with hload | ⟨r, -, h⟩
      · exact absurd hload (loadRegistry_ne_brokenOff hpath cause)
      · rcases Outcome.bind_eq_error.mp h with hpath | ⟨ps, -, h⟩
        · obtain ⟨failure, -, hfailure⟩ := Outcome.mapError_eq_error.mp hpath
          cases hfailure
        · cases h
    | encode n =>
      rcases Outcome.bind_eq_error.mp h with hencode | ⟨bytes, -, h⟩
      · obtain ⟨fault, -, hfault⟩ := Outcome.mapError_eq_error.mp hencode
        cases hfault
      · cases h
    | decode hex =>
      rw [answer] at h
      split at h
      · cases h
      · rcases Outcome.bind_eq_error.mp h with hdecode | ⟨result, -, h⟩
        · obtain ⟨fault, -, hfault⟩ := Outcome.mapError_eq_error.mp hdecode
          cases hfault
        · cases h
  · rintro ⟨rfl, table, key, r, rfl, hloads, hdecimal, hlength⟩
    exact Outcome.bind_eq_error.mpr (.inr ⟨r, loadRegistry_eq_ok.mpr hloads,
      Outcome.bind_eq_error.mpr (.inl (lookupKey_eq_brokenOff.mpr ⟨rfl, hdecimal, hlength⟩))⟩)

/-! ### Which runs exit -/

/-- The command line looks up a key of more decimal digits than are converted. -/
def LongLookup (readFile : Path → Except ReadFault (List UInt8)) (args : List Text) : Prop :=
  ∃ table key r, Invocation.read args = .ok (.lookup table key) ∧ Loads readFile table r ∧
    key.isDecimal = true ∧ Text.maxDigits < key.length

/-- The run exits, with one report on the error stream if it got into trouble. -/
def Exits (readFile : Path → Except ReadFault (List UInt8)) (args : List Text) : Prop :=
  ∃ o, run readFile args = .exit o ∧ (o.status = 0 ∨ o.status = 1 ∨ o.status = 2) ∧
    ∀ invocation trouble printed, Invocation.read args = .ok invocation →
      perform readFile invocation [] = (.error trouble, printed) →
      ∃ message, o = ⟨2, [], programName ++ message ++ [newline]⟩

section Exits

variable {args : List Text} (hargs : ∀ arg ∈ args, arg.Receivable)
include hargs

theorem receivable_table {invocation : Invocation} (hread : Invocation.read args = .ok invocation) :
    ∀ path, invocation.table? = some path → path.Receivable := by
  intro path hpath
  obtain ⟨arg, harg, hsuffix⟩ := (Invocation.read_eq_ok hread).2 path hpath
  exact (hargs arg harg).of_suffix hsuffix

theorem not_exits_of_longLookup (hlong : LongLookup readFile args) : ¬Exits readFile args := by
  obtain ⟨table, key, r, hread, hlookup⟩ := hlong
  rintro ⟨o, hrun, -⟩
  have htable := receivable_table hargs hread
  have hanswer := (answer_eq_brokenOff htable).mpr ⟨rfl, table, key, r, rfl, hlookup⟩
  cases hrun.symm.trans (run_of_answer_eq_error hread hanswer)

variable (hshort : ¬LongLookup readFile args)
include hshort

theorem exists_report {invocation : Invocation} {trouble : Trouble}
    (hread : Invocation.read args = .ok invocation)
    (hanswer : answer readFile invocation = .error trouble) :
    ∃ message, run readFile args = .exit ⟨2, [], programName ++ message ++ [newline]⟩ := by
  rcases trouble.ending_cases with ⟨cause, rfl⟩ | ⟨message, hending⟩
  · have htable := receivable_table hargs hread
    obtain ⟨-, table, key, r, rfl, hlookup⟩ := (answer_eq_brokenOff htable).mp hanswer
    exact absurd ⟨table, key, r, hread, hlookup⟩ hshort
  · exact ⟨message, (run_of_answer_eq_error hread hanswer).trans (hending [])⟩

theorem exists_run_eq_exit : ∃ o, run readFile args = .exit o := by
  rcases run_cases readFile args with ⟨-, o, -, hrun⟩ | ⟨-, hrun⟩ |
    ⟨invocation, hread, ⟨trouble, hanswer, -⟩ | ⟨ls, -, hrun⟩⟩
  · exact ⟨o, hrun⟩
  · exact ⟨_, hrun⟩
  · obtain ⟨message, hrun⟩ := exists_report hargs hshort hread hanswer
    exact ⟨_, hrun⟩
  · exact ⟨_, hrun⟩

theorem exits_of_not_longLookup : Exits readFile args := by
  obtain ⟨o, hrun⟩ := exists_run_eq_exit hargs hshort
  refine ⟨o, hrun, ?_, fun invocation trouble printed hread hperform => ?_⟩
  · rcases streams_of_run hrun with h | h | h <;> simp [h]
  · obtain ⟨message, hreport⟩ :=
      exists_report hargs hshort hread (answer_eq_error_of_perform hperform)
    exact ⟨message, Ending.exit.inj (hrun.symm.trans hreport)⟩

end Exits

/-- A key of the digit one, so many times. -/
def ones (n : ℕ) : Text := List.replicate n (.scalar '1')

theorem receivable_ones (n : ℕ) : (ones n).Receivable := by
  refine ⟨fun c hc => ⟨'1', List.eq_of_mem_replicate hc⟩, fun hnull => ?_⟩
  exact absurd (List.eq_of_mem_replicate hnull) (by decide)

theorem isDecimal_ones {n : ℕ} (hpos : 0 < n) : (ones n).isDecimal = true := by
  have hdigit : CodePoint.isDigit (.scalar '1') = true := by decide
  simp [Text.isDecimal, ones, hdigit, hpos.ne']

theorem read_ones {n : ℕ} (hpos : 0 < n) :
    Invocation.read [Command.lookup.name, ones n] = .ok (.lookup none (ones n)) := by
  refine Invocation.read_lookup (Level.mark_eq_plain ?_)
  rw [ones, List.head?_replicate, if_neg hpos.ne']
  decide

theorem receivable_lookup_ones (n : ℕ) : ∀ arg ∈ [Command.lookup.name, ones n], arg.Receivable := by
  have hname : Command.lookup.name.Receivable := ⟨Text.scalar_ofString _, by decide⟩
  exact List.forall_mem_cons.mpr ⟨hname, List.forall_mem_singleton.mpr (receivable_ones n)⟩

/-- **Runs exit.**  If its arguments are ones that a process can be given, a run exits with status
0, 1 or 2, and whatever trouble it gets into is one report with status 2, unless it looks up a key
of too many decimal digits in a registry that could be loaded. -/
theorem run_exits_iff {args : List Text} (hargs : ∀ arg ∈ args, arg.Receivable) :
    Exits readFile args ↔ ¬LongLookup readFile args :=
  ⟨fun hexits hlong => not_exits_of_longLookup hargs hlong hexits, exits_of_not_longLookup hargs⟩

/-- A key of as many digits as are converted. -/
theorem run_exits_iff_longest :
    Exits (fun _ => .error .notFound) [Command.lookup.name, ones 4300] := by
  refine (run_exits_iff (receivable_lookup_ones 4300)).mpr ?_
  rintro ⟨table, key, r, hread, -, -, hlength⟩
  cases (read_ones (by decide)).symm.trans hread
  rw [ones, List.length_replicate] at hlength
  exact absurd hlength (by decide)

/-- A key of one digit more: the run breaks off. -/
theorem lookup_breaks_off : (∀ arg ∈ [Command.lookup.name, ones 4301], arg.Receivable) ∧
    run (fun _ => .error .notFound) [Command.lookup.name, ones 4301] = .brokenOff .longNumeral := by
  refine ⟨receivable_lookup_ones 4301, ?_⟩
  have hlong : lookupKey .builtin (ones 4301) = .error (.brokenOff .longNumeral) :=
    lookupKey_eq_brokenOff.mpr
      ⟨rfl, isDecimal_ones (by decide), by rw [ones, List.length_replicate]; decide⟩
  have hanswer : answer (fun _ => .error .notFound) (.lookup none (ones 4301)) =
      .error (.brokenOff .longNumeral) :=
    Outcome.bind_eq_error.mpr (.inr ⟨.builtin, rfl, Outcome.bind_eq_error.mpr (.inl hlong)⟩)
  exact run_of_answer_eq_error (read_ones (by decide)) hanswer

end Breaking

end CommandLine

end AddressProtocols
