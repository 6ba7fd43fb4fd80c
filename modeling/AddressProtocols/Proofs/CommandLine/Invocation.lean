import AddressProtocols.CommandLine.Program
import AddressProtocols.Proofs.CommandLine.Reading

/-!
# What a command line asks for

* `Invocation.read_eq_error`: where a command line cannot be read, one of its levels ends the run;
* `Invocation.read_eq_ok`: only an empty command line asks for nothing, and the path of a table file
  ends one of the arguments. -/

namespace AddressProtocols

namespace CommandLine

namespace Invocation

/-! ### How reading a command line ends a run -/

theorem readVarint_eq_error {c : VarintCommand} {args : List Text} {o : Outcome}
    (h : readVarint c args = .error o) : c.level.Ends o := by
  rw [readVarint] at h
  rcases Outcome.bind_eq_error.mp h with hread | ⟨reading, -, h⟩
  · exact Level.read_eq_error hread
  · split at h <;> cases h

theorem readCommand_eq_error {c : Command} {args : List Text} {o : Outcome}
    (h : readCommand c args = .error o) : ∃ level : Level, level.Ends o := by
  rw [readCommand] at h
  rcases Outcome.bind_eq_error.mp h with hread | ⟨reading, -, h⟩
  · exact ⟨_, Level.read_eq_error hread⟩
  · split at h
    · cases h
    · cases h
    · cases h
    · split at h
      · rcases Outcome.bind_eq_error.mp h with hread | ⟨result, -, h⟩
        · exact ⟨_, readVarint_eq_error hread⟩
        · cases h
      · cases h
    · cases h
    · cases h

theorem read_eq_error {args : List Text} {o : Outcome} (h : read args = .error o) :
    ∃ level : Level, level.Ends o := by
  rw [read] at h
  rcases Outcome.bind_eq_error.mp h with hread | ⟨reading, -, h⟩
  · exact ⟨_, Level.read_eq_error hread⟩
  · rcases Outcome.bind_eq_error.mp h with hchosen | ⟨result, -, h⟩
    · rw [readChosen.eq_def] at hchosen
      split at hchosen
      · split at hchosen
        · exact readCommand_eq_error hchosen
        · cases hchosen
      · cases hchosen
    · obtain ⟨invocation, extras⟩ := result
      dsimp only at h
      rw [requireNoneLeft.eq_def] at h
      split at h
      · cases h
      · cases h
        exact ⟨_, topLevel.ends_fail _⟩

/-! ### Where an invocation comes from -/

theorem exists_find?_of_mem {α : Type} {all : List α} {name help : α → Text} {t : Text}
    (h : t ∈ (all.map fun a => (name a, help a)).map (·.1)) :
    ∃ a, all.find? (fun a => name a = t) = some a := by
  obtain ⟨entry, hentry, rfl⟩ := List.mem_map.mp h
  obtain ⟨a, ha, rfl⟩ := List.mem_map.mp hentry
  exact Option.isSome_iff_exists.mp (List.find?_isSome.mpr ⟨a, ha, decide_eq_true rfl⟩)

/-- A command of `varint` is given what it needs, which is no table. -/
theorem readVarint_eq_ok {c : VarintCommand} {args extras : List Text} {invocation : Invocation}
    (h : readVarint c args = .ok (invocation, extras)) :
    invocation ≠ .nothing ∧ invocation.table? = none := by
  rw [readVarint] at h
  obtain ⟨reading, hread, hinvocation⟩ := Outcome.bind_eq_ok.mp h
  cases c with
  | encode =>
    obtain ⟨found, hfound, hfits⟩ := Level.exists_found_of_read hread nofun
    obtain ⟨n, rfl⟩ := Tail.fits_integer.mp hfits
    rw [hfound] at hinvocation
    cases hinvocation
    exact ⟨nofun, rfl⟩
  | decode =>
    obtain ⟨found, hfound, hfits⟩ := Level.exists_found_of_read hread nofun
    obtain ⟨t, -, rfl⟩ := Tail.fits_text.mp hfits
    rw [hfound] at hinvocation
    cases hinvocation
    exact ⟨nofun, rfl⟩

/-- A command is given what it needs; the path of a table file ends one of its arguments. -/
theorem readCommand_eq_ok {c : Command} {args extras : List Text} {invocation : Invocation}
    (h : readCommand c args = .ok (invocation, extras)) :
    invocation ≠ .nothing ∧ ∀ table, invocation.table? = some table →
      ∃ arg ∈ args, table <:+ arg := by
  rw [readCommand] at h
  obtain ⟨reading, hread, hinvocation⟩ := Outcome.bind_eq_ok.mp h
  have hvalue := (Level.from_of_read hread).value
  cases c with
  | protocols =>
    cases hinvocation
    exact ⟨nofun, hvalue⟩
  | lookup =>
    obtain ⟨found, hfound, hfits⟩ := Level.exists_found_of_read hread nofun
    obtain ⟨key, -, rfl⟩ := Tail.fits_text.mp hfits
    rw [hfound] at hinvocation
    cases hinvocation
    exact ⟨nofun, hvalue⟩
  | path =>
    obtain ⟨found, hfound, hfits⟩ := Level.exists_found_of_read hread nofun
    obtain ⟨names, -, rfl⟩ := Tail.fits_text.mp hfits
    rw [hfound] at hinvocation
    cases hinvocation
    exact ⟨nofun, hvalue⟩
  | varint =>
    obtain ⟨found, hfound, hfits⟩ := Level.exists_found_of_read hread nofun
    obtain ⟨name, rest, hname, -, rfl⟩ := Tail.fits_command.mp hfits
    obtain ⟨v, hv⟩ := exists_find?_of_mem hname
    simp only [hfound, hv] at hinvocation
    obtain ⟨⟨invocation', extras'⟩, hvarint, h⟩ := Outcome.bind_eq_ok.mp hinvocation
    cases h
    obtain ⟨hne, htable⟩ := readVarint_eq_ok hvarint
    exact ⟨hne, fun table ht => absurd (htable.symm.trans ht) nofun⟩
  | version =>
    cases hinvocation
    exact ⟨nofun, nofun⟩

/-- Only an empty command line asks for nothing, and the path of a table file ends one of the
arguments. -/
theorem read_eq_ok {args : List Text} {invocation : Invocation} (h : read args = .ok invocation) :
    (invocation = .nothing → args = []) ∧
    ∀ table, invocation.table? = some table → ∃ arg ∈ args, table <:+ arg := by
  rw [read] at h
  obtain ⟨reading, hread, h⟩ := Outcome.bind_eq_ok.mp h
  obtain ⟨⟨invocation', extras⟩, hchosen, h⟩ := Outcome.bind_eq_ok.mp h
  have hleft : reading.extras ++ extras = [] ∧ invocation' = invocation := by
    dsimp only at h
    rw [requireNoneLeft.eq_def] at h
    split at h
    · exact ⟨‹_›, Except.ok.inj h⟩
    · cases h
  obtain ⟨hextras, rfl⟩ := hleft
  have hfrom := Level.from_of_read hread
  cases hfound : reading.found with
  | none =>
    have hhelp : ∀ f ∈ topLevel.flags, f.kind = .help := by decide
    have hnil := Level.eq_nil_of_read hread hhelp hfound (List.append_eq_nil_iff.mp hextras).1
    rw [hfound] at hchosen
    cases hchosen
    exact ⟨fun _ => hnil, nofun⟩
  | some found =>
    obtain ⟨name, rest, hname, hrest, rfl⟩ := Tail.fits_command.mp (hfrom.found found hfound)
    obtain ⟨c, hc⟩ := exists_find?_of_mem hname
    simp only [hfound, readChosen, hc] at hchosen
    obtain ⟨hne, htable⟩ := readCommand_eq_ok hchosen
    refine ⟨fun hnothing => absurd hnothing hne, fun table ht => ?_⟩
    obtain ⟨arg, harg, hsuffix⟩ := htable table ht
    exact ⟨arg, hrest harg, hsuffix⟩

end Invocation

end CommandLine

end AddressProtocols
