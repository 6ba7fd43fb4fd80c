import AddressProtocols.Proofs.CommandLine.Invocation
import AddressProtocols.Proofs.Text.Numeral
import Mathlib.Data.List.TakeWhile

/-!
# Command lines that name a command

* `Level.mark_eq_plain` and `Level.mark_ofInt`: what does not start with a minus sign is plain, and
  so is a negative number where help is the only option;
* `Level.read_operand`, `Level.read_command`: a plain argument that is all there is is the operand,
  and a command gets whatever stands behind its name, since no argument is ambiguous where help is
  the only option (`Level.length_candidates_le`);
* `Level.read_table`, `Level.read_text_table`, `Level.read_table_text`: the same with a table file,
  before or after the operand;
* `Invocation.read_lookup`, `Invocation.read_lookup_table` and their siblings: what the command
  lines of the program ask for. -/

namespace AddressProtocols

namespace CommandLine

namespace Level

variable {level : Level}

/-! ### Arguments that are not ambiguous -/

/-- Only where several options agree with an argument is it ambiguous. -/
theorem two_le_of_markDashed_eq_error {arg : Text} {o : Outcome}
    (h : level.markDashed arg = .error o) : 2 ≤ (level.candidates arg).length := by
  rw [markDashed] at h
  split at h
  · cases h
  · split at h <;> cases h
  · rename_i hone hnone
    cases hcandidates : level.candidates arg with
    | nil => exact absurd hcandidates hnone
    | cons c more =>
      cases more with
      | nil => exact absurd hcandidates (hone _ _)
      | cons c' more => simp

theorem two_le_of_mark_eq_error {arg : Text} {o : Outcome} (h : level.mark arg = .error o) :
    2 ≤ (level.candidates arg).length := by
  rw [mark.eq_def] at h
  split at h
  · split at h
    · cases h
    · cases h
    · dsimp only at h
      split at h
      · cases h
      · exact two_le_of_markDashed_eq_error h
  · cases h

theorem exists_marks_eq_ok (h : ∀ arg, (level.candidates arg).length ≤ 1) (args : List Text) :
    ∃ items, level.marks args = .ok items := by
  cases hmarks : level.marks args with
  | ok items => exact ⟨items, rfl⟩
  | error o =>
    exfalso
    induction args with
    | nil => cases hmarks
    | cons arg rest ih =>
      rw [marks] at hmarks
      split at hmarks
      · cases hmarks
      · rcases Outcome.bind_eq_error.mp hmarks with hmark | ⟨m, -, hmarks⟩
        · exact absurd (two_le_of_mark_eq_error hmark)
            (Nat.not_le_of_lt (Nat.lt_succ_of_le (h arg)))
        · rcases Outcome.bind_eq_error.mp hmarks with hrest | ⟨ms, -, hmarks⟩
          · exact ih hrest
          · cases hmarks

/-! ### Plain arguments -/

theorem mark_eq_plain {arg : Text} (h : arg.head? ≠ some (.scalar '-')) :
    level.mark arg = .ok .plain := by
  rw [mark.eq_def]
  split
  · exact absurd rfl h
  · rfl

theorem mark_ofNat (level : Level) (n : ℕ) : level.mark (Text.ofNat n) = .ok .plain := by
  refine mark_eq_plain fun hminus => ?_
  exact Json.ne_of_isJsonDigit (Json.isJsonDigit_of_mem_ofNat (List.mem_of_head? hminus))
    (by decide) rfl

/-- A plain argument with a minus sign in front is that sign, or agrees with no option. -/
theorem mark_eq_plain_cases {arg : Text} (h : level.mark arg = .ok .plain) :
    arg.head? ≠ some (.scalar '-') ∨ arg = [.scalar '-'] ∨ level.markDashed arg = .ok .plain := by
  rw [mark.eq_def] at h
  split at h
  · right
    split at h
    · cases h
    · exact .inl rfl
    · dsimp only at h
      split at h
      · cases h
      · exact .inr h
  · rename_i hdash
    left
    intro hhead
    obtain ⟨rest, rfl⟩ := List.head?_eq_some_iff.mp hhead
    exact hdash rest rfl

/-- The separator, if it did not separate, would be an option or look like one. -/
theorem ne_separator_of_mark {arg : Text} (h : level.mark arg = .ok .plain) : arg ≠ separator := by
  rintro rfl
  rcases mark_eq_plain_cases h with hhead | hdash | hdashed
  · exact hhead rfl
  · cases hdash
  · rw [markDashed] at hdashed
    split at hdashed
    · rename_i hcandidates
      cases hdashed
      obtain ⟨f, attached, hflag, -⟩ :=
        exists_flag_of_mem_candidates (hcandidates ▸ List.mem_cons_self)
      cases hflag
    · cases hdashed
    · cases hdashed

theorem marks_cons {arg : Text} {m : Mark} {rest : List Text} {items : List (Text × Mark)}
    (hne : arg ≠ separator) (hmark : level.mark arg = .ok m)
    (hrest : level.marks rest = .ok items) :
    level.marks (arg :: rest) = .ok ((arg, m) :: items) := by
  rw [marks, if_neg hne, hmark, hrest]
  rfl

theorem readMarks_operand {reading : Reading} {arg : Text} {rest : List (Text × Mark)}
    {found : Found} {more : ℕ} (hfound : reading.found = none)
    (htake : level.takeTail ((arg, .plain) :: rest) = .ok (some (found, more))) :
    level.readMarks reading ((arg, .plain) :: rest) =
      level.readMarks { reading with found := some found } (rest.drop more) := by
  have hfind : level.findTail reading ((arg, .plain) :: rest) = .ok (some (found, more)) := by
    rw [findTail, hfound]
    exact htake
  rw [readMarks.eq_def]
  simp only [hfind]

theorem readMarks_flag {reading : Reading} {arg : Text} {f : Flag} {attached : Attached}
    {rest : List (Text × Mark)} {value : Option Text} {more : ℕ}
    (huse : level.useFlag f attached rest = .ok (value, more)) :
    level.readMarks reading ((arg, .flag f attached) :: rest) =
      level.readMarks { reading with value } (rest.drop more) := by
  rw [readMarks.eq_def]
  simp only [huse]

/-- An operand that is all there is. -/
theorem read_operand {arg : Text} {found : Found} (harg : level.mark arg = .ok .plain)
    (htake : level.takeTail [(arg, .plain)] = .ok (some (found, 0))) :
    level.read [arg] = .ok ⟨none, some found, []⟩ := by
  have hmarks : level.marks [arg] = .ok [(arg, .plain)] :=
    marks_cons (ne_separator_of_mark harg) harg rfl
  refine read_eq_ok.mpr ⟨_, hmarks, ?_, nofun⟩
  rw [readMarks_operand rfl htake, List.drop_zero, readMarks]

theorem splitEquals_fst (arg : Text) : (splitEquals arg).1 = arg.takeWhile (· != .scalar '=') := by
  rw [splitEquals]
  split <;> rfl

/-! ### Negative numbers -/

theorem ne_help_of_digit {c : CodePoint} (hc : Json.isJsonDigit c = true) (t : Text) :
    CodePoint.scalar '-' :: c :: t ≠ Text.ofString "-h" ∧
      CodePoint.scalar '-' :: c :: t ≠ Text.ofString "--help" := by
  constructor
  · intro heq
    have hsecond : some c = some (.scalar 'h') := congrArg (fun u : Text => u[1]?) heq
    exact Json.ne_of_isJsonDigit hc (by decide) (Option.some.inj hsecond)
  · intro heq
    have hsecond : some c = some (.scalar '-') := congrArg (fun u : Text => u[1]?) heq
    exact Json.ne_of_isJsonDigit hc (by decide) (Option.some.inj hsecond)

theorem isNegativeNumber_negSucc (n : ℕ) : isNegativeNumber (Text.ofInt (.negSucc n)) = true := by
  have hlast : (Text.ofInt (.negSucc n)).getLast? ≠ some newline := by
    intro hlast
    rcases Text.mem_ofInt (List.mem_of_getLast? hlast) with hdash | hdigit
    · cases hdash
    · exact Json.ne_of_isJsonDigit hdigit (by decide) rfl
  rw [isNegativeNumber, if_neg hlast]
  show (Text.isDecimal (Text.ofNat (n + 1)) || _) = true
  rw [Text.isDecimal_ofNat, Bool.true_or]

/-- Nothing is attached to a number. -/
theorem splitEquals_ofInt (z : ℤ) : (splitEquals (Text.ofInt z)).1 = Text.ofInt z := by
  rw [splitEquals_fst, List.takeWhile_eq_self_iff]
  intro c hc
  rcases Text.mem_ofInt hc with rfl | hdigit
  · decide
  · exact bne_iff_ne.mpr (Json.ne_of_isJsonDigit hdigit (by decide))

/-! ### Levels without options of their own -/

-- the program's own level, that of `varint` and those of its commands
section Help

variable (hflags : level.flags = [helpFlag])
include hflags

theorem flagNames_help :
    level.flagNames = [(Text.ofString "-h", helpFlag), (Text.ofString "--help", helpFlag)] := by
  rw [flagNames, hflags]
  rfl

theorem length_candidates_le (arg : Text) : (level.candidates arg).length ≤ 1 := by
  rw [candidates, flagNames_help hflags]
  split
  · rename_i hlong
    obtain ⟨rest, rfl⟩ := List.isPrefixOf_iff_prefix.mp hlong
    -- what starts with two minus signs does not start the short name
    have hstart : (splitEquals (separator ++ rest)).1.isPrefixOf (Text.ofString "-h") = false := by
      rw [splitEquals_fst]
      rfl
    dsimp only
    rw [List.filterMap_cons_none (by simp [hstart])]
    exact List.length_filterMap_le _ _
  · have hlong : Text.ofString "--help" ≠ arg.take 2 := by
      intro h
      have hlength : (Text.ofString "--help").length ≤ 2 := h ▸ List.length_take_le _ _
      exact absurd hlength (by decide)
    rw [List.filterMap_cons, List.filterMap_cons_none (by simp [hlong]), List.filterMap_nil]
    split <;> simp

/-- A command gets everything behind its name. -/
theorem read_command {label name : Text} {required : Bool} {commands : List (Text × Text)}
    (htail : level.tail = .command label required commands) (hname : name ∈ commands.map (·.1))
    (hmark : level.mark name = .ok .plain) (args : List Text) :
    level.read (name :: args) = .ok ⟨none, some (.command name args), []⟩ := by
  obtain ⟨items, hitems⟩ := exists_marks_eq_ok (length_candidates_le hflags) args
  obtain ⟨rfl, -⟩ := marks_eq_ok hitems
  have htake : level.takeTail ((name, .plain) :: items) =
      .ok (some (.command name (items.map (·.1)), items.length)) := by
    simp only [takeTail, htail, startsCommand, List.contains_iff_mem.mpr hname, if_true]
  refine read_eq_ok.mpr ⟨_, marks_cons (ne_separator_of_mark hmark) hmark hitems, ?_, nofun⟩
  rw [readMarks_operand rfl htake, List.drop_length, readMarks]

theorem findFlag_negative {c : CodePoint} (hc : Json.isJsonDigit c = true) (t : Text) :
    level.findFlag (.scalar '-' :: c :: t) = none := by
  obtain ⟨hshort, hlong⟩ := ne_help_of_digit hc t
  rw [findFlag, flagNames_help hflags, List.lookup_cons, beq_eq_false_iff_ne.mpr hshort,
    List.lookup_cons, beq_eq_false_iff_ne.mpr hlong]
  rfl

theorem candidates_negative {c : CodePoint} (hc : Json.isJsonDigit c = true) (t : Text) :
    level.candidates (.scalar '-' :: c :: t) = [] := by
  obtain ⟨hshort, hlong⟩ := ne_help_of_digit hc []
  have hone : isLong (.scalar '-' :: c :: t) = false := by
    have hne : c ≠ .scalar '-' := Json.ne_of_isJsonDigit hc (by decide)
    simp [isLong, separator, List.isPrefixOf, hne.symm]
  rw [candidates, flagNames_help hflags, hone]
  simp [hshort.symm, hlong.symm]

/-- A negative number is plain. -/
theorem mark_ofInt (z : ℤ) : level.mark (Text.ofInt z) = .ok .plain := by
  cases z with
  | ofNat n => exact mark_ofNat level n
  | negSucc n =>
    obtain ⟨c, t, hnumeral, hc⟩ := (Json.whole_ofNat (n + 1)).exists_cons
    have harg : Text.ofInt (.negSucc n) = .scalar '-' :: c :: t :=
      congrArg (CodePoint.scalar '-' :: ·) hnumeral
    have hequals := splitEquals_ofInt (.negSucc n)
    have hnegative := isNegativeNumber_negSucc n
    rw [harg] at hequals hnegative ⊢
    rw [mark.eq_def]
    simp only [findFlag_negative hflags hc, hequals, markDashed, candidates_negative hflags hc,
      hnegative]
    rfl

end Help

/-! ### Levels that read a table -/

-- those of `protocols`, `lookup` and `path`
section Table

variable (hflags : level.flags = [helpFlag, tableFlag])
include hflags

theorem mark_protocols :
    level.mark (Text.ofString "--protocols") = .ok (.flag tableFlag .nothing) := by
  have hfind : level.findFlag (Text.ofString "--protocols") = some tableFlag := by
    rw [findFlag, flagNames, hflags]
    rfl
  have htext : Text.ofString "--protocols" = .scalar '-' :: Text.ofString "-protocols" := rfl
  rw [htext] at hfind ⊢
  rw [mark.eq_def]
  simp only [hfind]

omit hflags in
theorem readMarks_table (reading : Reading) (file : Text) (rest : List (Text × Mark)) :
    level.readMarks reading
        ((Text.ofString "--protocols", .flag tableFlag .nothing) :: (file, .plain) :: rest) =
      level.readMarks { reading with value := some file } rest := by
  have huse : level.useFlag tableFlag .nothing ((file, .plain) :: rest) = .ok (some file, 1) := rfl
  rw [readMarks_flag huse, List.drop_one, List.tail_cons]

variable {file : Text} (hfile : level.mark file = .ok .plain)
include hfile

theorem marks_table {args : List Text} {items : List (Text × Mark)}
    (hargs : level.marks args = .ok items) :
    level.marks (Text.ofString "--protocols" :: file :: args) =
      .ok ((Text.ofString "--protocols", .flag tableFlag .nothing) :: (file, .plain) :: items) :=
  marks_cons (by decide) (mark_protocols hflags)
    (marks_cons (ne_separator_of_mark hfile) hfile hargs)

/-- A table file that is all there is. -/
theorem read_table (htail : level.tail = .nothing) :
    level.read [Text.ofString "--protocols", file] = .ok ⟨some file, none, []⟩ := by
  refine read_eq_ok.mpr ⟨_, marks_table hflags hfile rfl, ?_, fun _ => by rw [htail]; rfl⟩
  rw [readMarks_table, readMarks]

variable {arg label : Text} (harg : level.mark arg = .ok .plain) (htail : level.tail = .text label)
include harg htail

/-- A text with a table file after it. -/
theorem read_text_table :
    level.read [arg, Text.ofString "--protocols", file] =
      .ok ⟨some file, some (.text arg), []⟩ := by
  have hnil : level.marks [] = .ok [] := rfl
  have hmarks := marks_cons (ne_separator_of_mark harg) harg (marks_table hflags hfile hnil)
  have htake : level.takeTail
      [(arg, .plain), (Text.ofString "--protocols", .flag tableFlag .nothing), (file, .plain)] =
        .ok (some (.text arg, 0)) := by
    rw [takeTail, htail]
    rfl
  refine read_eq_ok.mpr ⟨_, hmarks, ?_, nofun⟩
  rw [readMarks_operand rfl htake, List.drop_zero, readMarks_table, readMarks]

/-- A text with a table file before it. -/
theorem read_table_text :
    level.read [Text.ofString "--protocols", file, arg] =
      .ok ⟨some file, some (.text arg), []⟩ := by
  have hnil : level.marks [] = .ok [] := rfl
  have hmarks := marks_table hflags hfile (marks_cons (ne_separator_of_mark harg) harg hnil)
  have htake : level.takeTail [(arg, .plain)] = .ok (some (.text arg, 0)) := by
    rw [takeTail, htail]
    rfl
  refine read_eq_ok.mpr ⟨_, hmarks, ?_, nofun⟩
  rw [readMarks_table, readMarks_operand rfl htake, List.drop_zero, readMarks]

end Table

end Level

/-! ### The commands of the program -/

/-- The arguments that look up a key among the built-in protocols and those of a table file. -/
def lookupArgs (key file : Text) : List Text :=
  [Command.lookup.name, key, Text.ofString "--protocols", file]

namespace Invocation

theorem read_topLevel (c : Command) (args : List Text) :
    topLevel.read (c.name :: args) = .ok ⟨none, some (.command c.name args), []⟩ := by
  refine Level.read_command rfl rfl ?_ ?_ args
  · cases c <;> decide
  · cases c <;> decide

theorem readChosen_command (c : Command) (args : List Text) :
    readChosen (some (.command c.name args)) = readCommand c args := by
  have hfind : Command.all.find? (fun d => d.name = c.name) = some c := by
    cases c <;> decide
  rw [readChosen]
  simp only [hfind]

/-- A command is given everything that follows its name. -/
theorem read_command (c : Command) (args : List Text) :
    read (c.name :: args) =
      readCommand c args >>= fun (invocation, extras) => requireNoneLeft invocation extras := by
  rw [read, read_topLevel]
  show (readChosen (some (.command c.name args)) >>= fun (invocation, extras) =>
    requireNoneLeft invocation ([] ++ extras)) = _
  rw [readChosen_command]
  simp only [List.nil_append]

theorem read_lookup_of_level {table : Option Text} {key : Text} {args : List Text}
    (h : Command.lookup.level.read args = .ok ⟨table, some (.text key), []⟩) :
    read (Command.lookup.name :: args) = .ok (.lookup table key) := by
  rw [read_command, readCommand, h]
  rfl

theorem read_path_of_level {table : Option Text} {path : Text} {args : List Text}
    (h : Command.path.level.read args = .ok ⟨table, some (.text path), []⟩) :
    read (Command.path.name :: args) = .ok (.path table path) := by
  rw [read_command, readCommand, h]
  rfl

theorem read_lookup {key : Text} (hkey : Command.lookup.level.mark key = .ok .plain) :
    read [Command.lookup.name, key] = .ok (.lookup none key) :=
  read_lookup_of_level (Level.read_operand hkey rfl)

theorem read_protocols_table {file : Text}
    (hfile : Command.protocols.level.mark file = .ok .plain) :
    read [Command.protocols.name, Text.ofString "--protocols", file] =
      .ok (.protocols (some file)) := by
  rw [read_command, readCommand, Level.read_table rfl hfile rfl]
  rfl

theorem read_lookup_table {key file : Text} (hkey : Command.lookup.level.mark key = .ok .plain)
    (hfile : Command.lookup.level.mark file = .ok .plain) :
    read (lookupArgs key file) = .ok (.lookup (some file) key) :=
  read_lookup_of_level (Level.read_text_table rfl hfile hkey rfl)

theorem readCommand_varint (c : VarintCommand) (args : List Text) :
    readCommand .varint (c.name :: args) = readVarint c args := by
  have hlevel : Command.varint.level.read (c.name :: args) =
      .ok ⟨none, some (.command c.name args), []⟩ := by
    refine Level.read_command rfl rfl ?_ ?_ args
    · cases c <;> decide
    · cases c <;> decide
  have hfind : VarintCommand.all.find? (fun v => v.name = c.name) = some c := by
    cases c <;> decide
  simp only [readCommand, hlevel, bind, Except.bind, hfind]
  cases readVarint c args with
  | error o => rfl
  | ok result => rfl

theorem read_encode {z : ℤ} (hz : z.natAbs < 10 ^ Text.maxDigits) :
    read [Command.varint.name, VarintCommand.encode.name, Text.ofInt z] = .ok (.encode z) := by
  have htake : VarintCommand.encode.level.takeTail [(Text.ofInt z, .plain)] =
      .ok (some (.integer z, 0)) := by
    simp only [Level.takeTail, VarintCommand.level, Level.takePlain, Text.int?_ofInt hz]
  rw [read_command, readCommand_varint, readVarint,
    Level.read_operand (Level.mark_ofInt rfl z) htake]
  rfl

theorem read_decode {hex : Text} (hhex : hex.head? ≠ some (.scalar '-')) :
    read [Command.varint.name, VarintCommand.decode.name, hex] = .ok (.decode hex) := by
  rw [read_command, readCommand_varint, readVarint,
    Level.read_operand (Level.mark_eq_plain hhex) rfl]
  rfl

end Invocation

end CommandLine

end AddressProtocols
