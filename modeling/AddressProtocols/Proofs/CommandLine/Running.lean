import AddressProtocols.Proofs.CommandLine.Commands
import AddressProtocols.Proofs.CommandLine.Loading
import AddressProtocols.Proofs.Registry.Path

/-!
# How a run ends

* `Prints`: an action prints all lines of an answer, or gets into trouble before it prints anything.
  Every invocation is performed so (`prints_perform`), and `answer` gives the lines or the trouble;
* `Accepted`: the table, the key or the path that a command names has been accepted, which is so
  whenever there is an answer (`accepted_of_answer`);
* `run_cases` lists the ways in which a run can end, and `run_streams` says what they have printed.
-/

namespace AddressProtocols

namespace CommandLine

/-! ### What an action prints -/

/-- Lines, each with its end. -/
def lines (ls : List Text) : Text := ls.flatMap fun l => l ++ [newline]

theorem lines_nil : lines [] = [] := rfl

theorem lines_cons (l : Text) (ls : List Text) : lines (l :: ls) = l ++ [newline] ++ lines ls := rfl

theorem lines_singleton (l : Text) : lines [l] = l ++ [newline] := by
  rw [lines_cons, lines_nil, List.append_nil]

/-- An action that prints all lines of an answer, or gets into trouble before it prints anything. -/
def Prints (action : Action Unit) (answer : Except Trouble (List Text)) : Prop :=
  ∀ printed, action printed =
    match answer with
    | .error trouble => (.error trouble, printed)
    | .ok ls => (.ok (), printed ++ lines ls)

namespace Prints

theorem print (line : Text) : Prints (print line) (.ok [line]) := by
  intro printed
  show (Except.ok (), printed ++ line ++ [newline]) = (Except.ok (), printed ++ lines [line])
  rw [lines_singleton, List.append_assoc]

/-- Lines are printed after a first one. -/
theorem print_bind {line : Text} {action : Action Unit} {ls : List Text}
    (h : Prints action (.ok ls)) :
    Prints (CommandLine.print line >>= fun _ => action) (.ok (line :: ls)) := by
  intro printed
  show action (printed ++ line ++ [newline]) = (Except.ok (), printed ++ lines (line :: ls))
  rw [h, lines_cons, ← List.append_assoc, ← List.append_assoc]

theorem printRows (ds : List Descriptor) : Prints (printRows ds) (.ok (ds.map row)) := by
  induction ds with
  | nil =>
    intro printed
    show (Except.ok (), printed) = (Except.ok (), printed ++ [])
    rw [List.append_nil]
  | cons d ds ih => exact ih.print_bind

/-- What may fail is done before anything is printed. -/
theorem lift_bind {α : Type} (x : Except Trouble α) {next : α → Action Unit}
    {answer : α → Except Trouble (List Text)} (h : ∀ a, Prints (next a) (answer a)) :
    Prints ((liftM x : Action α) >>= next) (x >>= answer) := by
  intro printed
  cases x with
  | error trouble => rfl
  | ok a => exact h a printed

end Prints

/-! ### Answers -/

section Running

variable (readFile : Path → Except ReadFault (List UInt8))

/-- The lines that answer an invocation, if there is no trouble. -/
def answer : Invocation → Except Trouble (List Text)
  | .nothing => .ok []
  | .protocols table => do
    let r ← loadRegistry readFile table
    return header :: r.protocols.map row
  | .lookup table key => do
    let r ← loadRegistry readFile table
    let d ← lookupKey r key
    return [row d]
  | .path table path => do
    let r ← loadRegistry readFile table
    let ds ← (r.parsePath path).mapError Trouble.failure
    return ds.map row
  | .encode n => do
    let bytes ← (Varint.encodeInt? n).mapError fun fault => Trouble.failure (.varintRange fault)
    return [Text.ofBytes bytes]
  | .decode hex =>
    match hex.bytes? with
    | none => .error (.notHex hex)
    | some bytes => do
      let (v, n) ← (Varint.decodeFrom bytes 0).mapError fun fault => Trouble.failure (.varint fault)
      return [Text.ofNat v ++ Text.ofString " (" ++ Text.ofNat n ++ Text.ofString " bytes)"]
  | .version => .ok [programName ++ spaces 1 ++ AddressProtocols.version]

theorem prints_perform (invocation : Invocation) :
    Prints (perform readFile invocation) (answer readFile invocation) := by
  cases invocation with
  | nothing => exact .printRows []
  | protocols table => exact .lift_bind _ fun r => (Prints.printRows r.protocols).print_bind
  | lookup table key => exact .lift_bind _ fun r => .lift_bind _ fun d => .print (row d)
  | path table path => exact .lift_bind _ fun r => .lift_bind _ fun ds => .printRows ds
  | encode n => exact .lift_bind _ fun bytes => .print (Text.ofBytes bytes)
  | decode hex =>
    rw [perform, answer]
    cases hex.bytes? with
    | none => exact fun _ => rfl
    | some bytes => exact .lift_bind _ fun result => .print _
  | version => exact .print _

/-- What the arguments of a command name has been accepted: every entry of the table and every
registration, the key, every segment of the path. -/
def Accepted : Invocation → Prop
  | .protocols table => ∃ r, Loads readFile table r
  | .lookup table key => ∃ r d, Loads readFile table r ∧ lookupKey r key = .ok d
  | .path table path => ∃ r, ∃ ps : List Descriptor,
      Loads readFile table r ∧ (∀ p ∈ ps, p ∈ r.protocols) ∧
      path.strip pathDelimiter = Registry.joined (ps.map (·.name))
  | _ => True

variable {readFile}

/-- Only what has been accepted is answered. -/
theorem accepted_of_answer {invocation : Invocation} {ls : List Text}
    (h : answer readFile invocation = .ok ls) : Accepted readFile invocation := by
  cases invocation with
  | protocols table =>
    obtain ⟨r, hload, -⟩ := Outcome.bind_eq_ok.mp h
    exact ⟨r, loadRegistry_eq_ok.mp hload⟩
  | lookup table key =>
    obtain ⟨r, hload, h⟩ := Outcome.bind_eq_ok.mp h
    obtain ⟨d, hd, -⟩ := Outcome.bind_eq_ok.mp h
    exact ⟨r, d, loadRegistry_eq_ok.mp hload, hd⟩
  | path table path =>
    obtain ⟨r, hload, h⟩ := Outcome.bind_eq_ok.mp h
    obtain ⟨ps, hps, -⟩ := Outcome.bind_eq_ok.mp h
    have hloads := loadRegistry_eq_ok.mp hload
    have hparse := Outcome.mapError_eq_ok.mp hps
    have hmem := hloads.consistent.mem_of_parsePath_eq_ok hparse
    exact ⟨r, ps, hloads, hmem, (hloads.consistent.parsePath_eq_ok hmem).mp hparse⟩
  | nothing | encode n | decode hex | version => trivial

/-! ### Endings -/

theorem Level.Ends.streams {level : Level} {o : Outcome} (h : level.Ends o) :
    o.status = 0 ∧ o.stderr = [] ∨ o.status = 2 ∧ o.stdout = [] ∧ o.stderr ≠ [] := by
  rcases h with rfl | ⟨message, rfl⟩
  · exact .inl ⟨rfl, rfl⟩
  · exact .inr ⟨rfl, rfl, by simp [Level.fail]⟩

/-- Trouble ends a run with one report, unless the run breaks off. -/
theorem Trouble.ending_cases (trouble : Trouble) :
    (∃ cause, trouble = .brokenOff cause) ∨
      ∃ message, ∀ printed,
        trouble.ending printed = .exit ⟨2, printed, programName ++ message ++ [newline]⟩ := by
  cases trouble with
  | brokenOff cause => exact .inl ⟨cause, rfl⟩
  | failure f => exact .inr ⟨_, fun _ => rfl⟩
  | unreadable fault path => exact .inr ⟨_, fun _ => rfl⟩
  | notHex t => exact .inr ⟨_, fun _ => rfl⟩

section Run

variable {args : List Text} {invocation : Invocation}
  (hread : Invocation.read args = .ok invocation)
include hread

theorem run_of_read (hne : invocation ≠ .nothing) :
    run readFile args =
      match answer readFile invocation with
      | .error trouble => trouble.ending []
      | .ok ls => .exit ⟨0, lines ls, []⟩ := by
  have hprints := prints_perform readFile invocation []
  rw [run, hread]
  cases hanswer : answer readFile invocation with
  | error trouble =>
    rw [hanswer] at hprints
    cases invocation with
    | nothing => exact absurd rfl hne
    | _ => simp only [hprints]
  | ok ls =>
    rw [hanswer] at hprints
    cases invocation with
    | nothing => exact absurd rfl hne
    | _ =>
      simp only [hprints]
      rfl

theorem run_of_answer_eq_error {trouble : Trouble}
    (h : answer readFile invocation = .error trouble) : run readFile args = trouble.ending [] := by
  have hne : invocation ≠ .nothing := by
    rintro rfl
    cases h
  rw [run_of_read hread hne, h]

theorem run_of_answer_eq_ok {ls : List Text} (hne : invocation ≠ .nothing)
    (h : answer readFile invocation = .ok ls) : run readFile args = .exit ⟨0, lines ls, []⟩ := by
  rw [run_of_read hread hne, h]

/-- An answer of one line or more. -/
theorem run_of_answer_eq_cons {l : Text} {ls : List Text}
    (h : answer readFile invocation = .ok (l :: ls)) :
    run readFile args = .exit ⟨0, lines (l :: ls), []⟩ := by
  have hne : invocation ≠ .nothing := by
    rintro rfl
    cases h
  exact run_of_answer_eq_ok hread hne h

end Run

/-- A run ends where its command line is read, or with the help text since there is none, or in
trouble before anything is printed, or with a whole answer. -/
theorem run_cases (readFile : Path → Except ReadFault (List UInt8)) (args : List Text) :
    (∃ level : Level, ∃ o, level.Ends o ∧ run readFile args = .exit o) ∨
      (args = [] ∧ run readFile args = .exit ⟨1, topLevel.help, []⟩) ∨
      ∃ invocation, Invocation.read args = .ok invocation ∧
        ((∃ trouble, answer readFile invocation = .error trouble ∧
          run readFile args = trouble.ending []) ∨
          ∃ ls, answer readFile invocation = .ok ls ∧
            run readFile args = .exit ⟨0, lines ls, []⟩) := by
  cases hread : Invocation.read args with
  | error o =>
    obtain ⟨level, hends⟩ := Invocation.read_eq_error hread
    exact .inl ⟨level, o, hends, by rw [run, hread]⟩
  | ok invocation =>
    right
    by_cases hne : invocation = .nothing
    · subst hne
      exact .inl ⟨(Invocation.read_eq_ok hread).1 rfl, by rw [run, hread]⟩
    · refine .inr ⟨invocation, rfl, ?_⟩
      cases hanswer : answer readFile invocation with
      | error trouble => exact .inl ⟨trouble, rfl, run_of_answer_eq_error hread hanswer⟩
      | ok ls => exact .inr ⟨ls, rfl, run_of_answer_eq_ok hread hne hanswer⟩

theorem answer_eq_error_of_perform {invocation : Invocation} {trouble : Trouble} {printed : Text}
    (h : perform readFile invocation [] = (.error trouble, printed)) :
    answer readFile invocation = .error trouble := by
  rw [prints_perform readFile invocation []] at h
  cases hanswer : answer readFile invocation with
  | error trouble' =>
    rw [hanswer] at h
    cases h
    rfl
  | ok ls =>
    rw [hanswer] at h
    cases h

/-- Nothing is printed for an invocation unless all that it names has been accepted. -/
theorem accepted_of_printed {invocation : Invocation}
    (h : (perform readFile invocation []).2 ≠ []) : Accepted readFile invocation := by
  rw [prints_perform readFile invocation []] at h
  cases hanswer : answer readFile invocation with
  | error trouble =>
    rw [hanswer] at h
    exact absurd rfl h
  | ok ls => exact accepted_of_answer hanswer

/-- The streams go with the status. -/
theorem streams_of_run {args : List Text} {o : Outcome} (h : run readFile args = .exit o) :
    o.status = 0 ∧ o.stderr = [] ∨ o.status = 1 ∧ args = [] ∨ o.status = 2 ∧ o.stdout = [] ∧
      o.stderr ≠ [] := by
  rcases run_cases readFile args with ⟨level, o', hends, hrun⟩ | ⟨hargs, hrun⟩ |
    ⟨invocation, -, ⟨trouble, -, hrun⟩ | ⟨ls, -, hrun⟩⟩
  · obtain rfl := Ending.exit.inj (hrun.symm.trans h)
    exact hends.streams.imp_right .inr
  · obtain rfl := Ending.exit.inj (hrun.symm.trans h)
    exact .inr (.inl ⟨rfl, hargs⟩)
  · rcases trouble.ending_cases with ⟨cause, rfl⟩ | ⟨message, hending⟩
    · exact nomatch hrun.symm.trans h
    · rw [hending] at hrun
      obtain rfl := Ending.exit.inj (hrun.symm.trans h)
      exact .inr (.inr ⟨rfl, rfl, by simp⟩)
  · obtain rfl := Ending.exit.inj (hrun.symm.trans h)
    exact .inl ⟨rfl, rfl⟩

/-- A table whose second entry takes the code of a built-in protocol. -/
def clashingTable : List UInt8 :=
  ("\x7b\"protocols\": [\x7b\"code\": 9, \"name\": \"a\", \"size\": 0\x7d, " ++
    "\x7b\"code\": 4, \"name\": \"b\", \"size\": 0\x7d]\x7d").toList.flatMap String.utf8EncodeChar

/-- **What a run prints.**  Whatever the arguments and the files, a run that exits has status 0, 1
or 2.  With status 2 it has printed nothing but a report of what is wrong, with status 0 there is no
such report, and status 1 means that there were no arguments.  Nothing is printed for an invocation,
not even a header, unless all that it names has been accepted. -/
theorem run_streams {args : List Text} {o : Outcome} (h : run readFile args = .exit o) :
    (o.status = 0 ∨ o.status = 1 ∨ o.status = 2) ∧
      (o.status = 2 → o.stdout = [] ∧ o.stderr ≠ []) ∧
      (o.status = 0 → o.stderr = []) ∧
      (o.status = 1 → args = []) ∧
      ∀ invocation, Invocation.read args = .ok invocation →
        (perform readFile invocation []).2 ≠ [] → Accepted readFile invocation := by
  have haccepted : ∀ invocation, Invocation.read args = .ok invocation →
      (perform readFile invocation []).2 ≠ [] → Accepted readFile invocation :=
    fun _ _ => accepted_of_printed
  rcases streams_of_run h with ⟨hstatus, herr⟩ | ⟨hstatus, hargs⟩ | ⟨hstatus, hout, herr⟩
  · exact ⟨.inl hstatus, by omega, fun _ => herr, by omega, haccepted⟩
  · exact ⟨.inr (.inl hstatus), by omega, by omega, fun _ => hargs, haccepted⟩
  · exact ⟨.inr (.inr hstatus), fun _ => ⟨hout, herr⟩, by omega, by omega, haccepted⟩

/-- The header is not printed either if an entry of the table is refused. -/
theorem run_streams_clash : ∃ o,
    run (fun _ => .ok clashingTable) [Text.ofString "protocols", Text.ofString "-pt.json"] =
      .exit o ∧ o.status = 2 ∧ o.stdout = [] ∧ o.stderr ≠ [] := by
  have hrun :
      run (fun _ => .ok clashingTable) [Text.ofString "protocols", Text.ofString "-pt.json"] =
        .exit ⟨2, [], Text.ofString
          "maddr: error [ERR_DUPLICATE_CODE]: protocol code 4 already taken by 'ip4'\n"⟩ := by
    decide +kernel
  exact ⟨_, hrun, rfl, (run_streams hrun).2.1 rfl⟩

end Running

end CommandLine

end AddressProtocols
