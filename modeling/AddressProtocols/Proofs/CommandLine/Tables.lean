import AddressProtocols.Proofs.CommandLine.Lookup
import AddressProtocols.Proofs.Registry.Order

/-!
# Commands with a table file

The commands `protocols`, `lookup` and `path` read a table file alike, and they do so before
anything else.

* `Supplies` says what it takes for a file to add descriptors to the built-in ones; a registry is
  loaded from such a file, with its descriptors at the end (`Supplies.loads`), and from no other
  (`Loads.supplies`);
* `run_protocols`: the rows of the built-in descriptors are printed, then those of the table;
* `exists_refusal`: where no registry is loaded, whatever names the file ends in one and the same
  way. -/

namespace AddressProtocols

namespace CommandLine

/-! ### Accepted tables -/

/-- A file supplies descriptors: it can be read, every entry of its table makes a descriptor, and
none of the descriptors shares its code or its name with another or with a built-in one. -/
def Supplies (readFile : Path → Except ReadFault (List UInt8)) (path : Path)
    (ds : List Descriptor) : Prop :=
  ∃ contents, readFile path = .ok contents ∧ Table.read (.bytes contents) = .ok ds ∧
    Registry.builtin.Fresh ds

section Supplies

variable {readFile : Path → Except ReadFault (List UInt8)} {file : Text} {path : Path}
  {ds : List Descriptor} (hne : file ≠ []) (hpath : systemPath file = .ok path)
include hne hpath

theorem Loads.supplies {r : Registry} (h : Loads readFile (some file) r) :
    ∃ ds, Supplies readFile path ds := by
  cases h with
  | empty => exact absurd rfl hne
  | @file _ path' contents entries ds _ _ hpath' hread hdocument hentries hregistered =>
    have hsame : path = path' := Except.ok.inj (hpath.symm.trans hpath')
    have htable : Table.read (.bytes contents) = .ok ds :=
      Table.read_eq_ok.mpr ⟨entries, hdocument, hentries⟩
    have hfresh : Registry.builtin.Fresh ds :=
      (Registry.builtin_reachable.consistent.exists_extend_iff (Table.read_checked htable)).mp
        ⟨r, hregistered⟩
    exact ⟨ds, contents, hsame ▸ hread, htable, hfresh⟩

theorem Supplies.loads (h : Supplies readFile path ds) :
    ∃ r, Loads readFile (some file) r ∧ r.protocols = Descriptor.builtins ++ ds := by
  obtain ⟨contents, hread, htable, hfresh⟩ := h
  obtain ⟨r, hregistered⟩ :=
    (Registry.builtin_reachable.consistent.exists_extend_iff (Table.read_checked htable)).mpr hfresh
  obtain ⟨entries, hdocument, hentries⟩ := Table.read_eq_ok.mp htable
  exact ⟨r, .file hne hpath hread hdocument hentries hregistered,
    Registry.protocols_extend hregistered⟩

end Supplies

/-! ### Command lines -/

/-- The arguments that list the built-in protocols and those of a table file. -/
def protocolsArgs (file : Text) : List Text :=
  [Command.protocols.name, Text.ofString "--protocols", file]

/-- The arguments that resolve a path among the built-in protocols and those of a table file. -/
def pathArgs (path file : Text) : List Text :=
  [Command.path.name, path, Text.ofString "--protocols", file]

section Read

variable {file operand : Text} (hfile : file.head? ≠ some (.scalar '-'))
  (hoperand : operand.head? ≠ some (.scalar '-'))
include hfile

theorem Invocation.read_protocolsArgs : read (protocolsArgs file) = .ok (.protocols (some file)) :=
  read_protocols_table (Level.mark_eq_plain hfile)

include hoperand

theorem Invocation.read_lookupArgs :
    read (lookupArgs operand file) = .ok (.lookup (some file) operand) :=
  read_lookup_table (Level.mark_eq_plain hoperand) (Level.mark_eq_plain hfile)

theorem Invocation.read_table_lookup :
    read [Command.lookup.name, Text.ofString "--protocols", file, operand] =
      .ok (.lookup (some file) operand) :=
  read_lookup_of_level
    (Level.read_table_text rfl (Level.mark_eq_plain hfile) (Level.mark_eq_plain hoperand) rfl)

theorem Invocation.read_pathArgs : read (pathArgs operand file) = .ok (.path (some file) operand) :=
  read_path_of_level
    (Level.read_text_table rfl (Level.mark_eq_plain hfile) (Level.mark_eq_plain hoperand) rfl)

theorem Invocation.read_table_path :
    read [Command.path.name, Text.ofString "--protocols", file, operand] =
      .ok (.path (some file) operand) :=
  read_path_of_level
    (Level.read_table_text rfl (Level.mark_eq_plain hfile) (Level.mark_eq_plain hoperand) rfl)

end Read

/-! ### Endings -/

section Endings

variable {readFile : Path → Except ReadFault (List UInt8)} {file : Text} {path : Path}

/-- Every row ends in the tag. -/
theorem ofBytes_tag_suffix_row (d : Descriptor) : Text.ofBytes d.tag <:+ row d :=
  List.suffix_append _ _

/-- Trouble with the table file is looked for first. -/
theorem answer_eq_error_of_loadRegistry {invocation : Invocation} {trouble : Trouble}
    (htable : invocation.table? = some file)
    (hload : loadRegistry readFile (some file) = .error trouble) :
    answer readFile invocation = .error trouble := by
  cases invocation with
  | protocols table | lookup table _ | path table _ =>
    have hsame : table = some file := htable
    rw [answer, hsame, hload]
    rfl
  | nothing | encode _ | decode _ | version => cases htable

/-- Where no registry is loaded from a file, every command that reads the file ends with the same
report. -/
theorem exists_refusal (hne : file ≠ []) (hpath : systemPath file = .ok path)
    (hrefused : ¬∃ ds, Supplies readFile path ds) :
    ∃ message, ∀ args invocation, Invocation.read args = .ok invocation →
      invocation.table? = some file →
      run readFile args = .exit ⟨2, [], programName ++ message ++ [newline]⟩ := by
  cases hload : loadRegistry readFile (some file) with
  | ok r => exact absurd ((loadRegistry_eq_ok.mp hload).supplies hne hpath) hrefused
  | error trouble =>
    rcases trouble.ending_cases with ⟨cause, rfl⟩ | ⟨message, hending⟩
    · refine absurd hload (loadRegistry_ne_brokenOff (fun file' hfile' => ⟨path, ?_⟩) cause)
      rw [← Option.some.inj hfile', hpath]
    · refine ⟨message, fun args invocation hread htable => ?_⟩
      rw [run_of_answer_eq_error hread (answer_eq_error_of_loadRegistry htable hload), hending]

/-- The rows of the built-in descriptors, then those of the table. -/
theorem run_protocols {ds : List Descriptor} (hne : file ≠ [])
    (hdash : file.head? ≠ some (.scalar '-'))
    (hpath : systemPath file = .ok path) (hds : Supplies readFile path ds) :
    run readFile (protocolsArgs file) =
      .exit ⟨0, lines (header :: (Descriptor.builtins ++ ds).map row), []⟩ := by
  obtain ⟨r, hloads, hprotocols⟩ := hds.loads hne hpath
  have hanswer : answer readFile (.protocols (some file)) =
      .ok (header :: (Descriptor.builtins ++ ds).map row) := by
    rw [answer, loadRegistry_eq_ok.mpr hloads, ← hprotocols]
    rfl
  exact run_of_answer_eq_cons (Invocation.read_protocolsArgs hdash) hanswer

/-- **Tables on the command line.**  Let a file be named by a text that spells a path and does not
look like an option.  Listing the protocols succeeds exactly if the file can be read, its table is
accepted, and the codes and names of its entries are new and distinct.  Then the header is printed,
the rows of the 13 built-in descriptors and one row for each entry in the order of the file, each
ending in the hexadecimal text of the varint of its code.  Otherwise the three commands that read a
table all end with status 2 and one and the same report, whatever is looked up or resolved. -/
theorem table_commands (hne : file ≠ []) (hdash : file.head? ≠ some (.scalar '-'))
    (hpath : systemPath file = .ok path) :
    ((∃ o, run readFile (protocolsArgs file) = .exit o ∧ o.status = 0) ↔
      ∃ ds, Supplies readFile path ds) ∧
    (∀ ds, Supplies readFile path ds →
      run readFile (protocolsArgs file) =
        .exit ⟨0, lines (header :: (Descriptor.builtins ++ ds).map row), []⟩ ∧
      Descriptor.builtins.length = 13 ∧
      (∃ contents entries, readFile path = .ok contents ∧
        Table.readDocument (.bytes contents) = .ok (Table.document entries) ∧
        List.Forall₂ (fun e d => Table.ofEntry e = .ok d) entries ds) ∧
      ∀ d ∈ ds, ∃ tag, Varint.encode? (.int d.code) = .ok tag ∧ Text.ofBytes tag <:+ row d) ∧
    ((¬∃ ds, Supplies readFile path ds) →
      ∃ message, let refused : Ending := .exit ⟨2, [], programName ++ message ++ [newline]⟩
        run readFile (protocolsArgs file) = refused ∧
        (∀ key : Text, key.head? ≠ some (.scalar '-') →
          run readFile (lookupArgs key file) = refused ∧
          run readFile [Command.lookup.name, Text.ofString "--protocols", file, key] = refused) ∧
        ∀ names : Text, names.head? ≠ some (.scalar '-') →
          run readFile (pathArgs names file) = refused ∧
          run readFile [Command.path.name, Text.ofString "--protocols", file, names] =
            refused) := by
  have hprotocols := Invocation.read_protocolsArgs hdash
  refine ⟨⟨?_, ?_⟩, ?_, ?_⟩
  · intro hsuccess
    obtain ⟨o, hrun, hstatus⟩ := hsuccess
    by_contra hnone
    obtain ⟨message, hrefused⟩ := exists_refusal hne hpath hnone
    rw [hrefused _ _ hprotocols rfl] at hrun
    cases hrun
    cases hstatus
  · intro hsupplied
    obtain ⟨ds, hds⟩ := hsupplied
    exact ⟨_, run_protocols hne hdash hpath hds, rfl⟩
  · intro ds hds
    have hlisted := run_protocols hne hdash hpath hds
    obtain ⟨contents, hread, htable, -⟩ := hds
    obtain ⟨entries, hdocument, hentries⟩ := Table.read_eq_ok.mp htable
    refine ⟨hlisted, rfl, ⟨contents, entries, hread, hdocument, hentries⟩, ?_⟩
    intro d hd
    have hchecked : d.Checked := Table.read_checked htable d hd
    have htag : Varint.encode? (.int d.code) = .ok d.tag := by
      rw [hchecked.tag_eq]
      exact Varint.encode?_natCast hchecked.code_le
    exact ⟨d.tag, htag, ofBytes_tag_suffix_row d⟩
  · intro hnone
    obtain ⟨message, hrefused⟩ := exists_refusal hne hpath hnone
    refine ⟨message, hrefused _ _ hprotocols rfl,
      fun key hkey => ⟨?_, ?_⟩, fun names hnames => ⟨?_, ?_⟩⟩
    · exact hrefused _ _ (Invocation.read_lookupArgs hdash hkey) rfl
    · exact hrefused _ _ (Invocation.read_table_lookup hdash hkey) rfl
    · exact hrefused _ _ (Invocation.read_pathArgs hdash hnames) rfl
    · exact hrefused _ _ (Invocation.read_table_path hdash hnames) rfl

/-- The table of a new protocol is listed with its row at the end; one that takes a code again is
refused by all three commands alike. -/
theorem table_commands_clash :
    let path := tablePath.map fun c => UInt8.ofNat c.value
    let refused : Ending := .exit
      ⟨2, [], Text.ofString
        "maddr: error [ERR_DUPLICATE_CODE]: protocol code 4 already taken by 'ip4'\n"⟩
    tablePath ≠ [] ∧ tablePath.head? ≠ some (.scalar '-') ∧ systemPath tablePath = .ok path ∧
      Supplies (fun _ => .ok numeralTable) path [numeralNamed] ∧
      run (fun _ => .ok numeralTable) (protocolsArgs tablePath) =
        .exit ⟨0, lines (header :: (Descriptor.builtins ++ [numeralNamed]).map row), []⟩ ∧
      (¬∃ ds, Supplies (fun _ => .ok clashingTable) path ds) ∧
      run (fun _ => .ok clashingTable) (protocolsArgs tablePath) = refused ∧
      run (fun _ => .ok clashingTable) (lookupArgs (Text.ofString "x") tablePath) = refused ∧
      run (fun _ => .ok clashingTable) (pathArgs (Text.ofString "/ip4") tablePath) = refused := by
  intro path refused
  have hne : tablePath ≠ [] := by decide
  have hdash : tablePath.head? ≠ some (.scalar '-') := by decide
  have hpath : systemPath tablePath = .ok path := rfl
  have hfresh : Registry.builtin.Fresh [numeralNamed] :=
    ⟨⟨by decide, by decide⟩, List.forall_mem_singleton.mpr (by decide)⟩
  have hsupplied : Supplies (fun _ => .ok numeralTable) path [numeralNamed] :=
    ⟨numeralTable, rfl, read_numeralTable, hfresh⟩
  have hrun : run (fun _ => .ok clashingTable) (protocolsArgs tablePath) =
      refused := by decide +kernel
  obtain ⟨hiff, -, hothers⟩ := @table_commands (fun _ => .ok clashingTable) _ _ hne hdash hpath
  have hnone : ¬∃ ds, Supplies (fun _ => .ok clashingTable) path ds := by
    intro hsupplies
    obtain ⟨o, ho, hstatus⟩ := hiff.mpr hsupplies
    obtain rfl := Ending.exit.inj (hrun.symm.trans ho)
    cases hstatus
  obtain ⟨message, hprotocols, hlookup, hnames⟩ := hothers hnone
  have hsame := hprotocols.symm.trans hrun
  refine ⟨hne, hdash, hpath, hsupplied,
    ((table_commands hne hdash hpath).2.1 _ hsupplied).1, hnone, hrun, ?_, ?_⟩
  · exact (hlookup (Text.ofString "x") (by decide)).1.trans hsame
  · exact (hnames (Text.ofString "/ip4") (by decide)).1.trans hsame

/-- A surrogate that stands for no byte is in no path, so that a file cannot even be looked for by
such a name: the run breaks off. -/
theorem protocols_surrogate_breaks_off :
    let file : Text := [.surrogate 0]
    file ≠ [] ∧ CodePoint.scalar '\x00' ∉ file ∧ file.head? ≠ some (.scalar '-') ∧
      run (fun _ => .error .notFound) (protocolsArgs file) = .brokenOff .surrogateInPath := by
  intro file
  have hdash : file.head? ≠ some (.scalar '-') := by decide
  exact ⟨by decide, by decide, hdash,
    run_of_answer_eq_error (Invocation.read_protocolsArgs hdash) rfl⟩

end Endings

end CommandLine

end AddressProtocols
