import AddressProtocols.CommandLine.Program
import AddressProtocols.Proofs.Json.String
import AddressProtocols.Proofs.Registry.Growth

/-!
# The registry of a command

A command works with the built-in protocols, and with those of a table file if it is given one.

* `exists_systemPath_eq_ok`: an argument that a process can be given spells a path;
* `Loads` relates a table file to the registry: every entry of the table has been accepted, and then
  every descriptor has been registered (`loadRegistry_eq_ok`);
* `Loads.consistent`: in that registry codes and names find their descriptors.
-/

namespace AddressProtocols

/-! ### Paths -/

/-- A text that a process can be given as an argument: characters, none of them null. -/
def Text.Receivable (t : Text) : Prop := t.Scalar ∧ .scalar '\x00' ∉ t

theorem Text.Receivable.of_suffix {t u : Text} (h : t.Receivable) (hu : u <:+ t) : u.Receivable :=
  ⟨fun c hc => h.1 c (hu.subset hc), fun hnull => h.2 (hu.subset hnull)⟩

theorem UInt8.zero_ne_ofNat {n : ℕ} (hpos : 0 < n) (hn : n < 256) :
    (0 : UInt8) ≠ UInt8.ofNat n := by
  intro h
  have hzero := congrArg UInt8.toNat h
  rw [UInt8.toNat_ofNat_of_lt' hn] at hzero
  exact absurd hzero.symm hpos.ne'

/-- Only the null character has a zero byte. -/
theorem zero_notMem_utf8EncodeChar {c : Char} (hne : c ≠ '\x00') : 0 ∉ String.utf8EncodeChar c := by
  have hpos : 0 < c.val.toNat := by
    by_contra hzero
    exact hne (Char.ext (UInt32.toNat_inj.mp (by simpa using hzero)))
  rw [String.utf8EncodeChar.eq_def]
  dsimp only
  split
  · simpa using UInt8.zero_ne_ofNat hpos (by omega)
  · split
    · simp only [List.mem_cons, List.not_mem_nil, or_false, not_or]
      constructor <;> exact UInt8.zero_ne_ofNat (by omega) (by omega)
    · split
      · simp only [List.mem_cons, List.not_mem_nil, or_false, not_or]
        refine ⟨?_, ?_, ?_⟩ <;> exact UInt8.zero_ne_ofNat (by omega) (by omega)
      · simp only [List.mem_cons, List.not_mem_nil, or_false, not_or]
        refine ⟨?_, ?_, ?_, ?_⟩ <;> exact UInt8.zero_ne_ofNat (by omega) (by omega)

theorem Text.systemBytes?_scalar_cons (char : Char) (rest : Text) :
    systemBytes? (.scalar char :: rest) =
      (systemBytes? rest).map (String.utf8EncodeChar char ++ ·) := by
  rw [systemBytes?, systemBytes?, List.mapM_cons, Option.map_map]
  cases (List.mapM _ rest : Option (List (List UInt8))) with
  | none => rfl
  | some pieces => rfl

theorem Text.Receivable.exists_systemBytes? {t : Text} (h : t.Receivable) :
    ∃ bytes, t.systemBytes? = some bytes ∧ 0 ∉ bytes := by
  induction t with
  | nil => exact ⟨[], rfl, nofun⟩
  | cons c rest ih =>
    obtain ⟨bytes, hbytes, hzero⟩ := ih (h.of_suffix (List.suffix_cons _ _))
    obtain ⟨char, rfl⟩ := h.1 c List.mem_cons_self
    have hne : char ≠ '\x00' := by
      rintro rfl
      exact h.2 List.mem_cons_self
    refine ⟨String.utf8EncodeChar char ++ bytes, ?_, fun hmem => ?_⟩
    · rw [systemBytes?_scalar_cons, hbytes, Option.map_some]
    · exact (List.mem_append.mp hmem).elim (zero_notMem_utf8EncodeChar hne) hzero

namespace CommandLine

/-- What a process can be given as an argument spells a path. -/
theorem exists_systemPath_eq_ok {t : Text} (h : t.Receivable) :
    ∃ bytes, systemPath t = .ok bytes := by
  obtain ⟨bytes, hbytes, hzero⟩ := h.exists_systemBytes?
  refine ⟨bytes, ?_⟩
  rw [systemPath, hbytes]
  exact if_neg (by simpa using hzero)

/-! ### Tables -/

variable {readFile : Path → Except ReadFault (List UInt8)}

/-- The registry that a command works with: the built-in one, extended by the descriptors of all
entries of the table file.  An empty path is that of no file. -/
inductive Loads (readFile : Path → Except ReadFault (List UInt8)) : Option Text → Registry → Prop
  | none : Loads readFile none .builtin
  | empty : Loads readFile (some []) .builtin
  | file {path : Text} {bytes : Path} {contents : List UInt8} {entries : List Json.Document}
      {ds : List Descriptor} {r : Registry} (hne : path ≠ []) (hpath : systemPath path = .ok bytes)
      (hread : readFile bytes = .ok contents)
      (hdocument : Table.readDocument (.bytes contents) = .ok (Table.document entries))
      (hentries : List.Forall₂ (fun e d => Table.ofEntry e = .ok d) entries ds)
      (hregistered : Registry.builtin.extend ds = .ok r) : Loads readFile (some path) r

/-- Loading a table extends a registry by the descriptors of its entries, or does nothing. -/
theorem load_map_eq_ok {source : Table.Source} {r r' : Registry} :
    (r.load source).map (·.1) = .ok r' ↔
      ∃ entries ds, Table.readDocument source = .ok (Table.document entries) ∧
        List.Forall₂ (fun e d => Table.ofEntry e = .ok d) entries ds ∧ r.extend ds = .ok r' := by
  have hload : ∀ ds, r.load source = .ok (r', ds) ↔
      (∃ entries, Table.readDocument source = .ok (Table.document entries) ∧
        List.Forall₂ (fun e d => Table.ofEntry e = .ok d) entries ds) ∧ r.extend ds = .ok r' := by
    intro ds
    have happly : (Registry.Change.load source).apply r = .ok (r', ds) ↔ _ :=
      Registry.Change.apply_eq_ok
    exact happly.trans (and_congr_left fun _ => Registry.Change.batch_eq_ok)
  rw [Outcome.map_eq_ok]
  constructor
  · rintro ⟨⟨r₁, ds⟩, h, rfl⟩
    obtain ⟨⟨entries, hdocument, hentries⟩, hextend⟩ := (hload ds).mp h
    exact ⟨entries, ds, hdocument, hentries, hextend⟩
  · rintro ⟨entries, ds, hdocument, hentries, hextend⟩
    exact ⟨(r', ds), (hload ds).mpr ⟨⟨entries, hdocument, hentries⟩, hextend⟩, rfl⟩

theorem loadRegistry_eq_ok {table : Option Text} {r : Registry} :
    loadRegistry readFile table = .ok r ↔ Loads readFile table r := by
  constructor
  · intro h
    rw [loadRegistry.eq_def] at h
    split at h
    · cases h
      exact .none
    · cases h
      exact .empty
    · rename_i hne
      obtain ⟨bytes, hpath, h⟩ := Outcome.bind_eq_ok.mp h
      split at h
      · cases h
      · rename_i contents hread
        obtain ⟨entries, ds, hdocument, hentries, hregistered⟩ :=
          load_map_eq_ok.mp (Outcome.mapError_eq_ok.mp h)
        exact .file hne hpath hread hdocument hentries hregistered
  · intro h
    cases h with
    | none => rfl
    | empty => rfl
    | file hne hpath hread hdocument hentries hregistered =>
      rw [loadRegistry.eq_3 _ _ hne, Outcome.bind_eq_ok]
      refine ⟨_, hpath, ?_⟩
      simp only [hread]
      exact Outcome.mapError_eq_ok.mpr (load_map_eq_ok.mpr ⟨_, _, hdocument, hentries, hregistered⟩)

/-- Where a registry cannot be loaded there is something to report. -/
theorem loadRegistry_ne_brokenOff {table : Option Text}
    (htable : ∀ file, table = some file → ∃ path, systemPath file = .ok path) (cause : Breakage) :
    loadRegistry readFile table ≠ .error (.brokenOff cause) := by
  intro h
  rw [loadRegistry.eq_def] at h
  split at h
  · cases h
  · cases h
  · obtain ⟨path, hpath⟩ := htable _ rfl
    rcases Outcome.bind_eq_error.mp h with hpath' | ⟨path', -, h⟩
    · rw [hpath] at hpath'
      cases hpath'
    · split at h
      · cases h
      · obtain ⟨failure, -, hfailure⟩ := Outcome.mapError_eq_error.mp h
        cases hfailure

theorem Loads.consistent {table : Option Text} {r : Registry} (h : Loads readFile table r) :
    r.Consistent := by
  have hbuiltin : Registry.builtin.Consistent := Registry.builtin_reachable.consistent
  cases h with
  | none => exact hbuiltin
  | empty => exact hbuiltin
  | file _ _ _ _ hentries hregistered =>
    exact hbuiltin.extend (Outcome.forall_mem_of_forall₂ hentries fun _ _ => Table.ofEntry_checked)
      hregistered

end CommandLine

end AddressProtocols
