import AddressProtocols.Table
import AddressProtocols.Proofs.Descriptor

/-!
# What a table holds

A table that can be read is an object with the single member `protocols`, an array with an entry for
each descriptor in the same order (`Table.read_eq_ok`); the descriptors of entries are checked
(`Table.ofEntry_checked`).
-/

namespace AddressProtocols

namespace Table

theorem ofEntries_eq_ok {index : ℕ} {entries : List Json.Document} {ds : List Descriptor} :
    ofEntries index entries = .ok ds ↔ List.Forall₂ (fun e d => ofEntry e = .ok d) entries ds := by
  induction entries generalizing index ds with
  | nil => simp [ofEntries, eq_comm]
  | cons e rest ih =>
    rw [ofEntries, List.forall₂_cons_left_iff]
    cases he : ofEntry e with
    | error fault => simp
    | ok d => simp [Outcome.map_cons_eq_ok, ih]

/-- Entries fail as the first one does that makes no descriptor, with its index. -/
theorem ofEntries_eq_error {index : ℕ} {entries : List Json.Document} {fault : Fault} :
    ofEntries index entries = .error fault ↔
      ∃ before e after reason, entries = before ++ e :: after ∧
        (∀ b ∈ before, ∃ d, ofEntry b = .ok d) ∧ ofEntry e = .error reason ∧
        fault = .entry (index + before.length) reason := by
  simp only [exists_and_left]
  induction entries generalizing index with
  | nil => simp [ofEntries]
  | cons e rest ih =>
    rw [ofEntries, Outcome.exists_append_cons_iff]
    cases he : ofEntry e with
    | error reason => simp [eq_comm]
    | ok d =>
      have hindex : ∀ n : ℕ, index + 1 + n = index + (n + 1) := fun n => by omega
      simp [Outcome.map_eq_error, ih, hindex]

/-- The document of a table with the given entries. -/
def document (entries : List Json.Document) : Json.Document :=
  .object [(Text.ofString "protocols", .array entries)]

theorem ofDocument_eq_ok {doc : Json.Document} {ds : List Descriptor} :
    ofDocument doc = .ok ds ↔
      ∃ entries, doc = document entries ∧
        List.Forall₂ (fun e d => ofEntry e = .ok d) entries ds := by
  constructor
  · intro h
    unfold ofDocument at h
    split at h
    · split at h
      · rename_i hname
        split at h
        · rename_i entries
          subst hname
          exact ⟨entries, rfl, ofEntries_eq_ok.mp h⟩
        · cases h
      · cases h
    · cases h
  · intro h
    obtain ⟨entries, rfl, hentries⟩ := h
    rw [document, ofDocument, if_pos rfl]
    exact ofEntries_eq_ok.mpr hentries

theorem read_eq_ok {source : Source} {ds : List Descriptor} :
    read source = .ok ds ↔
      ∃ entries, readDocument source = .ok (document entries) ∧
        List.Forall₂ (fun e d => ofEntry e = .ok d) entries ds := by
  rw [read, Outcome.bind_eq_ok]
  simp only [ofDocument_eq_ok]
  constructor
  · intro h
    obtain ⟨doc, hdoc, entries, rfl, hentries⟩ := h
    exact ⟨entries, hdoc, hentries⟩
  · intro h
    obtain ⟨entries, hdoc, hentries⟩ := h
    exact ⟨_, hdoc, entries, rfl, hentries⟩

theorem ofEntry_checked {e : Json.Document} {d : Descriptor} (h : ofEntry e = .ok d) :
    d.Checked := by
  unfold ofEntry at h
  split at h
  · simp only [ofMembers] at h
    split at h
    · cases h
    · split at h
      · cases h
      · split at h
        · cases h
        · obtain ⟨size, -, h⟩ := Outcome.bind_eq_ok.mp h
          exact (Descriptor.ofFields_eq_ok.mp (Outcome.mapError_eq_ok.mp h)).1
  · cases h

theorem read_checked {source : Source} {ds : List Descriptor} (h : read source = .ok ds) :
    ∀ d ∈ ds, d.Checked := by
  obtain ⟨entries, -, hentries⟩ := read_eq_ok.mp h
  exact Outcome.forall_mem_of_forall₂ hentries fun _ _ => ofEntry_checked

end Table

end AddressProtocols
