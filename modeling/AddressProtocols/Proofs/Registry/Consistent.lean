import AddressProtocols.Registry
import AddressProtocols.Proofs.Descriptor
import Mathlib.Data.List.Nodup

/-!
# Consistent registries

A registry keeps its descriptors three times: in order, by code and by name.  `Registry.Consistent`
says that the three agree, that codes and names are unique and that every descriptor is checked.

* `Consistent.findCode_eq_some` and `Consistent.findName_eq_some`: in a consistent registry a lookup
  finds the one descriptor with the code or name;
* `Consistent.collision?_eq_none` and `Consistent.collision?_eq_some`: a descriptor collides with
  nothing exactly if its code and its name are new, and otherwise with the one that has them;
* `Consistent.push`, `Consistent.add` and `Consistent.extend`: adding descriptors one after the
  other keeps a registry consistent. -/

namespace AddressProtocols

namespace Registry

/-! ### Indices -/

/-- With distinct keys, looking up a key finds exactly the values listed with it. -/
theorem lookup_eq_some_iff_mem {α β : Type} [BEq α] [LawfulBEq α] {entries : List (α × β)}
    (h : (entries.map Prod.fst).Nodup) {k : α} {v : β} :
    entries.lookup k = some v ↔ (k, v) ∈ entries := by
  induction entries with
  | nil => simp
  | cons e rest ih =>
    obtain ⟨a, b⟩ := e
    rw [List.map_cons, List.nodup_cons] at h
    obtain ⟨hnew, hrest⟩ := h
    by_cases hk : k = a
    · subst hk
      have hnone : (k, v) ∉ rest := fun hmem => hnew (List.mem_map.mpr ⟨(k, v), hmem, rfl⟩)
      simp [hnone, eq_comm]
    · have hne : (k == a) = false := by simpa using hk
      rw [List.lookup_cons, hne]
      simp [ih hrest, hk]

/-- The index of descriptors by a key, the latest first. -/
def index {κ : Type} (key : Descriptor → κ) (ds : List Descriptor) : List (κ × Descriptor) :=
  (ds.map fun d => (key d, d)).reverse

section Index

variable {κ : Type} (key : Descriptor → κ) (ds : List Descriptor)

theorem index_append_singleton (d : Descriptor) :
    index key (ds ++ [d]) = (key d, d) :: index key ds := by
  simp [index]

theorem mem_index {k : κ} {d : Descriptor} : (k, d) ∈ index key ds ↔ d ∈ ds ∧ key d = k := by
  rw [index, List.mem_reverse, List.mem_map]
  constructor
  · intro h
    obtain ⟨d', hmem, heq⟩ := h
    cases heq
    exact ⟨hmem, rfl⟩
  · intro h
    obtain ⟨hmem, rfl⟩ := h
    exact ⟨d, hmem, rfl⟩

theorem index_keys : (index key ds).map Prod.fst = (ds.map key).reverse := by
  rw [index, List.map_reverse, List.map_map]
  rfl

theorem lookup_index [BEq κ] [LawfulBEq κ] (h : (ds.map key).Nodup) {k : κ} {d : Descriptor} :
    (index key ds).lookup k = some d ↔ d ∈ ds ∧ key d = k := by
  have hkeys : ((index key ds).map Prod.fst).Nodup := by
    rw [index_keys]
    exact List.nodup_reverse.mpr h
  rw [lookup_eq_some_iff_mem hkeys, mem_index]

end Index

/-! ### Consistency -/

/-- The indices agree with the descriptors, codes and names are unique, and every descriptor is
checked. -/
structure Consistent (r : Registry) : Prop where
  checked : ∀ d ∈ r.protocols, d.Checked
  codes_nodup : (r.protocols.map (·.code)).Nodup
  names_nodup : (r.protocols.map (·.name)).Nodup
  byCode_eq : r.byCode = index (·.code) r.protocols
  byName_eq : r.byName = index (·.name) r.protocols

theorem empty_consistent : empty.Consistent :=
  ⟨by simp [empty], by simp [empty], by simp [empty], rfl, rfl⟩

namespace Consistent

variable {r r' : Registry} {d : Descriptor}

theorem findCode_eq_some (h : r.Consistent) {code : ℕ} :
    r.findCode code = some d ↔ d ∈ r.protocols ∧ d.code = code := by
  rw [findCode, h.byCode_eq, lookup_index _ _ h.codes_nodup]

theorem findName_eq_some (h : r.Consistent) {name : Text} :
    r.findName name = some d ↔ d ∈ r.protocols ∧ d.name = name := by
  rw [findName, h.byName_eq, lookup_index _ _ h.names_nodup]

theorem findCode_eq_none (h : r.Consistent) {code : ℕ} :
    r.findCode code = none ↔ code ∉ r.protocols.map (·.code) := by
  rw [Option.eq_none_iff_forall_ne_some, List.mem_map, not_exists]
  exact forall_congr' fun d => not_congr h.findCode_eq_some

theorem findName_eq_none (h : r.Consistent) {name : Text} :
    r.findName name = none ↔ name ∉ r.protocols.map (·.name) := by
  rw [Option.eq_none_iff_forall_ne_some, List.mem_map, not_exists]
  exact forall_congr' fun d => not_congr h.findName_eq_some

/-- A code has one descriptor only. -/
theorem eq_of_code_eq (h : r.Consistent) {p q : Descriptor} (hp : p ∈ r.protocols)
    (hq : q ∈ r.protocols) (hcode : p.code = q.code) : p = q := by
  have hfindp := h.findCode_eq_some.mpr ⟨hp, hcode⟩
  have hfindq := h.findCode_eq_some.mpr ⟨hq, rfl⟩
  exact Option.some.inj (hfindp.symm.trans hfindq)

theorem collision?_eq_none (h : r.Consistent) :
    r.collision? d = none ↔
      d.code ∉ r.protocols.map (·.code) ∧ d.name ∉ r.protocols.map (·.name) := by
  rw [← h.findCode_eq_none, ← h.findName_eq_none, collision?]
  cases r.findCode d.code with
  | some existing => simp
  | none =>
    cases r.findName d.name with
    | some existing => simp
    | none => simp

/-- A collision is reported with the one descriptor that has the code, or the name if the code is
new. -/
theorem collision?_eq_some (h : r.Consistent) {failure : Failure} :
    r.collision? d = some failure ↔
      (∃ existing ∈ r.protocols, existing.code = d.code ∧ failure = .codeTaken d existing) ∨
        d.code ∉ r.protocols.map (·.code) ∧
          ∃ existing ∈ r.protocols, existing.name = d.name ∧ failure = .nameTaken d existing := by
  rw [← h.findCode_eq_none]
  simp only [← and_assoc, ← h.findCode_eq_some, ← h.findName_eq_some]
  rw [collision?]
  cases r.findCode d.code with
  | some existing => simp [eq_comm]
  | none =>
    cases r.findName d.name with
    | some existing => simp [eq_comm]
    | none => simp

/-! ### Adding descriptors -/

/-- A checked descriptor with a new code and a new name may be put at the end. -/
theorem push (h : r.Consistent) (hd : d.Checked) (hcode : d.code ∉ r.protocols.map (·.code))
    (hname : d.name ∉ r.protocols.map (·.name)) : (r.push d).Consistent where
  checked := by
    intro d' hd'
    rcases List.mem_append.mp hd' with hold | hnew
    · exact h.checked d' hold
    · rw [List.mem_singleton.mp hnew]
      exact hd
  codes_nodup := by
    simp only [Registry.push, List.map_append, List.map_cons, List.map_nil]
    exact List.nodup_append_comm.mp (List.nodup_cons.mpr ⟨hcode, h.codes_nodup⟩)
  names_nodup := by
    simp only [Registry.push, List.map_append, List.map_cons, List.map_nil]
    exact List.nodup_append_comm.mp (List.nodup_cons.mpr ⟨hname, h.names_nodup⟩)
  byCode_eq := by
    simp only [Registry.push, index_append_singleton, h.byCode_eq]
  byName_eq := by
    simp only [Registry.push, index_append_singleton, h.byName_eq]

/-- Adding puts the descriptor at the end, and does so exactly if its code and name are new. -/
theorem add_eq_ok (h : r.Consistent) :
    r.add d = .ok r' ↔
      d.code ∉ r.protocols.map (·.code) ∧ d.name ∉ r.protocols.map (·.name) ∧ r' = r.push d := by
  rw [← and_assoc, ← h.collision?_eq_none, Registry.add]
  cases r.collision? d with
  | some failure => simp
  | none => simp [eq_comm]

theorem add_eq_error (h : r.Consistent) {failure : Failure} :
    r.add d = .error failure ↔
      (∃ existing ∈ r.protocols, existing.code = d.code ∧ failure = .codeTaken d existing) ∨
        d.code ∉ r.protocols.map (·.code) ∧
          ∃ existing ∈ r.protocols, existing.name = d.name ∧ failure = .nameTaken d existing := by
  rw [← h.collision?_eq_some, Registry.add]
  cases r.collision? d with
  | some found => simp
  | none => simp

theorem add (h : r.Consistent) (hd : d.Checked) (hadd : r.add d = .ok r') : r'.Consistent := by
  obtain ⟨hcode, hname, rfl⟩ := h.add_eq_ok.mp hadd
  exact h.push hd hcode hname

/-- The invariant of a batch: every step of it starts from a consistent registry. -/
theorem extend {ds : List Descriptor} (h : r.Consistent) (hds : ∀ d ∈ ds, d.Checked)
    (hextend : r.extend ds = .ok r') : r'.Consistent := by
  -- a collision inside the batch is one with the registry that the earlier part has made
  induction ds generalizing r with
  | nil =>
    cases hextend
    exact h
  | cons d rest ih =>
    rw [Registry.extend, List.foldlM_cons, Outcome.bind_eq_ok] at hextend
    obtain ⟨r₁, hadd, hrest⟩ := hextend
    have h₁ : r₁.Consistent := h.add (hds d List.mem_cons_self) hadd
    exact ih h₁ (fun d' hd' => hds d' (List.mem_cons_of_mem d hd')) hrest

end Consistent

end Registry

end AddressProtocols
