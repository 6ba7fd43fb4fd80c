import AddressProtocols.Proofs.Registry.Consistent
import AddressProtocols.Proofs.Varint.Groups
import Mathlib.Data.Int.Notation

/-!
# Sessions

A session makes registries and changes them, in any order and with whatever arguments.

* `register_eq_ok`, `registerAll_eq_ok` and `load_eq_ok` say all that a successful call does: its
  arguments were sound, and the registry was extended by them;
* `Change` is a call that may add to a registry: one value, several values, or a table.
  `Change.batch` is what it would add, which does not depend on the registry, and a change checks
  its batch before it extends the registry by it (`Change.apply_eq`);
* `Registry.after` is the registry after a change, as it was if the change fails;
* `Call` is a change, or the creation of another registry; `Registry.session` lists the registries
  that a sequence of calls leaves behind;
* `Registry.Reachable` holds of the registries that one creation and any changes can lead to, which
  are those of sessions (`reachable_of_mem_session`); all of them are consistent
  (`Reachable.consistent`).
-/

namespace AddressProtocols

namespace Registry

/-! ### What a successful call does -/

section Calls

variable {r r' : Registry} {d : Descriptor} {ds : List Descriptor}

theorem extend_singleton : r.extend [d] = r.add d := by
  rw [extend, List.foldlM_cons]
  exact bind_pure (r.add d)

theorem register_eq_ok {v : Value} :
    r.register v = .ok (r', d) ↔ checkOne v = .ok d ∧ r.add d = .ok r' := by
  rw [register, Outcome.bind_eq_ok]
  constructor
  · intro h
    obtain ⟨d₁, hd, h⟩ := h
    obtain ⟨r₁, hadd, h⟩ := Outcome.bind_eq_ok.mp h
    cases h
    exact ⟨hd, hadd⟩
  · intro h
    exact ⟨d, h.1, Outcome.bind_eq_ok.mpr ⟨r', h.2, rfl⟩⟩

theorem registerAll_eq_ok {vs : List Value} :
    r.registerAll vs = .ok (r', ds) ↔ checkAll vs = .ok ds ∧ r.extend ds = .ok r' := by
  rw [registerAll, Outcome.bind_eq_ok]
  constructor
  · intro h
    obtain ⟨ds₁, hds, h⟩ := h
    obtain ⟨r₁, hextend, h⟩ := Outcome.bind_eq_ok.mp h
    cases h
    exact ⟨hds, hextend⟩
  · intro h
    exact ⟨ds, h.1, Outcome.bind_eq_ok.mpr ⟨r', h.2, rfl⟩⟩

theorem load_eq_ok {source : Table.Source} :
    r.load source = .ok (r', ds) ↔
      ∃ read, Table.read source = .ok read ∧ checkAll (read.map Descriptor.value) = .ok ds ∧
        r.extend ds = .ok r' := by
  rw [load, Outcome.bind_eq_ok]
  simp only [Outcome.mapError_eq_ok, registerAll_eq_ok]

end Calls

/-! ### Changes -/

/-- A call that may add to a registry. -/
inductive Change where
  | register (v : Value)
  | registerAll (vs : List Value)
  | load (source : Table.Source)

namespace Change

/-- The changed registry, with the descriptors as stored. -/
def apply (r : Registry) : Change → Except Failure (Registry × List Descriptor)
  | register v => (r.register v).map fun (r', d) => (r', [d])
  | registerAll vs => r.registerAll vs
  | load source => r.load source

/-- The descriptors a change would add, checked before the registry is looked at. -/
def batch : Change → Except Failure (List Descriptor)
  | register v => (checkOne v).map fun d => [d]
  | registerAll vs => checkAll vs
  | load source =>
    (Table.read source).mapError .table >>= fun ds => checkAll (ds.map Descriptor.value)

/-- A change checks its batch and then extends the registry. -/
theorem apply_eq (r : Registry) (c : Change) :
    c.apply r = c.batch >>= fun ds => (r.extend ds).map fun r' => (r', ds) := by
  have hall : ∀ vs : List Value, r.registerAll vs =
      checkAll vs >>= fun ds => (r.extend ds).map fun r' => (r', ds) := by
    intro vs
    simp only [Registry.registerAll, Outcome.bind_pure_eq_map]
  cases c with
  | register v =>
    rw [apply, batch, Registry.register]
    cases checkOne v with
    | error failure => rfl
    | ok d =>
      show (r.add d >>= fun r' => pure (r', d)).map _ = (r.extend [d]).map _
      rw [extend_singleton]
      cases r.add d <;> rfl
  | registerAll vs => exact hall vs
  | load source =>
    rw [apply, batch, Registry.load]
    cases (Table.read source).mapError Failure.table with
    | error failure => rfl
    | ok ds => exact hall (ds.map Descriptor.value)

/-- A change succeeds exactly if its batch is sound and extends the registry. -/
theorem apply_eq_ok {r r' : Registry} {c : Change} {ds : List Descriptor} :
    c.apply r = .ok (r', ds) ↔ c.batch = .ok ds ∧ r.extend ds = .ok r' := by
  rw [apply_eq, Outcome.bind_eq_ok]
  simp only [Outcome.map_eq_ok, Prod.mk.injEq]
  constructor
  · rintro ⟨ds', hbatch, r₁, hextend, rfl, rfl⟩
    exact ⟨hbatch, hextend⟩
  · intro h
    exact ⟨ds, h.1, r', h.2, rfl, rfl⟩

end Change

/-! ### What comes from outside is checked -/

theorem checkOne_checked {v : Value} {d : Descriptor} (h : checkOne v = .ok d) : d.Checked :=
  (Descriptor.ofValue_eq_ok.mp (Outcome.mapError_eq_ok.mp h)).1

theorem checkAll_checked {vs : List Value} {ds : List Descriptor} (h : checkAll vs = .ok ds) :
    ∀ d ∈ ds, d.Checked :=
  Outcome.forall_of_mapM_eq_ok h fun _ _ => checkOne_checked

theorem Change.batch_checked {c : Change} {ds : List Descriptor} (h : c.batch = .ok ds) :
    ∀ d ∈ ds, d.Checked := by
  cases c with
  | register v =>
    obtain ⟨d, hd, rfl⟩ := Outcome.map_eq_ok.mp h
    simpa using checkOne_checked hd
  | registerAll vs => exact checkAll_checked h
  | load source =>
    obtain ⟨read, -, hds⟩ := Outcome.bind_eq_ok.mp h
    exact checkAll_checked hds

/-- A registry is created by extending the empty one by checked descriptors. -/
theorem create_extends {seed : Option (List Value)} {transcoders : List (Text × Value)}
    {r : Registry} (h : create seed transcoders = .ok r) :
    ∃ ds, (∀ d ∈ ds, d.Checked) ∧ empty.extend ds = .ok r := by
  simp only [create] at h
  split at h
  · cases h
  · obtain ⟨vs, -, h⟩ := Outcome.bind_eq_ok.mp h
    obtain ⟨⟨r', ds⟩, hall, h⟩ := Outcome.bind_eq_ok.mp h
    cases h
    obtain ⟨hchecks, hextend⟩ := registerAll_eq_ok.mp hall
    exact ⟨ds, checkAll_checked hchecks, hextend⟩

/-! ### Sessions -/

/-- The registry after a change; one that fails leaves it as it was. -/
def after (r : Registry) (c : Change) : Registry :=
  match c.apply r with
  | .ok (r', _) => r'
  | .error _ => r

/-- A call of a session: another registry, or a change of the registry with an index. -/
inductive Call where
  | create (seed : Option (List Value)) (transcoders : List (Text × Value))
  | change (index : ℕ) (c : Change)

/-- The registries after a call, in the order of their creation. -/
def step (rs : List Registry) : Call → List Registry
  | .create seed transcoders =>
    match create seed transcoders with
    | .ok r => rs ++ [r]
    | .error _ => rs
  | .change index c => rs.modify index fun r => r.after c

/-- The registries that a sequence of calls leaves behind. -/
def session (calls : List Call) : List Registry := calls.foldl step []

/-- The registries that one creation and any changes can lead to. -/
inductive Reachable : Registry → Prop
  | create {seed : Option (List Value)} {transcoders : List (Text × Value)} {r : Registry}
      (h : create seed transcoders = .ok r) : Reachable r
  | change {r : Registry} (h : Reachable r) (c : Change) : Reachable (r.after c)

theorem create_builtin : create none [] = .ok builtin := by
  simp only [create, unmatched, List.map_nil, List.filter_nil, List.mergeSort_nil]
  rfl

theorem builtin_reachable : builtin.Reachable := Reachable.create create_builtin

/-- One change keeps a registry consistent, whether it succeeds or fails. -/
theorem Consistent.after {r : Registry} (h : r.Consistent) (c : Change) :
    (r.after c).Consistent := by
  rw [Registry.after]
  cases hc : c.apply r with
  | error failure => exact h
  | ok result =>
    obtain ⟨r', ds⟩ := result
    obtain ⟨hbatch, hextend⟩ := Change.apply_eq_ok.mp hc
    exact h.extend (Change.batch_checked hbatch) hextend

/-- All the registries that can be reached are consistent. -/
theorem Reachable.consistent {r : Registry} (h : r.Reachable) : r.Consistent := by
  induction h with
  | create hcreate =>
    obtain ⟨ds, hds, hextend⟩ := create_extends hcreate
    exact empty_consistent.extend hds hextend
  | change _ c ih => exact ih.after c

theorem reachable_of_mem_step {rs : List Registry} (hrs : ∀ r ∈ rs, r.Reachable) (call : Call) :
    ∀ r ∈ step rs call, r.Reachable := by
  cases call with
  | create seed transcoders =>
    simp only [step]
    cases hcreate : create seed transcoders with
    | error failure => exact hrs
    | ok created =>
      intro r hr
      rcases List.mem_append.mp hr with hold | hnew
      · exact hrs r hold
      · rw [List.mem_singleton.mp hnew]
        exact Reachable.create hcreate
  | change index c =>
    intro r hr
    obtain ⟨j, hj⟩ := List.mem_iff_getElem?.mp hr
    rw [step, List.getElem?_modify, Option.map_eq_map, Option.map_eq_some_iff] at hj
    obtain ⟨r₀, hr₀, rfl⟩ := hj
    have hreach : r₀.Reachable := hrs r₀ (List.mem_of_getElem? hr₀)
    split
    · exact hreach.change c
    · exact hreach

theorem reachable_of_mem_foldl {rs : List Registry} (hrs : ∀ r ∈ rs, r.Reachable)
    (calls : List Call) : ∀ r ∈ calls.foldl step rs, r.Reachable := by
  induction calls generalizing rs with
  | nil => exact hrs
  | cons call rest ih => exact ih (reachable_of_mem_step hrs call)

theorem reachable_of_mem_session {calls : List Call} : ∀ r ∈ session calls, r.Reachable :=
  reachable_of_mem_foldl (by simp) calls

/-- **The registry invariant.**  Whatever a session creates and changes, and whichever of its calls
fail, in every registry it leaves behind codes and names are unique, each index lists exactly the
codes or names of the descriptors with their descriptors, and every descriptor has a code of 64
bits, a name that can stand in a path, a size no less than the mark, a path flag and the tag of its
code. -/
theorem session_invariant (calls : List Call) (r : Registry) (hr : r ∈ session calls) :
    (r.protocols.map (·.code)).Nodup ∧
      (r.protocols.map (·.name)).Nodup ∧
      (r.byCode.map (·.1)).Nodup ∧
      (∀ code d, (code, d) ∈ r.byCode ↔ d ∈ r.protocols ∧ d.code = code) ∧
      (∀ code d, r.findCode code = some d ↔ d ∈ r.protocols ∧ d.code = code) ∧
      (r.byName.map (·.1)).Nodup ∧
      (∀ name d, (name, d) ∈ r.byName ↔ d ∈ r.protocols ∧ d.name = name) ∧
      (∀ name d, r.findName name = some d ↔ d ∈ r.protocols ∧ d.name = name) ∧
      ∀ d ∈ r.protocols, ∃ (code size : ℤ) (name : Text) (path : Bool) (tag : List UInt8),
        d.value = .descriptor (.int code) (.text name) (.int size) (.bool path) d.transcoder
            (.bytes tag) ∧
          0 ≤ code ∧ code ≤ Varint.maxValue ∧ name ≠ [] ∧ pathDelimiter ∉ name ∧
          lengthPrefixedMark ≤ size ∧ Varint.encode? (.int code) = .ok tag := by
  have h : r.Consistent := (reachable_of_mem_session r hr).consistent
  refine ⟨h.codes_nodup, h.names_nodup, ?_, ?_, fun code d => h.findCode_eq_some, ?_, ?_,
    fun name d => h.findName_eq_some, ?_⟩
  · rw [h.byCode_eq, index_keys]
    exact List.nodup_reverse.mpr h.codes_nodup
  · intro code d
    rw [h.byCode_eq, mem_index]
  · rw [h.byName_eq, index_keys]
    exact List.nodup_reverse.mpr h.names_nodup
  · intro name d
    rw [h.byName_eq, mem_index]
  · intro d hd
    have hchecked := h.checked d hd
    refine ⟨d.code, d.size.toInt, d.name, d.path, d.tag, rfl, Int.natCast_nonneg _,
      Int.ofNat_le.mpr hchecked.code_le, hchecked.name_ne_nil, hchecked.delimiter_notMem,
      Descriptor.lengthPrefixedMark_le_toInt d.size, ?_⟩
    rw [hchecked.tag_eq]
    exact Varint.encode?_natCast hchecked.code_le

/-- A descriptor with a forged tag joins the built-in ones with the tag of its code.  A batch in
which one descriptor takes a name again adds nothing, nor does a value that is no descriptor. -/
theorem session_invariant_forged :
    let forged : Value := .descriptor (.int 300) (.text [.scalar 'a']) (.int (-1)) (.bool true)
      .null (.bytes [0])
    let fresh : Value := .descriptor (.int 5) (.text [.scalar 'b']) (.int 0) (.bool false)
      .null .null
    let calls : List Call := [.create none [], .change 0 (.register forged),
      .change 0 (.registerAll [fresh, forged]), .change 0 (.register .null)]
    let stored : Descriptor := ⟨300, [.scalar 'a'], .lengthPrefixed, true, .null, Varint.encode 300⟩
    let r : Registry := builtin.push stored
    r ∈ session calls ∧ (r.protocols.map (·.code)).Nodup ∧ (r.protocols.map (·.name)).Nodup ∧
      Varint.encode? (.int 300) = .ok stored.tag := by
  intro forged fresh calls stored r
  have hmem : r ∈ session calls := by
    have hsession : session calls = [r] := by
      simp only [session, calls, List.foldl_cons, step, create_builtin]
      rfl
    rw [hsession]
    exact List.mem_singleton_self r
  obtain ⟨hcodes, hnames, -, -, -, -, -, -, hfields⟩ := session_invariant calls r hmem
  obtain ⟨code, size, name, path, tag, hvalue, -, -, -, -, -, htag⟩ :=
    hfields stored (List.mem_append_right _ (List.mem_singleton_self stored))
  cases hvalue
  exact ⟨hmem, hcodes, hnames, htag⟩

end Registry

end AddressProtocols
