import AddressProtocols.Proofs.Descriptor.Construction
import AddressProtocols.Proofs.Registry.Transcoders
import AddressProtocols.Proofs.Varint.RoundTrip

/-!
# Forged descriptors

A descriptor whose fields have been overwritten may be handed to a registry alone, in a batch or in
the seed of a new registry.  Every way leads through the construction of a new descriptor from its
fields.

* `Way` is a way to hand a value to a registry, and `Way.hand` what comes of it; by `Way.hand_eq`
  all three are one batch;
* `Way.hand_eq_error_of_fault`, `Way.hand_eq_ok_of_fresh` and `Way.hand_eq_error_of_not_fresh`: what
  comes of a value that makes no descriptor, and of one that makes one, as the only one, or not,
  with its code and name;
* `hand_forged`: what a forged descriptor can do, which is nothing beyond what its fields can.
-/

namespace AddressProtocols

namespace Registry

/-- A batch fails for a collision. -/
theorem exists_of_extend_eq_error {r : Registry} {ds : List Descriptor} {failure : Failure}
    (h : r.extend ds = .error failure) :
    ∃ d existing, failure = .codeTaken d existing ∨ failure = .nameTaken d existing := by
  obtain ⟨-, d, -, working, -, -, hadd⟩ := extend_eq_error.mp h
  rw [add] at hadd
  split at hadd
  · rename_i found hfound
    obtain rfl := Except.error.inj hadd
    rw [collision?] at hfound
    split at hfound
    · exact ⟨d, _, .inl (Option.some.inj hfound).symm⟩
    · exact ⟨d, _, .inr (Option.some.inj hfound).symm⟩
    · cases hfound
  · cases hadd

/-- A way to hand a value to a registry: alone, in a batch, or in the seed of a new one. -/
inductive Way where
  | register (r : Registry) (hr : r.Reachable)
  | registerAll (r : Registry) (hr : r.Reachable) (before after : List Value)
  | create (before after : List Value)

namespace Way

/-- The registry that descriptors are added to. -/
def start : Way → Registry
  | register r _ => r
  | registerAll r _ _ _ => r
  | create _ _ => empty

/-- The values that are handed over before this one. -/
def before : Way → List Value
  | register _ _ => []
  | registerAll _ _ before _ => before
  | create before _ => before

/-- The values that are handed over after this one. -/
def after : Way → List Value
  | register _ _ => []
  | registerAll _ _ _ after => after
  | create _ after => after

/-- The registry that comes of handing over a value. -/
def hand (w : Way) (v : Value) : Except Failure Registry :=
  match w with
  | register r _ => (r.register v).map (·.1)
  | registerAll r _ before after => (r.registerAll (before ++ v :: after)).map (·.1)
  | create before after => Registry.create (some (before ++ v :: after)) []

variable (w : Way) {v : Value} {d : Descriptor}

theorem start_consistent : w.start.Consistent := by
  cases w with
  | register r hr => exact hr.consistent
  | registerAll r hr before after => exact hr.consistent
  | create before after => exact empty_consistent

/-- Each way checks all values that are handed over and extends the registry by what they make. -/
theorem hand_eq (v : Value) :
    w.hand v = checkAll (w.before ++ v :: w.after) >>= w.start.extend := by
  have hbatch : ∀ (r : Registry) (vs : List Value),
      (r.registerAll vs).map (·.1) = checkAll vs >>= r.extend := by
    intro r vs
    rw [Registry.registerAll]
    cases checkAll vs with
    | error failure => rfl
    | ok ds =>
      show ((r.extend ds >>= fun r' => pure (r', ds)).map (·.1)) = r.extend ds
      cases r.extend ds <;> rfl
  cases w with
  | register r hr =>
    show (r.register v).map (·.1) = checkAll [v] >>= r.extend
    rw [checkAll, List.mapM_cons, Registry.register]
    cases checkOne v with
    | error failure => rfl
    | ok d =>
      show (r.add d >>= fun r' => pure (r', d)).map (·.1) = r.extend [d]
      rw [extend_singleton]
      cases r.add d <;> rfl
  | registerAll r hr before after => exact hbatch r _
  | create before after => exact create_nil.trans (hbatch empty _)

/-- Nothing but the check of a value matters. -/
theorem hand_congr {u v : Value} (h : checkOne u = checkOne v) : w.hand u = w.hand v := by
  simp only [hand_eq, checkAll, List.mapM_append, List.mapM_cons, h]

/-- A value that makes no descriptor is refused, unless one before it is. -/
theorem hand_eq_error_of_fault {earlier : List Descriptor} {failure : Failure}
    (hbefore : checkAll w.before = .ok earlier) (hv : checkOne v = .error failure) :
    w.hand v = .error failure := by
  have hpass : ∀ u ∈ w.before, ∃ d, checkOne u = .ok d := by
    intro u hu
    obtain ⟨d, -, hd⟩ := Outcome.exists_mem_of_forall₂ (Outcome.mapM_eq_ok.mp hbefore).flip hu
    exact ⟨d, hd⟩
  rw [hand_eq, checkAll, Outcome.mapM_append_cons_of_error hpass hv]
  rfl

section Others

variable {earlier later : List Descriptor} (hbefore : checkAll w.before = .ok earlier)
  (hafter : checkAll w.after = .ok later) (hv : checkOne v = .ok d)
include hbefore hafter hv

theorem checkAll_eq : checkAll (w.before ++ v :: w.after) = .ok (earlier ++ d :: later) := by
  rw [checkAll, List.mapM_append, List.mapM_cons]
  show checkAll w.before >>= _ = _
  rw [hbefore, hv]
  show (checkAll w.after >>= fun ds => _) >>= _ = _
  rw [hafter]
  rfl

theorem hand_eq_extend : w.hand v = w.start.extend (earlier ++ d :: later) := by
  rw [hand_eq, w.checkAll_eq hbefore hafter hv]
  rfl

/-- Beside others with other codes and names, a new descriptor is added in its place. -/
theorem hand_eq_ok_of_fresh (hfresh : w.start.Fresh (earlier ++ d :: later)) :
    ∃ r, w.hand v = .ok r ∧ r.protocols = w.start.protocols ++ (earlier ++ d :: later) := by
  have hchecked := checkAll_checked (w.checkAll_eq hbefore hafter hv)
  obtain ⟨r, hextend⟩ := (w.start_consistent.exists_extend_iff hchecked).mpr hfresh
  exact ⟨r, (w.hand_eq_extend hbefore hafter hv).trans hextend, protocols_extend hextend⟩

/-- If two share a code or a name, one of them collides. -/
theorem hand_eq_error_of_not_fresh (hfresh : ¬w.start.Fresh (earlier ++ d :: later)) :
    ∃ failure incoming existing, w.hand v = .error failure ∧
      failure.report.kind = .registration incoming existing := by
  have hchecked := checkAll_checked (w.checkAll_eq hbefore hafter hv)
  rw [← w.start_consistent.exists_extend_iff hchecked] at hfresh
  rw [w.hand_eq_extend hbefore hafter hv]
  cases hextend : w.start.extend (earlier ++ d :: later) with
  | ok r => exact absurd ⟨r, hextend⟩ hfresh
  | error failure =>
    obtain ⟨e, existing, rfl | rfl⟩ := exists_of_extend_eq_error hextend
    · exact ⟨_, _, _, rfl, rfl⟩
    · exact ⟨_, _, _, rfl, rfl⟩

end Others

end Way

/-! ### Forged fields -/

/-- Checking a candidate is constructing a descriptor from its fields, its tag apart. -/
theorem checkOne_candidate (c : Candidate) :
    checkOne c.value = Descriptor.construct c.code c.name c.size c.path c.transcoder :=
  Descriptor.construct_eq.symm

/-- **Forged descriptors are harmless.**  Take a descriptor whose fields hold whatever they were
overwritten with, and hand it to a registry that can be reached, alone, in a batch or in the seed of
a new registry.

* Whatever its tag is, the outcome is the same.  Checking it is constructing a descriptor from its
  other fields, which fails for nothing but the first fault of these fields, and never because the
  encoder refuses the code; descriptors that are stored are checked to themselves.
* If the values beside it make descriptors, it is refused as invalid exactly for the first fault of
  its fields.
* If its fields make a descriptor, that one has these fields and this transcoder, and its tag
  decodes to its code.  Beside others and registered ones with other codes and names it is stored in
  its place; otherwise a collision is reported. -/
theorem hand_forged (w : Way) (c : Candidate) :
    (∀ tag, w.hand { c with tag := tag }.value = w.hand c.value) ∧
      checkOne c.value = Descriptor.construct c.code c.name c.size c.path c.transcoder ∧
      (∀ failure, Descriptor.construct c.code c.name c.size c.path c.transcoder = .error failure ↔
        ∃ fault, failure = .descriptor fault ∧
          Descriptor.FirstFault c.code c.name c.size c.path fault) ∧
      (∀ d ∈ w.start.protocols, checkOne d.value = .ok d) ∧
      ∀ earlier later, checkAll w.before = .ok earlier → checkAll w.after = .ok later →
        (∀ fault, w.hand c.value = .error (.descriptor fault) ↔
          Descriptor.FirstFault c.code c.name c.size c.path fault) ∧
        ∀ d, Descriptor.construct c.code c.name c.size c.path c.transcoder = .ok d →
          (c.code = .int d.code ∧ c.name = .text d.name ∧ c.size = .int d.size.toInt ∧
            c.path = .bool d.path ∧
            c.transcoder = d.transcoder ∧ Varint.decodeFrom d.tag 0 = .ok (d.code, d.tag.length)) ∧
          (w.start.Fresh (earlier ++ d :: later) → ∃ r, w.hand c.value = .ok r ∧
            r.protocols = w.start.protocols ++ (earlier ++ d :: later)) ∧
          (¬w.start.Fresh (earlier ++ d :: later) → ∃ failure incoming existing,
            w.hand c.value = .error failure ∧
              failure.report.kind = .registration incoming existing) := by
  refine ⟨fun tag => w.hand_congr rfl, checkOne_candidate c,
    fun failure => Descriptor.construct_eq_error,
    fun d hd => checkOne_value (w.start_consistent.checked d hd),
    fun earlier later hbefore hafter => ⟨?_, ?_⟩⟩
  · intro fault
    constructor
    · intro h
      cases hcheck : checkOne c.value with
      | error failure =>
        obtain rfl := Except.error.inj ((w.hand_eq_error_of_fault hbefore hcheck).symm.trans h)
        rw [checkOne_candidate, Descriptor.construct_eq_error] at hcheck
        obtain ⟨_, heq, hfault⟩ := hcheck
        cases heq
        exact hfault
      | ok d =>
        rw [w.hand_eq_extend hbefore hafter hcheck] at h
        obtain ⟨_, _, heq | heq⟩ := exists_of_extend_eq_error h
        · cases heq
        · cases heq
    · intro hfault
      refine w.hand_eq_error_of_fault hbefore ?_
      rw [checkOne_candidate]
      exact Descriptor.construct_eq_error.mpr ⟨fault, rfl, hfault⟩
  · intro d hd
    rw [← checkOne_candidate] at hd
    have hfields := Descriptor.ofFields_eq_ok.mp (Outcome.mapError_eq_ok.mp hd)
    obtain ⟨hchecked, hcode, hname, hsize, hpath, htranscoder⟩ := hfields
    exact ⟨⟨hcode, hname, hsize, hpath, htranscoder, hchecked.decodeFrom_tag⟩,
      w.hand_eq_ok_of_fresh hbefore hafter hd, w.hand_eq_error_of_not_fresh hbefore hafter hd⟩

/-- In a seed, between two other entries, a descriptor with a forged tag is stored with the tag of
its code.  One whose code became a truth value is refused for that, though its name has become
null. -/
theorem hand_forged_seed :
    let first : Descriptor := ⟨5, Text.ofString "a", .bits 0, false, .null, Varint.encode 5⟩
    let last : Descriptor := ⟨7, Text.ofString "b", .bits 0, false, .null, Varint.encode 7⟩
    let w : Way := .create [first.value] [last.value]
    let forged : Candidate :=
      ⟨.int 300, .text (Text.ofString "c"), .int (-1), .bool true, .handle (Text.ofString "t"),
        .bytes [0]⟩
    let stored : Descriptor :=
      ⟨300, Text.ofString "c", .lengthPrefixed, true, .handle (Text.ofString "t"),
        Varint.encode 300⟩
    checkAll w.before = .ok [first] ∧ checkAll w.after = .ok [last] ∧
      (∃ r, w.hand forged.value = .ok r ∧ r.protocols = [first, stored, last]) ∧
      (∀ tag, w.hand { forged with tag := tag }.value = w.hand forged.value) ∧
      w.hand { forged with code := .bool true, name := .null }.value =
        .error (.descriptor .codeType) := by
  intro first last w forged stored
  have hbefore : checkAll w.before = .ok [first] := by rfl
  have hafter : checkAll w.after = .ok [last] := by rfl
  obtain ⟨htag, -, -, -, hbatch⟩ := hand_forged w forged
  obtain ⟨-, hstored⟩ := hbatch _ _ hbefore hafter
  obtain ⟨-, hfresh, -⟩ := hstored stored rfl
  obtain ⟨-, -, -, -, hbatch'⟩ := hand_forged w { forged with code := .bool true, name := .null }
  refine ⟨hbefore, hafter, hfresh ⟨⟨?_, ?_⟩, ?_⟩, htag, ?_⟩
  · decide
  · decide
  · exact fun d _ => ⟨List.not_mem_nil, List.not_mem_nil⟩
  · exact ((hbatch' _ _ hbefore hafter).1 .codeType).mpr (.codeType nofun)

end Registry

end AddressProtocols
