import AddressProtocols.Proofs.Registry.Growth

/-!
# Batches and single registrations

A batch is checked as a whole before the registry is looked at; single registrations check each
value when its turn comes, and each starts from the registry the one before has made.

* `registerEach` registers values one by one, up to the first that fails;
* `registerEach_of_checkAll` and `registerAll_of_checkAll`: if all values can be checked, either way
  extends the registry by the same descriptors, so that the two agree, also on the first failure;
* `registerAll_append_cons_of_error`: a value that cannot be checked fails the batch, whatever
  collides before it.
-/

namespace AddressProtocols

namespace Registry

/-- Registers values one by one, up to the first that fails; gives the last registry and the
descriptors as stored. -/
def registerEach (r : Registry) : List Value → Except Failure (Registry × List Descriptor)
  | [] => .ok (r, [])
  | v :: vs => do
    let (r₁, d) ← r.register v
    let (r₂, ds) ← r₁.registerEach vs
    return (r₂, d :: ds)

variable {r r₁ : Registry}

/-! ### Values that can be checked -/

theorem register_of_checkOne {v : Value} {d : Descriptor} (h : checkOne v = .ok d) :
    r.register v = (r.add d).map fun r' => (r', d) := by
  rw [register, h]
  exact Outcome.bind_pure_eq_map (r.add d) _

theorem registerAll_of_checkAll {vs : List Value} {ds : List Descriptor}
    (h : checkAll vs = .ok ds) : r.registerAll vs = (r.extend ds).map fun r' => (r', ds) := by
  rw [registerAll, h]
  exact Outcome.bind_pure_eq_map (r.extend ds) _

theorem registerEach_of_checkAll {vs : List Value} {ds : List Descriptor}
    (h : checkAll vs = .ok ds) : r.registerEach vs = (r.extend ds).map fun r' => (r', ds) := by
  -- value by value, as the registry grows
  induction Outcome.mapM_eq_ok.mp h generalizing r with
  | nil => rfl
  | @cons v d vs ds hv hvs ih =>
    rw [registerEach, register_of_checkOne hv, extend, List.foldlM_cons]
    cases r.add d with
    | error failure => rfl
    | ok r₁ =>
      show (r₁.registerEach vs >>= fun result => _) = (r₁.extend ds).map _
      rw [ih (Outcome.mapM_eq_ok.mpr hvs)]
      cases r₁.extend ds with
      | error failure => rfl
      | ok r' => rfl

/-! ### The first failure -/

/-- One by one, the first value that cannot be registered decides. -/
theorem registerEach_append_cons_of_error {before : List Value} {v : Value} {ds : List Descriptor}
    {failure : Failure} (hbefore : r.registerEach before = .ok (r₁, ds))
    (hv : r₁.register v = .error failure) (rest : List Value) :
    r.registerEach (before ++ v :: rest) = .error failure := by
  induction before generalizing r ds with
  | nil =>
    cases hbefore
    rw [List.nil_append, registerEach, hv]
    rfl
  | cons u before ih =>
    rw [registerEach] at hbefore
    obtain ⟨⟨r₂, d⟩, hu, hothers⟩ := Outcome.bind_eq_ok.mp hbefore
    obtain ⟨⟨r₃, ds'⟩, hrest, h⟩ := Outcome.bind_eq_ok.mp hothers
    cases h
    rw [List.cons_append, registerEach, hu]
    show (r₂.registerEach (before ++ v :: rest) >>= fun result => _) = _
    rw [ih hrest]
    rfl

/-- A batch is checked before the registry is looked at, so its first fault comes before every
collision. -/
theorem registerAll_append_cons_of_error {before : List Value} {v : Value} {failure : Failure}
    (hbefore : ∀ u ∈ before, ∃ d, checkOne u = .ok d) (hv : checkOne v = .error failure)
    (r : Registry) (rest : List Value) : r.registerAll (before ++ v :: rest) = .error failure := by
  rw [registerAll, checkAll, Outcome.mapM_append_cons_of_error hbefore hv]
  rfl

/-- A value that can be checked can fail for a collision only, with a descriptor of the registry. -/
theorem Consistent.register_eq_error (h : r.Consistent) {v : Value} {d : Descriptor}
    (hv : checkOne v = .ok d) {failure : Failure} (hfail : r.register v = .error failure) :
    ∃ existing ∈ r.protocols,
      failure = .codeTaken d existing ∨ failure = .nameTaken d existing := by
  rw [register_of_checkOne hv, Outcome.map_eq_error, h.add_eq_error] at hfail
  rcases hfail with ⟨existing, hmem, -, hfound⟩ | ⟨-, existing, hmem, -, hfound⟩
  · exact ⟨existing, hmem, Or.inl hfound⟩
  · exact ⟨existing, hmem, Or.inr hfound⟩

/-- **Batches agree with single registrations.**  From every registry that can be reached:

* if every value can be checked, a batch has the outcome of registering the values one by one: the
  same registry and the same descriptors, or the same failure;
* if one by one a value is the first that fails, that failure is the batch's, a collision of its
  descriptor with one of the registry or one that came earlier in the batch;
* if a value is the first that cannot be checked, the batch fails with its fault, whether or not an
  earlier value collides.

A fault is reported with its code or its size, which have at most `Text.maxDigits` digits here: no
text can be made of a longer one. -/
theorem registerAll_agrees {r : Registry} (hr : r.Reachable) :
    (∀ vs : List Value, (∀ v ∈ vs, ∃ d, checkOne v = .ok d) →
      r.registerAll vs = r.registerEach vs ∧
        ∀ before v rest r₁ ds failure, vs = before ++ v :: rest →
          r.registerEach before = .ok (r₁, ds) → r₁.register v = .error failure →
          r.registerAll vs = .error failure ∧
            ∃ d existing, checkOne v = .ok d ∧ (existing ∈ r.protocols ∨ existing ∈ ds) ∧
              (failure = .codeTaken d existing ∨ failure = .nameTaken d existing)) ∧
      ∀ before v rest fault, (∀ u ∈ before, ∃ d, checkOne u = .ok d) →
        Descriptor.ofValue v = .error fault →
        r.registerAll (before ++ v :: rest) = .error (.descriptor fault) := by
  refine ⟨fun vs hvs => ?_, fun before v rest fault hbefore hv => ?_⟩
  · obtain ⟨all, hall⟩ := Outcome.exists_mapM_eq_ok hvs
    have hagree : r.registerAll vs = r.registerEach vs := by
      rw [registerAll_of_checkAll hall, registerEach_of_checkAll hall]
    refine ⟨hagree, ?_⟩
    intro before v rest r₁ ds failure hsplit heach hfail
    subst hsplit
    refine ⟨hagree.trans (registerEach_append_cons_of_error heach hfail rest), ?_⟩
    obtain ⟨d, hd⟩ := hvs v (by simp)
    obtain ⟨earlier, hearlier⟩ := Outcome.exists_mapM_eq_ok fun u hu =>
      hvs u (List.mem_append_left _ hu)
    -- the registry that `v` meets is the first one extended by the earlier descriptors
    rw [registerEach_of_checkAll hearlier] at heach
    obtain ⟨r', hextend, h⟩ := Outcome.map_eq_ok.mp heach
    cases h
    have h₁ : r₁.Consistent := hr.consistent.extend (checkAll_checked hearlier) hextend
    obtain ⟨existing, hmem, hfailure⟩ := h₁.register_eq_error hd hfail
    rw [protocols_extend hextend, List.mem_append] at hmem
    exact ⟨d, existing, hd, hmem, hfailure⟩
  · exact registerAll_append_cons_of_error hbefore (Outcome.mapError_eq_error.mpr ⟨fault, hv, rfl⟩)
      r rest

/-- Two descriptors with one code: the second fails, in a batch as alone.  A value that is no
descriptor fails the batch before they do. -/
theorem registerAll_agrees_clash :
    let first : Value := .descriptor (.int 5) (.text [.scalar 'a']) (.int 0) (.bool false) .null
      .null
    let second : Value := .descriptor (.int 5) (.text [.scalar 'b']) (.int 0) (.bool false) .null
      .null
    let stored : Descriptor := ⟨5, [.scalar 'a'], .bits 0, false, .null, Varint.encode 5⟩
    let clash : Descriptor := ⟨5, [.scalar 'b'], .bits 0, false, .null, Varint.encode 5⟩
    let fault : Descriptor.Fault := .notDescriptor (Value.typeName .null)
    builtin.Reachable ∧ (∀ v ∈ [first, second], ∃ d, checkOne v = .ok d) ∧
      builtin.registerEach [first] = .ok (builtin.push stored, [stored]) ∧
      (builtin.push stored).register second = .error (.codeTaken clash stored) ∧
      builtin.registerAll [first, second] = .error (.codeTaken clash stored) ∧
      Descriptor.ofValue .null = .error fault ∧
      builtin.registerAll [first, second, .null] = .error (.descriptor fault) := by
  intro first second stored clash fault
  have hfirst : checkOne first = .ok stored := by rfl
  have hsecond : checkOne second = .ok clash := by rfl
  have hpass : ∀ v ∈ [first, second], ∃ d, checkOne v = .ok d :=
    List.forall_mem_cons.mpr ⟨⟨stored, hfirst⟩, List.forall_mem_singleton.mpr ⟨clash, hsecond⟩⟩
  have heach : builtin.registerEach [first] = .ok (builtin.push stored, [stored]) := by rfl
  have hfail : (builtin.push stored).register second = .error (.codeTaken clash stored) := by rfl
  have hfault : Descriptor.ofValue .null = .error fault := by rfl
  obtain ⟨hagrees, hinvalid⟩ := registerAll_agrees builtin_reachable
  obtain ⟨hbatch, -⟩ := (hagrees [first, second] hpass).2 [first] second [] _ _ _ rfl heach hfail
  exact ⟨builtin_reachable, hpass, heach, hfail, hbatch, hfault,
    hinvalid [first, second] .null [] fault hpass hfault⟩

end Registry

end AddressProtocols
