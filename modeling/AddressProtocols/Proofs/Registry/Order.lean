import AddressProtocols.Proofs.Registry.Batch
import Mathlib.Data.List.Perm.Basic

/-!
# The order of registration

Whether descriptors can be registered together, and what is found afterwards, does not depend on
their order; only the order of the registry's own list and the failure that is reported do.

* `Registry.Unused` and `Registry.Fresh`: a descriptor whose code and name the registry does not
  have, and descriptors that are so and share no code and no name among themselves;
* `Consistent.exists_extend_iff`: a registry can be extended by descriptors exactly if they are
  fresh, which is a condition on their codes and names as sets;
* `Registry.Agree`: two registries give the same answer to every lookup and to every path;
  `Consistent.agree_of_perm` says that the same descriptors in another order are enough;
* `Consistent.protocols_run_register`: of single registrations whose descriptors share no code and
  no name, exactly those succeed that could have come first. -/

namespace AddressProtocols

namespace Registry

/-- A descriptor's code and name are both unknown to the registry. -/
def Unused (r : Registry) (d : Descriptor) : Prop :=
  d.code ∉ r.protocols.map (·.code) ∧ d.name ∉ r.protocols.map (·.name)

instance (r : Registry) (d : Descriptor) : Decidable (r.Unused d) :=
  inferInstanceAs (Decidable (_ ∧ _))

/-- No two of the descriptors have one code or one name. -/
structure Unlike (ds : List Descriptor) : Prop where
  codes_nodup : (ds.map (·.code)).Nodup
  names_nodup : (ds.map (·.name)).Nodup

/-- Descriptors that share no code and no name, neither with each other nor with the registry. -/
structure Fresh (r : Registry) (ds : List Descriptor) : Prop extends Unlike ds where
  unused : ∀ d ∈ ds, r.Unused d

/-- Two registries that nobody can tell apart by looking something up. -/
structure Agree (r₁ r₂ : Registry) : Prop where
  lookupName_eq : ∀ v, r₁.lookupName v = r₂.lookupName v
  lookupCode_eq : ∀ v, r₁.lookupCode v = r₂.lookupCode v
  parsePath_eq : ∀ path, r₁.parsePath path = r₂.parsePath path

/-! ### Descriptors in another order -/

section Reordered

variable {r : Registry} {ds ds' : List Descriptor}

theorem Unlike.perm (h : Unlike ds) (hperm : ds.Perm ds') : Unlike ds' :=
  ⟨(hperm.map _).nodup_iff.mp h.codes_nodup, (hperm.map _).nodup_iff.mp h.names_nodup⟩

theorem Unlike.sublist (h : Unlike ds) (hsub : ds'.Sublist ds) : Unlike ds' :=
  ⟨h.codes_nodup.sublist (hsub.map _), h.names_nodup.sublist (hsub.map _)⟩

theorem Fresh.perm (h : r.Fresh ds) (hperm : ds.Perm ds') : r.Fresh ds' :=
  ⟨h.toUnlike.perm hperm, fun d hd => h.unused d (hperm.mem_iff.mpr hd)⟩

/-- Nothing but codes and names matters. -/
theorem fresh_map {f : Descriptor → Descriptor} (hcode : ∀ d, (f d).code = d.code)
    (hname : ∀ d, (f d).name = d.name) : r.Fresh (ds.map f) ↔ r.Fresh ds := by
  have hcodes : (ds.map f).map (·.code) = ds.map (·.code) := by simp [hcode]
  have hnames : (ds.map f).map (·.name) = ds.map (·.name) := by simp [hname]
  have hunused : ∀ d, r.Unused (f d) ↔ r.Unused d := fun d => by rw [Unused, Unused, hcode, hname]
  constructor
  · intro h
    exact ⟨⟨hcodes ▸ h.codes_nodup, hnames ▸ h.names_nodup⟩, fun d hd =>
      (hunused d).mp (h.unused (f d) (List.mem_map_of_mem hd))⟩
  · intro h
    exact ⟨⟨hcodes.symm ▸ h.codes_nodup, hnames.symm ▸ h.names_nodup⟩,
      List.forall_mem_map.mpr fun d hd => (hunused d).mpr (h.unused d hd)⟩

theorem unlike_cons {d : Descriptor} :
    Unlike (d :: ds) ↔ (∀ e ∈ ds, e.code ≠ d.code ∧ e.name ≠ d.name) ∧ Unlike ds := by
  constructor
  · intro h
    obtain ⟨hcode, hcodes⟩ := List.nodup_cons.mp h.codes_nodup
    obtain ⟨hname, hnames⟩ := List.nodup_cons.mp h.names_nodup
    refine ⟨fun e he => ⟨fun heq => hcode ?_, fun heq => hname ?_⟩, hcodes, hnames⟩
    · exact List.mem_map.mpr ⟨e, he, heq⟩
    · exact List.mem_map.mpr ⟨e, he, heq⟩
  · intro h
    obtain ⟨hd, hds⟩ := h
    refine ⟨List.nodup_cons.mpr ⟨fun hmem => ?_, hds.codes_nodup⟩,
      List.nodup_cons.mpr ⟨fun hmem => ?_, hds.names_nodup⟩⟩
    · obtain ⟨e, he, heq⟩ := List.mem_map.mp hmem
      exact (hd e he).1 heq
    · obtain ⟨e, he, heq⟩ := List.mem_map.mp hmem
      exact (hd e he).2 heq

theorem unused_push {d e : Descriptor} :
    (r.push d).Unused e ↔ r.Unused e ∧ e.code ≠ d.code ∧ e.name ≠ d.name := by
  simp only [Unused, push, List.map_append, List.map_cons, List.map_nil, List.mem_append,
    List.mem_singleton, not_or]
  exact and_and_and_comm

theorem fresh_cons {d : Descriptor} : r.Fresh (d :: ds) ↔ r.Unused d ∧ (r.push d).Fresh ds := by
  constructor
  · intro h
    obtain ⟨hd, hds⟩ := unlike_cons.mp h.toUnlike
    obtain ⟨hunused, hothers⟩ := List.forall_mem_cons.mp h.unused
    exact ⟨hunused, hds, fun e he => unused_push.mpr ⟨hothers e he, hd e he⟩⟩
  · intro h
    obtain ⟨hunused, hfresh⟩ := h
    have hothers := fun e he => unused_push.mp (hfresh.unused e he)
    exact ⟨unlike_cons.mpr ⟨fun e he => (hothers e he).2, hfresh.toUnlike⟩,
      List.forall_mem_cons.mpr ⟨hunused, fun e he => (hothers e he).1⟩⟩

/-- Values in another order are checked to the same descriptors in that order. -/
theorem checkAll_perm {vs vs' : List Value} (h : checkAll vs = .ok ds) (hperm : vs.Perm vs') :
    ∃ ds', checkAll vs' = .ok ds' ∧ ds.Perm ds' := by
  obtain ⟨ds', hds', hback⟩ := List.perm_comp_forall₂ hperm.symm (Outcome.mapM_eq_ok.mp h)
  exact ⟨ds', Outcome.mapM_eq_ok.mpr hds', hback.symm⟩

end Reordered

namespace Consistent

variable {r r₁ r₂ : Registry} {ds : List Descriptor}

/-! ### Acceptance -/

theorem exists_extend_iff (h : r.Consistent) (hds : ∀ d ∈ ds, d.Checked) :
    (∃ r', r.extend ds = .ok r') ↔ r.Fresh ds := by
  induction ds generalizing r with
  | nil =>
    refine iff_of_true ⟨r, rfl⟩ ⟨⟨?_, ?_⟩, ?_⟩
    · exact List.nodup_nil
    · exact List.nodup_nil
    · simp
  | cons d rest ih =>
    obtain ⟨hd, hrest⟩ := List.forall_mem_cons.mp hds
    rw [fresh_cons, Registry.extend, List.foldlM_cons]
    simp only [Outcome.bind_eq_ok, h.add_eq_ok]
    constructor
    · intro hextend
      obtain ⟨r', r₁, ⟨hcode, hname, rfl⟩, hothers⟩ := hextend
      exact ⟨⟨hcode, hname⟩, (ih (h.push hd hcode hname) hrest).mp ⟨r', hothers⟩⟩
    · intro hfresh
      obtain ⟨⟨hcode, hname⟩, hothers⟩ := hfresh
      obtain ⟨r', hextend⟩ := (ih (h.push hd hcode hname) hrest).mpr hothers
      exact ⟨r', r.push d, ⟨hcode, hname, rfl⟩, hextend⟩

theorem exists_registerAll_iff (h : r.Consistent) {vs : List Value}
    (hds : checkAll vs = .ok ds) : (∃ result, r.registerAll vs = .ok result) ↔ r.Fresh ds := by
  rw [← h.exists_extend_iff (checkAll_checked hds), registerAll_of_checkAll hds]
  simp only [Outcome.map_eq_ok]
  constructor
  · intro hresult
    obtain ⟨_, r', hextend, -⟩ := hresult
    exact ⟨r', hextend⟩
  · intro hextend
    obtain ⟨r', hextend⟩ := hextend
    exact ⟨_, r', hextend, rfl⟩

/-- A batch of fresh descriptors adds them in their order. -/
theorem registerAll_of_fresh (h : r.Consistent) {vs : List Value} (hds : checkAll vs = .ok ds)
    (hfresh : r.Fresh ds) :
    ∃ r', r.registerAll vs = .ok (r', ds) ∧ r'.Consistent ∧ r'.protocols = r.protocols ++ ds := by
  have hchecked := checkAll_checked hds
  obtain ⟨r', hextend⟩ := (h.exists_extend_iff hchecked).mpr hfresh
  exact ⟨r', registerAll_eq_ok.mpr ⟨hds, hextend⟩, h.extend hchecked hextend,
    protocols_extend hextend⟩

/-! ### Lookups -/

section Permuted

variable (h₁ : r₁.Consistent) (h₂ : r₂.Consistent) (hperm : r₁.protocols.Perm r₂.protocols)
include h₁ h₂ hperm

theorem findName_of_perm (name : Text) : r₁.findName name = r₂.findName name := by
  refine Option.ext fun d => ?_
  rw [h₁.findName_eq_some, h₂.findName_eq_some, hperm.mem_iff]

theorem findCode_of_perm (code : ℕ) : r₁.findCode code = r₂.findCode code := by
  refine Option.ext fun d => ?_
  rw [h₁.findCode_eq_some, h₂.findCode_eq_some, hperm.mem_iff]

theorem resolve_of_perm (names : List Text) : r₁.resolve names = r₂.resolve names := by
  induction names with
  | nil => rfl
  | cons name rest ih => rw [resolve, resolve, h₁.findName_of_perm h₂ hperm, ih]

/-- The order of its descriptors is all that tells one registry from the other. -/
theorem agree_of_perm : Agree r₁ r₂ where
  lookupName_eq v := by
    cases v with
    | text name => exact h₁.findName_of_perm h₂ hperm name
    | _ => rfl
  lookupCode_eq v := by
    cases v with
    | int z =>
      cases z with
      | ofNat code => exact h₁.findCode_of_perm h₂ hperm code
      | negSucc _ => rfl
    | _ => rfl
  parsePath_eq path := by
    rw [parsePath, parsePath]
    split
    · rfl
    · exact h₁.resolve_of_perm h₂ hperm _

end Permuted

/-! ### Single registrations -/

/-- A single registration succeeds exactly if the descriptor is unused, which is then added. -/
theorem register_eq_ok_iff (h : r.Consistent) {v : Value} {d : Descriptor}
    (hd : checkOne v = .ok d) {result : Registry × Descriptor} :
    r.register v = .ok result ↔ r.Unused d ∧ result = (r.push d, d) := by
  rw [register_of_checkOne hd, Outcome.map_eq_ok]
  simp only [h.add_eq_ok, Unused]
  constructor
  · intro hadd
    obtain ⟨r', ⟨hcode, hname, rfl⟩, rfl⟩ := hadd
    exact ⟨⟨hcode, hname⟩, rfl⟩
  · intro hunused
    obtain ⟨⟨hcode, hname⟩, rfl⟩ := hunused
    exact ⟨r.push d, ⟨hcode, hname, rfl⟩, rfl⟩

theorem after_register (h : r.Consistent) {v : Value} {d : Descriptor}
    (hd : checkOne v = .ok d) :
    r.after (.register v) = if r.Unused d then r.push d else r := by
  rw [Registry.after, Change.apply]
  cases hregister : r.register v with
  | ok result =>
    obtain ⟨hunused, rfl⟩ := (h.register_eq_ok_iff hd).mp hregister
    rw [if_pos hunused]
    rfl
  | error failure =>
    rw [if_neg fun hunused => ?_]
    · rfl
    · rw [(h.register_eq_ok_iff hd).mpr ⟨hunused, rfl⟩] at hregister
      cases hregister

/-- One by one, descriptors that share no code and no name are added exactly if they are unused at
the start: those before neither help nor hinder them. -/
theorem protocols_run_register (h : r.Consistent) {vs : List Value} (hds : checkAll vs = .ok ds)
    (hunlike : Unlike ds) :
    (r.run (vs.map .register)).protocols =
      r.protocols ++ ds.filter fun d => decide (r.Unused d) := by
  induction Outcome.mapM_eq_ok.mp hds generalizing r with
  | nil => exact (List.append_nil _).symm
  | @cons v d vs ds hv hvs ih =>
    obtain ⟨hothers, hrest⟩ := unlike_cons.mp hunlike
    have h₁ : (r.after (.register v)).Consistent := h.after _
    have hstep := h.after_register hv
    show ((r.after (.register v)).run (vs.map .register)).protocols = _
    rw [ih h₁ (Outcome.mapM_eq_ok.mpr hvs) hrest, hstep]
    by_cases hunused : r.Unused d
    · -- the descriptor is added, and none of the others has its code or name
      have hsame : ds.filter (fun e => decide ((r.push d).Unused e)) =
          ds.filter fun e => decide (r.Unused e) := by
        refine List.filter_congr fun e he => ?_
        simp only [unused_push, hothers e he, ne_eq, not_false_eq_true, and_true]
      rw [if_pos hunused, hsame, List.filter_cons_of_pos (by simpa using hunused), Registry.push,
        List.append_assoc, List.singleton_append]
    · rw [if_neg hunused, List.filter_cons_of_neg (by simpa using hunused)]

/-- Whether a descriptor may be registered is not changed by single registrations that come before
it and share no code and no name with it. -/
theorem unused_run_register (h : r.Consistent) {vs : List Value} {d : Descriptor}
    (hds : checkAll vs = .ok ds) (hunlike : Unlike (d :: ds)) :
    (r.run (vs.map .register)).Unused d ↔ r.Unused d := by
  obtain ⟨hothers, hrest⟩ := unlike_cons.mp hunlike
  simp only [Unused, h.protocols_run_register hds hrest, List.map_append, List.mem_append, not_or]
  have hadded : ∀ e ∈ ds.filter fun e => decide (r.Unused e), e.code ≠ d.code ∧ e.name ≠ d.name :=
    fun e he => hothers e (List.mem_of_mem_filter he)
  have hcode : d.code ∉ (ds.filter fun e => decide (r.Unused e)).map (·.code) := by
    rw [List.mem_map, not_exists]
    exact fun e he => (hadded e he.1).1 he.2
  have hname : d.name ∉ (ds.filter fun e => decide (r.Unused e)).map (·.name) := by
    rw [List.mem_map, not_exists]
    exact fun e he => (hadded e he.1).2 he.2
  exact and_congr (and_iff_left hcode) (and_iff_left hname)

/-- Fresh descriptors are all added one by one, as they are in a batch. -/
theorem protocols_run_of_fresh (h : r.Consistent) {vs : List Value} (hds : checkAll vs = .ok ds)
    (hfresh : r.Fresh ds) : (r.run (vs.map .register)).protocols = r.protocols ++ ds := by
  rw [h.protocols_run_register hds hfresh.toUnlike, List.filter_eq_self.mpr]
  exact fun d hd => decide_eq_true (hfresh.unused d hd)

/-- Among single registrations of descriptors that share no code and no name, each succeeds exactly
if it would have been the first to. -/
theorem exists_register_iff (h : r.Consistent) {before after : List Value} {v : Value}
    {d : Descriptor} (hds : checkAll (before ++ v :: after) = .ok ds) (hunlike : Unlike ds)
    (hv : checkOne v = .ok d) :
    (∃ result, (r.run (before.map .register)).register v = .ok result) ↔ r.Unused d := by
  have hbefore : (r.run (before.map .register)).Consistent := h.run _
  obtain ⟨earlier, d', later, hearlier, hv', rfl⟩ := Outcome.mapM_append_cons_eq_ok hds
  cases hv.symm.trans hv'
  -- the calls up to this one, in another order, are some of all calls
  have hsome : Unlike (d :: earlier) :=
    (hunlike.perm List.perm_middle).sublist ((List.sublist_append_left earlier later).cons_cons d)
  rw [← h.unused_run_register hearlier hsome]
  constructor
  · intro hresult
    obtain ⟨_, hregister⟩ := hresult
    exact ((hbefore.register_eq_ok_iff hv).mp hregister).1
  · intro hunused
    exact ⟨_, (hbefore.register_eq_ok_iff hv).mpr ⟨hunused, rfl⟩⟩

end Consistent

/-- **The order of registration.**  From every registry that can be reached, for values that are
checked to descriptors:

* a batch of them succeeds exactly if no two of the descriptors have one code or one name and none
  has a code or name of the registry;
* a batch of the same values in another order succeeds exactly if this one does, adds the
  descriptors in that order instead, and leaves behind a registry in which every name, code and path
  is found as in the registry this one leaves behind; so do single registrations of the values in
  that order;
* if no two of the descriptors have one code or one name, then whatever the order of single
  registrations, each succeeds exactly if the registry at the start does not know its code or name,
  the successful ones are added in that order, and every name, code and path is found the same
  way. -/
theorem registerAll_perm {r : Registry} (hr : r.Reachable) {vs : List Value} {ds : List Descriptor}
    (hds : checkAll vs = .ok ds) :
    ((∃ result, r.registerAll vs = .ok result) ↔ r.Fresh ds) ∧
      ∀ vs', vs.Perm vs' → ∃ ds', checkAll vs' = .ok ds' ∧ ds.Perm ds' ∧
        ((∃ result, r.registerAll vs' = .ok result) ↔ ∃ result, r.registerAll vs = .ok result) ∧
        (∀ r₁ ds₁, r.registerAll vs = .ok (r₁, ds₁) → ∃ r₂,
          r.registerAll vs' = .ok (r₂, ds') ∧ r₁.protocols = r.protocols ++ ds ∧
          r₂.protocols = r.protocols ++ ds' ∧ Agree r₁ r₂ ∧
          (r.run (vs'.map .register)).protocols = r.protocols ++ ds' ∧
          Agree r₁ (r.run (vs'.map .register))) ∧
        (Unlike ds →
          (∀ before v after d, vs' = before ++ v :: after → checkOne v = .ok d →
            ((∃ result, (r.run (before.map .register)).register v = .ok result) ↔ r.Unused d)) ∧
          (r.run (vs'.map .register)).protocols =
            r.protocols ++ ds'.filter (fun d => decide (r.Unused d)) ∧
          Agree (r.run (vs.map .register)) (r.run (vs'.map .register))) := by
  have h : r.Consistent := hr.consistent
  have haccept := h.exists_registerAll_iff hds
  refine ⟨haccept, fun vs' hperm => ?_⟩
  obtain ⟨ds', hds', hperm'⟩ := checkAll_perm hds hperm
  refine ⟨ds', hds', hperm', ?_, fun r₁ ds₁ hbatch => ?_, fun hunlike => ⟨?_, ?_, ?_⟩⟩
  · rw [haccept, h.exists_registerAll_iff hds']
    exact ⟨fun hfresh => hfresh.perm hperm'.symm, fun hfresh => hfresh.perm hperm'⟩
  · have hfresh : r.Fresh ds := haccept.mp ⟨_, hbatch⟩
    have hfresh' : r.Fresh ds' := hfresh.perm hperm'
    obtain ⟨_, hbatch₁, h₁, hprotocols⟩ := h.registerAll_of_fresh hds hfresh
    obtain ⟨r₂, hbatch₂, h₂, hprotocols'⟩ := h.registerAll_of_fresh hds' hfresh'
    cases hbatch.symm.trans hbatch₁
    have hsingle := h.protocols_run_of_fresh hds' hfresh'
    refine ⟨r₂, hbatch₂, hprotocols, hprotocols', h₁.agree_of_perm h₂ ?_, hsingle,
      h₁.agree_of_perm (h.run _) ?_⟩
    · rw [hprotocols, hprotocols']
      exact hperm'.append_left r.protocols
    · rw [hprotocols, hsingle]
      exact hperm'.append_left r.protocols
  · intro before v after d hsplit hv
    subst hsplit
    exact h.exists_register_iff hds' (hunlike.perm hperm') hv
  · exact h.protocols_run_register hds' (hunlike.perm hperm')
  · refine (h.run _).agree_of_perm (h.run _) ?_
    rw [h.protocols_run_register hds hunlike,
      h.protocols_run_register hds' (hunlike.perm hperm')]
    exact (hperm'.filter _).append_left r.protocols

/-- Two new descriptors are registered together in either order, with one list reversed at its end
and everything found alike.  Of one that takes the code of `ip4` and a new one, the new one is added
in either order. -/
theorem registerAll_perm_builtin :
    let a : Value := .descriptor (.int 5) (.text [.scalar 'a']) (.int 0) (.bool false) .null .null
    let b : Value := .descriptor (.int 7) (.text [.scalar 'b']) (.int 0) (.bool false) .null .null
    let c : Value := .descriptor (.int 4) (.text [.scalar 'c']) (.int 0) (.bool false) .null .null
    let first : Descriptor := ⟨5, [.scalar 'a'], .bits 0, false, .null, Varint.encode 5⟩
    let second : Descriptor := ⟨7, [.scalar 'b'], .bits 0, false, .null, Varint.encode 7⟩
    let taken : Descriptor := ⟨4, [.scalar 'c'], .bits 0, false, .null, Varint.encode 4⟩
    builtin.Reachable ∧
      checkAll [a, b] = .ok [first, second] ∧ [a, b].Perm [b, a] ∧
      builtin.Fresh [first, second] ∧
      (∃ r₁ r₂, builtin.registerAll [a, b] = .ok (r₁, [first, second]) ∧
        builtin.registerAll [b, a] = .ok (r₂, [second, first]) ∧ Agree r₁ r₂) ∧
      checkAll [a, c] = .ok [first, taken] ∧ [a, c].Perm [c, a] ∧ Unlike [first, taken] ∧
      ¬(∃ result, builtin.registerAll [a, c] = .ok result) ∧
      (builtin.run [.register c, .register a]).protocols = builtin.protocols ++ [first] ∧
      Agree (builtin.run [.register a, .register c]) (builtin.run [.register c, .register a]) := by
  intro a b c first second taken
  have hpair : checkAll [a, b] = .ok [first, second] := by rfl
  have hmixed : checkAll [a, c] = .ok [first, taken] := by rfl
  have hbatch : builtin.registerAll [a, b] =
      .ok ((builtin.push first).push second, [first, second]) := by rfl
  have hunlike : Unlike [first, taken] := ⟨by decide, by decide⟩
  have hswap : [a, b].Perm [b, a] := List.Perm.swap b a []
  have hswap' : [a, c].Perm [c, a] := List.Perm.swap c a []
  obtain ⟨haccept, horder⟩ := registerAll_perm builtin_reachable hpair
  obtain ⟨ds', hds', -, -, hadded, -⟩ := horder [b, a] hswap
  obtain ⟨r₂, hbatch', -, -, hagree, -⟩ := hadded _ _ hbatch
  cases hds'
  obtain ⟨hreject, horder'⟩ := registerAll_perm builtin_reachable hmixed
  obtain ⟨es', hes', -, -, -, hsingle⟩ := horder' [c, a] hswap'
  obtain ⟨-, hprotocols, hsame⟩ := hsingle hunlike
  cases hes'
  refine ⟨builtin_reachable, hpair, hswap, haccept.mp ⟨_, hbatch⟩, ⟨_, r₂, hbatch, hbatch', hagree⟩,
    hmixed, hswap', hunlike, fun hresult => ?_, ?_, hsame⟩
  · exact absurd ((hreject.mp hresult).unused taken (by simp)).1 (by decide)
  · exact hprotocols

end Registry

end AddressProtocols
