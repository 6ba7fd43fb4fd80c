import AddressProtocols.Proofs.Registry.Session
import AddressProtocols.Proofs.Table

/-!
# Registries only grow

A change either fails and leaves the registry as it was, or puts the descriptors it was given at the
end.  So descriptors stay where they are, and what was found once is found ever after.

* `Change.Given` relates a change to the descriptors of its arguments, or of the entries of its
  table, in their order; `Change.batch_eq_ok` says that these are what it adds;
* `protocols_extend`: extending a registry puts the descriptors at its end, and `extend_eq_error`:
  it fails where one of them collides, when those before it have been added to a copy that is then
  given up (`after_of_collision`);
* `protocols_prefix_after` and `protocols_prefix_run`: after one change, and after any number of
  them, the descriptors of before are the first ones;
* `Consistent.findName_of_prefix`, `Consistent.findCode_of_prefix` and
  `Consistent.parsePath_of_prefix`: what is found in a registry is found in every later one.
-/

namespace AddressProtocols

namespace Registry

/-! ### What a change is given -/

theorem checkOne_value {d : Descriptor} (h : d.Checked) : checkOne d.value = .ok d :=
  Outcome.mapError_eq_ok.mpr (Descriptor.ofValue_eq_ok.mpr ⟨h, .bytes d.tag, rfl⟩)

/-- Checking descriptors that are checked already changes nothing. -/
theorem checkAll_map_value {ds : List Descriptor} (h : ∀ d ∈ ds, d.Checked) :
    checkAll (ds.map Descriptor.value) = .ok ds := by
  rw [checkAll, Outcome.mapM_eq_ok, List.forall₂_map_left_iff, List.forall₂_same]
  exact fun d hd => checkOne_value (h d hd)

/-- The descriptors are those of a change's arguments, or of the entries of its table, in order. -/
def Change.Given : Change → List Descriptor → Prop
  | register v, ds => List.Forall₂ (fun v d => checkOne v = .ok d) [v] ds
  | registerAll vs, ds => List.Forall₂ (fun v d => checkOne v = .ok d) vs ds
  | load source, ds =>
    ∃ entries, Table.readDocument source = .ok (Table.document entries) ∧
      List.Forall₂ (fun e d => Table.ofEntry e = .ok d) entries ds

theorem Change.batch_eq_ok {c : Change} {ds : List Descriptor} : c.batch = .ok ds ↔ c.Given ds := by
  cases c with
  | register v =>
    rw [batch, Outcome.map_eq_ok, Given, List.forall₂_cons_left_iff]
    simp [eq_comm]
  | registerAll vs => exact Outcome.mapM_eq_ok
  | load source =>
    rw [batch, Given, Outcome.bind_eq_ok, ← Table.read_eq_ok]
    simp only [Outcome.mapError_eq_ok]
    constructor
    · intro h
      obtain ⟨read, hread, hds⟩ := h
      -- what a table holds is checked, so checking it once more gives it back
      rw [checkAll_map_value (Table.read_checked hread)] at hds
      cases hds
      exact hread
    · intro hread
      exact ⟨ds, hread, checkAll_map_value (Table.read_checked hread)⟩

/-! ### The descriptors after a change -/

theorem protocols_add {r r' : Registry} {d : Descriptor} (h : r.add d = .ok r') :
    r'.protocols = r.protocols ++ [d] := by
  rw [add] at h
  split at h
  · cases h
  · cases h
    rfl

theorem protocols_extend {r r' : Registry} {ds : List Descriptor} (h : r.extend ds = .ok r') :
    r'.protocols = r.protocols ++ ds := by
  induction ds generalizing r with
  | nil =>
    cases h
    exact (List.append_nil _).symm
  | cons d rest ih =>
    rw [extend, List.foldlM_cons, Outcome.bind_eq_ok] at h
    obtain ⟨r₁, hadd, hrest⟩ := h
    rw [ih hrest, protocols_add hadd, List.append_assoc, List.singleton_append]

/-- A registry cannot be extended exactly if one of the descriptors collides once those before it
have been added. -/
theorem extend_eq_error {r : Registry} {ds : List Descriptor} {failure : Failure} :
    r.extend ds = .error failure ↔
      ∃ before d rest working, ds = before ++ d :: rest ∧ r.extend before = .ok working ∧
        working.add d = .error failure := by
  constructor
  · intro h
    induction ds generalizing r with
    | nil => cases h
    | cons d rest ih =>
      rw [extend, List.foldlM_cons] at h
      rcases Outcome.bind_eq_error.mp h with hadd | ⟨r₁, hadd, hrest⟩
      · exact ⟨[], d, rest, r, rfl, rfl, hadd⟩
      · obtain ⟨before, e, later, working, rfl, hbefore, he⟩ := ih hrest
        refine ⟨d :: before, e, later, working, rfl, ?_, he⟩
        rw [extend, List.foldlM_cons, hadd]
        exact hbefore
  · rintro ⟨before, d, rest, working, rfl, hbefore, hadd⟩
    rw [extend, List.foldlM_append, Outcome.bind_eq_error]
    refine .inr ⟨working, hbefore, ?_⟩
    rw [List.foldlM_cons, hadd]
    rfl

/-- A change whose descriptors collide has worked on a copy of the registry, which has the ones
before the collision at its end when the change fails.  The registry has none of them. -/
theorem after_of_collision {r : Registry} {c : Change} {ds : List Descriptor} {failure : Failure}
    (hbatch : c.batch = .ok ds) (h : r.extend ds = .error failure) :
    c.apply r = .error failure ∧ r.after c = r ∧
      ∃ before d rest working, ds = before ++ d :: rest ∧ r.extend before = .ok working ∧
        working.protocols = r.protocols ++ before ∧ working.add d = .error failure := by
  have happly : c.apply r = .error failure := by
    rw [Change.apply_eq, hbatch]
    exact Outcome.map_eq_error.mpr h
  obtain ⟨before, d, rest, working, hds, hworking, hadd⟩ := extend_eq_error.mp h
  refine ⟨happly, by rw [after, happly], ?_⟩
  exact ⟨before, d, rest, working, hds, hworking, protocols_extend hworking, hadd⟩

/-- A change fails and leaves the registry as it was, or adds what it was given at the end. -/
theorem apply_cases (r : Registry) (c : Change) :
    (∃ failure, c.apply r = .error failure ∧ r.after c = r) ∨
      ∃ r' ds, c.apply r = .ok (r', ds) ∧ r.after c = r' ∧ c.Given ds ∧
        r'.protocols = r.protocols ++ ds := by
  rw [after]
  cases happly : c.apply r with
  | error failure => exact Or.inl ⟨failure, rfl, rfl⟩
  | ok result =>
    obtain ⟨r', ds⟩ := result
    obtain ⟨hbatch, hextend⟩ := Change.apply_eq_ok.mp happly
    exact Or.inr ⟨r', ds, rfl, rfl, Change.batch_eq_ok.mp hbatch, protocols_extend hextend⟩

theorem protocols_prefix_after (r : Registry) (c : Change) :
    r.protocols <+: (r.after c).protocols := by
  rcases apply_cases r c with ⟨failure, -, hafter⟩ | ⟨r', ds, -, hafter, -, hprotocols⟩
  · simp only [hafter, List.prefix_refl]
  · rw [hafter, hprotocols]
    exact List.prefix_append _ _

/-! ### Runs -/

/-- The registry after changes, of which any may fail. -/
def run (r : Registry) (cs : List Change) : Registry := cs.foldl after r

theorem run_append (r : Registry) (cs cs' : List Change) :
    r.run (cs ++ cs') = (r.run cs).run cs' :=
  List.foldl_append

theorem Reachable.run {r : Registry} (h : r.Reachable) (cs : List Change) :
    (r.run cs).Reachable := by
  induction cs generalizing r with
  | nil => exact h
  | cons c cs ih => exact ih (h.change c)

theorem Consistent.run {r : Registry} (h : r.Consistent) (cs : List Change) :
    (r.run cs).Consistent := by
  induction cs generalizing r with
  | nil => exact h
  | cons c cs ih => exact ih (h.after c)

theorem protocols_prefix_run (r : Registry) (cs : List Change) :
    r.protocols <+: (r.run cs).protocols := by
  induction cs generalizing r with
  | nil => exact List.prefix_refl _
  | cons c cs ih => exact (protocols_prefix_after r c).trans (ih (r.after c))

/-! ### What is found stays found -/

/-- A path of names resolves to descriptors exactly if each name has its own. -/
theorem resolve_eq_ok {r : Registry} {names : List Text} {ds : List Descriptor} :
    r.resolve names = .ok ds ↔ List.Forall₂ (fun name d => r.findName name = some d) names ds := by
  induction names generalizing ds with
  | nil => simp [resolve, eq_comm]
  | cons name rest ih =>
    rw [resolve, List.forall₂_cons_left_iff]
    cases hfind : r.findName name with
    | none => simp
    | some d => simp [Outcome.map_cons_eq_ok, ih]

namespace Consistent

variable {r r' : Registry} (h : r.Consistent) (h' : r'.Consistent)
  (hpre : r.protocols <+: r'.protocols)
include h h' hpre

theorem findName_of_prefix {name : Text} {d : Descriptor} (hfind : r.findName name = some d) :
    r'.findName name = some d := by
  obtain ⟨hmem, hname⟩ := h.findName_eq_some.mp hfind
  exact h'.findName_eq_some.mpr ⟨hpre.subset hmem, hname⟩

theorem findCode_of_prefix {code : ℕ} {d : Descriptor} (hfind : r.findCode code = some d) :
    r'.findCode code = some d := by
  obtain ⟨hmem, hcode⟩ := h.findCode_eq_some.mp hfind
  exact h'.findCode_eq_some.mpr ⟨hpre.subset hmem, hcode⟩

theorem lookupName_of_prefix {v : Value} {d : Descriptor} (hfind : r.lookupName v = some d) :
    r'.lookupName v = some d := by
  cases v with
  | text name => exact h.findName_of_prefix h' hpre hfind
  | _ => cases hfind

theorem lookupCode_of_prefix {v : Value} {d : Descriptor} (hfind : r.lookupCode v = some d) :
    r'.lookupCode v = some d := by
  cases v with
  | int z =>
    cases z with
    | ofNat code => exact h.findCode_of_prefix h' hpre hfind
    | negSucc _ => cases hfind
  | _ => cases hfind

theorem parsePath_of_prefix {path : Text} {ds : List Descriptor}
    (hparse : r.parsePath path = .ok ds) : r'.parsePath path = .ok ds := by
  rw [parsePath] at hparse ⊢
  split at hparse
  · exact hparse
  · rw [resolve_eq_ok] at hparse ⊢
    exact hparse.imp fun _ _ => h.findName_of_prefix h' hpre

end Consistent

/-- **Changes are all or nothing, and registries only grow.**  In every registry that can be
reached, a change fails and leaves the registry as it was, or it succeeds, and the registry's
descriptors are those of before followed by the ones the change gives back, which are those it was
given, in order.  However a run goes on, the descriptors of an earlier moment are the first ones of
a later moment, and whatever a name, a code or a path was found to mean it means ever after. -/
theorem changes_append {r : Registry} (hr : r.Reachable) :
    (∀ c : Change,
      (∃ failure, c.apply r = .error failure ∧ r.after c = r) ∨
        ∃ r' ds, c.apply r = .ok (r', ds) ∧ r.after c = r' ∧ c.Given ds ∧
          r'.protocols = r.protocols ++ ds) ∧
      ∀ earlier later : List Change,
        (r.run earlier).protocols <+: (r.run (earlier ++ later)).protocols ∧
        (∀ v d, (r.run earlier).lookupName v = some d →
          (r.run (earlier ++ later)).lookupName v = some d) ∧
        (∀ v d, (r.run earlier).lookupCode v = some d →
          (r.run (earlier ++ later)).lookupCode v = some d) ∧
        ∀ path ds, (r.run earlier).parsePath path = .ok ds →
          (r.run (earlier ++ later)).parsePath path = .ok ds := by
  refine ⟨apply_cases r, fun earlier later => ?_⟩
  have hearlier : (r.run earlier).Reachable := hr.run earlier
  have h : (r.run earlier).Consistent := hearlier.consistent
  have h' : ((r.run earlier).run later).Consistent := (hearlier.run later).consistent
  have hpre := protocols_prefix_run (r.run earlier) later
  rw [run_append]
  exact ⟨hpre, fun v d => h.lookupName_of_prefix h' hpre,
    fun v d => h.lookupCode_of_prefix h' hpre,
    fun path ds => h.parsePath_of_prefix h' hpre⟩

/-- A descriptor with a forged tag joins the built-in ones.  A batch that takes its name again
fails, and the descriptor is found by code, by name and in a path as before. -/
theorem changes_append_forged :
    let name : Text := [.scalar 'a']
    let forged : Value := .descriptor (.int 300) (.text name) (.int (-1)) (.bool true) .null
      (.bytes [0])
    let fresh : Value := .descriptor (.int 5) (.text [.scalar 'b']) (.int 0) (.bool false) .null
      .null
    let stored : Descriptor := ⟨300, name, .lengthPrefixed, true, .null, Varint.encode 300⟩
    let earlier : List Change := [.register forged]
    let later : List Change := [.registerAll [fresh, forged]]
    builtin.Reachable ∧ (builtin.run earlier).lookupName (.text name) = some stored ∧
      (builtin.run earlier).lookupCode (.int 300) = some stored ∧
      (builtin.run earlier).parsePath (.scalar '/' :: name) = .ok [stored] ∧
      (builtin.run (earlier ++ later)).lookupName (.text name) = some stored ∧
      (builtin.run (earlier ++ later)).lookupCode (.int 300) = some stored ∧
      (builtin.run (earlier ++ later)).parsePath (.scalar '/' :: name) = .ok [stored] := by
  intro name forged fresh stored earlier later
  have hname : (builtin.run earlier).lookupName (.text name) = some stored := by rfl
  have hcode : (builtin.run earlier).lookupCode (.int 300) = some stored := by rfl
  have hpath : (builtin.run earlier).parsePath (.scalar '/' :: name) = .ok [stored] := by rfl
  obtain ⟨-, hnames, hcodes, hpaths⟩ := (changes_append builtin_reachable).2 earlier later
  exact ⟨builtin_reachable, hname, hcode, hpath, hnames _ _ hname, hcodes _ _ hcode,
    hpaths _ _ hpath⟩

end Registry

end AddressProtocols
