import AddressProtocols.Proofs.Registry.Order
import AddressProtocols.Proofs.Text.Order

/-!
# Attaching transcoders

A registry can be created with transcoders, which go to the seed entries of their names.

* `mem_unmatched`, `unmatched_eq_nil` and `pairwise_unmatched`: the names that no entry has, in
  order;
* `carrying` is a descriptor with the transcoder of its name; by `attach_bind_checkOne`, attaching
  transcoders to an entry and then checking it is checking it and then giving the descriptor its
  transcoder;
* `create_eq_ok`: what it takes to create a registry with transcoders, and what it is then;
* `create_transcoders` compares that with the registry that the seed alone gives.
-/

namespace AddressProtocols

namespace Registry

variable {transcoders : List (Text × Value)} {seed : List Value}

/-! ### Names that no entry has -/

theorem mem_unmatched {name : Text} :
    name ∈ unmatched transcoders seed ↔
      name ∈ transcoders.map (·.1) ∧ ∀ v ∈ seed, nameOf v ≠ some name := by
  rw [unmatched, List.mem_mergeSort, List.mem_filter]
  simp

theorem unmatched_eq_nil :
    unmatched transcoders seed = [] ↔ ∀ name ∈ transcoders.map (·.1), ∃ v ∈ seed,
      nameOf v = some name := by
  rw [List.eq_nil_iff_forall_not_mem]
  simp only [mem_unmatched, not_and, not_forall, not_not, exists_prop]

theorem pairwise_unmatched (hnames : (transcoders.map (·.1)).Nodup) :
    (unmatched transcoders seed).Pairwise fun s t =>
      List.Lex (· < ·) (s.map CodePoint.value) (t.map CodePoint.value) :=
  Text.pairwise_lex_mergeSort (hnames.filter _)

/-! ### One entry -/

/-- The descriptor with the transcoder of its name, if there is one, and else with its own. -/
def carrying (transcoders : List (Text × Value)) (d : Descriptor) : Descriptor :=
  { d with transcoder := (transcoders.lookup d.name).getD d.transcoder }

theorem carrying_checked {d : Descriptor} (h : d.Checked) : (carrying transcoders d).Checked :=
  ⟨h.code_le, h.name_ne_nil, h.delimiter_notMem, h.tag_eq⟩

theorem transcoder_carrying_of_mem (hnames : (transcoders.map (·.1)).Nodup) {d : Descriptor}
    {transcoder : Value} (h : (d.name, transcoder) ∈ transcoders) :
    (carrying transcoders d).transcoder = transcoder := by
  rw [carrying, (lookup_eq_some_iff_mem hnames).mpr h]
  rfl

theorem transcoder_carrying_of_notMem {d : Descriptor} (h : d.name ∉ transcoders.map (·.1)) :
    (carrying transcoders d).transcoder = d.transcoder := by
  have hnone : transcoders.lookup d.name = none := by
    rw [List.lookup_eq_none_iff]
    intro entry hentry
    rw [bne_iff_ne]
    exact fun heq => h (heq ▸ List.mem_map_of_mem hentry)
  rw [carrying, hnone]
  rfl

/-- No check looks at the transcoder or the tag. -/
theorem checkOne_transcoder (code name size path transcoder tag other otherTag : Value) :
    checkOne (.descriptor code name size path other otherTag) =
      (checkOne (.descriptor code name size path transcoder tag)).map
        fun d => { d with transcoder := other } := by
  simp only [checkOne, Descriptor.ofValue, Descriptor.ofFields]
  cases Descriptor.checkCode code with
  | error fault => rfl
  | ok code =>
    cases Descriptor.checkName name with
    | error fault => rfl
    | ok name =>
      cases Descriptor.checkSize size with
      | error fault => rfl
      | ok size => cases Descriptor.checkPath path <;> rfl

/-- An entry that passes the checks is named by its descriptor. -/
theorem nameOf_of_checkOne {v : Value} {d : Descriptor} (h : checkOne v = .ok d) :
    nameOf v = some d.name := by
  obtain ⟨-, tag, rfl⟩ := Descriptor.ofValue_eq_ok.mp (Outcome.mapError_eq_ok.mp h)
  rfl

/-- An entry stays as it is, or it has a name with a transcoder, is checked and gets that
transcoder. -/
theorem attach_cases (transcoders : List (Text × Value)) (v : Value) :
    (attach transcoders v = .ok v ∧ ∀ name, nameOf v = some name → transcoders.lookup name = none) ∨
      ∃ name transcoder, nameOf v = some name ∧ transcoders.lookup name = some transcoder ∧
        attach transcoders v =
          ((checkOne v).map fun d => { d with transcoder := transcoder }).map Descriptor.value := by
  cases v with
  | descriptor code name size path own tag =>
    cases name with
    | text name =>
      cases hlookup : transcoders.lookup name with
      | none =>
        refine .inl ⟨?_, fun _ h => Option.some.inj h ▸ hlookup⟩
        simp only [attach, nameOf, Option.bind_some, hlookup]
      | some transcoder =>
        refine .inr ⟨name, transcoder, rfl, hlookup, ?_⟩
        simp only [attach, nameOf, Option.bind_some, hlookup]
        rw [← checkOne_transcoder]
    | _ => exact .inl ⟨rfl, nofun⟩
  | _ => exact .inl ⟨rfl, nofun⟩

theorem attach_bind_checkOne (transcoders : List (Text × Value)) (v : Value) :
    attach transcoders v >>= checkOne = (checkOne v).map (carrying transcoders) := by
  rcases attach_cases transcoders v with ⟨hattach, hnone⟩ |
    ⟨name, transcoder, hname, hlookup, hattach⟩
  · rw [hattach]
    show checkOne v = _
    cases hcheck : checkOne v with
    | error failure => rfl
    | ok d =>
      show Except.ok d = .ok (carrying transcoders d)
      rw [carrying, hnone _ (nameOf_of_checkOne hcheck)]
      rfl
  · rw [hattach]
    cases hcheck : checkOne v with
    | error failure => rfl
    | ok d =>
      have hsame : carrying transcoders d = { d with transcoder := transcoder } := by
        obtain rfl := Option.some.inj (hname.symm.trans (nameOf_of_checkOne hcheck))
        rw [carrying, hlookup]
        rfl
      show checkOne (Descriptor.value { d with transcoder := transcoder }) =
        .ok (carrying transcoders d)
      rw [← hsame, checkOne_value (carrying_checked (checkOne_checked hcheck))]

/-! ### Whole seeds -/

/-- Transcoders given to a seed whose entries are then checked are given to the descriptors of the
entries. -/
theorem exists_checkAll_attached {ds : List Descriptor} :
    (∃ vs, seed.mapM (attach transcoders) = .ok vs ∧ checkAll vs = .ok ds) ↔
      ∃ ds₀, checkAll seed = .ok ds₀ ∧ ds = ds₀.map (carrying transcoders) := by
  simp only [checkAll, Outcome.exists_mapM_mapM_eq_ok, attach_bind_checkOne, Outcome.mapM_map_eq_ok]

theorem exists_extend_map_carrying {ds : List Descriptor} (hds : ∀ d ∈ ds, d.Checked) :
    (∃ r, empty.extend (ds.map (carrying transcoders)) = .ok r) ↔ ∃ r, empty.extend ds = .ok r := by
  have hmap : ∀ d ∈ ds.map (carrying transcoders), d.Checked := by
    rw [List.forall_mem_map]
    exact fun d hd => carrying_checked (hds d hd)
  have hfresh : empty.Fresh (ds.map (carrying transcoders)) ↔ empty.Fresh ds :=
    fresh_map (fun _ => rfl) fun _ => rfl
  rw [empty_consistent.exists_extend_iff hmap, empty_consistent.exists_extend_iff hds, hfresh]

/-- A registry is created if every transcoder has an entry to go to and the entries pass their
checks and do not collide; it is the one that their descriptors make with those transcoders. -/
theorem create_eq_ok {r : Registry} :
    create (some seed) transcoders = .ok r ↔
      (∀ name ∈ transcoders.map (·.1), ∃ v ∈ seed, nameOf v = some name) ∧
        ∃ ds, checkAll seed = .ok ds ∧ empty.extend (ds.map (carrying transcoders)) = .ok r := by
  simp only [create, Option.getD_some, Outcome.guard_bind_eq_ok, Outcome.bind_eq_ok,
    ← unmatched_eq_nil]
  refine and_congr (by simp) ?_
  constructor
  · intro h
    obtain ⟨vs, hattach, ⟨r', ds⟩, hall, heq⟩ := h
    cases heq
    obtain ⟨hchecks, hextend⟩ := registerAll_eq_ok.mp hall
    obtain ⟨ds₀, hseed, rfl⟩ := exists_checkAll_attached.mp ⟨vs, hattach, hchecks⟩
    exact ⟨ds₀, hseed, hextend⟩
  · intro h
    obtain ⟨ds, hseed, hextend⟩ := h
    obtain ⟨vs, hattach, hchecks⟩ := exists_checkAll_attached.mpr ⟨ds, hseed, rfl⟩
    exact ⟨vs, hattach, _, registerAll_eq_ok.mpr ⟨hchecks, hextend⟩, rfl⟩

/-- Without transcoders the seed is registered as it is. -/
theorem create_nil : create (some seed) [] = (empty.registerAll seed).map (·.1) := by
  have hattach : seed.mapM (attach []) = .ok seed := by
    rw [Outcome.mapM_eq_ok, List.forall₂_same]
    intro v _
    rcases attach_cases [] v with ⟨hattach, -⟩ | ⟨_, _, -, hlookup, -⟩
    · exact hattach
    · cases hlookup
  have hnone : unmatched [] seed = [] := unmatched_eq_nil.mpr nofun
  rw [← Outcome.bind_pure_eq_map, create, Option.getD_some, hnone, hattach]
  rfl

theorem create_nil_eq_ok {r : Registry} :
    create (some seed) [] = .ok r ↔ ∃ ds, checkAll seed = .ok ds ∧ empty.extend ds = .ok r := by
  rw [create_nil, Outcome.map_eq_ok]
  constructor
  · intro h
    obtain ⟨⟨r', ds⟩, hall, rfl⟩ := h
    exact ⟨ds, registerAll_eq_ok.mp hall⟩
  · intro h
    obtain ⟨ds, hsteps⟩ := h
    exact ⟨(r, ds), registerAll_eq_ok.mpr hsteps, rfl⟩

/-- Transcoders that have no entry to go to are reported, whatever else is wrong with the seed. -/
theorem create_eq_error_of_unmatched (h : unmatched transcoders seed ≠ []) :
    create (some seed) transcoders =
      .error (.descriptor (.unmatchedTranscoders (unmatched transcoders seed))) := by
  have hnonempty : (!(unmatched transcoders seed).isEmpty) = true := by simpa using h
  simp only [create, Option.getD_some, hnonempty, if_true]
  rfl

/-- **Attaching transcoders changes nothing else.**  Let transcoders be given by name to the entries
of a seed.

* A registry is created exactly if every name is that of some entry and the seed alone gives a
  registry, whose descriptors are those of the entries.  The two then hold the same descriptors in
  the same order, with the same codes, names, sizes, path flags and tags: the one of a name that was
  given has the transcoder of that name, any other keeps its own.
* If some name is that of no entry, the seed is refused as invalid with a message that lists these
  names, each once and in order, whether or not its entries are invalid or collide. -/
theorem create_transcoders (hnames : (transcoders.map (·.1)).Nodup) (seed : List Value) :
    ((∃ r', create (some seed) transcoders = .ok r') ↔
        (∀ name ∈ transcoders.map (·.1), ∃ v ∈ seed, nameOf v = some name) ∧
          ∃ r, create (some seed) [] = .ok r) ∧
      (∀ r r', create (some seed) [] = .ok r → create (some seed) transcoders = .ok r' →
        List.Forall₂ (fun v d => Descriptor.ofValue v = .ok d) seed r.protocols ∧
          List.Forall₂ (fun d d' => d'.code = d.code ∧ d'.name = d.name ∧ d'.size = d.size ∧
            d'.path = d.path ∧ d'.tag = d.tag ∧
            (∀ transcoder, (d.name, transcoder) ∈ transcoders → d'.transcoder = transcoder) ∧
            (d.name ∉ transcoders.map (·.1) → d'.transcoder = d.transcoder))
              r.protocols r'.protocols ∧
          ∀ name transcoder, (name, transcoder) ∈ transcoders →
            ∃ d', r'.findName name = some d' ∧ d'.transcoder = transcoder) ∧
      ((∃ name ∈ transcoders.map (·.1), ∀ v ∈ seed, nameOf v ≠ some name) →
        ∃ names failure, create (some seed) transcoders = .error failure ∧
          failure.report = ⟨.invalidProtocol, .text ErrorCode.protocolInvalid.text,
            Text.ofString "transcoders given for unknown protocols: " ++ Text.listed names⟩ ∧
          (∀ name, name ∈ names ↔ name ∈ transcoders.map (·.1) ∧ ∀ v ∈ seed, nameOf v ≠ some name) ∧
          names.Pairwise fun s t =>
            List.Lex (· < ·) (s.map CodePoint.value) (t.map CodePoint.value)) := by
  refine ⟨?_, fun r r' hcreate hcreate' => ?_, fun hname => ?_⟩
  · simp only [create_nil_eq_ok]
    simp only [create_eq_ok]
    constructor
    · intro h
      obtain ⟨r', hmatched, ds, hseed, hextend⟩ := h
      obtain ⟨r, hextend⟩ := (exists_extend_map_carrying (checkAll_checked hseed)).mp ⟨r', hextend⟩
      exact ⟨hmatched, r, ds, hseed, hextend⟩
    · intro h
      obtain ⟨hmatched, r, ds, hseed, hextend⟩ := h
      obtain ⟨r', hextend'⟩ :=
        (exists_extend_map_carrying (checkAll_checked hseed)).mpr ⟨r, hextend⟩
      exact ⟨r', hmatched, ds, hseed, hextend'⟩
  · obtain ⟨ds, hseed, hextend⟩ := create_nil_eq_ok.mp hcreate
    obtain ⟨hmatched, ds', hseed', hextend'⟩ := create_eq_ok.mp hcreate'
    cases hseed.symm.trans hseed'
    have hprotocols : r.protocols = ds := protocols_extend hextend
    have hprotocols' : r'.protocols = ds.map (carrying transcoders) := protocols_extend hextend'
    rw [hprotocols, hprotocols']
    refine ⟨?_, ?_, fun name transcoder hgiven => ?_⟩
    · exact (Outcome.mapM_eq_ok.mp hseed).imp fun _ _ => Outcome.mapError_eq_ok.mp
    · rw [List.forall₂_map_right_iff, List.forall₂_same]
      exact fun d _ => ⟨rfl, rfl, rfl, rfl, rfl, fun _ => transcoder_carrying_of_mem hnames,
        transcoder_carrying_of_notMem⟩
    · -- the entry of that name has passed its checks, so its descriptor is there
      obtain ⟨v, hv, hname⟩ := hmatched name (List.mem_map_of_mem hgiven)
      obtain ⟨d, hd, hcheck⟩ := Outcome.exists_mem_of_forall₂ (Outcome.mapM_eq_ok.mp hseed).flip hv
      obtain rfl := Option.some.inj (hname.symm.trans (nameOf_of_checkOne hcheck))
      refine ⟨carrying transcoders d, ?_, transcoder_carrying_of_mem hnames hgiven⟩
      rw [(Reachable.create hcreate').consistent.findName_eq_some, hprotocols']
      exact ⟨List.mem_map_of_mem hd, rfl⟩
  · have hunmatched : unmatched transcoders seed ≠ [] := by
      obtain ⟨name, hgiven, hnone⟩ := hname
      exact List.ne_nil_of_mem (mem_unmatched.mpr ⟨hgiven, hnone⟩)
    exact ⟨_, _, create_eq_error_of_unmatched hunmatched, rfl, fun _ => mem_unmatched,
      pairwise_unmatched hnames⟩

/-- A seed of two entries whose tags are forged, each with a transcoder of its own. -/
def forgedSeed : List Value :=
  let old : Value := .handle (Text.ofString "old")
  [.descriptor (.int 5) (.text (Text.ofString "a")) (.int 0) (.bool false) old (.bytes [0]),
    .descriptor (.int 7) (.text (Text.ofString "b")) (.int 0) (.bool false) old .null]

/-- Of these entries the second gets another transcoder.  Names that no entry has are reported,
though there is a value that is no descriptor and each entry stands twice. -/
theorem create_transcoders_second :
    let old : Value := .handle (Text.ofString "old")
    let new : Value := .handle (Text.ofString "new")
    let given : List (Text × Value) := [(Text.ofString "b", new)]
    let stray : List (Text × Value) :=
      [(Text.ofString "udp", new), (Text.ofString "b", new), (Text.ofString "tcp", new)]
    (given.map (·.1)).Nodup ∧ (stray.map (·.1)).Nodup ∧
      (∃ r', create (some forgedSeed) given = .ok r' ∧
        r'.protocols.map (fun d => (d.tag, d.transcoder)) = [([5], old), ([7], new)]) ∧
      ∃ names failure, create (some (.null :: forgedSeed ++ forgedSeed)) stray = .error failure ∧
        failure.report = ⟨.invalidProtocol, .text ErrorCode.protocolInvalid.text,
          Text.ofString "transcoders given for unknown protocols: " ++ Text.listed names⟩ ∧
        Text.ofString "tcp" ∈ names ∧ Text.ofString "udp" ∈ names ∧ Text.ofString "b" ∉ names := by
  intro old new given stray
  have hgiven : (given.map (·.1)).Nodup := by decide
  have hstray : (stray.map (·.1)).Nodup := by decide
  refine ⟨hgiven, hstray, ?_, ?_⟩
  · let first : Descriptor := ⟨5, Text.ofString "a", .bits 0, false, old, Varint.encode 5⟩
    let second : Descriptor := ⟨7, Text.ofString "b", .bits 0, false, old, Varint.encode 7⟩
    have hcreate : create (some forgedSeed) [] = .ok ((empty.push first).push second) :=
      create_nil_eq_ok.mpr ⟨[first, second], rfl, rfl⟩
    obtain ⟨hexists, hframe, -⟩ := create_transcoders hgiven forgedSeed
    obtain ⟨r', hcreate'⟩ := hexists.mpr ⟨by decide, _, hcreate⟩
    obtain ⟨-, hsame, -⟩ := hframe _ r' hcreate hcreate'
    refine ⟨r', hcreate', ?_⟩
    obtain ⟨d, _, ⟨-, -, -, -, hdtag, -, hkeeps⟩, hothers, heq⟩ :=
      List.forall₂_cons_left_iff.mp hsame
    obtain ⟨e, _, ⟨-, -, -, -, hetag, hgets, -⟩, hnone, rfl⟩ :=
      List.forall₂_cons_left_iff.mp hothers
    obtain rfl := List.forall₂_nil_left_iff.mp hnone
    have hfirst : d.tag = [5] := hdtag.trans (by decide +kernel)
    have hsecond : e.tag = [7] := hetag.trans (by decide +kernel)
    have hkept : d.transcoder = old := hkeeps (by decide)
    have hgot : e.transcoder = new := hgets new List.mem_cons_self
    simp only [heq, List.map_cons, List.map_nil, hfirst, hsecond, hkept, hgot]
  · obtain ⟨-, -, hunmatched⟩ := create_transcoders hstray (.null :: forgedSeed ++ forgedSeed)
    obtain ⟨names, failure, hcreate, hreport, hnames, -⟩ :=
      hunmatched ⟨Text.ofString "tcp", by decide, by decide⟩
    refine ⟨names, failure, hcreate, hreport, ?_, ?_, ?_⟩
    · exact (hnames _).mpr ⟨by decide, by decide⟩
    · exact (hnames _).mpr ⟨by decide, by decide⟩
    · rw [hnames]
      decide

end Registry

end AddressProtocols
