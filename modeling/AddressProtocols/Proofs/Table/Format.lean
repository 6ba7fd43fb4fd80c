import AddressProtocols.Failure
import AddressProtocols.Proofs.Json.Written
import AddressProtocols.Proofs.Registry.Consistent
import AddressProtocols.Proofs.Table
import AddressProtocols.Proofs.Varint.Groups

/-!
# The table format

The format says what a table may contain, field by field and without regard to the order in which
the reader checks things.

* `Table.WellFormedMembers` and `Table.WellFormed`: the members of an entry and the document of a
  table that follow the format;
* `Table.Describes`: what the members of an entry say of a descriptor;
* `Table.ofMembers_eq_ok`: the members of an entry, each with another name, make exactly the
  descriptor that they describe;
* `Table.read_of_readDocument`: a table is accepted exactly if its document follows the format, and
  otherwise the first entry that does not is reported.
-/

namespace AddressProtocols

namespace Table

variable {members : List (Text × Json.Document)} {d : Descriptor}

/-! ### The format -/

/-- The members of an entry that follow the format. -/
structure WellFormedMembers (members : List (Text × Json.Document)) : Prop where
  required : ∀ name ∈ ["code", "name", "size"], Text.ofString name ∈ members.map (·.1)
  allowed : ∀ name ∈ members.map (·.1), name ∈ ["code", "name", "size", "path"].map Text.ofString
  code : ∀ v, (Text.ofString "code", v) ∈ members → ∃ n : ℕ, v = .int n ∧ n ≤ Varint.maxValue
  name : ∀ v, (Text.ofString "name", v) ∈ members →
    ∃ t, v = .string t ∧ t ≠ [] ∧ pathDelimiter ∉ t
  size : ∀ v, (Text.ofString "size", v) ∈ members →
    (∃ n : ℕ, v = .int n) ∨ v = .string (Text.ofString "var")
  path : ∀ v, (Text.ofString "path", v) ∈ members → ∃ b, v = .bool b

/-- An entry that follows the format. -/
inductive WellFormedEntry : Json.Document → Prop where
  | object {members : List (Text × Json.Document)} (h : WellFormedMembers members) :
      WellFormedEntry (.object members)

/-- The document of a table that follows the format. -/
def WellFormed (doc : Json.Document) : Prop :=
  ∃ entries, doc = document entries ∧ ∀ e ∈ entries, WellFormedEntry e

/-- How an entry spells a size: as `var` if it is the mark -1, and else as a number. -/
def sizeDocument (size : PayloadSize) : Json.Document :=
  if size.toInt = -1 then .string (Text.ofString "var") else .int size.toInt

/-- The members of an entry say of a descriptor what it is: its fields, with a path flag that may be
missing if it is not set, and no transcoder. -/
structure Describes (members : List (Text × Json.Document)) (d : Descriptor) : Prop where
  code : (Text.ofString "code", .int d.code) ∈ members
  name : (Text.ofString "name", .string d.name) ∈ members
  size : (Text.ofString "size", sizeDocument d.size) ∈ members
  path : (Text.ofString "path", .bool d.path) ∈ members ∨
    Text.ofString "path" ∉ members.map (·.1) ∧ d.path = false
  transcoder : d.transcoder = .null

/-! ### One field -/

theorem value_eq_int {v : Json.Document} {n : ℤ} : value v = .int n ↔ v = .int n := by
  cases v <;> simp [value]

theorem value_eq_text {v : Json.Document} {t : Text} : value v = .text t ↔ v = .string t := by
  cases v <;> simp [value]

theorem value_eq_bool {v : Json.Document} {b : Bool} : value v = .bool b ↔ v = .bool b := by
  cases v <;> simp [value]

theorem sizeDocument_bits (n : ℕ) : sizeDocument (.bits n) = .int n := by
  have hne : (PayloadSize.bits n).toInt ≠ -1 := by
    rw [PayloadSize.toInt]
    omega
  exact if_neg hne

theorem sizeDocument_lengthPrefixed :
    sizeDocument .lengthPrefixed = .string (Text.ofString "var") := rfl

theorem sizeDocument_ne_null (size : PayloadSize) : sizeDocument size ≠ .null := by
  cases size with
  | bits n => simp [sizeDocument_bits]
  | lengthPrefixed => simp [sizeDocument_lengthPrefixed]

/-- A size is taken exactly if it is spelled as the format wants it. -/
theorem sizeField_eq_ok_int {v : Json.Document} {size : PayloadSize} :
    sizeField v = .ok (.int size.toInt) ↔ v = sizeDocument size := by
  cases v with
  | string t =>
    rw [sizeField]
    cases size with
    | bits n =>
      rw [sizeDocument_bits]
      split <;> simp [PayloadSize.toInt, lengthPrefixedMark]
    | lengthPrefixed =>
      rw [sizeDocument_lengthPrefixed]
      split <;> simp_all [PayloadSize.toInt]
  | int n =>
    rw [sizeField]
    cases size with
    | bits k =>
      rw [sizeDocument_bits]
      split
      · simp
        omega
      · simp [PayloadSize.toInt]
    | lengthPrefixed =>
      rw [sizeDocument_lengthPrefixed]
      split
      · simp
      · simp [PayloadSize.toInt, lengthPrefixedMark]
        omega
  | null | bool _ | array _ | object _ =>
    cases size <;> simp [sizeField, sizeDocument_bits, sizeDocument_lengthPrefixed, value]

/-- With distinct names, a field holds the value listed with its name, or else its default. -/
theorem getD_lookup_eq (hnames : (members.map (·.1)).Nodup) {name : Text}
    {default v : Json.Document} :
    (members.lookup name).getD default = v ↔
      (name, v) ∈ members ∨ name ∉ members.map (·.1) ∧ v = default := by
  have hfound := fun w => Registry.lookup_eq_some_iff_mem hnames (k := name) (v := w)
  cases hlookup : members.lookup name with
  | none =>
    have hmissing : name ∉ members.map (·.1) := by
      intro hmem
      obtain ⟨⟨_, w⟩, hw, rfl⟩ := List.mem_map.mp hmem
      rw [(hfound w).mpr hw] at hlookup
      cases hlookup
    have hnot : (name, v) ∉ members := fun hmem =>
      hmissing (List.mem_map.mpr ⟨_, hmem, rfl⟩)
    simp [hnot, hmissing, eq_comm]
  | some w =>
    have hw := (hfound w).mp hlookup
    have hmem : name ∈ members.map (·.1) := List.mem_map.mpr ⟨_, hw, rfl⟩
    rw [← hfound v, hlookup]
    simp [hmem]

/-! ### One entry -/

theorem ne_null_of_wellFormed (h : WellFormedMembers members) : ∀ m ∈ members, m.2 ≠ .null := by
  intro m hm hnull
  obtain ⟨name, v⟩ := m
  subst hnull
  have hname := h.allowed name (List.mem_map.mpr ⟨_, hm, rfl⟩)
  simp only [List.map_cons, List.map_nil, List.mem_cons, List.not_mem_nil, or_false] at hname
  rcases hname with rfl | rfl | rfl | rfl
  · obtain ⟨n, hn, -⟩ := h.code _ hm
    cases hn
  · obtain ⟨t, ht, -⟩ := h.name _ hm
    cases ht
  · rcases h.size _ hm with ⟨n, hn⟩ | hvar
    · cases hn
    · cases hvar
  · obtain ⟨b, hb⟩ := h.path _ hm
    cases hb

/-- The checks on names and on nulls, and what remains once they have passed. -/
theorem ofMembers_eq_ok_iff :
    ofMembers members = .ok d ↔
      (∀ name ∈ requiredNames, name ∈ members.map (·.1)) ∧
      (∀ name ∈ members.map (·.1), name ∈ allowedNames) ∧ (∀ m ∈ members, m.2 ≠ .null) ∧
      ∃ size, sizeField ((members.lookup (Text.ofString "size")).getD .null) = .ok size ∧
        Descriptor.ofFields (value ((members.lookup (Text.ofString "code")).getD .null))
          (value ((members.lookup (Text.ofString "name")).getD .null)) size
          (value ((members.lookup (Text.ofString "path")).getD (.bool false))) .null = .ok d := by
  have hnull : (members.any fun member => isNull member.2) = true ↔
      ¬∀ m ∈ members, m.2 ≠ .null := by
    simp only [List.any_eq_true, not_forall, not_not, exists_prop]
    refine exists_congr fun m => and_congr_right fun _ => ?_
    cases m.2 <;> simp [isNull]
  simp only [ofMembers, Outcome.guard_bind_eq_ok, Outcome.bind_eq_ok, Outcome.mapError_eq_ok, hnull,
    not_not]
  refine and_congr ?_ (and_congr ?_ Iff.rfl)
  · simp [List.filter_eq_nil_iff]
  · simp [List.filter_eq_nil_iff]

/-- With distinct names, members that describe a descriptor follow the format. -/
theorem Describes.wellFormed (hnames : (members.map (·.1)).Nodup)
    (hallowed : ∀ name ∈ members.map (·.1), name ∈ allowedNames) (hd : d.Checked)
    (h : Describes members d) : WellFormedMembers members := by
  -- a name has one value only
  have hunique : ∀ {name v w}, (name, v) ∈ members → (name, w) ∈ members → v = w :=
    fun hv hw => congrArg Prod.snd (List.inj_on_of_nodup_map hnames hv hw rfl)
  refine ⟨?_, hallowed, ?_, ?_, ?_, ?_⟩
  · intro name hname
    simp only [List.mem_cons, List.not_mem_nil, or_false] at hname
    rcases hname with rfl | rfl | rfl
    · exact List.mem_map.mpr ⟨_, h.code, rfl⟩
    · exact List.mem_map.mpr ⟨_, h.name, rfl⟩
    · exact List.mem_map.mpr ⟨_, h.size, rfl⟩
  · intro v hv
    exact ⟨d.code, hunique hv h.code, hd.code_le⟩
  · intro v hv
    exact ⟨d.name, hunique hv h.name, hd.name_ne_nil, hd.delimiter_notMem⟩
  · intro v hv
    have hsize := hunique hv h.size
    cases hbits : d.size with
    | bits n =>
      rw [hbits, sizeDocument_bits] at hsize
      exact .inl ⟨n, hsize⟩
    | lengthPrefixed =>
      rw [hbits] at hsize
      exact .inr hsize
  · intro v hv
    rcases h.path with hpath | ⟨hmissing, -⟩
    · exact ⟨d.path, hunique hv hpath⟩
    · exact absurd (List.mem_map.mpr ⟨_, hv, rfl⟩) hmissing

/-- Members that follow the format describe a descriptor. -/
theorem WellFormedMembers.exists_describes (h : WellFormedMembers members) :
    ∃ d : Descriptor, d.Checked ∧ Describes members d := by
  have hvalue : ∀ name ∈ ["code", "name", "size"], ∃ v, (Text.ofString name, v) ∈ members := by
    intro name hname
    obtain ⟨⟨_, v⟩, hv, rfl⟩ := List.mem_map.mp (h.required name hname)
    exact ⟨v, hv⟩
  obtain ⟨_, hcode⟩ := hvalue "code" (by simp)
  obtain ⟨code, rfl, hcode_le⟩ := h.code _ hcode
  obtain ⟨_, hname⟩ := hvalue "name" (by simp)
  obtain ⟨name, rfl, hname_ne, hdelimiter⟩ := h.name _ hname
  obtain ⟨size, hsize⟩ : ∃ size, (Text.ofString "size", sizeDocument size) ∈ members := by
    obtain ⟨v, hv⟩ := hvalue "size" (by simp)
    rcases h.size v hv with ⟨n, rfl⟩ | rfl
    · exact ⟨.bits n, sizeDocument_bits n ▸ hv⟩
    · exact ⟨.lengthPrefixed, hv⟩
  obtain ⟨path, hpath⟩ : ∃ path, (Text.ofString "path", .bool path) ∈ members ∨
      Text.ofString "path" ∉ members.map (·.1) ∧ path = false := by
    by_cases hmem : Text.ofString "path" ∈ members.map (·.1)
    · obtain ⟨⟨_, v⟩, hv, rfl⟩ := List.mem_map.mp hmem
      obtain ⟨b, rfl⟩ := h.path v hv
      exact ⟨b, .inl hv⟩
    · exact ⟨false, .inr ⟨hmem, rfl⟩⟩
  exact ⟨⟨code, name, size, path, .null, Varint.encode code⟩,
    ⟨hcode_le, hname_ne, hdelimiter, rfl⟩, ⟨hcode, hname, hsize, hpath, rfl⟩⟩

/-- Members with distinct names make exactly the descriptor that they describe, as long as it passes
its checks and no other field is there. -/
theorem ofMembers_eq_ok (hnames : (members.map (·.1)).Nodup) :
    ofMembers members = .ok d ↔
      (∀ name ∈ members.map (·.1), name ∈ allowedNames) ∧ d.Checked ∧ Describes members d := by
  rw [ofMembers_eq_ok_iff]
  constructor
  · intro h
    obtain ⟨-, hallowed, -, size, hsize, hfields⟩ := h
    obtain ⟨hd, hcode, hname, rfl, hpath, htranscoder⟩ := Descriptor.ofFields_eq_ok.mp hfields
    rw [value_eq_int, getD_lookup_eq hnames] at hcode
    rw [value_eq_text, getD_lookup_eq hnames] at hname
    rw [value_eq_bool, getD_lookup_eq hnames, Json.Document.bool.injEq] at hpath
    rw [sizeField_eq_ok_int, getD_lookup_eq hnames] at hsize
    refine ⟨hallowed, hd, ?_, ?_, ?_, hpath, htranscoder.symm⟩
    · exact hcode.resolve_right nofun
    · exact hname.resolve_right nofun
    · exact hsize.resolve_right fun h => sizeDocument_ne_null _ h.2
  · intro h
    obtain ⟨hallowed, hd, hdescribes⟩ := h
    have hformat := hdescribes.wellFormed hnames hallowed hd
    refine ⟨?_, hallowed, ne_null_of_wellFormed hformat, .int d.size.toInt, ?_, ?_⟩
    · intro name hname
      obtain ⟨field, hfield, rfl⟩ : ∃ field ∈ ["code", "name", "size"], Text.ofString field =
          name :=
        List.mem_map.mp hname
      exact hformat.required field hfield
    · rw [sizeField_eq_ok_int, getD_lookup_eq hnames]
      exact .inl hdescribes.size
    · rw [Descriptor.ofFields_eq_ok, value_eq_int, value_eq_text, value_eq_bool,
        getD_lookup_eq hnames, getD_lookup_eq hnames, getD_lookup_eq hnames,
        Json.Document.bool.injEq]
      exact ⟨hd, .inl hdescribes.code, .inl hdescribes.name, rfl, hdescribes.path,
        hdescribes.transcoder.symm⟩

theorem exists_ofEntry_eq_ok {e : Json.Document} (he : e.Strict) :
    (∃ d, ofEntry e = .ok d) ↔ WellFormedEntry e := by
  cases he with
  | @object members hnames hmembers =>
    simp only [ofEntry, ofMembers_eq_ok hnames]
    constructor
    · intro h
      obtain ⟨d, hallowed, hd, hdescribes⟩ := h
      exact .object (hdescribes.wellFormed hnames hallowed hd)
    · intro h
      cases h with
      | object hformat =>
        obtain ⟨d, hd, hdescribes⟩ := hformat.exists_describes
        exact ⟨d, hformat.allowed, hd, hdescribes⟩
  | null | bool _ | int _ | string _ | array _ =>
    constructor
    · intro h
      obtain ⟨d, hd⟩ := h
      cases hd
    · intro h
      cases h

theorem describes_of_ofEntry {e : Json.Document} (he : e.Strict) (h : ofEntry e = .ok d) :
    ∃ members, e = .object members ∧ Describes members d ∧
      Varint.encode? (.int d.code) = .ok d.tag := by
  cases he with
  | @object members hnames hmembers =>
    obtain ⟨-, hd, hdescribes⟩ := (ofMembers_eq_ok hnames).mp h
    refine ⟨members, rfl, hdescribes, ?_⟩
    rw [hd.tag_eq]
    exact Varint.encode?_natCast hd.code_le
  | null | bool _ | int _ | string _ | array _ => cases h

/-! ### Whole tables -/

theorem readDocument_text_eq_ok {t : Text} {doc : Json.Document} :
    readDocument (.text t) = .ok doc ↔ Json.readDocument t = .ok doc :=
  Outcome.mapError_eq_ok

theorem readDocument_strict {source : Source} {doc : Json.Document}
    (h : readDocument source = .ok doc) : doc.Strict := by
  rw [readDocument] at h
  split at h
  · cases h
  · exact Json.readDocument_strict (Outcome.mapError_eq_ok.mp h)

theorem strict_of_mem_entries {entries : List Json.Document} (h : (document entries).Strict) :
    ∀ e ∈ entries, e.Strict := by
  cases h with
  | object hnames hmembers =>
    cases hmembers _ List.mem_cons_self with
    | array hitems => exact hitems

theorem ofDocument_document (entries : List Json.Document) :
    ofDocument (document entries) = ofEntries 0 entries := by
  rw [document, ofDocument, if_pos rfl]

theorem exists_ofEntries_eq_ok {entries : List Json.Document} (h : ∀ e ∈ entries, e.Strict)
    (index : ℕ) : (∃ ds, ofEntries index entries = .ok ds) ↔ ∀ e ∈ entries, WellFormedEntry e := by
  induction entries generalizing index with
  | nil => simp [ofEntries]
  | cons e rest ih =>
    obtain ⟨he, hrest⟩ := List.forall_mem_cons.mp h
    rw [List.forall_mem_cons, ← exists_ofEntry_eq_ok he, ← ih hrest (index + 1), ofEntries]
    cases ofEntry e with
    | error reason => simp
    | ok d => simp [Outcome.map_eq_ok]

/-- The first entry that does not follow the format is the one that is reported. -/
theorem first_of_ofEntries_eq_error {entries : List Json.Document} (h : ∀ e ∈ entries, e.Strict)
    {fault : Fault} (hfault : ofEntries 0 entries = .error fault) :
    ∃ before e after reason, entries = before ++ e :: after ∧ (∀ b ∈ before, WellFormedEntry b) ∧
      ¬WellFormedEntry e ∧ fault = .entry before.length reason := by
  obtain ⟨before, e, after, reason, rfl, hbefore, he, rfl⟩ := ofEntries_eq_error.mp hfault
  refine ⟨before, e, after, reason, rfl, ?_, ?_, by rw [Nat.zero_add]⟩
  · intro b hb
    exact (exists_ofEntry_eq_ok (h b (List.mem_append_left _ hb))).mp (hbefore b hb)
  · rw [← exists_ofEntry_eq_ok (h e (List.mem_append_right _ List.mem_cons_self)), he]
    simp

/-- A table is accepted exactly if its document follows the format, whatever else may be in it.  It
then gives a descriptor for each entry, in order, with the fields that the entry states and with the
encoding of its code for its tag.  Any other table is refused as a table, and if only its entries
are at fault the first one that does not follow the format is named. -/
theorem read_of_readDocument {source : Source} {doc : Json.Document}
    (hdoc : readDocument source = .ok doc) :
    ((∃ ds, read source = .ok ds) ↔ WellFormed doc) ∧
    (∀ ds, read source = .ok ds → ∃ entries, doc = document entries ∧
      List.Forall₂ (fun e d => ∃ members, e = .object members ∧ Describes members d ∧
        Varint.encode? (.int d.code) = .ok d.tag) entries ds) ∧
    (¬WellFormed doc → ∃ fault, read source = .error fault ∧
      (Failure.table fault).report =
        ⟨.table, .text (Text.ofString "ERR_TABLE"), fault.message⟩ ∧
      ∀ entries, doc = document entries → ∃ before e after detail,
        entries = before ++ e :: after ∧ (∀ b ∈ before, WellFormedEntry b) ∧
          ¬WellFormedEntry e ∧
          fault.message = Text.ofString "protocols[" ++ Text.ofNat before.length ++
            Text.ofString "]" ++ detail) := by
  have hstrict := readDocument_strict hdoc
  have hread : read source = ofDocument doc := by
    rw [read, hdoc]
    rfl
  rw [hread]
  have hexists : (∃ ds, ofDocument doc = .ok ds) ↔ WellFormed doc := by
    constructor
    · intro h
      obtain ⟨ds, hds⟩ := h
      obtain ⟨entries, rfl, -⟩ := ofDocument_eq_ok.mp hds
      rw [ofDocument_document] at hds
      exact ⟨entries, rfl, (exists_ofEntries_eq_ok (strict_of_mem_entries hstrict) 0).mp ⟨ds, hds⟩⟩
    · intro h
      obtain ⟨entries, rfl, hentries⟩ := h
      rw [ofDocument_document]
      exact (exists_ofEntries_eq_ok (strict_of_mem_entries hstrict) 0).mpr hentries
  refine ⟨hexists, ?_, ?_⟩
  · intro ds hds
    obtain ⟨entries, rfl, hentries⟩ := ofDocument_eq_ok.mp hds
    have hentries := (List.forall₂_and_left _ _).mpr ⟨strict_of_mem_entries hstrict, hentries⟩
    exact ⟨entries, rfl, hentries.imp fun e d h => describes_of_ofEntry h.1 h.2⟩
  · intro hnot
    cases hfault : ofDocument doc with
    | ok ds => exact absurd (hexists.mp ⟨ds, hfault⟩) hnot
    | error fault =>
      refine ⟨fault, rfl, rfl, fun entries heq => ?_⟩
      subst heq
      rw [ofDocument_document] at hfault
      obtain ⟨before, e, after, reason, hentries, hbefore, he, rfl⟩ :=
        first_of_ofEntries_eq_error (strict_of_mem_entries hstrict) hfault
      refine ⟨before, e, after, reason.message, hentries, hbefore, he, ?_⟩
      rw [Fault.message, List.append_assoc _ (Text.ofString "]")]
      rfl

/-- The table of one entry whose size is the mark of a length-prefixed payload. -/
def markedSize : Json.Document :=
  document [.object [(Text.ofString "code", .int 777),
    (Text.ofString "name", .string (Text.ofString "blob")), (Text.ofString "size", .int (-1))]]

theorem scalar_document_of_entries {entries : List Json.Document} (h : ∀ e ∈ entries, e.Scalar) :
    (document entries).Scalar :=
  .object (List.forall_mem_singleton.mpr (Text.scalar_ofString "protocols"))
    (List.forall_mem_singleton.mpr (.array h))

theorem scalar_markedSize : markedSize.Scalar := by
  refine scalar_document_of_entries (List.forall_mem_singleton.mpr ?_)
  refine .object (by simp [Text.scalar_ofString]) fun m hm => ?_
  simp only [List.mem_cons, List.not_mem_nil, or_false] at hm
  rcases hm with rfl | rfl | rfl
  · exact .int 777
  · exact .string (Text.scalar_ofString "blob")
  · exact .int (-1)

theorem not_wellFormed_markedSize : ¬WellFormed markedSize := by
  intro h
  obtain ⟨entries, heq, hentries⟩ := h
  cases heq
  cases hentries _ List.mem_cons_self with
  | object hmembers =>
    rcases hmembers.size (.int (-1)) (by simp) with ⟨n, hn⟩ | hvar
    · cases hn
    · cases hvar

/-- No table may state the mark of a length-prefixed payload for a size; the entry that does is
named. -/
theorem read_of_readDocument_marked_size : ∃ fault detail,
    read (.text (Text.ofString
      "\x7b\"protocols\": [\x7b\"code\": 777, \"name\": \"blob\", \"size\": -1\x7d]\x7d")) =
        .error fault ∧
      fault.message = Text.ofString "protocols[0]" ++ detail := by
  have hdoc : readDocument (.text (Json.write markedSize.tree)) = .ok markedSize := by
    have hstrict : markedSize.Strict := (Json.fold_tree_eq_ok.mp rfl).2
    exact readDocument_text_eq_ok.mpr
      ((Json.readDocument_write scalar_markedSize (by decide)).mpr ⟨rfl, hstrict⟩)
  obtain ⟨fault, hread, -, hfirst⟩ := (read_of_readDocument hdoc).2.2 not_wellFormed_markedSize
  obtain ⟨before, e, after, detail, hentries, -, -, hmessage⟩ := hfirst _ rfl
  have hbefore : before = [] := by
    cases before with
    | nil => rfl
    | cons b before =>
      have hnone := (List.cons.inj hentries).2
      simp at hnone
  subst hbefore
  exact ⟨fault, detail, hread, hmessage⟩

end Table

end AddressProtocols
