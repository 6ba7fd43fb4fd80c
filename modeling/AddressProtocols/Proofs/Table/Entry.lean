import AddressProtocols.Proofs.Registry.Export

/-!
# Entries and descriptors

A descriptor has an entry, and an entry that is read gives a descriptor.  The two ways are inverse
to each other: an entry may list its members in any order and may say that its path flag is not set,
but that is all that an exported entry does not keep.

* `Table.keptMembers`: the members of an entry that its descriptor's own entry repeats, and
  `Table.perm_entryMembers`: it has these and no others;
* `Table.equals_exportedEntry`: entries are equal exactly if the fields of their descriptors are,
  transcoders apart;
* `Table.entry_round_trip`: reading and then exporting an entry, and exporting and then reading a
  descriptor. -/

namespace AddressProtocols

namespace Table

variable {members : List (Text × Json.Document)} {d d' : Descriptor}

/-! ### From an entry to its descriptor and back -/

/-- Whether a member says that the path flag is not set. -/
def isUnsetPath : Text × Json.Document → Bool
  | (name, .bool false) => name = Text.ofString "path"
  | _ => false

/-- The members of an entry but for a path flag that is not set. -/
def keptMembers (members : List (Text × Json.Document)) : List (Text × Json.Document) :=
  members.filter fun m => !isUnsetPath m

theorem entry_candidate (d : Descriptor) :
    d.candidate.entry = (entryMembers d).map fun m => (m.1, value m.2) := by
  obtain ⟨code, name, size, path, transcoder, tag⟩ := d
  cases size <;> cases path <;> rfl

theorem value_entryDocument (d : Descriptor) :
    value (entryDocument d) = Registry.exportedEntry d := by
  obtain ⟨code, name, size, path, transcoder, tag⟩ := d
  cases size <;> cases path <;> rfl

theorem mem_entryMembers {m : Text × Json.Document} :
    m ∈ entryMembers d ↔ m = (Text.ofString "code", .int d.code) ∨
      m = (Text.ofString "name", .string d.name) ∨
      m = (Text.ofString "size", sizeDocument d.size) ∨
      m = (Text.ofString "path", .bool true) ∧ d.path = true := by
  cases hpath : d.path <;> simp [entryMembers, hpath]

theorem isUnsetPath_eq_true {m : Text × Json.Document} :
    isUnsetPath m = true ↔ m = (Text.ofString "path", .bool false) := by
  obtain ⟨name, v⟩ := m
  cases v with
  | bool b => cases b <;> simp [isUnsetPath]
  | _ => simp [isUnsetPath]

theorem mem_keptMembers {m : Text × Json.Document} :
    m ∈ keptMembers members ↔ m ∈ members ∧ m ≠ (Text.ofString "path", .bool false) := by
  rw [keptMembers, List.mem_filter, Bool.not_eq_true', ← Bool.not_eq_true, isUnsetPath_eq_true]

/-- With distinct names, the members that describe a descriptor are those of its entry, but for a
path flag that is not set. -/
theorem mem_entryMembers_iff (hnames : (members.map (·.1)).Nodup)
    (hallowed : ∀ name ∈ members.map (·.1), name ∈ allowedNames) (h : Describes members d)
    {m : Text × Json.Document} : m ∈ entryMembers d ↔ m ∈ keptMembers members := by
  rw [mem_entryMembers, mem_keptMembers]
  constructor
  · intro hm
    have hcode : Text.ofString "code" ≠ Text.ofString "path" := by decide
    have hname : Text.ofString "name" ≠ Text.ofString "path" := by decide
    have hsize : Text.ofString "size" ≠ Text.ofString "path" := by decide
    rcases hm with rfl | rfl | rfl | ⟨rfl, hset⟩
    · exact ⟨h.code, fun heq => hcode (congrArg Prod.fst heq)⟩
    · exact ⟨h.name, fun heq => hname (congrArg Prod.fst heq)⟩
    · exact ⟨h.size, fun heq => hsize (congrArg Prod.fst heq)⟩
    · rcases h.path with hpath | ⟨-, hunset⟩
      · exact ⟨hset ▸ hpath, nofun⟩
      · cases hset.symm.trans hunset
  · intro hm
    obtain ⟨hm, hset⟩ := hm
    obtain ⟨name, v⟩ := m
    -- a name has one value only
    have hunique : ∀ {w}, (name, w) ∈ members → (name, v) = (name, w) :=
      fun hw => List.inj_on_of_nodup_map hnames hm hw rfl
    have hname := hallowed name (List.mem_map_of_mem hm)
    simp only [allowedNames, requiredNames, List.cons_append, List.nil_append, List.mem_cons,
      List.not_mem_nil, or_false] at hname
    rcases hname with rfl | rfl | rfl | rfl
    · exact .inl (hunique h.code)
    · exact .inr (.inl (hunique h.name))
    · exact .inr (.inr (.inl (hunique h.size)))
    · rcases h.path with hpath | ⟨hmissing, -⟩
      · rw [hunique hpath] at hset ⊢
        cases hflag : d.path with
        | true => exact .inr (.inr (.inr ⟨rfl, rfl⟩))
        | false => exact absurd (by rw [hflag]) hset
      · exact absurd (List.mem_map_of_mem hm) hmissing

theorem perm_entryMembers (hnames : (members.map (·.1)).Nodup)
    (hallowed : ∀ name ∈ members.map (·.1), name ∈ allowedNames) (h : Describes members d) :
    (entryMembers d).Perm (keptMembers members) := by
  have hentry : (entryMembers d).Nodup := (nodup_names_entryMembers d).of_map _
  have hkept : (keptMembers members).Nodup := (hnames.of_map _).filter _
  exact (List.perm_ext_iff_of_nodup hentry hkept).mpr fun m =>
    mem_entryMembers_iff hnames hallowed h

/-! ### Equal entries -/

theorem equals_int {m n : ℤ} : (Value.int m).equals (.int n) = true ↔ m = n := by
  simp [Value.equals, Value.scalarEquals, Value.int?]

theorem equals_text {s t : Text} : (Value.text s).equals (.text t) = true ↔ s = t := by
  simp [Value.equals, Value.scalarEquals]

theorem equals_sizeDocument {s s' : PayloadSize} :
    (value (sizeDocument s)).equals (value (sizeDocument s')) = true ↔ s = s' := by
  cases s with
  | bits n =>
    cases s' with
    | bits n' => simp [sizeDocument_bits, value, equals_int]
    | lengthPrefixed =>
      simp [sizeDocument_bits, sizeDocument_lengthPrefixed, value, Value.equals, Value.scalarEquals,
        Value.int?]
  | lengthPrefixed =>
    cases s' with
    | bits n' =>
      simp [sizeDocument_bits, sizeDocument_lengthPrefixed, value, Value.equals, Value.scalarEquals,
        Value.int?]
    | lengthPrefixed => simp [sizeDocument_lengthPrefixed, value, equals_text]

theorem entriesIn_eq_true {xs ys : List (Value × Value)} :
    Value.entriesIn xs ys = true ↔
      ∀ x ∈ xs, ∃ y ∈ ys, x.1.equals y.1 = true ∧ x.2.equals y.2 = true := by
  induction xs with
  | nil => simp [Value.entriesIn]
  | cons x rest ih =>
    obtain ⟨k, v⟩ := x
    simp [Value.entriesIn, ih]

theorem valueMembers_eq_map (members : List (Text × Json.Document)) :
    valueMembers members = members.map fun m => (.text m.1, value m.2) := by
  induction members with
  | nil => rfl
  | cons m rest ih => rw [valueMembers, ih, List.map_cons]

/-- Objects are equal if they have as many members and the value of each name is the same in
both. -/
theorem equals_object {members' : List (Text × Json.Document)} :
    (value (.object members)).equals (value (.object members')) = true ↔
      members.length = members'.length ∧
        ∀ m ∈ members, ∃ w, (m.1, w) ∈ members' ∧ (value m.2).equals (value w) = true := by
  simp only [value, Value.equals, valueMembers_eq_map, List.length_map, Bool.and_eq_true,
    beq_iff_eq, entriesIn_eq_true, List.forall_mem_map]
  refine and_congr_right fun _ => forall₂_congr fun m _ => ?_
  constructor
  · intro h
    obtain ⟨_, hy, hkey, hvalue⟩ := h
    obtain ⟨⟨name, w⟩, hw, rfl⟩ := List.mem_map.mp hy
    exact ⟨w, equals_text.mp hkey ▸ hw, hvalue⟩
  · intro h
    obtain ⟨w, hw, hvalue⟩ := h
    exact ⟨_, List.mem_map_of_mem hw, equals_text.mpr rfl, hvalue⟩

theorem length_entryMembers (d : Descriptor) :
    (entryMembers d).length = if d.path then 4 else 3 := by
  cases hpath : d.path <;> simp [entryMembers, hpath]

/-- Entries are equal exactly if all fields of their descriptors but the transcoder are. -/
theorem equals_exportedEntry :
    (Registry.exportedEntry d).equals (Registry.exportedEntry d') = true ↔
      d.code = d'.code ∧ d.name = d'.name ∧ d.size = d'.size ∧ d.path = d'.path := by
  rw [← value_entryDocument, ← value_entryDocument, entryDocument, entryDocument, equals_object]
  constructor
  · intro h
    obtain ⟨hlength, hmembers⟩ := h
    have hfield : ∀ {name v w}, (name, v) ∈ entryMembers d → (name, w) ∈ entryMembers d' →
        (value v).equals (value w) = true := by
      intro name v w hv hw
      obtain ⟨w', hw', hequals⟩ := hmembers _ hv
      cases List.inj_on_of_nodup_map (nodup_names_entryMembers d') hw hw' rfl
      exact hequals
    have hd := describes_entryMembers d
    have hd' := describes_entryMembers d'
    refine ⟨?_, ?_, ?_, ?_⟩
    · exact Int.ofNat_inj.mp (equals_int.mp (hfield hd.code hd'.code))
    · exact equals_text.mp (hfield hd.name hd'.name)
    · exact equals_sizeDocument.mp (hfield hd.size hd'.size)
    · rw [length_entryMembers, length_entryMembers] at hlength
      cases hpath : d.path <;> cases hpath' : d'.path <;> simp [hpath, hpath'] at hlength ⊢
  · intro h
    obtain ⟨hcode, hname, hsize, hpath⟩ := h
    have hentries : entryMembers d' = entryMembers d := by
      simp only [entryMembers, hcode, hname, hsize, hpath]
    rw [hentries]
    have hself : ∀ m ∈ entryMembers d, (value m.2).equals (value m.2) = true :=
      forall_entryMembers (equals_int.mpr rfl) (equals_text.mpr rfl) (equals_sizeDocument.mpr rfl)
        rfl
    exact ⟨rfl, fun m hm => ⟨m.2, hm, hself m hm⟩⟩

/-- Checked descriptors with equal entries are the same, transcoders apart. -/
theorem equals_exportedEntry_iff_bare (hd : d.Checked) (hd' : d'.Checked) :
    (Registry.exportedEntry d).equals (Registry.exportedEntry d') = true ↔ d.bare = d'.bare := by
  rw [equals_exportedEntry]
  obtain ⟨-, -, -, htag⟩ := hd
  obtain ⟨-, -, -, htag'⟩ := hd'
  simp only [Descriptor.bare, Descriptor.mk.injEq, htag, htag', true_and]
  constructor
  · intro h
    obtain ⟨hcode, hname, hsize, hpath⟩ := h
    exact ⟨hcode, hname, hsize, hpath, congrArg _ hcode⟩
  · intro h
    obtain ⟨hcode, hname, hsize, hpath, -⟩ := h
    exact ⟨hcode, hname, hsize, hpath⟩

/-! ### Reading and exporting -/

/-- An entry that is read is the entry of its descriptor, but for the order of its members and for a
path flag that is not set. -/
theorem perm_entry_of_ofEntry {e : Json.Document} (he : e.Strict) (h : ofEntry e = .ok d) :
    ∃ members, e = .object members ∧
      d.candidate.entry.Perm ((keptMembers members).map fun m => (m.1, value m.2)) := by
  cases he with
  | @object members hnames hmembers =>
    obtain ⟨hallowed, -, hdescribes⟩ := (ofMembers_eq_ok hnames).mp h
    refine ⟨members, rfl, ?_⟩
    rw [entry_candidate]
    exact (perm_entryMembers hnames hallowed hdescribes).map _
  | null | bool _ | int _ | string _ | array _ => cases h

/-- What an entry is read as passes its checks and has no transcoder. -/
theorem checked_of_ofEntry {e : Json.Document} (he : e.Strict) (h : ofEntry e = .ok d) :
    d.Checked ∧ d.bare = d := by
  cases he with
  | @object members hnames hmembers =>
    obtain ⟨-, hd, hdescribes⟩ := (ofMembers_eq_ok hnames).mp h
    obtain ⟨code, name, size, path, transcoder, tag⟩ := d
    obtain rfl : transcoder = .null := hdescribes.transcoder
    exact ⟨hd, rfl⟩
  | null | bool _ | int _ | string _ | array _ => cases h

/-- **Entries both ways.**  The entry of each descriptor that a table gives has the members of that
table's entry, but for a path flag that is not set, and reading these entries again gives the same
descriptors.  Whatever descriptor its fields make, its entry is read as that descriptor, transcoder
apart, wherever it stands in a table; so descriptors with equal entries differ at most in their
transcoders. -/
theorem entry_round_trip :
    (∀ source ds, read source = .ok ds →
      ∃ entries, readDocument source = .ok (document entries) ∧
        List.Forall₂ (fun e d => ∃ members, e = .object members ∧
          d.candidate.entry.Perm ((keptMembers members).map fun m => (m.1, value m.2))) entries ds ∧
        ∃ again : List Json.Document, again.map value = ds.map Registry.exportedEntry ∧
          ∀ index, ofEntries index again = .ok ds) ∧
    (∀ code name size path transcoder d,
      Descriptor.ofFields code name size path transcoder = .ok d →
      ∃ e, value e = Registry.exportedEntry d ∧ ∀ index, ofEntries index [e] = .ok [d.bare]) ∧
    ∀ code name size path transcoder d code' name' size' path' transcoder' d',
      Descriptor.ofFields code name size path transcoder = .ok d →
      Descriptor.ofFields code' name' size' path' transcoder' = .ok d' →
        ((Registry.exportedEntry d).equals (Registry.exportedEntry d') = true ↔
          d.bare = d'.bare) := by
  refine ⟨?_, ?_, ?_⟩
  · intro source ds h
    obtain ⟨entries, hdoc, hentries⟩ := read_eq_ok.mp h
    have hstrict := strict_of_mem_entries (readDocument_strict hdoc)
    have hread := (List.forall₂_and_left _ _).mpr ⟨hstrict, hentries⟩
    have hds : ∀ d ∈ ds, d.Checked ∧ d.bare = d :=
      Outcome.forall_mem_of_forall₂ hread fun e d h => checked_of_ofEntry h.1 h.2
    refine ⟨entries, hdoc, hread.imp fun e d h => perm_entry_of_ofEntry h.1 h.2,
      ds.map entryDocument, ?_, ?_⟩
    · rw [List.map_map]
      exact List.map_congr_left fun d _ => value_entryDocument d
    · intro index
      rw [ofEntries_map_entryDocument fun d hd => (hds d hd).1,
        List.map_congr_left fun d hd => (hds d hd).2, List.map_id']
  · intro code name size path transcoder d h
    obtain ⟨hd, -⟩ := Descriptor.ofFields_eq_ok.mp h
    exact ⟨entryDocument d, value_entryDocument d,
      ofEntries_map_entryDocument (List.forall_mem_singleton.mpr hd)⟩
  · intro code name size path transcoder d code' name' size' path' transcoder' d' h h'
    obtain ⟨hd, -⟩ := Descriptor.ofFields_eq_ok.mp h
    obtain ⟨hd', -⟩ := Descriptor.ofFields_eq_ok.mp h'
    exact equals_exportedEntry_iff_bare hd hd'

/-- The table of one entry that lists its members in an order of its own and says that its path flag
is not set. -/
def reordered : Json.Document :=
  document [.object [(Text.ofString "path", .bool false),
    (Text.ofString "size", .string (Text.ofString "var")),
    (Text.ofString "name", .string (Text.ofString "memory")), (Text.ofString "code", .int 777)]]

/-- The descriptor of that entry. -/
def memory : Descriptor := Descriptor.plain 777 "memory" .lengthPrefixed false

theorem scalar_reordered : reordered.Scalar := by
  refine scalar_document_of_entries (List.forall_mem_singleton.mpr ?_)
  refine .object (by simp [Text.scalar_ofString]) fun m hm => ?_
  simp only [List.mem_cons, List.not_mem_nil, or_false] at hm
  rcases hm with rfl | rfl | rfl | rfl
  · exact .bool false
  · exact .string (Text.scalar_ofString "var")
  · exact .string (Text.scalar_ofString "memory")
  · exact .int 777

/-- The exported entry leaves out the path flag that is not set, and keeps the rest of the entry
that was read. -/
theorem entry_round_trip_reordered :
    read (.text (Text.ofString "\x7b\"protocols\": [\x7b\"path\": false, \"size\": \"var\", " ++
      Text.ofString "\"name\": \"memory\", \"code\": 777\x7d]\x7d")) = .ok [memory] ∧
      memory.candidate.entry.Perm [(Text.ofString "size", .text (Text.ofString "var")),
        (Text.ofString "name", .text (Text.ofString "memory")), (Text.ofString "code", .int 777)] ∧
      (∃ e, value e = Registry.exportedEntry memory ∧ ofEntries 5 [e] = .ok [memory]) ∧
      ((Registry.exportedEntry memory).equals (Registry.exportedEntry Registry.wide) = true ↔
        memory.bare = Registry.wide.bare) := by
  have hstrict : reordered.Strict := (Json.fold_tree_eq_ok.mp rfl).2
  have hdoc : readDocument (.text (Json.write reordered.tree)) = .ok reordered :=
    readDocument_text_eq_ok.mpr
      ((Json.readDocument_write scalar_reordered (by decide)).mpr ⟨rfl, hstrict⟩)
  have hread : read (.text (Json.write reordered.tree)) = .ok [memory] :=
    read_eq_ok.mpr ⟨_, hdoc, .cons rfl .nil⟩
  obtain ⟨himport, hexport, hequal⟩ := entry_round_trip
  refine ⟨hread, ?_, ?_, ?_⟩
  · obtain ⟨entries, hdoc', hentries, -⟩ := himport _ _ hread
    cases hdoc.symm.trans hdoc'
    obtain ⟨members, hmembers, hperm⟩ := (List.forall₂_cons.mp hentries).1
    cases hmembers
    exact hperm
  · obtain ⟨e, he, hback⟩ :=
      hexport (.int 777) (.text (Text.ofString "memory")) (.int (-1)) (.bool false) .null
        memory rfl
    exact ⟨e, he, hback 5⟩
  · exact hequal (.int 777) (.text (Text.ofString "memory")) (.int (-1)) (.bool false) .null memory
      (.int 5000) (.text (Text.ofString "big")) (.int (2 ^ 64)) (.bool false)
        .null Registry.wide rfl rfl

end Table

end AddressProtocols
