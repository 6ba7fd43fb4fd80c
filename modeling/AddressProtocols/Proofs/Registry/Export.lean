import AddressProtocols.Json.OfValue
import AddressProtocols.Proofs.Json.Printable
import AddressProtocols.Proofs.Json.Refusal
import AddressProtocols.Proofs.Registry.Order
import AddressProtocols.Proofs.Table.Format

/-!
# Exporting a registry

The entries of a registry's descriptors make a table, which can be written as JSON and loaded again.

* `Table.entryDocument` is the entry of a descriptor as a document; `Table.ofEntry_entryDocument`
  says that reading it gives the descriptor back, without its transcoder, and
  `Table.strict_entryDocument_iff` that the strict rules admit it exactly if its size has at most 64
  bits; `Table.fold_entryDocument_wide` is what they refuse otherwise;
* `Registry.exported` is the whole table as a value, and `Registry.ofValue?_exported` says which
  document it is;
* `Registry.read_exported` and `Registry.load_exported`: the written table gives the same
  descriptors in the same order, unless the strict rules refuse a size; then the first such size is
  the failure. -/

namespace AddressProtocols

/-- The descriptor as tables know it, without its transcoder. -/
def Descriptor.bare (d : Descriptor) : Descriptor := { d with transcoder := .null }

theorem Descriptor.Checked.bare {d : Descriptor} (hd : d.Checked) : d.bare.Checked :=
  ⟨hd.code_le, hd.name_ne_nil, hd.delimiter_notMem, hd.tag_eq⟩

namespace Table

/-! ### Entries -/

/-- The members of a descriptor's entry. -/
def entryMembers (d : Descriptor) : List (Text × Json.Document) :=
  [(Text.ofString "code", .int d.code), (Text.ofString "name", .string d.name),
    (Text.ofString "size", sizeDocument d.size)] ++
    if d.path then [(Text.ofString "path", .bool true)] else []

def entryDocument (d : Descriptor) : Json.Document := .object (entryMembers d)

/-- What holds of all members of an entry holds of its fields, and of the path flag if it is set. -/
theorem forall_entryMembers {P : Text × Json.Document → Prop} {d : Descriptor}
    (code : P (Text.ofString "code", .int d.code)) (name : P (Text.ofString "name", .string d.name))
    (size : P (Text.ofString "size", sizeDocument d.size))
    (path : P (Text.ofString "path", .bool true)) : ∀ m ∈ entryMembers d, P m := by
  intro m hm
  simp only [entryMembers, List.mem_append, List.mem_cons, List.not_mem_nil, or_false] at hm
  rcases hm with (rfl | rfl | rfl) | hpath
  · exact code
  · exact name
  · exact size
  · split at hpath
    · obtain rfl := List.mem_singleton.mp hpath
      exact path
    · cases hpath

theorem names_entryMembers (d : Descriptor) :
    (entryMembers d).map (·.1) =
      if d.path then allowedNames else requiredNames := by
  cases hpath : d.path <;> simp [entryMembers, hpath, allowedNames, requiredNames]

theorem nodup_names_entryMembers (d : Descriptor) : ((entryMembers d).map (·.1)).Nodup := by
  rw [names_entryMembers]
  split <;> decide

theorem describes_entryMembers (d : Descriptor) : Describes (entryMembers d) d.bare := by
  refine ⟨?_, ?_, ?_, ?_, rfl⟩
  · exact List.mem_append_left _ List.mem_cons_self
  · exact List.mem_append_left _ (by simp [Descriptor.bare])
  · exact List.mem_append_left _ (by simp [Descriptor.bare])
  · rw [names_entryMembers]
    cases hpath : d.path with
    | true => exact .inl (by simp [entryMembers, Descriptor.bare, hpath])
    | false => exact .inr ⟨by decide, hpath⟩

/-- The entry of a descriptor is read as that descriptor, but for the transcoder. -/
theorem ofEntry_entryDocument {d : Descriptor} (hd : d.Checked) :
    ofEntry (entryDocument d) = .ok d.bare := by
  refine (ofMembers_eq_ok (nodup_names_entryMembers d)).mpr
    ⟨?_, hd.bare, describes_entryMembers d⟩
  rw [names_entryMembers]
  split <;> decide

/-- The entries of checked descriptors are read as these descriptors, without their transcoders. -/
theorem ofEntries_map_entryDocument {ds : List Descriptor} (hds : ∀ d ∈ ds, d.Checked) (index : ℕ) :
    ofEntries index (ds.map entryDocument) = .ok (ds.map Descriptor.bare) := by
  rw [ofEntries_eq_ok, List.forall₂_map_left_iff, List.forall₂_map_right_iff, List.forall₂_same]
  exact fun d hd => ofEntry_entryDocument (hds d hd)

theorem ofDocument_entries {ds : List Descriptor} (hds : ∀ d ∈ ds, d.Checked) :
    ofDocument (document (ds.map entryDocument)) = .ok (ds.map Descriptor.bare) := by
  rw [ofDocument_document]
  exact ofEntries_map_entryDocument hds 0

/-! ### What the strict rules say of entries -/

theorem strict_sizeDocument_iff (size : PayloadSize) :
    (sizeDocument size).Strict ↔ size.toInt ≤ Varint.maxValue := by
  cases size with
  | bits n =>
    rw [sizeDocument_bits, PayloadSize.toInt]
    constructor
    · intro h
      cases h with
      | int hn => omega
    · intro h
      exact .int (by omega)
  | lengthPrefixed =>
    rw [sizeDocument_lengthPrefixed, PayloadSize.toInt]
    exact iff_of_true (.string _) (by decide)

/-- Of the fields of a descriptor, only the size can be too large for the strict rules. -/
theorem strict_entryDocument_iff {d : Descriptor} (hd : d.Checked) :
    (entryDocument d).Strict ↔ d.size.toInt ≤ Varint.maxValue := by
  rw [← strict_sizeDocument_iff]
  constructor
  · intro h
    cases h with
    | object hnames hmembers => exact hmembers _ (describes_entryMembers d).size
  · intro h
    have hcode : (Json.Document.int d.code).Strict := .int (by simpa using hd.code_le)
    exact .object (nodup_names_entryMembers d)
      (forall_entryMembers hcode (.string d.name) h (.bool true))

theorem strict_document_iff {ds : List Descriptor} (hds : ∀ d ∈ ds, d.Checked) :
    (document (ds.map entryDocument)).Strict ↔ ∀ d ∈ ds, d.size.toInt ≤ Varint.maxValue := by
  constructor
  · intro h d hd
    have hentry := strict_of_mem_entries h _ (List.mem_map.mpr ⟨d, hd, rfl⟩)
    exact (strict_entryDocument_iff (hds d hd)).mp hentry
  · intro h
    refine .object (by simp) fun m hm => ?_
    obtain rfl := List.mem_singleton.mp hm
    refine .array fun e he => ?_
    obtain ⟨d, hd, rfl⟩ := List.mem_map.mp he
    exact (strict_entryDocument_iff (hds d hd)).mpr (h d hd)

/-! ### The first size that is refused -/

theorem fold_sizeDocument_wide {size : PayloadSize} (h : Varint.maxValue < size.toInt) :
    Json.strictBuilder.fold (sizeDocument size).tree =
      .error (.outOfRange (Text.ofInt size.toInt)) := by
  have hinteger : Json.integer (Text.ofInt size.toInt) =
      .error (.outOfRange (Text.ofInt size.toInt)) := by
    rw [Json.integer_ofInt, if_neg (by omega)]
  cases size with
  | bits n =>
    rw [sizeDocument_bits, Json.Document.tree, Json.Builder.fold]
    show (Json.integer (Text.ofInt (PayloadSize.bits n).toInt)).map _ = _
    rw [hinteger]
    rfl
  | lengthPrefixed => exact absurd h (by decide)

/-- The size of an entry is refused, since its code and its name are not. -/
theorem fold_entryDocument_wide {d : Descriptor} (hd : d.Checked)
    (h : Varint.maxValue < d.size.toInt) :
    Json.strictBuilder.fold (entryDocument d).tree =
      .error (.outOfRange (Text.ofInt d.size.toInt)) := by
  have hcode : (Json.Document.int d.code).Strict := .int (by simpa using hd.code_le)
  have hbefore : Json.strictBuilder.foldItems
      [(Json.Document.int d.code).tree, (Json.Document.string d.name).tree] =
        .ok [.int d.code, .string d.name] :=
    Json.Builder.foldItems_eq_ok.mpr (.cons (Json.fold_tree_eq_ok.mpr ⟨rfl, hcode⟩)
      (.cons (Json.fold_tree_eq_ok.mpr ⟨rfl, .string d.name⟩) .nil))
  have hsize := Json.Builder.foldItems_append_of_ok hbefore
    (Json.Builder.foldItems_singleton_eq_error.mpr (fold_sizeDocument_wide h))
  refine Json.Builder.fold_object_eq_error ?_
  rw [Json.Document.treeMembers_eq_map, entryMembers, List.map_append, List.map_append]
  exact Json.Builder.foldItems_append_of_error hsize _

/-- Of the sizes in a table, the first that is too large is refused. -/
theorem fold_document_wide {ds : List Descriptor} (hds : ∀ d ∈ ds, d.Checked) {d : Descriptor}
    (hfind : ds.find? (fun d : Descriptor => Varint.maxValue < d.size.toInt) = some d) :
    Json.strictBuilder.fold (document (ds.map entryDocument)).tree =
      .error (.outOfRange (Text.ofInt d.size.toInt)) := by
  obtain ⟨hwide, before, after, rfl, hbefore⟩ := List.find?_eq_some_iff_append.mp hfind
  have hpass : Json.strictBuilder.foldItems
      ((before.map entryDocument).map Json.Document.tree) = .ok (before.map entryDocument) := by
    rw [Json.Builder.foldItems_eq_ok, List.map_map, List.forall₂_map_left_iff,
      List.forall₂_map_right_iff, List.forall₂_same]
    intro e he
    have hsmall : e.size.toInt ≤ Varint.maxValue := by simpa using hbefore e he
    exact Json.fold_tree_eq_ok.mpr
      ⟨rfl, (strict_entryDocument_iff (hds e (List.mem_append_left _ he))).mpr hsmall⟩
  have hentry := fold_entryDocument_wide (hds d (by simp)) (of_decide_eq_true hwide)
  have hfirst := Json.Builder.foldItems_append_of_ok hpass
    (Json.Builder.foldItems_singleton_eq_error.mpr hentry)
  refine Json.Builder.fold_object_eq_error (Json.Builder.foldItems_singleton_eq_error.mpr ?_)
  refine Json.Builder.fold_array_eq_error ?_
  rw [Json.Document.treeItems_eq_map, List.map_append, List.map_append, List.map_cons,
    List.map_cons, List.append_cons]
  exact Json.Builder.foldItems_append_of_error hfirst _

/-! ### What it takes to read an entry back -/

theorem scalar_sizeDocument (size : PayloadSize) : (sizeDocument size).Scalar := by
  cases size with
  | bits n => exact sizeDocument_bits n ▸ .int n
  | lengthPrefixed => exact .string (Text.scalar_ofString "var")

theorem scalar_entryDocument {d : Descriptor} (hname : d.name.Scalar) : (entryDocument d).Scalar :=
  .object
    (forall_entryMembers (Text.scalar_ofString "code") (Text.scalar_ofString "name")
      (Text.scalar_ofString "size") (Text.scalar_ofString "path"))
    (forall_entryMembers (.int d.code) (.string hname) (scalar_sizeDocument d.size) (.bool true))

theorem scalar_document {ds : List Descriptor} (hnames : ∀ d ∈ ds, d.name.Scalar) :
    (document (ds.map entryDocument)).Scalar :=
  scalar_document_of_entries (List.forall_mem_map.mpr fun d hd =>
    scalar_entryDocument (hnames d hd))

theorem depth_entryDocument (d : Descriptor) : (entryDocument d).depth = 1 := by
  obtain ⟨code, name, size, path, transcoder, tag⟩ := d
  cases size <;> cases path <;> rfl

theorem depth_document_le (ds : List Descriptor) :
    (document (ds.map entryDocument)).depth ≤ Json.maxDepth := by
  have hitems : Json.Document.depthItems (ds.map entryDocument) ≤ 1 := by
    induction ds with
    | nil => exact Nat.zero_le 1
    | cons d rest ih =>
      rw [List.map_cons, Json.Document.depthItems, depth_entryDocument]
      exact Nat.max_le.mpr ⟨Nat.le_refl 1, ih⟩
  have hdepth : (document (ds.map entryDocument)).depth =
      max (Json.Document.depthItems (ds.map entryDocument) + 1) 0 + 1 := rfl
  rw [hdepth, Json.maxDepth]
  omega

end Table

namespace Registry

/-- The fields of a descriptor's entry as a value. -/
def exportedEntry (d : Descriptor) : Value :=
  .dict (d.candidate.entry.map fun field => (.text field.1, field.2))

/-- The table of a registry's descriptors as a value. -/
def exported (r : Registry) : Value :=
  .dict [(.text (Text.ofString "protocols"), .list (r.protocols.map exportedEntry))]

theorem ofValue?_exportedEntry (d : Descriptor) :
    Json.ofValue? (exportedEntry d) = some (Table.entryDocument d).tree := by
  obtain ⟨code, name, size, path, transcoder, tag⟩ := d
  cases size <;> cases path <;> rfl

theorem ofItems?_map_exportedEntry (ds : List Descriptor) :
    Json.ofItems? (ds.map exportedEntry) =
      some (Json.Document.treeItems (ds.map Table.entryDocument)) := by
  induction ds with
  | nil => rfl
  | cons d rest ih =>
    rw [List.map_cons, Json.ofItems?, ofValue?_exportedEntry, ih]
    rfl

theorem ofValue?_exported (r : Registry) :
    Json.ofValue? r.exported =
      some (Table.document (r.protocols.map Table.entryDocument)).tree := by
  have hitems := ofItems?_map_exportedEntry r.protocols
  rw [exported, Json.ofValue?, Json.ofEntries?, Json.ofValue?, hitems]
  rfl

/-- The written table is read as the descriptors it was made of, if the strict rules admit it. -/
theorem read_exported {ds : List Descriptor} (hds : ∀ d ∈ ds, d.Checked)
    (hnames : ∀ d ∈ ds, d.name.Scalar) {read : List Descriptor} :
    Table.read (.text (Json.write (Table.document (ds.map Table.entryDocument)).tree)) = .ok read ↔
      read = ds.map Descriptor.bare ∧ ∀ d ∈ ds, d.size.toInt ≤ Varint.maxValue := by
  rw [Table.read, Outcome.bind_eq_ok]
  simp only [Table.readDocument_text_eq_ok,
    Json.readDocument_write (Table.scalar_document hnames) (Table.depth_document_le ds),
    Table.strict_document_iff hds]
  constructor
  · intro h
    obtain ⟨doc, ⟨rfl, hsizes⟩, hread⟩ := h
    rw [Table.ofDocument_entries hds] at hread
    cases hread
    exact ⟨rfl, hsizes⟩
  · intro h
    obtain ⟨rfl, hsizes⟩ := h
    exact ⟨_, ⟨rfl, hsizes⟩, Table.ofDocument_entries hds⟩

/-- The written table of descriptors is refused for the first size beyond 64 bits. -/
theorem load_exported_error {ds : List Descriptor} (hds : ∀ d ∈ ds, d.Checked)
    (hnames : ∀ d ∈ ds, d.name.Scalar) {d : Descriptor}
    (hfind : ds.find? (fun d : Descriptor => Varint.maxValue < d.size.toInt) = some d) :
    empty.load (.text (Json.write (Table.document (ds.map Table.entryDocument)).tree)) =
      .error (.table (.refused (.outOfRange (Text.ofInt d.size.toInt)))) := by
  have hparse := Json.parse_write (Table.scalar_document hnames) (Table.depth_document_le ds)
  have hread : Table.readDocument
      (.text (Json.write (Table.document (ds.map Table.entryDocument)).tree)) =
        .error (.refused (.outOfRange (Text.ofInt d.size.toInt))) := by
    show (Json.readDocument _).mapError _ = _
    rw [Json.readDocument, Json.read_of_parse hparse, Table.fold_document_wide hds hfind]
    rfl
  rw [load, Table.read, hread]
  rfl

/-- The descriptors of a registry can be registered together in an empty one. -/
theorem Consistent.fresh_protocols {r : Registry} (h : r.Consistent) : empty.Fresh r.protocols :=
  ⟨⟨h.codes_nodup, h.names_nodup⟩, fun _ _ => ⟨List.not_mem_nil, List.not_mem_nil⟩⟩

/-- **Export and import.**  If the names of a registry have no surrogates, its table can be written
as JSON.  As long as no size is beyond 64 bits, none of its integers is too long to be printed, and
an empty registry that loads the text holds the same descriptors in the same order, without their
transcoders.  If a size is beyond 64 bits, the table is refused: the first such size is an integer
out of the range that tables may have. -/
theorem load_exported {r : Registry} (hr : r.Reachable)
    (hnames : ∀ d ∈ r.protocols, d.name.Scalar) :
    ∃ tree, Json.ofValue? r.exported = some tree ∧
      ((∀ d ∈ r.protocols, d.size.toInt ≤ Varint.maxValue) →
        Json.write? tree = some (Json.write tree) ∧
        ∃ r', empty.load (.text (Json.write tree)) = .ok (r', r.protocols.map Descriptor.bare) ∧
          r'.protocols = r.protocols.map Descriptor.bare) ∧
      ((∃ d ∈ r.protocols, Varint.maxValue < d.size.toInt) →
        ∃ d, r.protocols.find? (fun d : Descriptor => Varint.maxValue < d.size.toInt) = some d ∧
          empty.load (.text (Json.write tree)) =
            .error (.table (.refused (.outOfRange (Text.ofInt d.size.toInt))))) := by
  have h : r.Consistent := hr.consistent
  refine ⟨_, ofValue?_exported r, ?_, ?_⟩
  · intro hsizes
    have hstrict := (Table.strict_document_iff h.checked).mpr hsizes
    refine ⟨Json.write?_eq_some.mpr ⟨hstrict.printable, rfl⟩, ?_⟩
    have hbare : ∀ d ∈ r.protocols.map Descriptor.bare, d.Checked := by
      rw [List.forall_mem_map]
      exact fun d hd => (h.checked d hd).bare
    have hfresh : empty.Fresh (r.protocols.map Descriptor.bare) ↔ empty.Fresh r.protocols :=
      fresh_map (fun _ => rfl) fun _ => rfl
    obtain ⟨r', hextend⟩ :=
      (empty_consistent.exists_extend_iff hbare).mpr (hfresh.mpr h.fresh_protocols)
    have hread := (read_exported h.checked hnames).mpr ⟨rfl, hsizes⟩
    exact ⟨r', load_eq_ok.mpr ⟨_, hread, checkAll_map_value hbare, hextend⟩,
      protocols_extend hextend⟩
  · intro hsize
    obtain ⟨e, he, hwide⟩ := hsize
    have hsome : (r.protocols.find? fun d : Descriptor => Varint.maxValue < d.size.toInt).isSome :=
      List.find?_isSome.mpr ⟨e, he, decide_eq_true hwide⟩
    obtain ⟨d, hfind⟩ := Option.isSome_iff_exists.mp hsome
    exact ⟨d, hfind, load_exported_error h.checked hnames hfind⟩

/-- The built-in table comes back from its text. -/
theorem load_exported_builtin : ∃ tree r', Json.ofValue? builtin.exported = some tree ∧
    empty.load (.text (Json.write tree)) = .ok (r', Descriptor.builtins) ∧
      r'.protocols = Descriptor.builtins := by
  have hnames : ∀ d ∈ builtin.protocols, d.name.Scalar := by
    show ∀ d ∈ Descriptor.builtins, d.name.Scalar
    simp [Descriptor.builtins, Descriptor.plain, Text.scalar_ofString]
  obtain ⟨tree, htree, hload, -⟩ := load_exported builtin_reachable hnames
  obtain ⟨-, r', hload, hprotocols⟩ := hload (by decide)
  exact ⟨tree, r', htree, hload, hprotocols⟩

/-- A descriptor with the least size that the strict rules refuse. -/
def wide : Descriptor :=
  ⟨5000, Text.ofString "big", .bits (2 ^ 64), false, .null, Varint.encode 5000⟩

/-- A registry takes a size beyond 64 bits, but the text of its table cannot be loaded. -/
theorem load_exported_wide : ∃ r tree, create (some [wide.value]) [] = .ok r ∧
    (∀ d ∈ r.protocols, d.name.Scalar) ∧ Json.ofValue? r.exported = some tree ∧
      Json.write tree =
        Text.ofString "\x7b\"protocols\": [\x7b\"code\": 5000, \"name\": \"big\", " ++
          Text.ofString "\"size\": 18446744073709551616\x7d]\x7d" ∧
      empty.load (.text (Json.write tree)) =
        .error (.table (.refused (.outOfRange (Text.ofString "18446744073709551616")))) := by
  have hchecked : ∀ d ∈ [wide], d.Checked :=
    List.forall_mem_singleton.mpr ⟨by decide, by decide, by decide, rfl⟩
  have hnames : ∀ d ∈ [wide], d.name.Scalar :=
    List.forall_mem_singleton.mpr (Text.scalar_ofString "big")
  have hload := load_exported_error hchecked hnames (d := wide) rfl
  refine ⟨empty.push wide, _, ?_, hnames, ofValue?_exported _, ?_, hload⟩
  · simp only [create, unmatched, List.map_nil, List.filter_nil, List.mergeSort_nil]
    rfl
  · rfl

end Registry

end AddressProtocols
