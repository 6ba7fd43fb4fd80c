import AddressProtocols.Json.Strict
import AddressProtocols.Proofs.Json.Fold
import AddressProtocols.Proofs.Json.Numeral
import Mathlib.Data.List.Nodup

/-!
# What strict reading gives

* `Json.Tree.induction` and `Json.Document.induction`: induction in which the items of an array and
  the values of an object's members come with the hypothesis;
* `Json.Document.Strict`: the integers have at most 64 bits and no object has a name twice, at every
  depth;
* `Json.readDocument_strict`: every document that is read is strict;
* `Json.fold_tree_eq_ok`: the builder under the strict rules gives the document of a tree back, if
  it is strict, and refuses it otherwise. -/

namespace AddressProtocols

namespace Json

/-! ### Induction -/

/-- Induction over trees. -/
@[elab_as_elim]
theorem Tree.induction {P : Tree → Prop} (null : P .null) (bool : ∀ b, P (.bool b))
    (integer : ∀ numeral, P (.integer numeral)) (real : ∀ numeral, P (.real numeral))
    (constant : ∀ name, P (.constant name)) (string : ∀ t, P (.string t))
    (array : ∀ items, (∀ t ∈ items, P t) → P (.array items))
    (object : ∀ members, (∀ m ∈ members, P m.2) → P (.object members)) : ∀ t, P t
  | .null => null
  | .bool b => bool b
  | .integer numeral => integer numeral
  | .real numeral => real numeral
  | .constant name => constant name
  | .string t => string t
  | .array items => array items fun t _ =>
    Tree.induction null bool integer real constant string array object t
  | .object members => object members fun m _ =>
    Tree.induction null bool integer real constant string array object m.2
  termination_by t => sizeOf t
  decreasing_by
    · rename_i ht
      have := List.sizeOf_lt_of_mem ht
      simp only [Tree.array.sizeOf_spec]
      omega
    · rename_i hm
      have := List.sizeOf_lt_of_mem hm
      obtain ⟨name, t⟩ := m
      simp only [Prod.mk.sizeOf_spec, Tree.object.sizeOf_spec] at this ⊢
      omega

/-- Induction over documents. -/
@[elab_as_elim]
theorem Document.induction {P : Document → Prop} (null : P .null) (bool : ∀ b, P (.bool b))
    (int : ∀ n, P (.int n)) (string : ∀ t, P (.string t))
    (array : ∀ items, (∀ d ∈ items, P d) → P (.array items))
    (object : ∀ members, (∀ m ∈ members, P m.2) → P (.object members)) : ∀ d, P d
  | .null => null
  | .bool b => bool b
  | .int n => int n
  | .string t => string t
  | .array items => array items fun d _ => Document.induction null bool int string array object d
  | .object members => object members fun m _ =>
    Document.induction null bool int string array object m.2
  termination_by d => sizeOf d
  decreasing_by
    · rename_i hd
      have := List.sizeOf_lt_of_mem hd
      simp only [Document.array.sizeOf_spec]
      omega
    · rename_i hm
      have := List.sizeOf_lt_of_mem hm
      obtain ⟨name, d⟩ := m
      simp only [Prod.mk.sizeOf_spec, Document.object.sizeOf_spec] at this ⊢
      omega

namespace Document

theorem treeItems_eq_map (items : List Document) : treeItems items = items.map tree := by
  induction items with
  | nil => rfl
  | cons d rest ih => rw [treeItems, ih, List.map_cons]

theorem treeMembers_eq_map (members : List (Text × Document)) :
    treeMembers members = members.map fun m => (m.1, m.2.tree) := by
  induction members with
  | nil => rfl
  | cons m rest ih =>
    obtain ⟨name, d⟩ := m
    rw [treeMembers, ih, List.map_cons]

/-! ### Strict documents -/

/-- A document whose integers have at most 64 bits and whose objects have no name twice. -/
inductive Strict : Document → Prop where
  | null : Strict .null
  | bool (b : Bool) : Strict (.bool b)
  | int {n : Int} (hn : n.natAbs ≤ Varint.maxValue) : Strict (.int n)
  | string (t : Text) : Strict (.string t)
  | array {items : List Document} (hitems : ∀ d ∈ items, Strict d) : Strict (.array items)
  | object {members : List (Text × Document)} (hnames : (members.map (·.1)).Nodup)
      (hmembers : ∀ m ∈ members, Strict m.2) : Strict (.object members)

end Document

theorem firstRepeated_eq_none (seen ts : List Text) :
    firstRepeated seen ts = none ↔ ts.Nodup ∧ ∀ t ∈ ts, t ∉ seen := by
  induction ts generalizing seen with
  | nil => simp [firstRepeated]
  | cons t rest ih =>
    rw [firstRepeated, List.nodup_cons, List.forall_mem_cons]
    by_cases hseen : t ∈ seen
    · simp [hseen]
    · rw [if_neg (by simpa using hseen), ih]
      simp only [List.mem_cons, not_or]
      constructor
      · intro h
        obtain ⟨hnodup, hrest⟩ := h
        exact ⟨⟨fun ht => (hrest t ht).1 rfl, hnodup⟩, hseen, fun u hu => (hrest u hu).2⟩
      · intro h
        obtain ⟨⟨ht, hnodup⟩, -, hrest⟩ := h
        exact ⟨hnodup, fun u hu => ⟨fun heq => ht (heq ▸ hu), hrest u hu⟩⟩

theorem strictBuilder_object_eq_ok {members : List (Text × Document)} {d : Document} :
    strictBuilder.object members = .ok d ↔ (members.map (·.1)).Nodup ∧ d = .object members := by
  have hnone := firstRepeated_eq_none [] (members.map (·.1))
  simp only [List.not_mem_nil, not_false_eq_true, implies_true, and_true] at hnone
  simp only [strictBuilder]
  split
  · rename_i name hname
    have hrepeated : ¬(members.map (·.1)).Nodup := by
      intro hnames
      rw [hnone.mpr hnames] at hname
      cases hname
    simp [hrepeated]
  · rename_i hname
    simp [hnone.mp hname, eq_comm]

theorem integer_eq_ok_le {numeral : Text} {n : Int} (h : integer numeral = .ok n) :
    n.natAbs ≤ Varint.maxValue := by
  rw [integer] at h
  split at h
  · cases h
  · dsimp only at h
    split at h
    · cases h
    · rename_i hle
      cases h
      exact Nat.not_lt.mp hle

/-- The builder under the strict rules gives strict documents. -/
theorem strict_of_fold {tree : Tree} {d : Document} (h : strictBuilder.fold tree = .ok d) :
    d.Strict := by
  induction tree using Tree.induction generalizing d with
  | null =>
    cases h
    exact .null
  | bool b =>
    cases h
    exact .bool b
  | string t =>
    cases h
    exact .string t
  | integer numeral =>
    obtain ⟨n, hn, rfl⟩ := Outcome.map_eq_ok.mp h
    exact .int (integer_eq_ok_le hn)
  | real numeral => cases h
  | constant name => cases h
  | array items ih =>
    obtain ⟨ds, hds, rfl⟩ := Outcome.map_eq_ok.mp h
    refine .array fun d hd => ?_
    obtain ⟨t, ht, hfold⟩ := Outcome.exists_mem_of_forall₂ (Builder.foldItems_eq_ok.mp hds) hd
    exact ih t ht hfold
  | object members ih =>
    obtain ⟨ws, hws, hobject⟩ := Outcome.bind_eq_ok.mp h
    obtain ⟨hnames, rfl⟩ := strictBuilder_object_eq_ok.mp hobject
    refine .object hnames fun w hw => ?_
    obtain ⟨m, hm, -, hfold⟩ := Outcome.exists_mem_of_forall₂ (Builder.foldMembers_eq_ok.mp hws) hw
    exact ih m hm hfold

theorem readDocument_strict {t : Text} {d : Document} (h : readDocument t = .ok d) : d.Strict := by
  obtain ⟨tree, -, hfold⟩ := read_eq_ok.mp h
  exact strict_of_fold hfold

/-- That the builder gives a document back from its tree if it is strict, and else refuses it. -/
def GivenBack (d : Document) : Prop :=
  ∀ d', strictBuilder.fold d.tree = .ok d' ↔ d' = d ∧ d.Strict

theorem givenBack_of_strict {d : Document} (hfold : strictBuilder.fold d.tree = .ok d)
    (hd : d.Strict) : GivenBack d := by
  intro d'
  rw [hfold, Except.ok.injEq, eq_comm]
  exact (and_iff_left hd).symm

theorem givenBack_int (n : Int) : GivenBack (.int n) := by
  have hfold : strictBuilder.fold (Document.int n).tree = (integer (Text.ofInt n)).map .int := rfl
  rw [integer_ofInt] at hfold
  split at hfold
  · rename_i hn
    exact givenBack_of_strict hfold (.int hn)
  · rename_i hn
    intro d'
    rw [hfold]
    constructor
    · intro h
      cases h
    · intro h
      obtain ⟨-, hstrict⟩ := h
      cases hstrict with
      | int hle => exact absurd hle hn

theorem foldItems_tree_eq_ok {items ds : List Document} (h : ∀ d ∈ items, GivenBack d) :
    strictBuilder.foldItems (Document.treeItems items) = .ok ds ↔
      ds = items ∧ ∀ d ∈ items, d.Strict := by
  rw [Builder.foldItems_eq_ok, Document.treeItems_eq_map, List.forall₂_map_left_iff]
  exact Outcome.forall₂_iff_eq fun d hd d' => h d hd d'

theorem foldMembers_tree_eq_ok {members ws : List (Text × Document)}
    (h : ∀ m ∈ members, GivenBack m.2) :
    strictBuilder.foldMembers (Document.treeMembers members) = .ok ws ↔
      ws = members ∧ ∀ m ∈ members, m.2.Strict := by
  rw [Builder.foldMembers_eq_ok, Document.treeMembers_eq_map, List.forall₂_map_left_iff]
  refine Outcome.forall₂_iff_eq fun m hm w => ?_
  rw [Builder.FoldsMember, h m hm, Prod.ext_iff, and_assoc, eq_comm]

/-- Folded over the tree of a document, the builder under the strict rules gives the document back
if it is strict, and refuses it otherwise. -/
theorem fold_tree_eq_ok {d d' : Document} :
    strictBuilder.fold d.tree = .ok d' ↔ d' = d ∧ d.Strict := by
  suffices h : GivenBack d from h d'
  induction d using Document.induction with
  | null => exact givenBack_of_strict rfl .null
  | bool b => exact givenBack_of_strict rfl (.bool b)
  | string t => exact givenBack_of_strict rfl (.string t)
  | int n => exact givenBack_int n
  | array items ih =>
    intro d'
    show (strictBuilder.foldItems (Document.treeItems items)).map Document.array = .ok d' ↔ _
    rw [Outcome.map_eq_ok]
    constructor
    · intro h
      obtain ⟨ds, hds, rfl⟩ := h
      obtain ⟨rfl, hstrict⟩ := (foldItems_tree_eq_ok ih).mp hds
      exact ⟨rfl, .array hstrict⟩
    · intro h
      obtain ⟨rfl, hstrict⟩ := h
      cases hstrict with
      | array hitems => exact ⟨items, (foldItems_tree_eq_ok ih).mpr ⟨rfl, hitems⟩, rfl⟩
  | object members ih =>
    intro d'
    show strictBuilder.foldMembers (Document.treeMembers members) >>= strictBuilder.object =
      .ok d' ↔ _
    rw [Outcome.bind_eq_ok]
    constructor
    · intro h
      obtain ⟨ws, hws, hobject⟩ := h
      obtain ⟨rfl, hstrict⟩ := (foldMembers_tree_eq_ok ih).mp hws
      obtain ⟨hnames, rfl⟩ := strictBuilder_object_eq_ok.mp hobject
      exact ⟨rfl, .object hnames hstrict⟩
    · intro h
      obtain ⟨rfl, hstrict⟩ := h
      cases hstrict with
      | object hnames hmembers =>
        exact ⟨members, (foldMembers_tree_eq_ok ih).mpr ⟨rfl, hmembers⟩,
          strictBuilder_object_eq_ok.mpr ⟨hnames, rfl⟩⟩

end Json

end AddressProtocols
