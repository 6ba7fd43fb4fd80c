import AddressProtocols.Proofs.Json.Strict

/-!
# The strict rules as a filter

The strict rules are enforced while a text is read, at each number, constant and object as it ends.
It comes to the same to read the text without them and to look through the tree afterwards.

* `Json.Tree.Occurs`, `Json.Tree.Forbidden`, `Json.Tree.Admissible`: a part of a tree at any depth,
  a part that breaks a rule, and a tree with no such part;
* `Json.Tree.document`: a tree with the values of its numerals;
* `Json.exactBuilder` compares the values of integers and does without the guard on their length;
  `Json.step_exactBuilder` says that no token tells it from the builder under the strict rules;
* `Json.fold_exactBuilder_eq_ok` and `Json.readDocument_eq_ok`: admissible trees pass, with their
  document, and no others do. -/

namespace AddressProtocols

namespace Json

namespace Tree

/-! ### Admissible trees -/

/-- `u` stands somewhere in a tree, at any depth. -/
inductive Occurs (u : Tree) : Tree → Prop where
  | self : Occurs u u
  | item {items : List Tree} {t : Tree} (ht : t ∈ items) (h : Occurs u t) : Occurs u (.array items)
  | member {members : List (Text × Tree)} {m : Text × Tree} (hm : m ∈ members) (h : Occurs u m.2) :
      Occurs u (.object members)

/-- A tree that breaks a rule by itself, whatever stands in it. -/
inductive Forbidden : Tree → Prop where
  | real (numeral : Text) : Forbidden (.real numeral)
  | constant (name : Text) : Forbidden (.constant name)
  | integer {numeral : Text} (h : Varint.maxValue < (numeralValue numeral).natAbs) :
      Forbidden (.integer numeral)
  | object {members : List (Text × Tree)} (h : ¬(members.map (·.1)).Nodup) :
      Forbidden (.object members)

/-- Nothing in the tree breaks a rule. -/
def Admissible (t : Tree) : Prop := ∀ u : Tree, u.Occurs t → ¬u.Forbidden

theorem admissible_of_eq {t : Tree} (hparts : ∀ u : Tree, u.Occurs t → u = t) (ht : ¬t.Forbidden) :
    t.Admissible := by
  intro u hu
  rw [hparts u hu]
  exact ht

theorem admissible_null : Admissible .null :=
  admissible_of_eq (fun _ hu => by cases hu; rfl) nofun

theorem admissible_bool (b : Bool) : Admissible (.bool b) :=
  admissible_of_eq (fun _ hu => by cases hu; rfl) nofun

theorem admissible_string (t : Text) : Admissible (.string t) :=
  admissible_of_eq (fun _ hu => by cases hu; rfl) nofun

theorem admissible_integer {numeral : Text} :
    Admissible (.integer numeral) ↔ (numeralValue numeral).natAbs ≤ Varint.maxValue := by
  constructor
  · intro h
    exact Nat.not_lt.mp fun hlt => h _ .self (.integer hlt)
  · intro h
    refine admissible_of_eq (fun _ hu => by cases hu; rfl) fun hforbidden => ?_
    cases hforbidden with
    | integer hlt => exact absurd h (Nat.not_le.mpr hlt)

theorem admissible_array {items : List Tree} :
    Admissible (.array items) ↔ ∀ t ∈ items, t.Admissible := by
  constructor
  · intro h t ht u hu
    exact h u (.item ht hu)
  · intro h u hu
    cases hu with
    | self => exact nofun
    | item ht hu => exact h _ ht u hu

theorem admissible_object {members : List (Text × Tree)} :
    Admissible (.object members) ↔
      (∀ m ∈ members, m.2.Admissible) ∧ (members.map (·.1)).Nodup := by
  constructor
  · intro h
    refine ⟨fun m hm u hu => h u (.member hm hu), ?_⟩
    by_contra hrepeated
    exact h _ .self (.object hrepeated)
  · intro h u hu
    obtain ⟨hmembers, hnames⟩ := h
    cases hu with
    | self =>
      intro hforbidden
      cases hforbidden with
      | object hrepeated => exact hrepeated hnames
    | member hm hu => exact hmembers _ hm u hu

/-! ### The document of a tree -/

mutual

/-- The tree with the values of its numerals.  No admissible tree holds another number or a
constant. -/
def document : Tree → Document
  | .null => .null
  | .bool b => .bool b
  | .integer numeral => .int (numeralValue numeral)
  | .real _ => .null
  | .constant _ => .null
  | .string t => .string t
  | .array items => .array (documentItems items)
  | .object members => .object (documentMembers members)

def documentItems : List Tree → List Document
  | [] => []
  | t :: rest => document t :: documentItems rest

def documentMembers : List (Text × Tree) → List (Text × Document)
  | [] => []
  | (name, t) :: rest => (name, document t) :: documentMembers rest

end

theorem documentItems_eq_map (items : List Tree) : documentItems items = items.map document := by
  induction items with
  | nil => rfl
  | cons t rest ih => rw [documentItems, ih, List.map_cons]

theorem documentMembers_eq_map (members : List (Text × Tree)) :
    documentMembers members = members.map fun m => (m.1, m.2.document) := by
  induction members with
  | nil => rfl
  | cons m rest ih =>
    obtain ⟨name, t⟩ := m
    rw [documentMembers, ih, List.map_cons]

end Tree

/-! ### The exact builder -/

/-- The strict rules with integers compared by their values alone. -/
def exactBuilder : Builder Refusal Document where
  null := .null
  bool := .bool
  string := .string
  array := .array
  integer numeral :=
    if (numeralValue numeral).natAbs ≤ Varint.maxValue then .ok (.int (numeralValue numeral))
    else .error (.outOfRange numeral)
  real := strictBuilder.real
  constant := strictBuilder.constant
  object := strictBuilder.object

theorem integer_exactBuilder {numeral : Text} (h : IntegerNumeral numeral) :
    strictBuilder.integer numeral = exactBuilder.integer numeral := by
  show (integer numeral).map Document.int =
    if (numeralValue numeral).natAbs ≤ Varint.maxValue then .ok (.int (numeralValue numeral))
    else .error (.outOfRange numeral)
  rw [integer_of_integerNumeral h]
  split
  · rfl
  · rfl

theorem stepValue_exactBuilder (frames : List (Frame Document)) (position : ℕ) (token : Token)
    (htoken : ∀ numeral, token = .integer numeral → IntegerNumeral numeral) :
    stepValue strictBuilder frames position token =
      stepValue exactBuilder frames position token := by
  cases token with
  | integer numeral => exact congrArg (complete frames) (integer_exactBuilder (htoken numeral rfl))
  | _ => rfl

/-- No token that can be read tells the guard on the length of integers from the comparison of their
values. -/
theorem step_exactBuilder (s : State Document) (position : ℕ) (c : CodePoint) (rest : Text) :
    step strictBuilder s position (scan c rest).1 =
      step exactBuilder s position (scan c rest).1 := by
  have hvalue := fun frames =>
    stepValue_exactBuilder frames position (scan c rest).1 fun _ => integerNumeral_of_scan
  cases s with
  | value frames => exact hvalue frames
  | firstItem frames =>
    rw [step, step, hvalue]
    rfl
  | firstName | name | colon | after => rfl

theorem foldItems_exactBuilder {items : List Tree}
    (h : ∀ t ∈ items, ∀ d, exactBuilder.fold t = .ok d ↔ t.Admissible ∧ d = t.document)
    (ds : List Document) :
    exactBuilder.foldItems items = .ok ds ↔
      (∀ t ∈ items, t.Admissible) ∧ ds = Tree.documentItems items := by
  rw [Builder.foldItems_eq_ok, Tree.documentItems_eq_map]
  exact Outcome.forall₂_iff_map h

theorem foldMembers_exactBuilder {members : List (Text × Tree)}
    (h : ∀ m ∈ members, ∀ d, exactBuilder.fold m.2 = .ok d ↔ m.2.Admissible ∧ d = m.2.document)
    (ws : List (Text × Document)) :
    exactBuilder.foldMembers members = .ok ws ↔
      (∀ m ∈ members, m.2.Admissible) ∧ ws = Tree.documentMembers members := by
  rw [Builder.foldMembers_eq_ok, Tree.documentMembers_eq_map]
  refine Outcome.forall₂_iff_map fun m hm w => ?_
  rw [Builder.FoldsMember, h m hm, Prod.ext_iff, and_left_comm, eq_comm]

theorem fold_eq_ok_of_admissible {t : Tree} {d : Document}
    (hfold : exactBuilder.fold t = .ok t.document)
    (ht : t.Admissible) : exactBuilder.fold t = .ok d ↔ t.Admissible ∧ d = t.document := by
  rw [hfold, and_iff_right ht, Except.ok.injEq, eq_comm]

theorem fold_eq_ok_of_forbidden {t : Tree} {d : Document} {reason : Refusal}
    (hfold : exactBuilder.fold t = .error reason) (ht : t.Forbidden) :
    exactBuilder.fold t = .ok d ↔ t.Admissible ∧ d = t.document := by
  rw [hfold]
  exact iff_of_false nofun fun h => h.1 t .self ht

/-- Folded over a tree, the exact builder gives its document exactly if nothing in it breaks a
rule. -/
theorem fold_exactBuilder_eq_ok {t : Tree} {d : Document} :
    exactBuilder.fold t = .ok d ↔ t.Admissible ∧ d = t.document := by
  induction t using Tree.induction generalizing d with
  | null => exact fold_eq_ok_of_admissible rfl Tree.admissible_null
  | bool b => exact fold_eq_ok_of_admissible rfl (Tree.admissible_bool b)
  | string t => exact fold_eq_ok_of_admissible rfl (Tree.admissible_string t)
  | real numeral => exact fold_eq_ok_of_forbidden rfl (.real numeral)
  | constant name => exact fold_eq_ok_of_forbidden rfl (.constant name)
  | integer numeral =>
    by_cases hn : (numeralValue numeral).natAbs ≤ Varint.maxValue
    · exact fold_eq_ok_of_admissible (if_pos hn) (Tree.admissible_integer.mpr hn)
    · exact fold_eq_ok_of_forbidden (if_neg hn) (.integer (Nat.not_le.mp hn))
  | array items ih =>
    have hitems := foldItems_exactBuilder fun t ht d => ih t ht (d := d)
    rw [Builder.fold, Outcome.map_eq_ok, Tree.admissible_array]
    simp only [hitems]
    constructor
    · intro h
      obtain ⟨ds, ⟨hadmissible, rfl⟩, rfl⟩ := h
      exact ⟨hadmissible, rfl⟩
    · intro h
      obtain ⟨hadmissible, rfl⟩ := h
      exact ⟨_, ⟨hadmissible, rfl⟩, rfl⟩
  | object members ih =>
    have hmembers := foldMembers_exactBuilder fun m hm d => ih m hm (d := d)
    have hobject : exactBuilder.object = strictBuilder.object := rfl
    rw [Builder.fold, Outcome.bind_eq_ok, Tree.admissible_object]
    simp only [hmembers, hobject, strictBuilder_object_eq_ok]
    constructor
    · intro h
      obtain ⟨ws, ⟨hadmissible, rfl⟩, hnames, rfl⟩ := h
      rw [Tree.documentMembers_eq_map, List.map_map] at hnames
      exact ⟨⟨hadmissible, hnames⟩, rfl⟩
    · intro h
      obtain ⟨⟨hadmissible, hnames⟩, rfl⟩ := h
      refine ⟨_, ⟨hadmissible, rfl⟩, ?_, rfl⟩
      rw [Tree.documentMembers_eq_map, List.map_map]
      exact hnames

theorem readDocument_eq_ok {t : Text} {d : Document} :
    readDocument t = .ok d ↔ ∃ tree, parse t = .ok tree ∧ tree.Admissible ∧ d = tree.document := by
  have hread : readDocument t = read exactBuilder t := by
    rw [readDocument, read, read, run_congr step_exactBuilder]
  rw [hread, read_eq_ok]
  simp only [fold_exactBuilder_eq_ok]

end Json

end AddressProtocols
