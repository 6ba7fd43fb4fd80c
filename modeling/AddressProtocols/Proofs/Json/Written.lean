import AddressProtocols.Json.Writer
import AddressProtocols.Proofs.Json.Strict
import AddressProtocols.Proofs.Json.String

/-!
# Reading what was written

A document is read back from its text on one line.

* `Json.ReadsAs`: the reader takes a word for one token, given what follows;
* `Json.Document.Scalar`, `Json.Document.depth`: the texts in a document have no surrogates, and how
  deep its arrays and objects are nested;
* `Json.ReadBack`: inside a number of open containers, the reader takes the written document for a
  value; `Json.run_writeItems` and `Json.run_writeMembers` carry it through the parts of a
  container;
* `Json.parse_write` and `Json.readDocument_write`: whole texts.
-/

namespace AddressProtocols

namespace Json

/-! ### Words -/

/-- Before `rest`, the reader takes `word` for `token`. -/
def ReadsAs (word : Text) (token : Token) (rest : Text) : Prop :=
  ∃ c body, word = c :: body ∧ isSpace c = false ∧ scan c (body ++ rest) = (token, body.length)

variable {ε α : Type} {build : Builder ε α} {word rest : Text} {token : Token} {position : ℕ}

theorem ReadsAs.run (h : ReadsAs word token rest) (s : State α) :
    run build s position (word ++ rest) =
      step build s position token >>= fun next => run build next (position + word.length) rest := by
  obtain ⟨c, body, rfl, hc, hscan⟩ := h
  rw [List.cons_append, run_token hc, hscan, List.length_cons, List.drop_left]
  simp only [Nat.add_assoc, Nat.add_comm 1]

/-- No token but the unknown one starts with a byte order mark. -/
theorem ReadsAs.head?_ne (h : ReadsAs word token rest) (hknown : token ≠ .unknown) :
    (word ++ rest).head? ≠ some (.scalar '\uFEFF') := by
  obtain ⟨c, body, rfl, -, hscan⟩ := h
  rw [List.cons_append, List.head?_cons]
  intro hhead
  cases hhead
  have hunknown : scan (.scalar '\uFEFF') (body ++ rest) = (.unknown, 0) := rfl
  rw [hunknown] at hscan
  exact hknown (congrArg Prod.fst hscan).symm

theorem scanWord_append (expected : String) (token : Token) (rest : Text) :
    scanWord expected token (Text.ofString expected ++ rest) =
      (token, (Text.ofString expected).length) := by
  rw [scanWord, List.take_left, if_pos rfl]

theorem readsAs_null (rest : Text) : ReadsAs (Text.ofString "null") .null rest :=
  ⟨.scalar 'n', Text.ofString "ull", rfl, rfl, scanWord_append "ull" .null rest⟩

theorem readsAs_bool (b : Bool) (rest : Text) :
    ReadsAs (Text.ofString (if b then "true" else "false")) (.bool b) rest := by
  cases b with
  | true =>
    exact ⟨.scalar 't', Text.ofString "rue", rfl, rfl, scanWord_append "rue" (.bool true) rest⟩
  | false =>
    exact ⟨.scalar 'f', Text.ofString "alse", rfl, rfl, scanWord_append "alse" (.bool false) rest⟩

theorem readsAs_ofInt (hrest : EndsNumber rest) (n : ℤ) :
    ReadsAs (Text.ofInt n) (.integer (Text.ofInt n)) rest :=
  (integerNumeral_ofInt n).scan hrest

theorem readsAs_writeString {t : Text} (ht : t.Scalar) (rest : Text) :
    ReadsAs (writeString t) (.string t) rest := by
  obtain ⟨body, hwritten, hscan⟩ := scan_writeString ht rest
  exact ⟨.scalar '"', body, hwritten, rfl, hscan⟩

/-- A mark is a token by itself. -/
theorem readsAs_mark {c : CodePoint} (hc : isSpace c = false)
    (hscan : ∀ rest, scan c rest = (token, 0)) (rest : Text) : ReadsAs [c] token rest :=
  ⟨c, [], rfl, hc, hscan rest⟩

theorem run_mark {c : CodePoint} (token : Token) (hc : isSpace c = false)
    (hscan : ∀ rest, scan c rest = (token, 0)) (s : State α) (rest : Text) :
    run build s position (c :: rest) =
      step build s position token >>= fun next => run build next (position + 1) rest :=
  (readsAs_mark hc hscan rest).run s

theorem endsNumber_mark {c : CodePoint} (hc : isJsonDigit c = false ∧ c ≠ .scalar '.' ∧
    c ≠ .scalar 'e' ∧ c ≠ .scalar 'E') (rest : Text) : EndsNumber (c :: rest) := by
  intro d hd
  cases hd
  exact hc

/-! ### Documents -/

namespace Document

/-- A document whose strings and names have no surrogates. -/
inductive Scalar : Document → Prop where
  | null : Scalar .null
  | bool (b : Bool) : Scalar (.bool b)
  | int (n : ℤ) : Scalar (.int n)
  | string {t : Text} (ht : t.Scalar) : Scalar (.string t)
  | array {items : List Document} (hitems : ∀ d ∈ items, Scalar d) : Scalar (.array items)
  | object {members : List (Text × Document)} (hnames : ∀ m ∈ members, Text.Scalar m.1)
      (hmembers : ∀ m ∈ members, Scalar m.2) : Scalar (.object members)

mutual

/-- How deep arrays and objects are nested. -/
def depth : Document → ℕ
  | .array items => depthItems items + 1
  | .object members => depthMembers members + 1
  | _ => 0

def depthItems : List Document → ℕ
  | [] => 0
  | d :: rest => max (depth d) (depthItems rest)

def depthMembers : List (Text × Document) → ℕ
  | [] => 0
  | (_, d) :: rest => max (depth d) (depthMembers rest)

end

theorem depth_le_depthItems {items : List Document} {d : Document} (hd : d ∈ items) :
    d.depth ≤ depthItems items := by
  induction items with
  | nil => cases hd
  | cons e rest ih =>
    rw [depthItems]
    rcases List.mem_cons.mp hd with rfl | hd
    · exact Nat.le_max_left _ _
    · exact Nat.le_trans (ih hd) (Nat.le_max_right _ _)

theorem depth_le_depthMembers {members : List (Text × Document)} {m : Text × Document}
    (hm : m ∈ members) : m.2.depth ≤ depthMembers members := by
  induction members with
  | nil => cases hm
  | cons e rest ih =>
    obtain ⟨name, d⟩ := e
    rw [depthMembers]
    rcases List.mem_cons.mp hm with rfl | hm
    · exact Nat.le_max_left _ _
    · exact Nat.le_trans (ih hm) (Nat.le_max_right _ _)

end Document

/-- Inside `level` open containers, the reader takes the written document for a value. -/
def ReadBack (level : ℕ) (d : Document) : Prop :=
  ∀ (frames : List (Frame Tree)) (position : ℕ) (rest : Text), frames.length = level →
    EndsNumber rest →
      run treeBuilder (.value frames) position (write d.tree ++ rest) =
        run treeBuilder (.after d.tree frames) (position + (write d.tree).length) rest

/-- A written document starts with a token that could not stand in its place at the end of an
array. -/
theorem readsAs_write {d : Document} (hd : d.Scalar) (hrest : EndsNumber rest) :
    ∃ word token after, write d.tree ++ rest = word ++ after ∧ ReadsAs word token after ∧
      token ≠ .rightBracket ∧ token ≠ .unknown := by
  cases hd with
  | null => exact ⟨_, _, rest, rfl, readsAs_null rest, nofun, nofun⟩
  | bool b => exact ⟨_, _, rest, rfl, readsAs_bool b rest, nofun, nofun⟩
  | int n => exact ⟨_, _, rest, rfl, readsAs_ofInt hrest n, nofun, nofun⟩
  | string ht => exact ⟨_, _, rest, rfl, readsAs_writeString ht rest, nofun, nofun⟩
  | array hitems =>
    exact ⟨[.scalar '['], .leftBracket, _, rfl, readsAs_mark rfl (fun _ => rfl) _, nofun, nofun⟩
  | object hnames hmembers =>
    exact ⟨[.scalar '\x7b'], .leftBrace, _, rfl, readsAs_mark rfl (fun _ => rfl) _, nofun, nofun⟩

section Containers

variable {frames : List (Frame Tree)}

theorem run_leftBracket (h : frames.length < maxDepth) :
    run treeBuilder (.value frames) position (.scalar '[' :: rest) =
      run treeBuilder (.firstItem frames) (position + 1) rest := by
  have hstep : step treeBuilder (.value frames) position .leftBracket = .ok (.firstItem frames) :=
    if_pos h
  rw [run_mark .leftBracket rfl fun _ => rfl, hstep]
  rfl

theorem run_leftBrace (h : frames.length < maxDepth) :
    run treeBuilder (.value frames) position (.scalar '\x7b' :: rest) =
      run treeBuilder (.firstName frames) (position + 1) rest := by
  have hstep : step treeBuilder (.value frames) position .leftBrace = .ok (.firstName frames) :=
    if_pos h
  rw [run_mark .leftBrace rfl fun _ => rfl, hstep]
  rfl

theorem run_comma_array (t : Tree) (seen : List Tree) :
    run treeBuilder (.after t (.array seen :: frames)) position
        (.scalar ',' :: .scalar ' ' :: rest) =
      run treeBuilder (.value (.array (t :: seen) :: frames)) (position + 2) rest := by
  rw [run_mark .comma rfl fun _ => rfl]
  exact run_space rfl _ rest

theorem run_end_array (t : Tree) (seen : List Tree) :
    run treeBuilder (.after t (.array seen :: frames)) position (.scalar ']' :: rest) =
      run treeBuilder (.after (.array (seen.reverse ++ [t])) frames) (position + 1) rest := by
  rw [run_mark .rightBracket rfl fun _ => rfl, ← List.reverse_cons]
  rfl

theorem run_comma_object (t : Tree) (name : Text) (seen : List (Text × Tree)) :
    run treeBuilder (.after t (.object seen name :: frames)) position
        (.scalar ',' :: .scalar ' ' :: rest) =
      run treeBuilder (.name ((name, t) :: seen) frames) (position + 2) rest := by
  rw [run_mark .comma rfl fun _ => rfl]
  exact run_space rfl _ rest

theorem run_end_object (t : Tree) (name : Text) (seen : List (Text × Tree)) :
    run treeBuilder (.after t (.object seen name :: frames)) position (.scalar '\x7d' :: rest) =
      run treeBuilder (.after (.object (seen.reverse ++ [(name, t)])) frames) (position + 1)
        rest := by
  rw [run_mark .rightBrace rfl fun _ => rfl, ← List.reverse_cons]
  rfl

theorem listed_cons_cons (t u : Text) (ts : List Text) :
    Text.listed (t :: u :: ts) = t ++ .scalar ',' :: .scalar ' ' :: Text.listed (u :: ts) := by
  rw [Text.listed, List.intercalate_cons_cons, List.append_assoc]
  rfl

/-- Items are read one after the other, up to the end of their array. -/
theorem run_writeItems (d : Document) (items : List Document)
    (h : ∀ e ∈ d :: items, ReadBack (frames.length + 1) e) (seen : List Tree) :
    run treeBuilder (.value (.array seen :: frames)) position
        (Text.listed (writeItems (Document.treeItems (d :: items))) ++ .scalar ']' :: rest) =
      run treeBuilder (.after (.array (seen.reverse ++ Document.treeItems (d :: items))) frames)
        (position + (Text.listed (writeItems (Document.treeItems (d :: items)))).length + 1)
          rest := by
  induction items generalizing d seen position with
  | nil =>
    have hd := h d List.mem_cons_self
    have hlisted : Text.listed (writeItems (Document.treeItems [d])) = write d.tree :=
      List.intercalate_singleton
    rw [hlisted, hd (.array seen :: frames) position _ rfl (endsNumber_mark (by decide) _),
      run_end_array]
    rfl
  | cons e items ih =>
    obtain ⟨hd, hothers⟩ := List.forall_mem_cons.mp h
    have hlisted : Text.listed (writeItems (Document.treeItems (d :: e :: items))) =
        write d.tree ++ .scalar ',' :: .scalar ' ' ::
          Text.listed (writeItems (Document.treeItems (e :: items))) := listed_cons_cons _ _ _
    rw [hlisted, List.append_assoc, List.cons_append, List.cons_append,
      hd (.array seen :: frames) position _ rfl (endsNumber_mark (by decide) _), run_comma_array,
      ih e hothers, List.reverse_cons, List.append_assoc, List.length_append, List.length_cons,
      List.length_cons]
    refine congrArg (fun p => run treeBuilder _ p rest) ?_
    omega

/-- A text that does not start with the end of an array is read alike for its first item and for any
other. -/
theorem run_firstItem {d : Document} (hd : d.Scalar) (hrest : EndsNumber rest) :
    run treeBuilder (.firstItem frames) position (write d.tree ++ rest) =
      run treeBuilder (.value (.array [] :: frames)) position (write d.tree ++ rest) := by
  obtain ⟨word, token, after, htext, hword, hend, -⟩ := readsAs_write hd hrest
  have hstep : step treeBuilder (.firstItem frames) position token =
      step treeBuilder (.value (.array [] :: frames)) position token := if_neg hend
  rw [htext, hword.run, hword.run, hstep]

theorem listed_writeItems_eq (d : Document) (items : List Document) (rest : Text) :
    ∃ after, EndsNumber after ∧
      Text.listed (writeItems (Document.treeItems (d :: items))) ++ .scalar ']' :: rest =
        write d.tree ++ after := by
  cases items with
  | nil =>
    refine ⟨.scalar ']' :: rest, endsNumber_mark (by decide) _, ?_⟩
    exact congrArg (· ++ _) List.intercalate_singleton
  | cons e items =>
    refine ⟨.scalar ',' :: .scalar ' ' ::
      (Text.listed (writeItems (Document.treeItems (e :: items))) ++ .scalar ']' :: rest),
      endsNumber_mark (by decide) _, ?_⟩
    show Text.listed (write d.tree :: write e.tree :: _) ++ _ = _
    rw [listed_cons_cons, List.append_assoc]
    rfl

/-- An array is read from after its opening bracket. -/
theorem run_writeArray {items : List Document} (hitems : ∀ d ∈ items, d.Scalar)
    (h : ∀ d ∈ items, ReadBack (frames.length + 1) d) :
    run treeBuilder (.firstItem frames) position
        (Text.listed (writeItems (Document.treeItems items)) ++ .scalar ']' :: rest) =
      run treeBuilder (.after (.array (Document.treeItems items)) frames)
        (position + (Text.listed (writeItems (Document.treeItems items))).length + 1) rest := by
  cases items with
  | nil =>
    show run treeBuilder _ _ (.scalar ']' :: rest) = _
    rw [run_mark .rightBracket rfl fun _ => rfl]
    rfl
  | cons d items =>
    obtain ⟨after, hafter, htext⟩ := listed_writeItems_eq d items rest
    rw [htext, run_firstItem (hitems d List.mem_cons_self) hafter, ← htext]
    exact run_writeItems d items h []

/-- A member is read in any state that takes its name. -/
theorem run_writeMember {m : Text × Document} (hname : m.1.Scalar)
    (hd : ReadBack (frames.length + 1) m.2) {s : State Tree} {seen : List (Text × Tree)}
    (hs : ∀ position, step treeBuilder s position (.string m.1) = .ok (.colon seen m.1 frames))
    (hrest : EndsNumber rest) :
    run treeBuilder s position
        (writeString m.1 ++ Text.ofString ": " ++ write m.2.tree ++ rest) =
      run treeBuilder (.after m.2.tree (.object seen m.1 :: frames))
        (position + (writeString m.1 ++ Text.ofString ": " ++ write m.2.tree).length) rest := by
  rw [List.append_assoc, List.append_assoc, (readsAs_writeString hname _).run, hs]
  show run treeBuilder (.colon seen m.1 frames) _
    (.scalar ':' :: .scalar ' ' :: (write m.2.tree ++ rest)) = _
  rw [run_mark .colon rfl fun _ => rfl]
  show run treeBuilder (.value (.object seen m.1 :: frames)) _
    (.scalar ' ' :: (write m.2.tree ++ rest)) = _
  rw [run_space rfl, hd (.object seen m.1 :: frames) _ rest rfl hrest, List.length_append,
    List.length_append]
  refine congrArg (fun p => run treeBuilder _ p rest) ?_
  have hcolon : List.length (Text.ofString ": ") = 2 := rfl
  omega

/-- Members are read one after the other, up to the end of their object. -/
theorem run_writeMembers (m : Text × Document) (members : List (Text × Document))
    (hnames : ∀ e ∈ m :: members, Text.Scalar e.1)
    (h : ∀ e ∈ m :: members, ReadBack (frames.length + 1) e.2) {s : State Tree}
    {seen : List (Text × Tree)}
    (hs : ∀ position, step treeBuilder s position (.string m.1) = .ok (.colon seen m.1 frames)) :
    run treeBuilder s position
        (Text.listed (writeMembers (Document.treeMembers (m :: members))) ++
          .scalar '\x7d' :: rest) =
      run treeBuilder (.after (.object (seen.reverse ++ Document.treeMembers (m :: members)))
        frames)
        (position + (Text.listed (writeMembers (Document.treeMembers (m :: members)))).length + 1)
        rest := by
  induction members generalizing m s seen position with
  | nil =>
    have hm := h m List.mem_cons_self
    have hname := hnames m List.mem_cons_self
    have hlisted : Text.listed (writeMembers (Document.treeMembers [m])) =
        writeString m.1 ++ Text.ofString ": " ++ write m.2.tree := List.intercalate_singleton
    rw [hlisted, run_writeMember hname hm hs (endsNumber_mark (by decide) _), run_end_object]
    rfl
  | cons e members ih =>
    obtain ⟨hm, hothers⟩ := List.forall_mem_cons.mp h
    obtain ⟨hname, hothernames⟩ := List.forall_mem_cons.mp hnames
    have hlisted : Text.listed (writeMembers (Document.treeMembers (m :: e :: members))) =
        (writeString m.1 ++ Text.ofString ": " ++ write m.2.tree) ++ .scalar ',' :: .scalar ' ' ::
          Text.listed (writeMembers (Document.treeMembers (e :: members))) := listed_cons_cons _ _ _
    rw [hlisted, List.append_assoc _ (_ :: _), List.cons_append, List.cons_append,
      run_writeMember hname hm hs (endsNumber_mark (by decide) _), run_comma_object,
      ih e hothernames hothers (fun _ => rfl), List.reverse_cons, List.append_assoc]
    refine congrArg (fun p => run treeBuilder _ p rest) ?_
    simp only [List.length_append, List.length_cons]
    omega

/-- An object is read from after its opening brace. -/
theorem run_writeObject {members : List (Text × Document)}
    (hnames : ∀ m ∈ members, Text.Scalar m.1)
    (h : ∀ m ∈ members, ReadBack (frames.length + 1) m.2) :
    run treeBuilder (.firstName frames) position
        (Text.listed (writeMembers (Document.treeMembers members)) ++ .scalar '\x7d' :: rest) =
      run treeBuilder (.after (.object (Document.treeMembers members)) frames)
        (position + (Text.listed (writeMembers (Document.treeMembers members))).length + 1)
        rest := by
  cases members with
  | nil =>
    show run treeBuilder _ _ (.scalar '\x7d' :: rest) = _
    rw [run_mark .rightBrace rfl fun _ => rfl]
    rfl
  | cons m members =>
    have hs : ∀ position, step treeBuilder (.firstName frames) position (.string m.1) =
        .ok (.colon [] m.1 frames) := fun _ => rfl
    exact run_writeMembers m members hnames h hs

end Containers

/-! ### Whole texts -/

/-- A document without surrogates is read back wherever the nesting leaves room for it. -/
theorem readBack {d : Document} (hd : d.Scalar) {level : ℕ} (hlevel : level + d.depth ≤ maxDepth) :
    ReadBack level d := by
  induction d using Document.induction generalizing level with
  | null =>
    intro frames position rest hframes hrest
    exact (readsAs_null rest).run _
  | bool b =>
    intro frames position rest hframes hrest
    exact (readsAs_bool b rest).run _
  | int n =>
    intro frames position rest hframes hrest
    exact (readsAs_ofInt hrest n).run _
  | string t =>
    intro frames position rest hframes hrest
    cases hd with
    | string ht => exact (readsAs_writeString ht rest).run _
  | array items ih =>
    intro frames position rest hframes hrest
    cases hd with
    | array hitems =>
      rw [Document.depth] at hlevel
      have hall : ∀ d ∈ items, ReadBack (frames.length + 1) d := by
        intro d hd
        have hdepth := Document.depth_le_depthItems hd
        exact ih d hd (hitems d hd) (by omega)
      rw [Document.tree, write, List.append_assoc, List.cons_append,
        run_leftBracket (by omega)]
      refine (run_writeArray hitems hall).trans ?_
      refine congrArg (fun p => run treeBuilder _ p rest) ?_
      simp only [List.length_append, List.length_cons, List.length_nil]
      omega
  | object members ih =>
    intro frames position rest hframes hrest
    cases hd with
    | object hnames hmembers =>
      rw [Document.depth] at hlevel
      have hall : ∀ m ∈ members, ReadBack (frames.length + 1) m.2 := by
        intro m hm
        have hdepth := Document.depth_le_depthMembers hm
        exact ih m hm (hmembers m hm) (by omega)
      rw [Document.tree, write, List.append_assoc, List.cons_append, run_leftBrace (by omega)]
      refine (run_writeObject hnames hall).trans ?_
      refine congrArg (fun p => run treeBuilder _ p rest) ?_
      simp only [List.length_append, List.length_cons, List.length_nil]
      omega

/-- A written document does not start with a byte order mark, with which no token starts. -/
theorem head?_write_ne {d : Document} (hd : d.Scalar) :
    (write d.tree).head? ≠ some (.scalar '\uFEFF') := by
  obtain ⟨word, token, after, htext, hreads, -, hknown⟩ := readsAs_write hd endsNumber_nil
  rw [List.append_nil] at htext
  rw [htext]
  exact hreads.head?_ne hknown

theorem parse_write {d : Document} (hd : d.Scalar) (hdepth : d.depth ≤ maxDepth) :
    parse (write d.tree) = .ok d.tree := by
  have hlevel : 0 + d.depth ≤ maxDepth := by omega
  have hread := readBack hd hlevel [] 0 [] rfl endsNumber_nil
  rw [List.append_nil] at hread
  rw [parse, read, if_neg (head?_write_ne hd), hread, run]
  rfl

/-- A written document is read back under the strict rules exactly if it obeys them. -/
theorem readDocument_write {d d' : Document} (hd : d.Scalar) (hdepth : d.depth ≤ maxDepth) :
    readDocument (write d.tree) = .ok d' ↔ d' = d ∧ d.Strict := by
  rw [readDocument, read_eq_ok, parse_write hd hdepth, ← fold_tree_eq_ok]
  simp

end Json

end AddressProtocols
