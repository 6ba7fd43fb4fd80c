import AddressProtocols.Proofs.Registry.Growth
import Mathlib.Data.List.DropRight

/-!
# Paths of names

A path names descriptors one after the other, a delimiter between neighbours and any number of them
at either end.

* `Text.eq_replicate_append_strip` and `Text.strip_replicate_append`: a text is what `Text.strip`
  leaves between two runs of the delimiter, and nothing else that does not start or end with it is;
* `Registry.joined` puts a delimiter between neighbouring names; it neither starts nor ends with one
  if the names can stand in a path (`head?_joined`, `getLast?_joined`);
* `Registry.resolve_eq_error`: names are resolved up to the first one that is not registered;
* `Consistent.parsePath_eq_ok` and `Consistent.parsePath_cases`: but for delimiters at the ends, a
  path that is read is the names of its descriptors joined, and any other has a first name that is
  not registered. -/

namespace AddressProtocols

namespace Text

/-! ### Delimiters at the ends -/

section Strip

variable {d : CodePoint} {t : Text}

theorem strip_eq_rdropWhile : t.strip d = (t.dropWhile (· == d)).rdropWhile (· == d) := rfl

/-- A text is what is left of it between two runs of the delimiter. -/
theorem eq_replicate_append_strip (d : CodePoint) (t : Text) :
    ∃ a b, t = List.replicate a d ++ t.strip d ++ List.replicate b d := by
  have hrun : ∀ u : Text, (∀ c ∈ u, (c == d) = true) → u = List.replicate u.length d :=
    fun u hu => List.eq_replicate_of_mem fun c hc => eq_of_beq (hu c hc)
  have hfront := hrun (t.takeWhile (· == d)) fun c hc =>
    List.mem_takeWhile_imp (p := (· == d)) hc
  have hback := hrun ((t.dropWhile (· == d)).rtakeWhile (· == d)) fun c hc =>
    List.mem_rtakeWhile_imp (p := (· == d)) hc
  refine ⟨(t.takeWhile (· == d)).length, ((t.dropWhile (· == d)).rtakeWhile (· == d)).length, ?_⟩
  rw [strip_eq_rdropWhile, ← hfront, List.append_assoc, ← hback, List.rdropWhile_append_rtakeWhile,
    List.takeWhile_append_dropWhile]

theorem head?_strip : (t.strip d).head? ≠ some d := by
  intro hhead
  have hpre : t.strip d <+: t.dropWhile (· == d) := List.rdropWhile_prefix (· == d) _
  have hfirst := List.head?_dropWhile_not (· == d) t
  obtain ⟨rest, hrest⟩ := hpre
  rw [← hrest, List.head?_append, hhead] at hfirst
  simp at hfirst

theorem getLast?_strip : (t.strip d).getLast? ≠ some d := by
  intro hlast
  rw [strip_eq_rdropWhile] at hlast
  obtain ⟨hne, hd⟩ := List.mem_getLast?_eq_getLast hlast
  exact List.rdropWhile_last_not (· == d) (t.dropWhile (· == d)) hne (beq_iff_eq.mpr hd.symm)

theorem dropWhile_replicate_append (hne : t ≠ []) (hhead : t.head? ≠ some d) (a : ℕ) :
    (List.replicate a d ++ t).dropWhile (· == d) = t := by
  rw [List.dropWhile_append_of_pos fun c hc => beq_iff_eq.mpr (List.eq_of_mem_replicate hc)]
  cases t with
  | nil => exact absurd rfl hne
  | cons c rest =>
    have hc : (c == d) = false := by simpa using hhead
    rw [List.dropWhile_cons, hc, if_neg Bool.false_ne_true]

/-- What stands between two runs of the delimiter is left, if it does not start or end with one. -/
theorem strip_replicate_append (hhead : t.head? ≠ some d) (hlast : t.getLast? ≠ some d) (a b : ℕ) :
    strip d (List.replicate a d ++ t ++ List.replicate b d) = t := by
  by_cases hne : t = []
  · subst hne
    have hdrop : (List.replicate (a + b) d).dropWhile (· == d) = [] :=
      List.dropWhile_eq_nil_iff.mpr fun c hc => beq_iff_eq.mpr (List.eq_of_mem_replicate hc)
    rw [List.append_nil, List.replicate_append_replicate, strip, hdrop]
    rfl
  · have hhead' : (t ++ List.replicate b d).head? ≠ some d := by
      rwa [List.head?_append_of_ne_nil _ hne]
    have hlast' : t.reverse.head? ≠ some d := by rwa [List.head?_reverse]
    rw [strip, List.append_assoc,
      dropWhile_replicate_append (List.append_ne_nil_of_left_ne_nil hne _) hhead',
      List.reverse_append, List.reverse_replicate,
      dropWhile_replicate_append (List.reverse_ne_nil_iff.mpr hne) hlast', List.reverse_reverse]

theorem strip_eq_nil_iff : t.strip d = [] ↔ ∀ c ∈ t, c = d := by
  constructor
  · intro h
    obtain ⟨a, b, hsplit⟩ := eq_replicate_append_strip d t
    rw [h, List.append_nil, List.replicate_append_replicate] at hsplit
    rw [hsplit]
    exact fun c hc => List.eq_of_mem_replicate hc
  · intro h
    have hall : t = List.replicate t.length d ++ [] ++ List.replicate 0 d := by
      simpa using List.eq_replicate_of_mem h
    rw [hall]
    exact strip_replicate_append (t := []) (by simp) (by simp) _ _

end Strip

end Text

namespace Registry

/-! ### Joined names -/

/-- Names with the delimiter between neighbours. -/
def joined (names : List Text) : Text := [pathDelimiter].intercalate names

theorem joined_nil : joined [] = [] := rfl

theorem joined_singleton (name : Text) : joined [name] = name := by
  simp [joined, List.intercalate]

theorem joined_cons_cons (first second : Text) (rest : List Text) :
    joined (first :: second :: rest) = first ++ pathDelimiter :: joined (second :: rest) := by
  simp [joined, List.intercalate]

section Joined

variable {names : List Text} (hne : ∀ name ∈ names, name ≠ [])
  (hnot : ∀ name ∈ names, pathDelimiter ∉ name)
include hne

theorem joined_eq_nil_iff : joined names = [] ↔ names = [] := by
  cases names with
  | nil => simp [joined_nil]
  | cons first rest =>
    cases rest with
    | nil => simpa [joined_singleton] using hne
    | cons second rest => simp [joined_cons_cons]

include hnot

theorem head?_joined : (joined names).head? ≠ some pathDelimiter := by
  cases names with
  | nil => simp [joined_nil]
  | cons first rest =>
    have hfirst : (joined (first :: rest)).head? = first.head? := by
      cases rest with
      | nil => rw [joined_singleton]
      | cons second rest =>
        rw [joined_cons_cons, List.head?_append_of_ne_nil _ (hne first List.mem_cons_self)]
    rw [hfirst]
    exact fun hhead => hnot first List.mem_cons_self (List.mem_of_mem_head? hhead)

theorem getLast?_joined : (joined names).getLast? ≠ some pathDelimiter := by
  induction names with
  | nil => simp [joined_nil]
  | cons first rest ih =>
    cases rest with
    | nil =>
      rw [joined_singleton]
      exact fun hlast => hnot first List.mem_cons_self (List.mem_of_getLast? hlast)
    | cons second rest =>
      have hne' := (List.forall_mem_cons.mp hne).2
      have hrest : joined (second :: rest) ≠ [] := fun hnil =>
        List.cons_ne_nil _ _ ((joined_eq_nil_iff hne').mp hnil)
      have hlast : (joined (first :: second :: rest)).getLast? =
          (joined (second :: rest)).getLast? := by
        rw [joined_cons_cons, ← List.singleton_append, ← List.append_assoc,
          List.getLast?_append_of_ne_nil _ hrest]
      rw [hlast]
      exact ih hne' (List.forall_mem_cons.mp hnot).2

end Joined

theorem notMem_of_mem_splitOn {d : CodePoint} {t piece : Text} (h : piece ∈ t.splitOn d) :
    d ∉ piece := by
  induction t generalizing piece with
  | nil =>
    rw [List.mem_singleton.mp h]
    exact List.not_mem_nil
  | cons c rest ih =>
    rw [List.splitOn_cons_eq_if_modifyHead] at h
    by_cases hc : c = d
    · rw [if_pos (beq_iff_eq.mpr hc)] at h
      rcases List.mem_cons.mp h with rfl | hrest
      · exact List.not_mem_nil
      · exact ih hrest
    · rw [if_neg (by simpa using hc)] at h
      cases hsplit : rest.splitOn d with
      | nil => exact absurd hsplit (List.splitOn_ne_nil d rest)
      | cons first others =>
        rw [hsplit] at h ih
        rcases List.mem_cons.mp h with rfl | hrest
        · -- the first piece takes the code point in front
          rw [List.mem_cons, not_or]
          exact ⟨fun heq => hc heq.symm, ih List.mem_cons_self⟩
        · exact ih (List.mem_cons_of_mem first hrest)

/-! ### Resolving names -/

variable {r : Registry}

/-- Names cannot be resolved if one is not registered; the first such name is reported. -/
theorem resolve_eq_error {names : List Text} {failure : Failure} :
    r.resolve names = .error failure ↔
      ∃ before segment after, names = before ++ segment :: after ∧
        (∀ name ∈ before, ∃ d, r.findName name = some d) ∧ r.findName segment = none ∧
        failure = .unknownName segment := by
  induction names with
  | nil => simp [resolve]
  | cons name rest ih =>
    rw [resolve, Outcome.exists_append_cons_iff]
    cases hfind : r.findName name with
    | none => simp [eq_comm]
    | some d => simp [Outcome.map_eq_error, ih]

namespace Consistent

variable (h : r.Consistent)
include h

/-- Names are those of registered descriptors exactly if these are found for them. -/
theorem forall₂_findName_iff {names : List Text} {ps : List Descriptor}
    (hps : ∀ p ∈ ps, p ∈ r.protocols) :
    List.Forall₂ (fun name p => r.findName name = some p) names ps ↔ names = ps.map (·.name) := by
  induction ps generalizing names with
  | nil => simp
  | cons p ps ih =>
    obtain ⟨hp, hrest⟩ := List.forall_mem_cons.mp hps
    rw [List.forall₂_cons_right_iff, List.map_cons]
    constructor
    · intro hnames
      obtain ⟨name, rest, hname, hothers, rfl⟩ := hnames
      rw [(ih hrest).mp hothers, (h.findName_eq_some.mp hname).2]
    · intro hnames
      exact ⟨p.name, ps.map (·.name), h.findName_eq_some.mpr ⟨hp, rfl⟩, (ih hrest).mpr rfl, hnames⟩

theorem name_pathable {ps : List Descriptor} (hps : ∀ p ∈ ps, p ∈ r.protocols) :
    (∀ name ∈ ps.map (·.name), name ≠ []) ∧ ∀ name ∈ ps.map (·.name), pathDelimiter ∉ name := by
  simp only [List.forall_mem_map]
  exact ⟨fun p hp => (h.checked p (hps p hp)).name_ne_nil,
    fun p hp => (h.checked p (hps p hp)).delimiter_notMem⟩

/-! ### Paths -/

/-- A path is read as registered descriptors exactly if it is their names joined, but for delimiters
at its ends. -/
theorem parsePath_eq_ok {path : Text} {ps : List Descriptor} (hps : ∀ p ∈ ps, p ∈ r.protocols) :
    r.parsePath path = .ok ps ↔ path.strip pathDelimiter = joined (ps.map (·.name)) := by
  obtain ⟨hne, hnot⟩ := h.name_pathable hps
  rw [parsePath]
  split
  · rename_i hstrip
    rw [hstrip, eq_comm (a := ([] : Text)), joined_eq_nil_iff hne, List.map_eq_nil_iff,
      Except.ok.injEq]
    exact eq_comm
  · rename_i hstrip
    rw [resolve_eq_ok, h.forall₂_findName_iff hps]
    constructor
    · intro hsplit
      rw [← hsplit, joined, List.intercalate_splitOn]
    · intro hjoined
      have hnames : ps.map (·.name) ≠ [] := by
        intro hnil
        rw [hnil, joined_nil] at hjoined
        exact hstrip hjoined
      rw [hjoined, joined, List.splitOn_intercalate _ hnot hnames]

theorem mem_of_parsePath_eq_ok {path : Text} {ps : List Descriptor}
    (hparse : r.parsePath path = .ok ps) : ∀ p ∈ ps, p ∈ r.protocols := by
  rw [parsePath] at hparse
  split at hparse
  · cases hparse
    simp
  · exact Outcome.forall_mem_of_forall₂ (resolve_eq_ok.mp hparse) fun _ _ hfind =>
      (h.findName_eq_some.mp hfind).1

/-- A path is read, or a piece of it between delimiters is the first that is no registered name. -/
theorem parsePath_cases (path : Text) :
    (∃ ps, (∀ p ∈ ps, p ∈ r.protocols) ∧ r.parsePath path = .ok ps) ∨
      ∃ before segment after,
        path.strip pathDelimiter = joined (before ++ segment :: after) ∧
        (∀ piece ∈ before ++ segment :: after, pathDelimiter ∉ piece) ∧
        (∀ piece ∈ before, ∃ p ∈ r.protocols, p.name = piece) ∧
        (∀ p ∈ r.protocols, p.name ≠ segment) ∧
        r.parsePath path = .error (.unknownName segment) := by
  cases hparse : r.parsePath path with
  | ok ps => exact Or.inl ⟨ps, h.mem_of_parsePath_eq_ok hparse, rfl⟩
  | error failure =>
    right
    rw [parsePath] at hparse
    split at hparse
    · cases hparse
    · obtain ⟨before, segment, after, hsplit, hbefore, hsegment, rfl⟩ := resolve_eq_error.mp hparse
      refine ⟨before, segment, after, ?_, fun piece hpiece => ?_, fun piece hpiece => ?_, ?_, rfl⟩
      · rw [← hsplit, joined, List.intercalate_splitOn]
      · rw [← hsplit] at hpiece
        exact notMem_of_mem_splitOn hpiece
      · obtain ⟨p, hp⟩ := hbefore piece hpiece
        exact ⟨p, h.findName_eq_some.mp hp⟩
      · intro p hp hname
        rw [h.findName_eq_none, List.mem_map] at hsegment
        exact hsegment ⟨p, hp, hname⟩

end Consistent

/-- **Paths.**  In every registry that can be reached:

* what is read of a path is what it has between two runs of delimiters, which does not start or end
  with one;
* a path is read as a list of registered descriptors exactly if this is their names joined by single
  delimiters; so it is read as the empty list exactly if it has delimiters only;
* the joined names of registered descriptors, with any number of delimiters at either end, are read
  as these descriptors;
* any other path fails with the first of its pieces between delimiters that is not a registered
  name, which may be empty. -/
theorem parsePath_joined {r : Registry} (hr : r.Reachable) :
    (∀ path : Text,
      (∃ a b, path = List.replicate a pathDelimiter ++ path.strip pathDelimiter ++
        List.replicate b pathDelimiter) ∧
      (path.strip pathDelimiter).head? ≠ some pathDelimiter ∧
      (path.strip pathDelimiter).getLast? ≠ some pathDelimiter ∧
      (∀ ps : List Descriptor, (∀ p ∈ ps, p ∈ r.protocols) →
        (r.parsePath path = .ok ps ↔ path.strip pathDelimiter = joined (ps.map (·.name)))) ∧
      (r.parsePath path = .ok [] ↔ ∀ c ∈ path, c = pathDelimiter) ∧
      ((∀ ps : List Descriptor, (∀ p ∈ ps, p ∈ r.protocols) →
          path.strip pathDelimiter ≠ joined (ps.map (·.name))) →
        ∃ before segment after,
          path.strip pathDelimiter = joined (before ++ segment :: after) ∧
          (∀ piece ∈ before ++ segment :: after, pathDelimiter ∉ piece) ∧
          (∀ piece ∈ before, ∃ p ∈ r.protocols, p.name = piece) ∧
          (∀ p ∈ r.protocols, p.name ≠ segment) ∧
          r.parsePath path = .error (.unknownName segment))) ∧
      ∀ (ps : List Descriptor) (a b : ℕ), (∀ p ∈ ps, p ∈ r.protocols) →
        r.parsePath (List.replicate a pathDelimiter ++ joined (ps.map (·.name)) ++
          List.replicate b pathDelimiter) = .ok ps := by
  have h : r.Consistent := hr.consistent
  refine ⟨fun path => ⟨Text.eq_replicate_append_strip _ path, Text.head?_strip,
    Text.getLast?_strip, fun ps hps => h.parsePath_eq_ok hps, ?_, fun hother => ?_⟩,
    fun ps a b hps => ?_⟩
  · have hnil : ∀ p ∈ ([] : List Descriptor), p ∈ r.protocols := by simp
    rw [h.parsePath_eq_ok hnil]
    exact Text.strip_eq_nil_iff
  · rcases h.parsePath_cases path with ⟨ps, hps, hparse⟩ | hfirst
    · exact absurd ((h.parsePath_eq_ok hps).mp hparse) (hother ps hps)
    · exact hfirst
  · obtain ⟨hne, hnot⟩ := h.name_pathable hps
    rw [h.parsePath_eq_ok hps]
    exact Text.strip_replicate_append (head?_joined hne hnot) (getLast?_joined hne hnot) a b

/-- Two built-in names are read between any delimiters; delimiters alone are the empty path; a
doubled delimiter inside leaves an empty piece, which is no name. -/
theorem parsePath_joined_builtin :
    let ip4 := Descriptor.plain 4 "ip4" (.bits 32) false
    let tcp := Descriptor.plain 6 "tcp" (.bits 16) false
    builtin.Reachable ∧ (∀ p ∈ [ip4, tcp], p ∈ builtin.protocols) ∧
      builtin.parsePath (Text.ofString "//ip4/tcp/") = .ok [ip4, tcp] ∧
      builtin.parsePath (Text.ofString "///") = .ok [] ∧
      (∀ ps : List Descriptor, (∀ p ∈ ps, p ∈ builtin.protocols) →
        Text.strip pathDelimiter (Text.ofString "/ip4//tcp") ≠ joined (ps.map (·.name))) ∧
      ∃ segment, builtin.parsePath (Text.ofString "/ip4//tcp") = .error (.unknownName segment) ∧
        ∀ p ∈ builtin.protocols, p.name ≠ segment := by
  intro ip4 tcp
  obtain ⟨hpath, hjoined⟩ := parsePath_joined builtin_reachable
  have hip4 : ip4 ∈ Descriptor.builtins := by simp [Descriptor.builtins, ip4]
  have htcp : tcp ∈ Descriptor.builtins := by simp [Descriptor.builtins, tcp]
  have hmem : ∀ p ∈ [ip4, tcp], p ∈ builtin.protocols :=
    List.forall_mem_cons.mpr ⟨hip4, List.forall_mem_singleton.mpr htcp⟩
  obtain ⟨-, -, -, -, hempty, -⟩ := hpath (Text.ofString "///")
  obtain ⟨-, -, -, hread, -, hother⟩ := hpath (Text.ofString "/ip4//tcp")
  have hnot : ∀ ps : List Descriptor, (∀ p ∈ ps, p ∈ builtin.protocols) →
      Text.strip pathDelimiter (Text.ofString "/ip4//tcp") ≠ joined (ps.map (·.name)) := by
    intro ps hps heq
    have hfail : builtin.parsePath (Text.ofString "/ip4//tcp") = .error (.unknownName []) := by rfl
    rw [(hread ps hps).mpr heq] at hfail
    cases hfail
  obtain ⟨_, segment, _, -, -, -, hsegment, hparse⟩ := hother hnot
  exact ⟨builtin_reachable, hmem, hjoined [ip4, tcp] 2 1 hmem, hempty.mpr (by decide), hnot,
    segment, hparse, hsegment⟩

end Registry

end AddressProtocols
