import AddressProtocols.Proofs.Fuzz.Check
import AddressProtocols.Proofs.Json.Integer
import AddressProtocols.Proofs.Registry.Order
import Mathlib.Data.List.Range

/-!
# Races

In a race the odd contenders want one code, under names of their own, and the even ones want one
name, with codes of their own.  Whatever the order of their turns, the first of either side wins and
the others are told who was faster.

* `Fuzz.racer`: the descriptor of a contender; two of them have one code exactly if both are odd,
  one name only if they are on the same side, and none collides with the built-in table;
* `Fuzz.leader`, `Fuzz.leaders` and `Fuzz.outcome`: who comes first on a contender's side, which
  contenders do so, and how a turn ends;
* `Fuzz.Standing`: the registry in the middle of a race holds those who have won so far;
  `Standing.turn_of_first` and `Standing.turn_of_later` are the two ways in which a turn can go, and
  `Standing.turns` is the race to its end;
* `Check.race_eq`: what a race reports, whatever its contenders;
* `Fuzz.race_outcome`: the outcome of a race.
-/

namespace AddressProtocols

namespace Fuzz

/-! ### Contenders -/

/-- The code that contender `t` wants in round `i`: all odd ones the same. -/
def racerCode (i t : ℕ) : ℕ := if t % 2 = 1 then 10000 + i else 10000 + i + (1 + t)

/-- The name that contender `t` wants in round `i`: all even ones the same. -/
def racerName (i t : ℕ) : Text :=
  if t % 2 = 1 then Text.ofString "r" ++ Text.ofNat i ++ Text.ofString "_" ++ Text.ofNat t
  else Text.ofString "race" ++ Text.ofNat i

/-- The descriptor that contender `t` wants to register in round `i`. -/
def racer (i t : ℕ) : Descriptor :=
  ⟨racerCode i t, racerName i t, .bits 0, false, .null, Varint.encode (racerCode i t)⟩

variable {i s t : ℕ}

theorem head?_racerName (i t : ℕ) : (racerName i t).head? = some (.scalar 'r') := by
  rw [racerName]
  split <;> rfl

theorem delimiter_notMem_racerName (i t : ℕ) : pathDelimiter ∉ racerName i t := by
  have hdigits : ∀ n, pathDelimiter ∉ Text.ofNat n := by
    intro n hmem
    have hdigit := Json.isJsonDigit_of_mem_ofNat hmem
    cases hdigit
  rw [racerName]
  split
  · simp only [List.mem_append, hdigits, not_or, not_false_eq_true, and_true]
    decide
  · simp only [List.mem_append, hdigits, not_or, not_false_eq_true, and_true]
    decide

theorem racer_checked (h : racerCode i t ≤ Varint.maxValue) : (racer i t).Checked where
  code_le := h
  name_ne_nil := by
    intro hnil
    have hhead := head?_racerName i t
    rw [show racerName i t = [] from hnil] at hhead
    cases hhead
  delimiter_notMem := delimiter_notMem_racerName i t
  tag_eq := rfl

theorem contender_ofInt (h : racerCode i t ≤ Varint.maxValue) :
    Check.contender (Round.ofInt i) t = .ok (racer i t) := by
  have hcode : ∀ offset, Check.codeAt (Round.ofInt i) offset =
      .int ((10000 + i + offset : ℕ) : ℤ) := by
    intro offset
    rw [Nat.cast_add, Nat.cast_add]
    rfl
  have hfields : Check.contender (Round.ofInt i) t = Descriptor.ofFields (.int (racerCode i t))
      (.text (racerName i t)) (.int 0) (.bool false) .null := by
    rw [Check.contender, racerCode, racerName]
    split
    · rw [hcode]
      rfl
    · rw [hcode]
      rfl
  rw [hfields]
  exact Descriptor.ofFields_eq_ok.mpr ⟨racer_checked h, rfl, rfl, rfl, rfl, rfl⟩

/-! ### Collisions -/

theorem racerCode_ne_of_even (hne : s ≠ t) (ht : t % 2 = 0) : racerCode i s ≠ racerCode i t := by
  rw [racerCode, racerCode]
  split <;> split <;> omega

theorem racerName_ne_of_odd (hs : s % 2 = 1) (ht : t % 2 = 0) : racerName i s ≠ racerName i t := by
  -- the second character is a digit on the one side and a letter on the other
  obtain ⟨c, digits, hdigits⟩ := List.exists_cons_of_ne_nil (Text.ofNat_ne_nil i)
  have hc : c ∈ Text.ofNat i := by
    rw [hdigits]
    exact List.mem_cons_self
  rw [racerName, if_pos hs, racerName, if_neg (by omega), hdigits]
  intro heq
  have hletter : c = .scalar 'a' := (List.cons.inj (List.cons.inj heq).2).1
  rw [hletter] at hc
  cases Json.isJsonDigit_of_mem_ofNat hc

/-- Contenders on different sides have nothing in common. -/
theorem racer_ne_of_sides (hside : s % 2 ≠ t % 2) :
    racerCode i s ≠ racerCode i t ∧ racerName i s ≠ racerName i t := by
  have hne : s ≠ t := fun heq => hside (congrArg (· % 2) heq)
  rcases Nat.mod_two_eq_zero_or_one t with ht | ht
  · exact ⟨racerCode_ne_of_even hne ht, racerName_ne_of_odd (by omega) ht⟩
  · have hs : s % 2 = 0 := by omega
    exact ⟨(racerCode_ne_of_even hne.symm hs).symm, (racerName_ne_of_odd ht hs).symm⟩

theorem builtin_ne_racer {d : Descriptor} (hd : d ∈ Descriptor.builtins) (i t : ℕ) :
    d.code ≠ racerCode i t ∧ d.name ≠ racerName i t := by
  have hall : ∀ d ∈ Descriptor.builtins, d.code < 10000 ∧ d.name.head? ≠ some (.scalar 'r') := by
    decide
  obtain ⟨hcode, hname⟩ := hall d hd
  constructor
  · rw [racerCode]
    split <;> omega
  · intro heq
    rw [heq] at hname
    exact hname (head?_racerName i t)

/-! ### Sides -/

/-- The first contender in an order that is on the side of `t`. -/
def leader (order : List ℕ) (t : ℕ) : ℕ := (order.find? fun s => s % 2 = t % 2).getD t

/-- Those who come first on their sides, among the contenders who have had their turn. -/
def leaders (order before : List ℕ) : List ℕ := before.filter fun t => leader order t = t

/-- What a contender is told when `s` was faster. -/
def refusal (i t s : ℕ) : Failure :=
  if t % 2 = 1 then .codeTaken (racer i t) (racer i s) else .nameTaken (racer i t) (racer i s)

/-- How the turn of a contender ends. -/
def outcome (i : ℕ) (order : List ℕ) (t : ℕ) : Except Failure Descriptor :=
  if leader order t = t then .ok (racer i t) else .error (refusal i t (leader order t))

theorem leaders_append_of_eq {order : List ℕ} (before : List ℕ) (h : leader order t = t) :
    leaders order (before ++ [t]) = leaders order before ++ [t] := by
  rw [leaders, List.filter_append, List.filter_cons_of_pos (by simpa using h), List.filter_nil]
  rfl

theorem leaders_append_of_ne {order : List ℕ} (before : List ℕ) (h : leader order t ≠ t) :
    leaders order (before ++ [t]) = leaders order before := by
  rw [leaders, List.filter_append, List.filter_cons_of_neg (by simpa using h), List.filter_nil,
    List.append_nil]
  rfl

/-- In its turn a contender either is the first of its side, or its leader has had its turn. -/
theorem leader_cases {before : List ℕ} (hnew : t ∉ before) (after : List ℕ) :
    (leader (before ++ t :: after) t = t ∧ ∀ s ∈ before, s % 2 ≠ t % 2) ∨
      ∃ s ∈ before, s % 2 = t % 2 ∧ s ≠ t ∧ leader (before ++ t :: after) t = s ∧
        leader (before ++ t :: after) s = s := by
  cases hfind : before.find? (fun s => s % 2 = t % 2) with
  | none =>
    have hbefore : ∀ s ∈ before, s % 2 ≠ t % 2 := by simpa using List.find?_eq_none.mp hfind
    refine .inl ⟨?_, hbefore⟩
    rw [leader, List.find?_append, hfind, Option.none_or, List.find?_cons_of_pos (by simp)]
    rfl
  | some s =>
    have hs : s ∈ before := List.mem_of_find?_eq_some hfind
    have hside : s % 2 = t % 2 := by simpa using List.find?_some hfind
    have hne : s ≠ t := fun heq => hnew (heq ▸ hs)
    refine .inr ⟨s, hs, hside, hne, ?_, ?_⟩
    · rw [leader, List.find?_append, hfind]
      rfl
    · rw [leader, hside, List.find?_append, hfind]
      rfl

/-! ### The registry in the middle of a race -/

section Turn

variable {r r' : Registry} (ht : racerCode i t ≤ Varint.maxValue)
include ht

theorem turn_of_add_ok (hadd : r.add (racer i t) = .ok r') :
    Check.turn (Round.ofInt i) r t = (r', .ok (racer i t)) := by
  have hregister : r.register (racer i t).value = .ok (r', racer i t) :=
    Registry.register_eq_ok.mpr ⟨Registry.checkOne_value (racer_checked ht), hadd⟩
  simp only [Check.turn, contender_ofInt ht, Except.mapError, hregister]

theorem turn_of_add_error {failure : Failure} (hadd : r.add (racer i t) = .error failure) :
    Check.turn (Round.ofInt i) r t = (r, .error failure) := by
  have hregister : r.register (racer i t).value = .error failure := by
    rw [Registry.register_of_checkOne (Registry.checkOne_value (racer_checked ht)), hadd]
    rfl
  simp only [Check.turn, contender_ofInt ht, Except.mapError, hregister]

end Turn

/-- The registry of round `i` after the contenders `won`, and no others, have been successful. -/
structure Standing (i : ℕ) (won : List ℕ) (r : Registry) : Prop where
  consistent : r.Consistent
  protocols_eq : r.protocols = Descriptor.builtins ++ won.map (racer i)

theorem standing_builtin (i : ℕ) : Standing i [] .builtin :=
  ⟨Registry.builtin_reachable.consistent, (List.append_nil _).symm⟩

namespace Standing

variable {won : List ℕ} {r : Registry}

/-- What neither the built-in table nor a winner has is not in the registry. -/
theorem key_notMem {κ : Type} {key : Descriptor → κ} {k : κ} (h : Standing i won r)
    (hbuiltin : ∀ d ∈ Descriptor.builtins, key d ≠ k) (hwon : ∀ s ∈ won, key (racer i s) ≠ k) :
    k ∉ r.protocols.map key := by
  rw [h.protocols_eq, List.mem_map]
  intro hmem
  obtain ⟨d, hd, heq⟩ := hmem
  rcases List.mem_append.mp hd with hd | hd
  · exact hbuiltin d hd heq
  · obtain ⟨s, hs, rfl⟩ := List.mem_map.mp hd
    exact hwon s hs heq

theorem code_notMem (h : Standing i won r) (hwon : ∀ s ∈ won, racerCode i s ≠ racerCode i t) :
    (racer i t).code ∉ r.protocols.map (·.code) :=
  h.key_notMem (fun _ hd => (builtin_ne_racer hd i t).1) hwon

theorem name_notMem (h : Standing i won r) (hwon : ∀ s ∈ won, racerName i s ≠ racerName i t) :
    (racer i t).name ∉ r.protocols.map (·.name) :=
  h.key_notMem (fun _ hd => (builtin_ne_racer hd i t).2) hwon

theorem turn_of_first (h : Standing i won r) (ht : racerCode i t ≤ Varint.maxValue)
    (hfirst : ∀ s ∈ won, s % 2 ≠ t % 2) :
    ∃ r', Check.turn (Round.ofInt i) r t = (r', .ok (racer i t)) ∧ Standing i (won ++ [t]) r' := by
  have hcode := h.code_notMem fun s hs => (racer_ne_of_sides (i := i) (hfirst s hs)).1
  have hname := h.name_notMem fun s hs => (racer_ne_of_sides (i := i) (hfirst s hs)).2
  have hadd : r.add (racer i t) = .ok (r.push (racer i t)) :=
    h.consistent.add_eq_ok.mpr ⟨hcode, hname, rfl⟩
  refine ⟨r.push (racer i t), ?_, h.consistent.push (racer_checked ht) hcode hname, ?_⟩
  · exact turn_of_add_ok ht hadd
  · rw [Registry.push, h.protocols_eq, List.map_append, List.append_assoc]
    rfl

theorem turn_of_later (h : Standing i won r) (ht : racerCode i t ≤ Varint.maxValue)
    (hs : s ∈ won) (hside : s % 2 = t % 2) (hnew : t ∉ won) :
    Check.turn (Round.ofInt i) r t = (r, .error (refusal i t s)) := by
  have hmem : racer i s ∈ r.protocols := by
    rw [h.protocols_eq]
    exact List.mem_append_right _ (List.mem_map_of_mem hs)
  have hadd : r.add (racer i t) = .error (refusal i t s) := by
    rw [h.consistent.add_eq_error, refusal]
    split
    · rename_i hodd
      have hcode : racerCode i s = racerCode i t := by
        rw [racerCode, racerCode, if_pos (hside.trans hodd), if_pos hodd]
      exact .inl ⟨racer i s, hmem, hcode, rfl⟩
    · rename_i hodd
      have heven : t % 2 = 0 := by omega
      have hname : racerName i s = racerName i t := by
        rw [racerName, racerName, if_neg (by omega), if_neg hodd]
      refine .inr ⟨h.code_notMem fun u hu => racerCode_ne_of_even ?_ heven,
        racer i s, hmem, hname, rfl⟩
      exact fun heq => hnew (heq ▸ hu)
  exact turn_of_add_error ht hadd

/-- From any moment of a race on, the turns end as they should and leave the leaders in the
registry. -/
theorem turns {order before rest : List ℕ} (horder : order = before ++ rest) (hnodup : order.Nodup)
    (hfits : ∀ t ∈ rest, racerCode i t ≤ Varint.maxValue)
    (h : Standing i (leaders order before) r) :
    ∃ r', Check.turns (Round.ofInt i) r rest = (r', rest.map fun t => (t, outcome i order t)) ∧
      Standing i (leaders order order) r' := by
  induction rest generalizing before r with
  | nil =>
    rw [List.append_nil] at horder
    subst horder
    exact ⟨r, rfl, h⟩
  | cons t rest ih =>
    obtain ⟨ht, hothers⟩ := List.forall_mem_cons.mp hfits
    have hnext : order = (before ++ [t]) ++ rest := by
      rw [horder, List.append_assoc, List.singleton_append]
    have hnew : t ∉ before := by
      intro hmem
      rw [horder] at hnodup
      exact List.disjoint_of_nodup_append hnodup hmem List.mem_cons_self
    have hcases := leader_cases hnew rest
    rw [← horder] at hcases
    rcases hcases with ⟨hleader, hfirst⟩ | ⟨s, hs, hside, hne, hleader, hself⟩
    · -- nobody of this side has had a turn, so nobody in the registry is in the way
      obtain ⟨r₁, hturn, h₁⟩ := h.turn_of_first ht fun s hs => hfirst s (List.mem_of_mem_filter hs)
      rw [← leaders_append_of_eq before hleader] at h₁
      obtain ⟨r₂, hturns, h₂⟩ := ih hnext hothers h₁
      refine ⟨r₂, ?_, h₂⟩
      rw [Check.turns, hturn, List.map_cons, outcome, if_pos hleader]
      simp only [hturns]
    · -- the leader of this side is in the registry
      have hlost : leader order t ≠ t := by
        rw [hleader]
        exact hne
      have hwon : s ∈ leaders order before := List.mem_filter.mpr ⟨hs, by simpa using hself⟩
      have hturn := h.turn_of_later ht hwon hside fun hmem => hnew (List.mem_of_mem_filter hmem)
      rw [← leaders_append_of_ne before hlost] at h
      obtain ⟨r₂, hturns, h₂⟩ := ih hnext hothers h
      refine ⟨r₂, ?_, h₂⟩
      rw [Check.turns, hturn, List.map_cons, outcome, if_neg hlost, hleader]
      simp only [hturns]

end Standing

/-! ### What a race reports -/

namespace Check

section Turns

variable {round : Round} {r r' : Registry} {order : List ℕ}
  {results : List (ℕ × Except Failure Descriptor)}

/-- A turn changes a registry as the registration of one descriptor does, if at all. -/
theorem reachable_turn (h : r.Reachable) (round : Round) (t : ℕ) :
    (turn round r t).1.Reachable := by
  rw [turn]
  split
  · exact h
  · rename_i d _
    have hafter := h.change (.register d.value)
    rw [Registry.after, Registry.Change.apply] at hafter
    cases hregister : r.register d.value with
    | error failure => exact h
    | ok result =>
      rw [hregister] at hafter
      exact hafter

theorem reachable_turns (h : r.Reachable) (round : Round) (order : List ℕ) :
    (turns round r order).1.Reachable := by
  induction order generalizing r with
  | nil => exact h
  | cons t rest ih => exact ih (reachable_turn h round t)

/-- No turns, whoever takes them, leave a code or a name twice. -/
theorem unique_of_turns (hturns : turns round .builtin order = (r, results)) :
    (r.protocols.map (·.code)).Nodup ∧ (r.protocols.map (·.name)).Nodup := by
  have hreach := reachable_turns Registry.builtin_reachable round order
  rw [hturns] at hreach
  exact ⟨hreach.consistent.codes_nodup, hreach.consistent.names_nodup⟩

/-- A race has its turns on the built-in registry, and reports the winners if there are not two. -/
theorem race_eq {n : ℤ} {setup : Setup} {progress : Progress}
    (hturns : turns (.ofInt n) .builtin (setup.order (.ofInt n)) = (r, results)) :
    race (.ofInt n) setup progress =
      if (winners results).length = 2 then (.ok (), progress)
      else (.error (.violation (Text.ofString "C winner count")
        (contextOf n [("winners", winnersJson (winners results))]).tree), progress) := by
  have hunique := unique_of_turns hturns
  rw [race, run_read_bind]
  simp only [hturns, not_not.mpr hunique, if_false]
  by_cases htwo : (winners results).length = 2
  · simp only [htwo, ne_eq, not_true_eq_false, if_false, if_true]
    rfl
  · simp only [htwo, ne_eq, not_false_eq_true, if_true, if_false, run_violation]

end Turns

end Check

/-! ### Whole races -/

/-- Who comes first on either side. -/
structure Fastest (order : List ℕ) (odd even : ℕ) : Prop where
  odd_first : order.find? (fun t => t % 2 = 1) = some odd
  even_first : order.find? (fun t => t % 2 = 0) = some even

namespace Fastest

variable {order : List ℕ} {odd even : ℕ}

theorem odd_mod_two (h : Fastest order odd even) : odd % 2 = 1 := by
  simpa using List.find?_some h.odd_first

theorem even_mod_two (h : Fastest order odd even) : even % 2 = 0 := by
  simpa using List.find?_some h.even_first

theorem leader_eq (h : Fastest order odd even) (t : ℕ) :
    leader order t = if t % 2 = 1 then odd else even := by
  rcases Nat.mod_two_eq_zero_or_one t with ht | ht
  · rw [leader, ht, h.even_first]
    rfl
  · rw [leader, ht, h.odd_first]
    rfl

theorem leader_eq_self_iff (h : Fastest order odd even) {t : ℕ} :
    leader order t = t ↔ t = odd ∨ t = even := by
  have hodd := h.odd_mod_two
  have heven := h.even_mod_two
  rw [h.leader_eq]
  split <;> omega

theorem leaders_eq (h : Fastest order odd even) (before : List ℕ) :
    leaders order before = before.filter fun t => t = odd ∨ t = even := by
  simp only [leaders, h.leader_eq_self_iff]

theorem outcome_eq (h : Fastest order odd even) (i t : ℕ) :
    outcome i order t =
      if t = odd ∨ t = even then .ok (racer i t)
      else if t % 2 = 1 then .error (.codeTaken (racer i t) (racer i odd))
      else .error (.nameTaken (racer i t) (racer i even)) := by
  rw [outcome]
  by_cases hself : t = odd ∨ t = even
  · rw [if_pos hself, if_pos (h.leader_eq_self_iff.mpr hself)]
  · rw [if_neg hself, if_neg (mt h.leader_eq_self_iff.mp hself), h.leader_eq, refusal]
    split <;> rfl

/-- No more than two contenders come first on their sides. -/
theorem filter_perm (h : Fastest order odd even) (hnodup : order.Nodup) :
    (order.filter fun t => t = odd ∨ t = even).Perm [odd, even] := by
  have hne : odd ≠ even := by
    have hodd := h.odd_mod_two
    have heven := h.even_mod_two
    omega
  refine (List.perm_ext_iff_of_nodup (hnodup.filter _) (by simpa using hne)).mpr fun t => ?_
  simp only [List.mem_filter, decide_eq_true_eq, List.mem_cons, List.not_mem_nil, or_false]
  constructor
  · exact And.right
  · intro ht
    refine ⟨?_, ht⟩
    rcases ht with rfl | rfl
    · exact List.mem_of_find?_eq_some h.odd_first
    · exact List.mem_of_find?_eq_some h.even_first

end Fastest

theorem winners_outcome (i : ℕ) (order : List ℕ) :
    Check.winners (order.map fun t => (t, outcome i order t)) = leaders order order := by
  have hwon : ∀ t, (outcome i order t).toBool = decide (leader order t = t) := by
    intro t
    rw [outcome]
    split
    · rename_i hleader
      exact (decide_eq_true hleader).symm
    · rename_i hleader
      exact (decide_eq_false hleader).symm
  rw [Check.winners, List.filter_map, List.map_map, leaders]
  simp only [Function.comp_def, hwon, List.map_id']

section Whole

variable {i T : ℕ} {order : List ℕ} (hT : 2 ≤ T) (horder : order.Perm (List.range T))
include hT horder

theorem exists_fastest : ∃ odd even, Fastest order odd even := by
  have hfirst : ∀ p < 2, ∃ first, order.find? (fun t => t % 2 = p) = some first := by
    intro p hp
    have hmem : p ∈ order := horder.mem_iff.mpr (List.mem_range.mpr (by omega))
    rw [← Option.isSome_iff_exists, List.find?_isSome]
    exact ⟨p, hmem, by simpa using Nat.mod_eq_of_lt hp⟩
  obtain ⟨odd, hodd⟩ := hfirst 1 (by decide)
  obtain ⟨even, heven⟩ := hfirst 0 (by decide)
  exact ⟨odd, even, hodd, heven⟩

theorem turns_builtin (hfits : i + T + 10000 ≤ Varint.maxValue) :
    ∃ odd even r, Fastest order odd even ∧
      Check.turns (Round.ofInt i) .builtin order = (r, order.map fun t => (t, outcome i order t)) ∧
      Check.winners (order.map fun t => (t, outcome i order t)) =
        order.filter (fun t => t = odd ∨ t = even) ∧
      Standing i (order.filter fun t => t = odd ∨ t = even) r := by
  obtain ⟨odd, even, hfastest⟩ := exists_fastest hT horder
  have hcodes : ∀ t ∈ order, racerCode i t ≤ Varint.maxValue := by
    intro t ht
    have hlt : t < T := List.mem_range.mp (horder.mem_iff.mp ht)
    rw [racerCode]
    split <;> omega
  obtain ⟨r, hturns, hstanding⟩ := Standing.turns (List.nil_append order).symm
    (horder.nodup_iff.mpr List.nodup_range) hcodes (standing_builtin i)
  have hwinners := winners_outcome i order
  rw [hfastest.leaders_eq] at hwinners hstanding
  exact ⟨odd, even, r, hfastest, hturns, hwinners, hstanding⟩

/-- Two win, and a race finds nothing. -/
theorem race_eq_ok (hfits : i + T + 10000 ≤ Varint.maxValue) {setup : Setup}
    (hsetup : setup.order (Round.ofInt i) = order) (progress : Progress) :
    Check.race (Round.ofInt i) setup progress = (.ok (), progress) := by
  obtain ⟨odd, even, r, hfastest, hturns, hwinners, -⟩ := turns_builtin hT horder hfits
  have htwo : (Check.winners (order.map fun t => (t, outcome i order t))).length = 2 := by
    rw [hwinners]
    exact (hfastest.filter_perm (horder.nodup_iff.mpr List.nodup_range)).length_eq
  rw [← hsetup] at hturns
  rw [Check.race_eq hturns, if_pos (hsetup ▸ htwo)]

end Whole

/-- **The outcome of a race.**  Whatever the order of the turns of at least two contenders, those
who come first on either side win.  Every other odd contender is refused because of its code and
every other even one because of its name, and each is told the descriptor of the winner on its side.
The registry then has the built-in table and the two winners in the order of their turns, and there
is nothing to report.

These turns are the race: with whatever contenders in whatever order, codes and names are unique in
the registry that they leave of the built-in one, and the race reports their winners exactly if
these are not two. -/
theorem race_outcome {i T : ℕ} (hT : 2 ≤ T) (hfits : i + T + 10000 ≤ Varint.maxValue)
    {order : List ℕ} (horder : order.Perm (List.range T)) :
    ∃ odd even r results,
      order.find? (fun t => t % 2 = 1) = some odd ∧
      order.find? (fun t => t % 2 = 0) = some even ∧
      Check.turns (Round.ofInt i) .builtin order = (r, results) ∧
      results = order.map (fun t => (t,
        if t = odd ∨ t = even then .ok (racer i t)
        else if t % 2 = 1 then .error (.codeTaken (racer i t) (racer i odd))
        else .error (.nameTaken (racer i t) (racer i even)))) ∧
      Check.winners results = order.filter (fun t => t = odd ∨ t = even) ∧
      (Check.winners results).length = 2 ∧
      r.protocols = Descriptor.builtins ++ (Check.winners results).map (racer i) ∧
      (∀ d e : Descriptor,
        (Failure.codeTaken d e).report.code = .text (Text.ofString "ERR_DUPLICATE_CODE") ∧
        (Failure.codeTaken d e).report.kind = .registration d.value e.value ∧
        (Failure.nameTaken d e).report.code = .text (Text.ofString "ERR_DUPLICATE_NAME") ∧
        (Failure.nameTaken d e).report.kind = .registration d.value e.value) ∧
      (∀ (setup : Setup) (progress : Progress), setup.order (Round.ofInt i) = order →
        Check.race (Round.ofInt i) setup progress = (.ok (), progress)) ∧
      ∀ (setup : Setup) (progress : Progress) (r' : Registry)
        (results' : List (ℕ × Except Failure Descriptor)),
        Check.turns (Round.ofInt i) .builtin (setup.order (Round.ofInt i)) = (r', results') →
        (r'.protocols.map (·.code)).Nodup ∧ (r'.protocols.map (·.name)).Nodup ∧
        Check.race (Round.ofInt i) setup progress =
          if (Check.winners results').length = 2 then (.ok (), progress)
          else (.error (.violation (Text.ofString "C winner count") (contextOf i
            [("winners", Check.winnersJson (Check.winners results'))]).tree), progress) := by
  obtain ⟨odd, even, r, hfastest, hturns, hwinners, hstanding⟩ := turns_builtin hT horder hfits
  refine ⟨odd, even, r, _, hfastest.odd_first, hfastest.even_first, hturns, ?_, hwinners, ?_, ?_,
    ?_, ?_, ?_⟩
  · simp only [hfastest.outcome_eq]
  · rw [hwinners]
    exact (hfastest.filter_perm (horder.nodup_iff.mpr List.nodup_range)).length_eq
  · rw [hwinners]
    exact hstanding.protocols_eq
  · exact fun d e => ⟨rfl, rfl, rfl, rfl⟩
  · exact fun setup progress hsetup => race_eq_ok hT horder hfits hsetup progress
  · intro setup progress r' results' hturns'
    obtain ⟨hcodes, hnames⟩ := Check.unique_of_turns hturns'
    exact ⟨hcodes, hnames, Check.race_eq hturns'⟩

/-- Four contenders, of which two and three are the fastest. -/
theorem race_outcome_four :
    ∃ r, Check.turns (Round.ofInt (7 : ℕ)) .builtin [2, 3, 0, 1] =
        (r, [(2, .ok (racer 7 2)), (3, .ok (racer 7 3)),
          (0, .error (.nameTaken (racer 7 0) (racer 7 2))),
          (1, .error (.codeTaken (racer 7 1) (racer 7 3)))]) ∧
      r.protocols = Descriptor.builtins ++ [racer 7 2, racer 7 3] := by
  obtain ⟨odd, even, r, results, hodd, heven, hturns, rfl, hwinners, -, hprotocols, -⟩ :=
    race_outcome (i := 7) (T := 4) (by decide) (by decide)
      (show [2, 3, 0, 1].Perm (List.range 4) by decide)
  cases hodd
  cases heven
  rw [hwinners] at hprotocols
  exact ⟨r, hturns, hprotocols⟩

end Fuzz

end AddressProtocols
