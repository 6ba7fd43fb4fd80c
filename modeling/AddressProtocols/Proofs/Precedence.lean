import AddressProtocols.Failure
import Mathlib.Data.List.Basic

/-!
# The choice of the error to report

Of several errors the one of highest precedence is reported.  Errors go by their spellings, among
which there may be some that no error code has; these rank last, and all alike.

* `ErrorCode.Known` and the ranks: known spellings have different ranks (`ErrorCode.eq_of_rank_eq`),
  and less than any other spelling (`ErrorCode.rank_lt_rank`);
* `ErrorCode.StandsFirst` says which spelling is to be chosen, and
  `ErrorCode.chooseReported_eq_some` that it is;
* `ErrorCode.chooseReported_append`: a list can be chosen from in parts;
* `ErrorCode.chooseReported_congr`: as soon as there is a known spelling, only the known ones count,
  and neither their order nor their number. -/

namespace AddressProtocols

namespace ErrorCode

variable {spellings xs ys : List Text} {chosen s t x y : Text}

/-! ### Ranks -/

/-- The spelling of an error code. -/
def Known (spelling : Text) : Prop := ∃ code : ErrorCode, code.text = spelling

theorem mem_all (code : ErrorCode) : code ∈ all := by
  cases code <;> decide

theorem known_iff_mem : Known s ↔ s ∈ all.map text := by
  rw [List.mem_map]
  constructor
  · intro h
    obtain ⟨code, hcode⟩ := h
    exact ⟨code, mem_all code, hcode⟩
  · intro h
    obtain ⟨code, -, hcode⟩ := h
    exact ⟨code, hcode⟩

theorem rank_lt_rank (hs : Known s) (ht : ¬Known t) : rank s < rank t := by
  rw [known_iff_mem] at hs ht
  have hlast : rank t = (all.map text).length := List.idxOf_eq_length_iff.mpr ht
  rw [hlast]
  exact List.idxOf_lt_length_of_mem hs

theorem eq_of_rank_eq (hs : Known s) (h : rank s = rank t) : s = t :=
  (List.idxOf_inj (known_iff_mem.mp hs)).mp h

/-! ### The spelling to choose -/

/-- `chosen` is the first of the spellings that have the least rank. -/
def StandsFirst (spellings : List Text) (chosen : Text) : Prop :=
  ∃ before after, spellings = before ++ chosen :: after ∧
    (∀ s ∈ before, rank chosen < rank s) ∧ ∀ s ∈ after, rank chosen ≤ rank s

theorem StandsFirst.mem (h : StandsFirst spellings chosen) : chosen ∈ spellings := by
  obtain ⟨before, after, rfl, -, -⟩ := h
  exact List.mem_append_right _ List.mem_cons_self

theorem StandsFirst.rank_le (h : StandsFirst spellings chosen) (hs : s ∈ spellings) :
    rank chosen ≤ rank s := by
  obtain ⟨before, after, rfl, hbefore, hafter⟩ := h
  rcases List.mem_append.mp hs with hs | hs
  · exact Nat.le_of_lt (hbefore s hs)
  · rcases List.mem_cons.mp hs with rfl | hs
    · exact Nat.le_refl _
    · exact hafter s hs

theorem chooseReported_cons_ne_none : chooseReported (s :: spellings) ≠ none := by
  rw [chooseReported]
  split
  · exact nofun
  · exact nofun

theorem exists_chooseReported_eq_some (h : spellings ≠ []) :
    ∃ chosen, chooseReported spellings = some chosen := by
  obtain ⟨s, rest, rfl⟩ := List.exists_cons_of_ne_nil h
  exact Option.ne_none_iff_exists'.mp chooseReported_cons_ne_none

theorem standsFirst_of_chooseReported (h : chooseReported spellings = some chosen) :
    StandsFirst spellings chosen := by
  induction spellings generalizing chosen with
  | nil => cases h
  | cons s rest ih =>
    rw [chooseReported] at h
    split at h
    · rename_i hnone
      cases h
      cases rest with
      | nil => exact ⟨[], [], rfl, by simp, by simp⟩
      | cons t rest => exact absurd hnone chooseReported_cons_ne_none
    · rename_i other hother
      have hrest := ih hother
      cases h
      split
      · rename_i hlt
        obtain ⟨before, after, heq, hbefore, hafter⟩ := hrest
        exact ⟨s :: before, after, by rw [heq, List.cons_append],
          List.forall_mem_cons.mpr ⟨hlt, hbefore⟩, hafter⟩
      · rename_i hle
        exact ⟨[], rest, rfl, by simp, fun t ht =>
          Nat.le_trans (Nat.not_lt.mp hle) (hrest.rank_le ht)⟩

theorem chooseReported_of_standsFirst (h : StandsFirst spellings chosen) :
    chooseReported spellings = some chosen := by
  obtain ⟨before, after, rfl, hbefore, hafter⟩ := h
  -- what stands before gives way one after the other, as the function goes
  induction before with
  | nil =>
    rw [List.nil_append, chooseReported]
    split
    · rfl
    · rename_i other hother
      have hle := hafter other (standsFirst_of_chooseReported hother).mem
      rw [if_neg (Nat.not_lt.mpr hle)]
  | cons s before ih =>
    obtain ⟨hs, hbefore⟩ := List.forall_mem_cons.mp hbefore
    rw [List.cons_append, chooseReported, ih hbefore]
    exact congrArg some (if_pos hs)

theorem chooseReported_eq_some :
    chooseReported spellings = some chosen ↔ StandsFirst spellings chosen :=
  ⟨standsFirst_of_chooseReported, chooseReported_of_standsFirst⟩

/-! ### Other lists with the same choice -/

theorem chooseReported_pair :
    chooseReported [x, y] = some (if rank y < rank x then y else x) := rfl

/-- The choice from a list in two parts is that between their choices. -/
theorem chooseReported_append (hx : chooseReported xs = some x) (hy : chooseReported ys = some y) :
    chooseReported (xs ++ ys) = chooseReported [x, y] := by
  rw [chooseReported_eq_some] at hx hy
  rw [chooseReported_pair, chooseReported_eq_some]
  split
  · rename_i hlt
    have hxs : ∀ s ∈ xs, rank y < rank s := fun s hs => Nat.lt_of_lt_of_le hlt (hx.rank_le hs)
    obtain ⟨before, after, rfl, hbefore, hafter⟩ := hy
    exact ⟨xs ++ before, after, by rw [List.append_assoc],
      List.forall_mem_append.mpr ⟨hxs, hbefore⟩, hafter⟩
  · rename_i hle
    have hys : ∀ s ∈ ys, rank x ≤ rank s :=
      fun s hs => Nat.le_trans (Nat.not_lt.mp hle) (hy.rank_le hs)
    obtain ⟨before, after, rfl, hbefore, hafter⟩ := hx
    exact ⟨before, after ++ ys, by rw [List.append_assoc, List.cons_append], hbefore,
      List.forall_mem_append.mpr ⟨hafter, hys⟩⟩

/-- What is chosen is known if anything is. -/
theorem StandsFirst.known (h : StandsFirst spellings chosen) (hs : s ∈ spellings)
    (hknown : Known s) : Known chosen := by
  by_contra hunknown
  exact absurd (h.rank_le hs) (Nat.not_le.mpr (rank_lt_rank hknown hunknown))

/-- Lists with the same known spellings, of which there is one, have the same choice. -/
theorem chooseReported_congr (hs : s ∈ xs) (hknown : Known s)
    (h : ∀ t, Known t → (t ∈ ys ↔ t ∈ xs)) : chooseReported ys = chooseReported xs := by
  have hs' : s ∈ ys := (h s hknown).mpr hs
  obtain ⟨x, hx⟩ := exists_chooseReported_eq_some (List.ne_nil_of_mem hs)
  obtain ⟨y, hy⟩ := exists_chooseReported_eq_some (List.ne_nil_of_mem hs')
  have hfirst := chooseReported_eq_some.mp hx
  have hfirst' := chooseReported_eq_some.mp hy
  have hkx : Known x := hfirst.known hs hknown
  have hky : Known y := hfirst'.known hs' hknown
  -- each choice stands in the other list as well, so neither rank is less
  have hle : rank x ≤ rank y := hfirst.rank_le ((h y hky).mp hfirst'.mem)
  have hge : rank y ≤ rank x := hfirst'.rank_le ((h x hkx).mpr hfirst.mem)
  rw [hx, hy, eq_of_rank_eq hkx (Nat.le_antisymm hle hge)]

/-- **Which error is reported.**  From every list of spellings that is not empty, the first one of
least rank is chosen, where unknown spellings rank behind all known ones.  A list can be chosen from
in parts, one choice being made between those of the parts.  If a spelling in a list is known, then
every list with the same known spellings has the same choice: in another order, with some of them
repeated, with unknown ones anywhere. -/
theorem chooseReported_precedence :
    (∀ spellings : List Text, spellings ≠ [] →
      ∃ chosen, chooseReported spellings = some chosen ∧ StandsFirst spellings chosen) ∧
    (∀ s t, Known s → ¬Known t → rank s < rank t) ∧
    (∀ xs ys : List Text, xs ≠ [] → ys ≠ [] →
      ∃ x y, chooseReported xs = some x ∧ chooseReported ys = some y ∧
        chooseReported (xs ++ ys) = chooseReported [x, y]) ∧
    ∀ xs : List Text, (∃ s ∈ xs, Known s) →
      ∀ ys, (∀ t, Known t → (t ∈ ys ↔ t ∈ xs)) → chooseReported ys = chooseReported xs := by
  refine ⟨fun spellings h => ?_, fun s t => rank_lt_rank,
    fun xs ys hxs hys => ?_, fun xs h ys => ?_⟩
  · obtain ⟨chosen, hchosen⟩ := exists_chooseReported_eq_some h
    exact ⟨chosen, hchosen, chooseReported_eq_some.mp hchosen⟩
  · obtain ⟨x, hx⟩ := exists_chooseReported_eq_some hxs
    obtain ⟨y, hy⟩ := exists_chooseReported_eq_some hys
    exact ⟨x, y, hx, hy, chooseReported_append hx hy⟩
  · obtain ⟨s, hs, hknown⟩ := h
    exact chooseReported_congr hs hknown

/-- Two known spellings, and the same two in the other order, one of them twice and each time behind
an unknown one: the name that is not registered goes before the faulty table. -/
theorem chooseReported_precedence_unknown :
    let xs := [table.text, unknownName.text]
    let other := Text.ofString "ERR_OTHER"
    let ys := [other, unknownName.text, other, unknownName.text, table.text]
    (∃ s ∈ xs, Known s) ∧ (∀ t, Known t → (t ∈ ys ↔ t ∈ xs)) ∧
      chooseReported xs = some unknownName.text ∧ chooseReported ys = chooseReported xs ∧
      ¬Known other ∧ rank table.text < rank other ∧
      chooseReported ([other] ++ xs) = some unknownName.text := by
  intro xs other ys
  obtain ⟨-, hrank, happend, hcongr⟩ := chooseReported_precedence
  have hknown : ∃ s ∈ xs, Known s := ⟨table.text, List.mem_cons_self, table, rfl⟩
  have hunknown : ¬Known other := by
    rw [known_iff_mem]
    decide
  have hsame : ∀ t, Known t → (t ∈ ys ↔ t ∈ xs) := by
    intro t ht
    obtain ⟨code, rfl⟩ := ht
    cases code <;> decide
  have hxs : chooseReported xs = some unknownName.text := by decide
  obtain ⟨x, y, hx, hy, hxy⟩ := happend [other] xs (List.cons_ne_nil _ _) (List.cons_ne_nil _ _)
  cases hx
  rw [hxs] at hy
  cases hy
  exact ⟨hknown, hsame, hxs, hcongr xs hknown ys hsame, hunknown,
    hrank _ _ ⟨table, rfl⟩ hunknown, hxy.trans (by decide)⟩

end ErrorCode

end AddressProtocols
