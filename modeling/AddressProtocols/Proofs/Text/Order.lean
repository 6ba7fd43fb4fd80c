import AddressProtocols.Proofs.Json.String

/-!
# The order of texts

Texts are ordered by the numbers of their code points, the first difference deciding.

* `CodePoint.value_injective`: code points are told apart by their numbers;
* `Text.le_trans`, `Text.le_total` and `Text.lex_of_le`: the order is total, and the lexicographic
  one;
* `Text.pairwise_lex_mergeSort`: sorting puts different texts in this order.
-/

namespace AddressProtocols

theorem CodePoint.value_injective : Function.Injective value := by
  intro a b h
  cases a with
  | scalar c =>
    have hc := value_scalar_bounds c
    cases b with
    | scalar d => exact congrArg scalar (Char.toNat_inj.mp h)
    | surrogate n =>
      rw [h, value] at hc
      omega
  | surrogate n =>
    cases b with
    | scalar d =>
      have hd := value_scalar_bounds d
      rw [← h, value] at hd
      omega
    | surrogate m => exact congrArg surrogate (Fin.ext (Nat.add_left_cancel h))

namespace Text

theorem le_cons_cons {a b : CodePoint} {s t : Text} :
    le (a :: s) (b :: t) = true ↔ a.value < b.value ∨ a.value = b.value ∧ le s t = true := by
  simp only [le, Bool.or_eq_true, Bool.and_eq_true, decide_eq_true_eq, beq_iff_eq]

theorem le_trans {s t u : Text} (hst : le s t = true) (htu : le t u = true) : le s u = true := by
  induction s generalizing t u with
  | nil => rfl
  | cons a s ih =>
    cases t with
    | nil => cases hst
    | cons b t =>
      cases u with
      | nil => cases htu
      | cons c u =>
        rw [le_cons_cons] at hst htu ⊢
        rcases hst with hab | ⟨hab, hst⟩
        · exact .inl (by omega)
        · rcases htu with hbc | ⟨hbc, htu⟩
          · exact .inl (by omega)
          · exact .inr ⟨hab.trans hbc, ih hst htu⟩

theorem le_total (s t : Text) : le s t = true ∨ le t s = true := by
  induction s generalizing t with
  | nil => exact .inl rfl
  | cons a s ih =>
    cases t with
    | nil => exact .inr rfl
    | cons b t =>
      rw [le_cons_cons, le_cons_cons]
      rcases Nat.lt_trichotomy a.value b.value with hlt | heq | hgt
      · exact .inl (.inl hlt)
      · exact (ih t).imp (fun h => .inr ⟨heq, h⟩) fun h => .inr ⟨heq.symm, h⟩
      · exact .inr (.inl hgt)

theorem lex_of_le {s t : Text} (hle : le s t = true) (hne : s ≠ t) :
    List.Lex (· < ·) (s.map CodePoint.value) (t.map CodePoint.value) := by
  induction s generalizing t with
  | nil =>
    cases t with
    | nil => exact absurd rfl hne
    | cons b t => exact .nil
  | cons a s ih =>
    cases t with
    | nil => cases hle
    | cons b t =>
      rcases le_cons_cons.mp hle with hlt | ⟨heq, htail⟩
      · exact .rel hlt
      · obtain rfl := CodePoint.value_injective heq
        exact .cons (ih htail fun h => hne (congrArg _ h))

theorem pairwise_lex_mergeSort {ts : List Text} (h : ts.Nodup) :
    (ts.mergeSort le).Pairwise fun s t =>
      List.Lex (· < ·) (s.map CodePoint.value) (t.map CodePoint.value) := by
  have htrans : ∀ s t u : Text, le s t = true → le t u = true → le s u = true :=
    fun _ _ _ => le_trans
  have htotal : ∀ s t : Text, (le s t || le t s) = true :=
    fun s t => Bool.or_eq_true_iff.mpr (le_total s t)
  have hsorted := List.pairwise_mergeSort htrans htotal ts
  have hnodup : (ts.mergeSort le).Pairwise (· ≠ ·) := (List.mergeSort_perm ts le).nodup_iff.mpr h
  exact (hsorted.and hnodup).imp fun h => lex_of_le h.1 h.2

end Text

end AddressProtocols
