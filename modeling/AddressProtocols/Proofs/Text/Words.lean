import AddressProtocols.Text.Numeral
import Mathlib.Data.Nat.Notation

/-!
# Words

White space cuts a text into words, however much of it stands in one place.

* `CodePoint.isSpace` is white space in the sense of Unicode, and `Text.words` lists the words of a
  text in order;
* `Text.words_append_cons`: white space between two texts keeps their words apart, so that white
  space before or behind a text adds no word (`Text.words_gap_append`, `Text.words_append_gap`), nor
  does a column (`Text.words_padLeft`, `Text.words_padRight`);
* `Text.words_eq_singleton`: a text without white space is one word.
-/

namespace AddressProtocols

/-- White space: what is blank around an integer, and the four information separators of ASCII. -/
def CodePoint.isSpace (c : CodePoint) : Bool := c.isBlank || (0x1C ≤ c.value && c.value ≤ 0x1F)

namespace Text

/-- The words of a text: its pieces between white space, empty pieces left out. -/
def words (t : Text) : List Text := (t.splitOnP CodePoint.isSpace).filter fun piece =>
    !piece.isEmpty

variable {gap t : Text}

theorem words_eq_singleton (hne : t ≠ []) (h : ∀ c ∈ t, c.isSpace = false) : words t = [t] := by
  rw [words, List.splitOnP_eq_singleton h, List.filter_cons_of_pos (by simpa using hne),
    List.filter_nil]

theorem words_append_cons {c : CodePoint} (hc : c.isSpace = true) (s t : Text) :
    words (s ++ c :: t) = words s ++ words t := by
  rw [words, List.splitOnP_append_cons s t hc, List.filter_append]
  rfl

theorem words_gap_append (h : ∀ c ∈ gap, c.isSpace = true) (t : Text) :
    words (gap ++ t) = words t := by
  induction gap with
  | nil => rfl
  | cons c rest ih =>
    obtain ⟨hc, hrest⟩ := List.forall_mem_cons.mp h
    exact (words_append_cons hc [] (rest ++ t)).trans (ih hrest)

theorem words_append_gap_append (hne : gap ≠ []) (h : ∀ c ∈ gap, c.isSpace = true) (s t : Text) :
    words (s ++ gap ++ t) = words s ++ words t := by
  cases gap with
  | nil => exact absurd rfl hne
  | cons c rest =>
    obtain ⟨hc, hrest⟩ := List.forall_mem_cons.mp h
    rw [List.append_assoc, List.cons_append, words_append_cons hc, words_gap_append hrest]

theorem words_append_gap (h : ∀ c ∈ gap, c.isSpace = true) (s : Text) :
    words (s ++ gap) = words s := by
  cases gap with
  | nil => rw [List.append_nil]
  | cons c rest =>
    have hwords := words_append_gap_append (List.cons_ne_nil c rest) h s []
    rw [List.append_nil] at hwords
    exact hwords.trans (List.append_nil _)

/-! ### Columns -/

theorem isSpace_of_mem_replicate {n : ℕ} :
    ∀ c ∈ List.replicate n (CodePoint.scalar ' '), c.isSpace = true := by
  intro c hc
  rw [List.eq_of_mem_replicate hc]
  decide

theorem words_padLeft (width : ℕ) (t : Text) : words (t.padLeft width) = words t :=
  words_gap_append isSpace_of_mem_replicate t

theorem words_padRight (width : ℕ) (t : Text) : words (t.padRight width) = words t :=
  words_append_gap isSpace_of_mem_replicate t

end Text

end AddressProtocols
