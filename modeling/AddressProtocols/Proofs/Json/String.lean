import AddressProtocols.Json.Token
import AddressProtocols.Json.Writer
import Mathlib.Data.List.Induction
import Mathlib.Tactic.SplitIfs

/-!
# Strings in JSON

What is written between quotes is read back: the reader takes every escape for the 16-bit unit or
the code point it stands for, and joins the two units of a pair.

* `Text.Scalar`: a text without surrogates; a text with a surrogate need not be read back, since two
  of them may be joined;
* `Json.piecesOf` lists the pieces in which the reader finds a code point of a written string, and
  `Json.scanString_writeCodePoint` says that it does;
* `Json.joinPieces_piecesOf`: joined, the pieces of a text without surrogates are the text;
* `Json.scan_writeString`: the written string is one token.
-/

namespace AddressProtocols

/-- A text without surrogates. -/
def Text.Scalar (t : Text) : Prop := ∀ c ∈ t, ∃ char, c = .scalar char

theorem Text.scalar_ofString (s : String) : (Text.ofString s).Scalar := by
  intro c hc
  obtain ⟨char, -, rfl⟩ := List.mem_map.mp hc
  exact ⟨char, rfl⟩

namespace CodePoint

theorem ofNat_value_scalar (char : Char) : ofNat (scalar char).value = scalar char := by
  have hvalid : char.toNat.isValidChar := char.valid
  rw [value, ofNat, dif_pos hvalid]
  rfl

/-- No scalar value is half of a surrogate pair. -/
theorem value_scalar_bounds (char : Char) :
    (scalar char).value < 0xD800 ∨ 0xDFFF < (scalar char).value ∧ (scalar char).value < 0x110000 :=
  char.valid

theorem hexValue?_ofHexValue {k : Nat} (hk : k < 16) : (ofHexValue k).hexValue? = some k := by
  have hall : ∀ k < 16, (ofHexValue k).hexValue? = some k := by decide
  exact hall k hk

end CodePoint

namespace Json

/-! ### Reading one escape -/

section Scan

variable (pieces : List Piece) (taken : Nat) {rest : Text}

theorem scanString_plain {c : CodePoint} (hquote : c ≠ .scalar '"') (hslash : c ≠ .scalar '\\')
    (hc : 0x20 ≤ c.value) :
    scanString pieces taken (c :: rest) = scanString (.plain c :: pieces) (taken + 1) rest := by
  rw [scanString, if_neg hquote, if_neg hslash, if_neg (Nat.not_lt.mpr hc)]

theorem scanString_short {e c : CodePoint} (he : simpleEscape? e = some c) :
    scanString pieces taken (.scalar '\\' :: e :: rest) =
      scanString (.plain c :: pieces) (taken + 2) rest := by
  have hu : e ≠ .scalar 'u' := by
    rintro rfl
    cases he
  have hescape : scanEscape taken (e :: rest) = .ok (.plain c, 1) := by
    simp only [scanEscape, if_neg hu, he]
  rw [scanString, if_neg (by decide), if_pos rfl, hescape]
  rfl

theorem unit?_hexNumeral {n : Nat} (hn : n < 0x10000) :
    ∃ a b c d, Text.hexNumeral 4 n = [a, b, c, d] ∧ unit? a b c d = some n := by
  refine ⟨.ofHexValue (n / 4096 % 16), .ofHexValue (n / 256 % 16), .ofHexValue (n / 16 % 16),
    .ofHexValue (n / 1 % 16), rfl, ?_⟩
  have hdigit := fun k :
      Nat => CodePoint.hexValue?_ofHexValue (k := k % 16) (Nat.mod_lt _ (by omega))
  simp only [unit?, hdigit]
  refine congrArg some ?_
  omega

theorem scanString_unit {n : Nat} (hn : n < 0x10000) (hrest : rest ≠ []) :
    scanString pieces taken (unitEscape n ++ rest) =
      scanString (.unit n :: pieces) (taken + 6) rest := by
  obtain ⟨a, b, c, d, hdigits, hunit⟩ := unit?_hexNumeral hn
  cases rest with
  | nil => exact absurd rfl hrest
  | cons next rest =>
    have hescape : scanEscape taken (.scalar 'u' :: a :: b :: c :: d :: next :: rest) =
        .ok (.unit n, 5) := by
      rw [scanEscape, if_pos rfl]
      simp only [hunit]
    rw [unitEscape, hdigits]
    show scanString pieces taken
      (.scalar '\\' :: .scalar 'u' :: a :: b :: c :: d :: next :: rest) = _
    rw [scanString, if_neg (by decide), if_pos rfl, hescape]
    rfl

end Scan

/-! ### Pieces of a written code point -/

/-- The units of a surrogate pair for a code point beyond `U+FFFF`. -/
def highUnit (n : Nat) : Nat := 0xD800 + (n - 0x10000) / 0x400

def lowUnit (n : Nat) : Nat := 0xDC00 + (n - 0x10000) % 0x400

theorem isHighUnit_highUnit {n : Nat} (hn : n < 0x110000) : isHighUnit (highUnit n) = true := by
  have hlow : 0xD800 ≤ highUnit n := Nat.le_add_right _ _
  have hhigh : highUnit n < 0xDC00 := by
    rw [highUnit]
    omega
  rw [isHighUnit, decide_eq_true hlow, decide_eq_true hhigh, Bool.and_self]

theorem isLowUnit_lowUnit (n : Nat) : isLowUnit (lowUnit n) = true := by
  have hlow : 0xDC00 ≤ lowUnit n := Nat.le_add_right _ _
  have hhigh : lowUnit n < 0xE000 := by
    rw [lowUnit]
    omega
  rw [isLowUnit, decide_eq_true hlow, decide_eq_true hhigh, Bool.and_self]

/-- A code point that is written as it stands or after a backslash, and not by its number. -/
def Spelled (c : CodePoint) : Prop :=
  c ∈ [CodePoint.scalar '"', .scalar '\\', .scalar '\n', .scalar '\r', .scalar '\t', .scalar '\x0c',
    .scalar '\x08'] ∨ 0x20 ≤ c.value ∧ c.value < 0x7F

instance (c : CodePoint) : Decidable (Spelled c) := inferInstanceAs (Decidable (_ ∨ _))

/-- The pieces in which a written code point is read. -/
def piecesOf (c : CodePoint) : List Piece :=
  if Spelled c then [.plain c]
  else if c.value < 0x10000 then [.unit c.value]
  else [.unit (highUnit c.value), .unit (lowUnit c.value)]

theorem scanString_codePointEscape (pieces : List Piece) (taken : Nat) {rest : Text}
    (hrest : rest ≠ []) {n : Nat} (hn : n < 0x110000) :
    scanString pieces taken (codePointEscape n ++ rest) =
      scanString ((if n < 0x10000 then [.unit n] else [.unit (lowUnit n), .unit (highUnit n)]) ++
        pieces) (taken + (codePointEscape n).length) rest := by
  have hlength : ∀ k, (unitEscape k).length = 6 := fun _ => rfl
  rw [codePointEscape]
  by_cases hsmall : n < 0x10000
  · rw [if_pos hsmall, if_pos hsmall, scanString_unit pieces taken hsmall hrest, hlength]
    rfl
  · rw [if_neg hsmall, if_neg hsmall, List.append_assoc,
      scanString_unit pieces taken (by omega) (List.append_ne_nil_of_right_ne_nil _ hrest),
      scanString_unit _ _ (by omega) hrest, List.length_append, hlength, hlength]
    rfl

/-- The reader finds a written code point in its pieces. -/
theorem scanString_writeCodePoint (pieces : List Piece) (taken : Nat) {rest : Text}
    (hrest : rest ≠ []) {c : CodePoint} (hc : c.value < 0x110000) :
    scanString pieces taken (writeCodePoint c ++ rest) =
      scanString ((piecesOf c).reverse ++ pieces) (taken + (writeCodePoint c).length) rest := by
  unfold writeCodePoint
  split_ifs with hmark hn hr ht hf hb hprint
  · rcases hmark with rfl | rfl
    · exact scanString_short pieces taken rfl
    · exact scanString_short pieces taken rfl
  · subst hn
    exact scanString_short pieces taken (e := .scalar 'n') rfl
  · subst hr
    exact scanString_short pieces taken (e := .scalar 'r') rfl
  · subst ht
    exact scanString_short pieces taken (e := .scalar 't') rfl
  · subst hf
    exact scanString_short pieces taken (e := .scalar 'f') rfl
  · subst hb
    exact scanString_short pieces taken (e := .scalar 'b') rfl
  · obtain ⟨hquote, hslash⟩ := not_or.mp hmark
    have hspelled : Spelled c := Or.inr hprint
    rw [piecesOf, if_pos hspelled]
    exact scanString_plain pieces taken hquote hslash hprint.1
  · have hspelled : ¬Spelled c := by
      obtain ⟨hquote, hslash⟩ := not_or.mp hmark
      simp [Spelled, hquote, hslash, hn, hr, ht, hf, hb, hprint]
    rw [scanString_codePointEscape pieces taken hrest hc, piecesOf, if_neg hspelled]
    split <;> rfl

/-! ### Pieces of a written text -/

theorem scanString_flatMap (t : Text) (ht : ∀ c ∈ t, c.value < 0x110000) (pieces : List Piece)
    (taken : Nat) {rest : Text} (hrest : rest ≠ []) :
    scanString pieces taken (t.flatMap writeCodePoint ++ rest) =
      scanString ((t.flatMap piecesOf).reverse ++ pieces)
        (taken + (t.flatMap writeCodePoint).length) rest := by
  induction t generalizing pieces taken with
  | nil => rfl
  | cons c t ih =>
    obtain ⟨hc, hothers⟩ := List.forall_mem_cons.mp ht
    rw [List.flatMap_cons, List.append_assoc,
      scanString_writeCodePoint pieces taken (List.append_ne_nil_of_right_ne_nil _ hrest) hc,
      ih hothers, List.flatMap_cons, List.reverse_append, List.append_assoc, List.length_append,
      Nat.add_assoc]

/-- A unit that closes no pair stands alone, whatever comes before it. -/
theorem joinPieces_unit (tail : Text) {n : Nat} (hn : isLowUnit n = false) (rest : List Piece) :
    joinPieces tail (.unit n :: rest) = joinPieces (.ofNat n :: tail) rest := by
  cases rest with
  | nil => rfl
  | cons piece rest =>
    cases piece with
    | plain c => rfl
    | unit high => rw [joinPieces, hn, Bool.and_false, if_neg Bool.false_ne_true]

/-- The pieces of a code point, last first, are joined to the code point. -/
theorem joinPieces_reverse_piecesOf (tail : Text) (char : Char) (rest : List Piece) :
    joinPieces tail ((piecesOf (.scalar char)).reverse ++ rest) =
      joinPieces (.scalar char :: tail) rest := by
  have hbounds := CodePoint.value_scalar_bounds char
  unfold piecesOf
  split_ifs with hspelled hsmall
  · rfl
  · have hlow : isLowUnit (CodePoint.scalar char).value = false := by
      simp only [isLowUnit, Bool.and_eq_false_iff, decide_eq_false_iff_not]
      omega
    show joinPieces tail (.unit (CodePoint.scalar char).value :: rest) = _
    rw [joinPieces_unit tail hlow, CodePoint.ofNat_value_scalar]
  · have hpair : (isHighUnit (highUnit (CodePoint.scalar char).value) &&
        isLowUnit (lowUnit (CodePoint.scalar char).value)) = true := by
      rw [isHighUnit_highUnit (by omega), isLowUnit_lowUnit, Bool.and_self]
    have hjoin : joinUnits (highUnit (CodePoint.scalar char).value)
        (lowUnit (CodePoint.scalar char).value) = .scalar char := by
      refine Eq.trans (congrArg CodePoint.ofNat ?_) (CodePoint.ofNat_value_scalar char)
      simp only [highUnit, lowUnit]
      omega
    show joinPieces tail (.unit (lowUnit _) :: .unit (highUnit _) :: rest) = _
    rw [joinPieces, if_pos hpair, hjoin]

theorem joinPieces_piecesOf {t : Text} (ht : t.Scalar) (tail : Text) :
    joinPieces tail (t.flatMap piecesOf).reverse = t ++ tail := by
  -- from the end of the text, since the last pieces come first
  induction t using List.reverseRecOn generalizing tail with
  | nil => rfl
  | append_singleton t c ih =>
    obtain ⟨char, rfl⟩ := ht c (by simp)
    have hbefore : Text.Scalar t := fun c hc => ht c (List.mem_append_left _ hc)
    rw [List.flatMap_append, List.flatMap_singleton, List.reverse_append,
      joinPieces_reverse_piecesOf, ih hbefore, List.append_assoc, List.singleton_append]

theorem scanString_write {t : Text} (ht : t.Scalar) (rest : Text) :
    scanString [] 0 (t.flatMap writeCodePoint ++ .scalar '"' :: rest) =
      (.string t, (t.flatMap writeCodePoint).length + 1) := by
  have hvalues : ∀ c ∈ t, c.value < 0x110000 := by
    intro c hc
    obtain ⟨char, rfl⟩ := ht c hc
    have hbounds := CodePoint.value_scalar_bounds char
    omega
  rw [scanString_flatMap t hvalues [] 0 (List.cons_ne_nil _ _), scanString, if_pos rfl,
    List.append_nil, joinPieces_piecesOf ht, List.append_nil, Nat.zero_add]

/-- A written string is one token: its opening quote and all that follows up to the closing one. -/
theorem scan_writeString {t : Text} (ht : t.Scalar) (rest : Text) :
    ∃ body, writeString t = .scalar '"' :: body ∧
      scan (.scalar '"') (body ++ rest) = (.string t, body.length) := by
  refine ⟨t.flatMap writeCodePoint ++ [.scalar '"'], rfl, ?_⟩
  rw [List.append_assoc, List.length_append]
  exact scanString_write ht rest

end Json

end AddressProtocols
