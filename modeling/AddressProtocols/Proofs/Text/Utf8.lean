import AddressProtocols.Text.Utf8
import Mathlib.Data.List.Basic

/-!
# UTF-8 both ways

A text has bytes exactly if it consists of characters (`Text.utf8?_eq_some`), and bytes have a text
exactly if they are the encodings of characters, one after the other (`Text.ofUtf8?_eq_some`).
Decoding and encoding are therefore inverse to each other (`Text.ofUtf8?_eq_some_iff`). -/

namespace AddressProtocols

namespace Text

theorem utf8?_scalar_cons (char : Char) (rest : Text) :
    utf8? (.scalar char :: rest) = (utf8? rest).map (String.utf8EncodeChar char ++ ·) := by
  rw [utf8?, utf8?, List.mapM_cons, Option.map_map]
  cases (List.mapM _ rest : Option (List (List UInt8))) with
  | none => rfl
  | some encodings => rfl

theorem utf8?_surrogate_cons (n : Fin 0x800) (rest : Text) :
    utf8? (.surrogate n :: rest) = none := by
  simp only [utf8?, List.mapM_cons, Option.bind_eq_bind, Option.bind_none, Option.map_none]

/-- The bytes of a text are those of its characters; with a surrogate among them it has none. -/
theorem utf8?_eq_some {t : Text} {bytes : List UInt8} :
    t.utf8? = some bytes ↔
      ∃ chars : List Char, t = chars.map CodePoint.scalar ∧
        bytes = chars.flatMap String.utf8EncodeChar := by
  induction t generalizing bytes with
  | nil => simp [utf8?, eq_comm]
  | cons c rest ih =>
    cases c with
    | surrogate n =>
      rw [utf8?_surrogate_cons]
      refine iff_of_false nofun fun h => ?_
      obtain ⟨chars, hchars, -⟩ := h
      cases chars <;> simp at hchars
    | scalar char =>
      rw [utf8?_scalar_cons, Option.map_eq_some_iff]
      simp only [ih]
      constructor
      · intro h
        obtain ⟨_, ⟨chars, rfl, rfl⟩, rfl⟩ := h
        exact ⟨char :: chars, rfl, rfl⟩
      · intro h
        obtain ⟨chars, hchars, rfl⟩ := h
        cases chars with
        | nil => simp at hchars
        | cons d chars =>
          simp only [List.map_cons, List.cons.injEq, CodePoint.scalar.injEq] at hchars
          obtain ⟨rfl, rfl⟩ := hchars
          exact ⟨_, ⟨chars, rfl, rfl⟩, rfl⟩

theorem fromUTF8?_eq_some {bytes : List UInt8} {s : String} :
    String.fromUTF8? ⟨bytes.toArray⟩ = some s ↔ bytes = s.toList.flatMap String.utf8EncodeChar := by
  have hbytes : (⟨bytes.toArray⟩ : ByteArray) = bytes.toByteArray :=
    ByteArray.ext List.data_toByteArray.symm
  rw [hbytes, ← List.toByteArray_inj, ← List.utf8Encode, String.utf8Encode_toList, String.fromUTF8?]
  split
  · rw [Option.some.injEq, ← String.toByteArray_inj]
    exact Iff.rfl
  · rename_i hinvalid
    refine iff_of_false nofun fun h => hinvalid ?_
    rw [h]
    exact s.isValidUTF8

theorem ofUtf8?_eq_some {bytes : List UInt8} {t : Text} :
    ofUtf8? bytes = some t ↔
      ∃ chars : List Char, t = chars.map CodePoint.scalar ∧
        bytes = chars.flatMap String.utf8EncodeChar := by
  rw [ofUtf8?, Option.map_eq_some_iff]
  simp only [fromUTF8?_eq_some]
  constructor
  · intro h
    obtain ⟨s, hbytes, rfl⟩ := h
    exact ⟨s.toList, rfl, hbytes⟩
  · intro h
    obtain ⟨chars, rfl, rfl⟩ := h
    refine ⟨String.ofList chars, ?_, ?_⟩
    · rw [String.toList_ofList]
    · rw [ofString, String.toList_ofList]

/-- Bytes decode to exactly the text that they encode. -/
theorem ofUtf8?_eq_some_iff {bytes : List UInt8} {t : Text} :
    ofUtf8? bytes = some t ↔ t.utf8? = some bytes :=
  ofUtf8?_eq_some.trans utf8?_eq_some.symm

end Text

end AddressProtocols
