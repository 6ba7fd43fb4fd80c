import AddressProtocols.Text.Basic

/-!
# Text in UTF-8

* `Text.ofUtf8?` decodes UTF-8 and refuses every byte sequence that is not well-formed, among them
  over-long forms and encoded surrogates;
* `Text.utf8?` encodes a text, and refuses one with a surrogate.
-/

namespace AddressProtocols

namespace Text

/-- The text that bytes encode in UTF-8. -/
def ofUtf8? (bytes : List UInt8) : Option Text :=
  (String.fromUTF8? ⟨bytes.toArray⟩).map ofString

/-- The bytes of a text in UTF-8; a surrogate has no such bytes. -/
def utf8? (t : Text) : Option (List UInt8) :=
  (t.mapM fun c : CodePoint => match c with
    | .scalar c => some (String.utf8EncodeChar c)
    | .surrogate _ => none).map List.flatten

end Text

end AddressProtocols
