import AddressProtocols.Text.Basic

/-!
# The bytes of names and paths

To the system a path is a sequence of bytes, which need not be UTF-8.  A text spells every such
sequence: a scalar value spells the bytes of its UTF-8 form, and the surrogates `U+DC80 … U+DCFF`
spell the single bytes `0x80 … 0xFF`, which no scalar value spells.  The other surrogates spell
nothing, so a text with one of them is the path of no file.

* `CodePoint.systemBytes?` is what one code point spells, `Text.systemBytes?` what a text spells.
-/

namespace AddressProtocols

/-- The bytes that a code point spells in a name or path. -/
def CodePoint.systemBytes? : CodePoint → Option (List UInt8)
  | scalar c => some (String.utf8EncodeChar c)
  | surrogate n =>
    if 0x480 ≤ n.val ∧ n.val < 0x500 then some [UInt8.ofNat (n.val - 0x400)] else none

/-- The bytes that a text spells in a name or path, unless one of its code points spells none. -/
def Text.systemBytes? (t : Text) : Option (List UInt8) :=
  (t.mapM CodePoint.systemBytes?).map List.flatten

end AddressProtocols
