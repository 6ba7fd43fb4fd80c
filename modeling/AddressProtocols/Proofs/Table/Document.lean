import AddressProtocols.Failure
import AddressProtocols.Proofs.Json.Ascii
import AddressProtocols.Proofs.Json.Filter
import AddressProtocols.Proofs.Table.Format
import AddressProtocols.Proofs.Text.Utf8

/-!
# The document of a source

Which sources have a document at all, before anything in it is taken for an entry.

* `Table.readDocument_bytes` and `Table.readDocument_bytes_of_invalid`: bytes stand for the text
  that they encode, and for nothing if they encode none;
* `Table.readDocument_filters`: reading under the strict rules is reading without them and looking
  through the tree;
* `Table.readDocument_written`: a document that obeys the rules has a source, its own text in ASCII.
-/

namespace AddressProtocols

namespace Table

theorem readDocument_bytes {t : Text} {bytes : List UInt8} (h : t.utf8? = some bytes) :
    readDocument (.bytes bytes) = readDocument (.text t) := by
  have htext : (Source.bytes bytes).text? = some t := Text.ofUtf8?_eq_some_iff.mpr h
  rw [readDocument, htext]
  rfl

theorem readDocument_bytes_of_invalid {bytes : List UInt8} (h : ∀ t : Text, t.utf8? ≠ some bytes) :
    readDocument (.bytes bytes) = .error .notUtf8 := by
  have htext : (Source.bytes bytes).text? = none :=
    Option.eq_none_iff_forall_ne_some.mpr fun t ht => h t (Text.ofUtf8?_eq_some_iff.mp ht)
  rw [readDocument, htext]

/-- A text has a document exactly if it is JSON and no part of its tree, at any depth, breaks a
rule; the document is then that tree with the values of its numerals.  Bytes have the document of
the text that they encode, and bytes that are not UTF-8 fail as a table does. -/
theorem readDocument_filters :
    (∀ (t : Text) (d : Json.Document), readDocument (.text t) = .ok d ↔
      ∃ tree, Json.parse t = .ok tree ∧ tree.Admissible ∧ d = tree.document) ∧
    (∀ (t : Text) (bytes : List UInt8), t.utf8? = some bytes →
      readDocument (.bytes bytes) = readDocument (.text t)) ∧
    (∀ bytes : List UInt8, (∀ t : Text, t.utf8? ≠ some bytes) →
      readDocument (.bytes bytes) = .error .notUtf8) ∧
    (Failure.table .notUtf8).report =
      ⟨.table, .text (Text.ofString "ERR_TABLE"),
        Text.ofString "invalid UTF-8 in protocol table"⟩ :=
  ⟨fun _ _ => readDocument_text_eq_ok.trans Json.readDocument_eq_ok, fun _ _ => readDocument_bytes,
    fun _ => readDocument_bytes_of_invalid, rfl⟩

/-- Below the top, two spellings of one name, one of them with an escape; then the three bytes of a
text, and a byte with which no character starts. -/
theorem readDocument_filters_nested :
    (∀ d, readDocument (.text (Text.ofString "[\x7b\"b\": 1, \"\\u0062\": 2\x7d]")) ≠ .ok d) ∧
    readDocument (.bytes [0x5B, 0x31, 0x5D]) = .ok (.array [.int 1]) ∧
    readDocument (.bytes [0xFF]) = .error .notUtf8 := by
  obtain ⟨hfilter, hbytes, hinvalid, -⟩ := readDocument_filters
  refine ⟨fun d hd => ?_, ?_, hinvalid _ fun t ht => ?_⟩
  · obtain ⟨tree, hparse, hadmissible, -⟩ := (hfilter _ d).mp hd
    have htree : Json.parse (Text.ofString "[\x7b\"b\": 1, \"\\u0062\": 2\x7d]") =
        .ok (.array [.object [(Text.ofString "b", .integer (Text.ofNat 1)),
          (Text.ofString "b", .integer (Text.ofNat 2))]]) := by
      with_unfolding_all rfl
    cases htree.symm.trans hparse
    exact hadmissible _ (.item List.mem_cons_self .self) (.object (by decide))
  · rw [hbytes (Text.ofString "[1]") [0x5B, 0x31, 0x5D] rfl, hfilter]
    refine ⟨.array [.integer (Text.ofNat 1)], by cbv, Json.Tree.admissible_array.mpr ?_, rfl⟩
    exact List.forall_mem_singleton.mpr (Json.Tree.admissible_integer.mpr (by decide))
  · have hnone : Text.ofUtf8? [0xFF] = none := by
      rw [Text.ofUtf8?, String.fromUTF8?, dif_neg (by decide), Option.map_none]
    cases hnone.symm.trans (Text.ofUtf8?_eq_some_iff.mpr ht)

/-- A document that obeys the rules, without surrogates and not nested too deeply, is read back from
its text, and from the bytes of that text, which is ASCII. -/
theorem readDocument_written {d : Json.Document} (hstrict : d.Strict) (hscalar : d.Scalar)
    (hdepth : d.depth ≤ 500) :
    readDocument (.text (Json.write d.tree)) = .ok d ∧
    (∀ c ∈ Json.write d.tree, 0x20 ≤ c.value ∧ c.value < 0x7F) ∧
    ∃ bytes, (Json.write d.tree).utf8? = some bytes ∧ readDocument (.bytes bytes) = .ok d := by
  have hroom : d.depth ≤ Json.maxDepth := Nat.le_trans hdepth (by decide)
  have htext : readDocument (.text (Json.write d.tree)) = .ok d :=
    readDocument_text_eq_ok.mpr ((Json.readDocument_write hscalar hroom).mpr ⟨rfl, hstrict⟩)
  have hbytes := (Json.ascii_write d).utf8?_eq
  exact ⟨htext, Json.ascii_write d, _, hbytes, (readDocument_bytes hbytes).trans htext⟩

/-- In a list, an object with a name beyond `U+FFFF` and one that is a control character. -/
def escapedNames : Json.Document :=
  .array [.object [(Text.ofString "😀", .int (-Varint.maxValue)), (Text.ofString "\x7f", .array [])]]

theorem readDocument_written_escaped :
    readDocument (.text (Json.write escapedNames.tree)) = .ok escapedNames ∧
    Json.write escapedNames.tree =
      Text.ofString "[\x7b\"\\ud83d\\ude00\": -18446744073709551615, \"\\u007f\": []\x7d]" := by
  have hstrict : escapedNames.Strict := (Json.fold_tree_eq_ok.mp rfl).2
  have hscalar : escapedNames.Scalar := by
    refine .array (List.forall_mem_singleton.mpr (.object ?_ ?_))
    · exact List.forall_mem_cons.mpr
        ⟨Text.scalar_ofString _, List.forall_mem_singleton.mpr (Text.scalar_ofString _)⟩
    · exact List.forall_mem_cons.mpr ⟨.int _, List.forall_mem_singleton.mpr (.array nofun)⟩
  exact ⟨(readDocument_written hstrict hscalar (by decide)).1, by decide +kernel⟩

end Table

end AddressProtocols
