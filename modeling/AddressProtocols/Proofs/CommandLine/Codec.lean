import AddressProtocols.Proofs.CommandLine.Running
import AddressProtocols.Proofs.Text.Hex
import AddressProtocols.Proofs.Varint.RoundTrip

/-!
# Converting varints

* `run_encode`: an integer of at most 64 bits is answered by one line, the hexadecimal text of its
  encoding;
* `run_decode`: text that spells the encoding, with whatever bytes behind it, is answered by the
  number and the length of its encoding;
* `run_encode_outside`: any other integer is refused, a negative one as a number and not as an
  option. -/

namespace AddressProtocols

namespace CommandLine

variable {readFile : Path → Except ReadFault (List UInt8)}

theorem run_encode {v : ℕ} (hv : v ≤ Varint.maxValue) :
    run readFile [Command.varint.name, VarintCommand.encode.name, Text.ofNat v] =
      .exit ⟨0, Text.ofBytes (Varint.encode v) ++ [newline], []⟩ := by
  have hread := Invocation.read_encode (z := v) (Text.lt_pow_maxDigits hv)
  have hencode : Varint.encodeInt? v = .ok (Varint.encode v) := Varint.encode?_natCast hv
  have hanswer : answer readFile (.encode v) = .ok [Text.ofBytes (Varint.encode v)] := by
    rw [answer, hencode]
    rfl
  rw [show Text.ofNat v = Text.ofInt v from rfl, run_of_answer_eq_cons hread hanswer,
    lines_singleton]

theorem run_encode_outside {z : ℤ} (hz : z < 0 ∨ (Varint.maxValue : ℤ) < z)
    (hlong : z.natAbs < 10 ^ Text.maxDigits) :
    run readFile [Command.varint.name, VarintCommand.encode.name, Text.ofInt z] =
      .exit ⟨2, [], Text.ofString "maddr: error [ERR_VARINT_RANGE]: varint value " ++
        Text.ofInt z ++ Text.ofString " outside uint64 range\n"⟩ := by
  have hanswer : answer readFile (.encode z) = .error (.failure (.varintRange (.outside z))) := by
    rw [answer, Varint.encodeInt?, if_pos hz]
    rfl
  rw [run_of_answer_eq_error (Invocation.read_encode hlong) hanswer]
  show Ending.exit ⟨2, [], programName ++ (Text.ofString ": error [" ++
    ErrorCode.varintRange.text ++ Text.ofString "]: " ++ (Text.ofString "varint value " ++
      Text.ofInt z ++ Text.ofString " outside uint64 range")) ++ [newline]⟩ = _
  simp only [List.append_assoc]
  rfl

theorem run_decode {v : ℕ} (hv : v ≤ Varint.maxValue) {t : Text} {more : List UInt8}
    (ht : Text.Hex t (Varint.encode v ++ more)) :
    run readFile [Command.varint.name, VarintCommand.decode.name, t] =
      .exit ⟨0, Text.ofNat v ++ Text.ofString " (" ++ Text.ofNat (Varint.encode v).length ++
        Text.ofString " bytes)" ++ [newline], []⟩ := by
  have hdecode : Varint.decodeFrom (Varint.encode v ++ more) 0 =
      .ok (v, (Varint.encode v).length) := by
    rw [Varint.decodeFrom, List.drop_zero, Varint.decode_encode_append hv]
    rfl
  have hanswer : answer readFile (.decode t) = .ok [Text.ofNat v ++ Text.ofString " (" ++
      Text.ofNat (Varint.encode v).length ++ Text.ofString " bytes)"] := by
    rw [answer, Text.bytes?_eq_some.mpr ht]
    show ((Varint.decodeFrom (Varint.encode v ++ more) 0).mapError _ >>= _) = _
    rw [hdecode]
    rfl
  rw [run_of_answer_eq_cons (Invocation.read_decode ht.head?_ne_dash) hanswer, lines_singleton]

/-- **Varints come back from their hexadecimal text.**  For every number of at most 64 bits `varint
encode` prints one line, two digits for each byte of its encoding, and `varint decode` prints the
number and the length of the encoding for every text that spells it, whatever bytes come after it
and wherever blanks stand between bytes.  Every other integer that is not too long to be read is
refused, a negative one too, which is not taken for an option. -/
theorem varint_round_trip (readFile : Path → Except ReadFault (List UInt8)) :
    (∀ v : ℕ, v ≤ Varint.maxValue →
      run readFile [Command.varint.name, VarintCommand.encode.name, Text.ofNat v] =
        .exit ⟨0, Text.ofBytes (Varint.encode v) ++ [newline], []⟩ ∧
      newline ∉ Text.ofBytes (Varint.encode v) ∧
      (Text.ofBytes (Varint.encode v)).length = 2 * (Varint.encode v).length ∧
      Text.Hex (Text.ofBytes (Varint.encode v)) (Varint.encode v) ∧
      ∀ (t : Text) (more : List UInt8), Text.Hex t (Varint.encode v ++ more) →
        run readFile [Command.varint.name, VarintCommand.decode.name, t] =
          .exit ⟨0, Text.ofNat v ++ Text.ofString " (" ++ Text.ofNat (Varint.encode v).length ++
            Text.ofString " bytes)" ++ [newline], []⟩) ∧
    ∀ z : ℤ, z < 0 ∨ (Varint.maxValue : ℤ) < z → z.natAbs < 10 ^ Text.maxDigits →
      run readFile [Command.varint.name, VarintCommand.encode.name, Text.ofInt z] =
        .exit ⟨2, [], Text.ofString "maddr: error [ERR_VARINT_RANGE]: varint value " ++
          Text.ofInt z ++ Text.ofString " outside uint64 range\n"⟩ := by
  refine ⟨fun v hv => ⟨run_encode hv, ?_, ?_, ?_, ?_⟩, fun z hz hlong => ?_⟩
  · exact Text.newline_notMem_ofBytes _
  · exact Text.length_ofBytes _
  · exact Text.hex_ofBytes _
  · exact fun t more ht => run_decode hv ht
  · exact run_encode_outside hz hlong

/-- The two bytes of 300 are read back from capitals, with blanks around them and a byte behind
them; -1 is refused. -/
theorem varint_round_trip_three_hundred (readFile : Path → Except ReadFault (List UInt8)) :
    300 ≤ Varint.maxValue ∧ (-1 : ℤ) < 0 ∧ (-1 : ℤ).natAbs < 10 ^ Text.maxDigits ∧
      Text.Hex (Text.ofString " AC 02\tff") (Varint.encode 300 ++ [0xff]) ∧
      run readFile [Command.varint.name, VarintCommand.encode.name, Text.ofNat 300] =
        .exit ⟨0, Text.ofString "ac02\n", []⟩ ∧
      run readFile [Command.varint.name, VarintCommand.decode.name, Text.ofString " AC 02\tff"] =
        .exit ⟨0, Text.ofString "300 (2 bytes)\n", []⟩ ∧
      run readFile [Command.varint.name, VarintCommand.encode.name, Text.ofInt (-1)] =
        .exit ⟨2, [], Text.ofString
          "maddr: error [ERR_VARINT_RANGE]: varint value -1 outside uint64 range\n"⟩ := by
  have hv : 300 ≤ Varint.maxValue := by decide
  have hlong : (-1 : ℤ).natAbs < 10 ^ Text.maxDigits := Text.lt_pow_maxDigits (by decide)
  have hbytes : Varint.encode 300 = [0xac, 0x02] := by decide +kernel
  have hhex : Text.Hex (Text.ofString " AC 02\tff") (Varint.encode 300 ++ [0xff]) := by
    rw [hbytes]
    exact Text.bytes?_eq_some.mp (by decide)
  obtain ⟨hnumbers, hothers⟩ := varint_round_trip readFile
  obtain ⟨hencode, -, -, -, hdecode⟩ := hnumbers 300 hv
  have hread := hdecode _ _ hhex
  rw [hbytes] at hencode hread
  exact ⟨hv, by decide, hlong, hhex, hencode, hread, hothers (-1) (Or.inl (by decide)) hlong⟩

end CommandLine

end AddressProtocols
