import AddressProtocols.Failure
import AddressProtocols.Proofs.Descriptor
import AddressProtocols.Proofs.Varint.RoundTrip

/-!
# Constructing a descriptor

Fields are checked from left to right, and the tag is then made by an encoder that checks the code
once more.

* `Descriptor.FirstFault` says which check fails first, and of what, for each fault that fields can
  have; `Descriptor.ofFields_eq_error` says that this is the fault that is reported;
* `Descriptor.construct` makes the tag by that encoder, and `Descriptor.construct_eq` says that a
  code which has passed its check is never refused there. -/

namespace AddressProtocols

namespace Descriptor

variable {code name size path transcoder : Value}

/-! ### The first fault -/

def SoundCode (v : Value) : Prop := ∃ n : ℕ, v = .int n ∧ n ≤ Varint.maxValue

def SoundName (v : Value) : Prop := ∃ t, v = .text t ∧ t ≠ [] ∧ pathDelimiter ∉ t

def SoundSize (v : Value) : Prop := ∃ n : ℤ, v = .int n ∧ lengthPrefixedMark ≤ n

/-- The fault of the first field that is not sound, the fields taken in their order. -/
inductive FirstFault (code name size path : Value) : Fault → Prop where
  | codeType (h : ∀ n, code ≠ .int n) : FirstFault code name size path .codeType
  | codeRange {n : ℤ} (h : code = .int n) (hn : n < 0 ∨ (Varint.maxValue : ℤ) < n) :
      FirstFault code name size path (.codeRange n)
  | emptyName (hcode : SoundCode code) (h : ∀ t, name = .text t → t = []) :
      FirstFault code name size path .emptyName
  | delimiterInName (hcode : SoundCode code) {t : Text} (h : name = .text t)
      (ht : pathDelimiter ∈ t) : FirstFault code name size path (.delimiterInName t)
  | sizeType (hcode : SoundCode code) (hname : SoundName name) (h : ∀ n, size ≠ .int n) :
      FirstFault code name size path .sizeType
  | negativeSize (hcode : SoundCode code) (hname : SoundName name) {n : ℤ} (h : size = .int n)
      (hn : n < lengthPrefixedMark) : FirstFault code name size path (.negativeSize n)
  | pathType (hcode : SoundCode code) (hname : SoundName name) (hsize : SoundSize size)
      (h : ∀ b, path ≠ .bool b) : FirstFault code name size path .pathType

theorem checkCode_eq_error {v : Value} {fault : Fault} :
    checkCode v = .error fault ↔
      (∀ n, v ≠ .int n) ∧ fault = .codeType ∨
        ∃ n, v = .int n ∧ (n < 0 ∨ (Varint.maxValue : ℤ) < n) ∧ fault = .codeRange n := by
  cases v with
  | int n =>
    rw [checkCode]
    split
    · rename_i hn
      simp [hn, eq_comm]
    · rename_i hn
      simp [hn]
  | _ => simp [checkCode, eq_comm]

theorem checkName_eq_error {v : Value} {fault : Fault} :
    checkName v = .error fault ↔
      (∀ t, v = .text t → t = []) ∧ fault = .emptyName ∨
        ∃ t, v = .text t ∧ pathDelimiter ∈ t ∧ fault = .delimiterInName t := by
  cases v with
  | text t =>
    cases t with
    | nil => simp [checkName, eq_comm]
    | cons c rest =>
      simp only [checkName]
      split
      · rename_i hmem
        simp [hmem, eq_comm]
      · rename_i hmem
        simp [hmem]
  | _ => simp [checkName, eq_comm]

theorem checkSize_eq_error {v : Value} {fault : Fault} :
    checkSize v = .error fault ↔
      (∀ n, v ≠ .int n) ∧ fault = .sizeType ∨
        ∃ n, v = .int n ∧ n < lengthPrefixedMark ∧ fault = .negativeSize n := by
  cases v with
  | int n =>
    rw [checkSize]
    split
    · rename_i hn
      simp [hn, eq_comm]
    · rename_i hn
      split <;> simp [hn]
  | _ => simp [checkSize, eq_comm]

theorem checkPath_eq_error {v : Value} {fault : Fault} :
    checkPath v = .error fault ↔ (∀ b, v ≠ .bool b) ∧ fault = .pathType := by
  cases v <;> simp [checkPath, eq_comm]

theorem exists_checkCode_eq_ok {v : Value} : (∃ n, checkCode v = .ok n) ↔ SoundCode v :=
  exists_congr fun _ => checkCode_eq_ok

theorem exists_checkName_eq_ok {v : Value} : (∃ t, checkName v = .ok t) ↔ SoundName v :=
  exists_congr fun _ => checkName_eq_ok

theorem exists_checkSize_eq_ok {v : Value} : (∃ s, checkSize v = .ok s) ↔ SoundSize v := by
  simp only [checkSize_eq_ok, SoundSize]
  constructor
  · intro h
    obtain ⟨s, rfl⟩ := h
    exact ⟨s.toInt, rfl, lengthPrefixedMark_le_toInt s⟩
  · intro h
    obtain ⟨n, rfl, hn⟩ := h
    by_cases hmark : n = lengthPrefixedMark
    · exact ⟨.lengthPrefixed, congrArg Value.int hmark⟩
    · refine ⟨.bits n.toNat, congrArg Value.int ?_⟩
      simp only [lengthPrefixedMark, PayloadSize.toInt] at hn hmark ⊢
      omega

/-- Fields are refused for the fault of the first one that is not sound. -/
theorem ofFields_eq_error {fault : Fault} :
    ofFields code name size path transcoder = .error fault ↔
      FirstFault code name size path fault := by
  simp only [ofFields, Outcome.bind_eq_error]
  constructor
  · intro h
    rcases h with hcode | ⟨n, hn, h⟩
    · rcases checkCode_eq_error.mp hcode with ⟨htype, rfl⟩ | ⟨m, hm, hrange, rfl⟩
      · exact .codeType htype
      · exact .codeRange hm hrange
    have hcode : SoundCode code := exists_checkCode_eq_ok.mp ⟨n, hn⟩
    rcases h with hname | ⟨t, ht, h⟩
    · rcases checkName_eq_error.mp hname with ⟨hempty, rfl⟩ | ⟨t, ht, hmem, rfl⟩
      · exact .emptyName hcode hempty
      · exact .delimiterInName hcode ht hmem
    have hname : SoundName name := exists_checkName_eq_ok.mp ⟨t, ht⟩
    rcases h with hsize | ⟨s, hs, h⟩
    · rcases checkSize_eq_error.mp hsize with ⟨htype, rfl⟩ | ⟨m, hm, hnegative, rfl⟩
      · exact .sizeType hcode hname htype
      · exact .negativeSize hcode hname hm hnegative
    rcases h with hpath | ⟨p, hp, h⟩
    · obtain ⟨htype, rfl⟩ := checkPath_eq_error.mp hpath
      exact .pathType hcode hname (exists_checkSize_eq_ok.mp ⟨s, hs⟩) htype
    · cases h
  · intro h
    cases h with
    | codeType htype => exact .inl (checkCode_eq_error.mpr (.inl ⟨htype, rfl⟩))
    | codeRange hn hrange => exact .inl (checkCode_eq_error.mpr (.inr ⟨_, hn, hrange, rfl⟩))
    | emptyName hcode hempty =>
      obtain ⟨n, hn⟩ := exists_checkCode_eq_ok.mpr hcode
      exact .inr ⟨n, hn, .inl (checkName_eq_error.mpr (.inl ⟨hempty, rfl⟩))⟩
    | delimiterInName hcode ht hmem =>
      obtain ⟨n, hn⟩ := exists_checkCode_eq_ok.mpr hcode
      exact .inr ⟨n, hn, .inl (checkName_eq_error.mpr (.inr ⟨_, ht, hmem, rfl⟩))⟩
    | sizeType hcode hname htype =>
      obtain ⟨n, hn⟩ := exists_checkCode_eq_ok.mpr hcode
      obtain ⟨t, ht⟩ := exists_checkName_eq_ok.mpr hname
      exact .inr ⟨n, hn, .inr ⟨t, ht, .inl (checkSize_eq_error.mpr (.inl ⟨htype, rfl⟩))⟩⟩
    | negativeSize hcode hname hm hnegative =>
      obtain ⟨n, hn⟩ := exists_checkCode_eq_ok.mpr hcode
      obtain ⟨t, ht⟩ := exists_checkName_eq_ok.mpr hname
      exact .inr ⟨n, hn, .inr ⟨t, ht, .inl (checkSize_eq_error.mpr (.inr ⟨_, hm, hnegative, rfl⟩))⟩⟩
    | pathType hcode hname hsize htype =>
      obtain ⟨n, hn⟩ := exists_checkCode_eq_ok.mpr hcode
      obtain ⟨t, ht⟩ := exists_checkName_eq_ok.mpr hname
      obtain ⟨s, hs⟩ := exists_checkSize_eq_ok.mpr hsize
      exact .inr ⟨n, hn, .inr ⟨t, ht, .inr ⟨s, hs, .inl (checkPath_eq_error.mpr ⟨htype, rfl⟩)⟩⟩⟩

/-! ### The tag -/

theorem Checked.decodeFrom_tag {d : Descriptor} (h : d.Checked) :
    Varint.decodeFrom d.tag 0 = .ok (d.code, d.tag.length) := by
  have hdecode := Varint.decode_encode_append h.code_le []
  rw [List.append_nil, ← h.tag_eq] at hdecode
  rw [Varint.decodeFrom, List.drop_zero, hdecode]
  rfl

/-- The descriptor of the fields with the tag that the encoder makes of the code, if it takes it. -/
def construct (code name size path transcoder : Value) : Except Failure Descriptor := do
  let n ← (checkCode code).mapError Failure.descriptor
  let name ← (checkName name).mapError Failure.descriptor
  let size ← (checkSize size).mapError Failure.descriptor
  let path ← (checkPath path).mapError Failure.descriptor
  let tag ← (Varint.encode? code).mapError Failure.varintRange
  return ⟨n, name, size, path, transcoder, tag⟩

/-- A code that has passed its check is never refused by the encoder. -/
theorem construct_eq :
    construct code name size path transcoder =
      (ofFields code name size path transcoder).mapError Failure.descriptor := by
  rw [construct, ofFields]
  cases hcode : checkCode code with
  | error fault => rfl
  | ok n =>
    obtain ⟨rfl, hn⟩ := checkCode_eq_ok.mp hcode
    rw [Varint.encode?_natCast hn]
    cases checkName name with
    | error fault => rfl
    | ok name =>
      cases checkSize size with
      | error fault => rfl
      | ok size => cases checkPath path <;> rfl

theorem construct_eq_error {failure : Failure} :
    construct code name size path transcoder = .error failure ↔
      ∃ fault, failure = .descriptor fault ∧ FirstFault code name size path fault := by
  rw [construct_eq, Outcome.mapError_eq_error]
  exact exists_congr fun fault => by rw [ofFields_eq_error, and_comm, eq_comm]

end Descriptor

end AddressProtocols
