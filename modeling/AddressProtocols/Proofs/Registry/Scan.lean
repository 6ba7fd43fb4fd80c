import AddressProtocols.Proofs.Registry.Session

/-!
# Lookups as scans of the list

The indices of a registry answer what a scan of its descriptors in order would.  Keys come from
outside and are compared by value, so that a number may equal a code without being an integer, and
the fields of a descriptor used as a key may hold anything.

* `find?_eq_some_of_unique`: a scan ends at the one member that counts;
* `Binary64.eq_of_equalsInt` and `Value.eq_of_int_equals`: whatever the type of a value, it equals
  one integer at most, so that it is the key of one index entry at most;
* `Consistent.findName_eq_find?` and `Consistent.findCode_eq_find?`: the indices against the scan;
* `Consistent.contains_descriptor`: a descriptor counts as registered if it equals one that is.
-/

namespace AddressProtocols

/-! ### Equality with integers -/

/-- A number has one integer value at most. -/
theorem Binary64.eq_of_equalsInt {x : Binary64} {m n : ℤ} (hm : x.equalsInt m = true)
    (hn : x.equalsInt n = true) : m = n := by
  cases x with
  | nan => cases hm
  | infinite negative => cases hm
  | finite negative significand exponent =>
    simp only [equalsInt, equals, sameValue, scaled, Bool.and_eq_true, Bool.or_eq_true, beq_iff_eq,
      Int.toNat_zero, neg_zero, show Nat.pow 2 0 = 1 from rfl, Nat.mul_one] at hm hn
    obtain ⟨hm, hmsign⟩ := hm
    obtain ⟨hn, hnsign⟩ := hn
    have hpos : 0 < Nat.pow 2 (-exponent).toNat := Nat.two_pow_pos _
    have habs : m.natAbs = n.natAbs := Nat.eq_of_mul_eq_mul_right hpos (hm.symm.trans hn)
    by_cases hzero : significand = 0
    · -- a significand of zero has no sign
      rw [hzero, Nat.zero_mul] at hm
      have : m.natAbs = 0 := (Nat.mul_eq_zero.mp hm.symm).resolve_right hpos.ne'
      omega
    · have hsign : decide (m < 0) = decide (n < 0) :=
        (hmsign.resolve_right hzero).symm.trans (hnsign.resolve_right hzero)
      rw [decide_eq_decide] at hsign
      omega

namespace Value

/-- A value of any type equals one integer at most. -/
theorem eq_of_int_equals {v : Value} {m n : ℤ} (hm : (int m).equals v = true)
    (hn : (int n).equals v = true) : m = n := by
  cases v with
  | int k =>
    simp only [equals, scalarEquals, int?, beq_iff_eq] at hm hn
    exact hm.trans hn.symm
  | bool b =>
    simp only [equals, scalarEquals, int?, beq_iff_eq] at hm hn
    exact hm.trans hn.symm
  | float x => exact Binary64.eq_of_equalsInt hm hn
  | _ => cases hm

/-- Whether a value can be the key of an index at all: nothing in it can be changed. -/
def isHashable : Value → Bool
  | list _ => false
  | dict _ => false
  | descriptor code name size path _ tag =>
    isHashable code && isHashable name && isHashable size && isHashable path && isHashable tag
  | _ => true

end Value

namespace Registry

/-! ### Scans -/

/-- A scan stops at the one member that counts. -/
theorem find?_eq_some_of_unique {α : Type} {p : α → Bool} {xs : List α} {x : α} (hx : x ∈ xs)
    (hp : p x = true) (hunique : ∀ y ∈ xs, p y = true → y = x) : xs.find? p = some x := by
  cases hfind : xs.find? p with
  | none => exact absurd hp (List.find?_eq_none.mp hfind x hx)
  | some y => rw [hunique y (List.mem_of_find?_eq_some hfind) (List.find?_some hfind)]

/-- With distinct keys, a scan for a key finds the one member that has it. -/
theorem find?_key_eq_some {α κ : Type} [DecidableEq κ] {key : α → κ} {xs : List α}
    (h : (xs.map key).Nodup) {k : κ} {x : α} :
    xs.find? (fun y => key y = k) = some x ↔ x ∈ xs ∧ key x = k := by
  constructor
  · intro hfind
    have hkey := List.find?_some hfind
    exact ⟨List.mem_of_find?_eq_some hfind, of_decide_eq_true hkey⟩
  · intro hx
    obtain ⟨hmem, rfl⟩ := hx
    refine find?_eq_some_of_unique hmem (decide_eq_true rfl) fun y hy hkey => ?_
    exact List.inj_on_of_nodup_map h hy hmem (of_decide_eq_true hkey)

namespace Consistent

variable {r : Registry} (h : r.Consistent)
include h

theorem findName_eq_find? (name : Text) :
    r.findName name = r.protocols.find? fun d => d.name = name :=
  Option.ext fun _ => h.findName_eq_some.trans (find?_key_eq_some h.names_nodup).symm

theorem findCode_eq_find? (code : ℕ) :
    r.findCode code = r.protocols.find? fun d => d.code = code :=
  Option.ext fun _ => h.findCode_eq_some.trans (find?_key_eq_some h.codes_nodup).symm

/-- Codes are natural numbers, so a negative integer is none. -/
theorem lookupCode_int (n : ℤ) :
    r.lookupCode (.int n) = r.protocols.find? fun d => (d.code : ℤ) = n := by
  cases n with
  | ofNat code =>
    rw [lookupCode, h.findCode_eq_find?]
    simp
  | negSucc k =>
    have hnone : (r.protocols.find? fun d => (d.code : ℤ) = Int.negSucc k) = none := by
      simp [List.find?_eq_none]
    exact hnone.symm

/-! ### Descriptors as keys -/

omit h in
theorem equals_code {d : Descriptor} {code name size path transcoder tag : Value}
    (hequals : d.value.equals (.descriptor code name size path transcoder tag) = true) :
    (Value.int d.code).equals code = true := by
  simp only [Descriptor.value, Value.equals, Bool.and_eq_true] at hequals
  exact hequals.1.1.1.1

/-- The index entry of a descriptor used as a key is that of the code its own code equals. -/
theorem find?_byCode_eq_some {code : Value} {entry : ℕ × Descriptor} :
    (r.byCode.find? fun e => (Value.int e.1).equals code) = some entry ↔
      entry.2 ∈ r.protocols ∧ entry.2.code = entry.1 ∧ (Value.int entry.1).equals code = true := by
  have hmem : ∀ e : ℕ × Descriptor, e ∈ r.byCode ↔ e.2 ∈ r.protocols ∧ e.2.code = e.1 := by
    intro e
    rw [h.byCode_eq, ← mem_index (·.code)]
  rw [← and_assoc, ← hmem]
  constructor
  · intro hfind
    have hequals := List.find?_some hfind
    exact ⟨List.mem_of_find?_eq_some hfind, hequals⟩
  · intro hentry
    obtain ⟨hin, hequals⟩ := hentry
    refine find?_eq_some_of_unique hin hequals fun e he hother => ?_
    have hcode : e.1 = entry.1 := Int.ofNat_inj.mp (Value.eq_of_int_equals hother hequals)
    have he' := (hmem e).mp he
    have hentry' := (hmem entry).mp hin
    have hd : e.2 = entry.2 :=
      h.eq_of_code_eq he'.1 hentry'.1 (he'.2.trans (hcode.trans hentry'.2.symm))
    exact Prod.ext hcode hd

/-- A descriptor counts as registered exactly if it equals one that is, transcoders apart. -/
theorem contains_descriptor {code name size path transcoder tag : Value} :
    r.contains (.descriptor code name size path transcoder tag) = true ↔
      ∃ d ∈ r.protocols,
        d.value.equals (.descriptor code name size path transcoder tag) = true := by
  rw [contains]
  cases hfind : r.byCode.find? fun e => (Value.int e.1).equals code with
  | none =>
    refine iff_of_false Bool.false_ne_true fun hregistered => ?_
    obtain ⟨d, hd, hequals⟩ := hregistered
    have hcode : (Value.int d.code).equals code = true := equals_code hequals
    have hmem : (d.code, d) ∈ r.byCode := by
      rw [h.byCode_eq, mem_index]
      exact ⟨hd, rfl⟩
    exact List.find?_eq_none.mp hfind (d.code, d) hmem hcode
  | some entry =>
    obtain ⟨hd, hentry, hcode⟩ := h.find?_byCode_eq_some.mp hfind
    constructor
    · intro hequals
      exact ⟨entry.2, hd, hequals⟩
    · intro hregistered
      obtain ⟨d, hd', hequals⟩ := hregistered
      have heq : (d.code : ℤ) = entry.1 := Value.eq_of_int_equals (equals_code hequals) hcode
      have hsame : d = entry.2 :=
        h.eq_of_code_eq hd' hd ((Int.ofNat_inj.mp heq).trans hentry.symm)
      show entry.2.value.equals _ = true
      rw [← hsame]
      exact hequals

end Consistent

/-! ### Lookups and membership -/

theorem lookupCode_of_not_int (r : Registry) {v : Value} (hv : ∀ n, v ≠ .int n) :
    r.lookupCode v = none := by
  cases v with
  | int n => exact absurd rfl (hv n)
  | _ => rfl

/-- **Lookups are scans of the descriptors in order.**  In every registry that can be reached, a
text is looked up as the first descriptor of that name, an integer as the first of that code, and
there is no second one; a value of any other type, booleans and floats included, is the code of
none.  A text or an integer is contained if it is the name or the code of some descriptor.  A
descriptor whose code can be a key at all is contained if it equals one that is registered in code,
name, size, path flag and tag, compared by value, and nothing else is contained. -/
theorem lookups_eq_scan {r : Registry} (hr : r.Reachable) :
    (∀ name : Text, r.lookupName (.text name) = r.protocols.find? (fun d => d.name = name) ∧
      ∀ d ∈ r.protocols, d.name = name → r.lookupName (.text name) = some d) ∧
    (∀ n : ℤ, r.lookupCode (.int n) = r.protocols.find? (fun d => (d.code : ℤ) = n) ∧
      ∀ d ∈ r.protocols, (d.code : ℤ) = n → r.lookupCode (.int n) = some d) ∧
    (∀ v : Value, (∀ n, v ≠ .int n) → r.lookupCode v = none) ∧
    (∀ name : Text, r.contains (.text name) = true ↔ ∃ d ∈ r.protocols, d.name = name) ∧
    (∀ n : ℤ, r.contains (.int n) = true ↔ ∃ d ∈ r.protocols, (d.code : ℤ) = n) ∧
    (∀ code name size path transcoder tag : Value, code.isHashable = true →
      (r.contains (.descriptor code name size path transcoder tag) = true ↔
        ∃ d ∈ r.protocols, (Value.int d.code).equals code = true ∧
          (Value.text d.name).equals name = true ∧ (Value.int d.size.toInt).equals size = true ∧
          (Value.bool d.path).equals path = true ∧ (Value.bytes d.tag).equals tag = true)) ∧
    ∀ v : Value, r.contains v = true →
      (∃ name, v = .text name) ∨ (∃ n, v = .int n) ∨
        ∃ code name size path transcoder tag,
          v = .descriptor code name size path transcoder tag := by
  have h : r.Consistent := hr.consistent
  refine ⟨fun name => ⟨h.findName_eq_find? name, ?_⟩, fun n => ⟨h.lookupCode_int n, ?_⟩,
    fun v => r.lookupCode_of_not_int, fun name => ?_, fun n => ?_, ?_, ?_⟩
  · intro d hd hname
    exact h.findName_eq_some.mpr ⟨hd, hname⟩
  · intro d hd hcode
    subst hcode
    exact h.findCode_eq_some.mpr ⟨hd, rfl⟩
  · rw [contains, h.findName_eq_find?, List.find?_isSome]
    simp only [decide_eq_true_eq]
  · show (r.lookupCode (.int n)).isSome = true ↔ _
    rw [h.lookupCode_int, List.find?_isSome]
    simp only [decide_eq_true_eq]
  · intro code name size path transcoder tag _
    rw [h.contains_descriptor]
    simp only [Descriptor.value, Value.equals, Bool.and_eq_true, and_assoc]
  · intro v hv
    cases v with
    | text name => exact Or.inl ⟨name, rfl⟩
    | int n => exact Or.inr (Or.inl ⟨n, rfl⟩)
    | descriptor code name size path transcoder tag =>
      exact Or.inr (Or.inr ⟨code, name, size, path, transcoder, tag, rfl⟩)
    | _ => cases hv

/-- Among the built-in descriptors, `udp` is found by its name and by its code, but not by the same
number as a float.  It is contained whatever its transcoder. -/
theorem lookups_eq_scan_udp :
    let udp := Descriptor.plain 17 "udp" (.bits 16) false
    let seventeen : Value := .float (.finite false 17 0)
    builtin.Reachable ∧ (∀ n, seventeen ≠ .int n) ∧ (Value.int 17).isHashable = true ∧
      builtin.lookupName (.text udp.name) = some udp ∧
      builtin.lookupCode (.int 17) = some udp ∧ builtin.lookupCode seventeen = none ∧
      builtin.contains (.descriptor (.int 17) (.text udp.name) (.int 16) (.bool false)
        (.handle udp.name) (.bytes udp.tag)) = true := by
  intro udp seventeen
  have hfloat : ∀ n, seventeen ≠ .int n := fun n => Value.noConfusion
  have hudp : udp ∈ builtin.protocols := by
    show udp ∈ Descriptor.builtins
    simp [Descriptor.builtins, udp]
  obtain ⟨hnames, hcodes, hothers, -, -, hdescriptors, -⟩ := lookups_eq_scan builtin_reachable
  refine ⟨builtin_reachable, hfloat, rfl, (hnames udp.name).2 udp hudp rfl,
    (hcodes 17).2 udp hudp rfl, hothers seventeen hfloat, (hdescriptors _ _ _ _ _ _ rfl).mpr ?_⟩
  exact ⟨udp, hudp, rfl, beq_self_eq_true udp.name, rfl, rfl, beq_self_eq_true udp.tag⟩

/-- A descriptor used as a key may have a float for a code: it is found by the integer of that
value, and counts as registered if the rest agrees. -/
theorem contains_float_code :
    let six := Binary64.finite false 6755399441055744 (-50)
    let tcp := Text.ofString "tcp"
    builtin.Reachable ∧ Binary64.read? (Text.ofString "6.0") = some six ∧
      (∀ n, Value.float six ≠ .int n) ∧
      builtin.contains (.descriptor (.float six) (.text tcp) (.int 16) (.bool false) .null
        (.bytes [6])) = true := by
  intro six tcp
  have hread : Binary64.read? (Text.ofString "6.0") = some six := by decide +kernel
  have hfloat : ∀ n, Value.float six ≠ .int n := fun n => Value.noConfusion
  exact ⟨builtin_reachable, hread, hfloat, by decide +kernel⟩

end Registry

end AddressProtocols
