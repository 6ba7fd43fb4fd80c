import AddressProtocols.Proofs.Registry.Session
import AddressProtocols.Proofs.Varint.Sequence

/-!
# Sequences of tags

The tags of registered descriptors can be written one after the other without anything between them.

* `Consistent.walks_tags`: a walk over such a sequence finds the codes, each with the length of its
  tag, and stops exactly at the end;
* `Consistent.eq_of_tag_prefix`: no tag is the beginning of another descriptor's;
* `Consistent.eq_flatMap_tag_iff`: bytes in which a walk finds registered codes only are the tags of
  their descriptors exactly if no number in them takes more bytes than it needs.
-/

namespace AddressProtocols

namespace Registry

open Varint (Walks encode minLength)

/-! ### The walk of a registry -/

theorem walk_of_walks {bytes : List UInt8} {tags : List (ℕ × ℕ)} {final : ℕ}
    (h : Walks bytes 0 tags final none) (r : Registry) :
    r.walk bytes = .ok (tags.map fun t => (t.1, t.2, r.findCode t.1)) := by
  rw [walk, h.decodeAll_eq]

namespace Consistent

variable {r : Registry} (h : r.Consistent)
include h

/-! ### Tags of registered descriptors -/

theorem flatMap_tag {ps : List Descriptor} (hps : ∀ p ∈ ps, p ∈ r.protocols) :
    ps.flatMap (·.tag) = (ps.map (·.code)).flatMap encode := by
  induction ps with
  | nil => rfl
  | cons p ps ih =>
    obtain ⟨hp, hrest⟩ := List.forall_mem_cons.mp hps
    rw [List.flatMap_cons, List.map_cons, List.flatMap_cons, (h.checked p hp).tag_eq, ih hrest]

theorem walks_tags {ps : List Descriptor} (hps : ∀ p ∈ ps, p ∈ r.protocols) :
    Walks (ps.flatMap (·.tag)) 0 (ps.map fun p => (p.code, p.tag.length))
      (ps.flatMap (·.tag)).length none := by
  have hcodes : ∀ v ∈ ps.map (·.code), v ≤ Varint.maxValue := by
    intro v hv
    obtain ⟨p, hp, rfl⟩ := List.mem_map.mp hv
    exact (h.checked p (hps p hp)).code_le
  have hlengths : ps.map (fun p => (p.code, p.tag.length)) =
      (ps.map (·.code)).map fun v => (v, (encode v).length) := by
    rw [List.map_map]
    refine List.map_congr_left fun p hp => ?_
    rw [(h.checked p (hps p hp)).tag_eq]
    rfl
  rw [h.flatMap_tag hps, hlengths]
  exact Varint.walks_encodings hcodes []

theorem eq_of_tag_prefix {p q : Descriptor} (hp : p ∈ r.protocols) (hq : q ∈ r.protocols)
    (hpre : p.tag <+: q.tag) : p = q := by
  obtain ⟨rest, hrest⟩ := hpre
  have hp' := h.checked p hp
  have hq' := h.checked q hq
  -- the longer tag reads as the code of either descriptor
  have hread := Varint.decode_encode_append hp'.code_le rest
  have hwhole := Varint.decode_encode_append hq'.code_le []
  rw [← hp'.tag_eq, hrest] at hread
  rw [← hq'.tag_eq, List.append_nil, hread] at hwhole
  obtain ⟨hcode, -⟩ := Prod.mk.inj (Except.ok.inj hwhole)
  exact h.eq_of_code_eq hp hq hcode

/-! ### Bytes in which only registered codes are found -/

/-- Descriptors found for codes have these codes and are registered. -/
theorem of_map_findCode {codes : List ℕ} {ds : List Descriptor}
    (hfound : codes.map r.findCode = ds.map some) :
    ds.map (·.code) = codes ∧ ∀ d ∈ ds, d ∈ r.protocols := by
  induction codes generalizing ds with
  | nil =>
    rw [List.map_nil, eq_comm, List.map_eq_nil_iff] at hfound
    subst hfound
    simp
  | cons code codes ih =>
    cases ds with
    | nil => cases hfound
    | cons d ds =>
      obtain ⟨hfirst, hothers⟩ := List.cons.inj hfound
      obtain ⟨hd, hcode⟩ := h.findCode_eq_some.mp hfirst
      obtain ⟨hcodes, hds⟩ := ih hothers
      rw [List.map_cons, hcode, hcodes]
      exact ⟨rfl, List.forall_mem_cons.mpr ⟨hd, hds⟩⟩

theorem eq_flatMap_tag_iff {bytes : List UInt8} {tags : List (ℕ × ℕ)} {final : ℕ}
    {ds : List Descriptor} (hwalk : Walks bytes 0 tags final none)
    (hfound : (tags.map Prod.fst).map r.findCode = ds.map some) :
    bytes = ds.flatMap (·.tag) ↔ ∀ t ∈ tags, t.2 = minLength t.1 := by
  obtain ⟨hcodes, hds⟩ := h.of_map_findCode hfound
  rw [h.flatMap_tag hds, hcodes]
  exact hwalk.eq_flatMap_encode_iff

end Consistent

/-- **Sequences of tags.**  In every registry that can be reached:

* the tags of registered descriptors, one after the other, are walked to the very end, and the walk
  finds the code of each with the length of its tag, by which the descriptor itself is found;
* no descriptor's tag is the beginning of another's;
* a walk over any bytes comes to an end, and if it meets no malformed number it stops where the
  bytes end; if moreover all its codes are registered, the bytes are the tags of the descriptors
  found exactly if each number was read from as few bytes as can hold it. -/
theorem walk_tags {r : Registry} (hr : r.Reachable) :
    (∀ ps : List Descriptor, (∀ p ∈ ps, p ∈ r.protocols) →
      Walks (ps.flatMap (·.tag)) 0 (ps.map fun p => (p.code, p.tag.length))
          (ps.flatMap (·.tag)).length none ∧
        r.walk (ps.flatMap (·.tag)) = .ok (ps.map fun p => (p.code, p.tag.length, some p)) ∧
        ∀ p ∈ ps, r.lookupCode (.int p.code) = some p) ∧
      (∀ p ∈ r.protocols, ∀ q ∈ r.protocols, p.tag <+: q.tag → p = q) ∧
      ∀ bytes : List UInt8,
        (∃ tags final stop, Walks bytes 0 tags final stop) ∧
        ∀ tags final, Walks bytes 0 tags final none →
          final = bytes.length ∧
          r.walk bytes = .ok (tags.map fun t => (t.1, t.2, r.lookupCode (.int t.1))) ∧
          ∀ ds : List Descriptor, (tags.map fun t => r.lookupCode (.int t.1)) = ds.map some →
            (bytes = ds.flatMap (·.tag) ↔ ∀ t ∈ tags, t.2 = minLength t.1) := by
  have h : r.Consistent := hr.consistent
  refine ⟨fun ps hps => ?_, fun p hp q hq => h.eq_of_tag_prefix hp hq, fun bytes => ⟨?_, ?_⟩⟩
  · have hfind : ∀ p ∈ ps, r.findCode p.code = some p := fun p hp =>
      h.findCode_eq_some.mpr ⟨hps p hp, rfl⟩
    have hwalks := h.walks_tags hps
    refine ⟨hwalks, ?_, hfind⟩
    rw [walk_of_walks hwalks, List.map_map]
    refine congrArg Except.ok (List.map_congr_left fun p hp => ?_)
    rw [Function.comp_apply, hfind p hp]
  · obtain ⟨final, hwalks⟩ := Varint.walks_decodeAll bytes 0
    exact ⟨_, final, _, hwalks⟩
  · intro tags final hwalks
    refine ⟨hwalks.final_eq (Nat.zero_le _) rfl, walk_of_walks hwalks r, fun ds hfound => ?_⟩
    refine h.eq_flatMap_tag_iff hwalks ?_
    rw [List.map_map]
    exact hfound

/-- The tags of two built-in protocols, one of them repeated, are walked; the tag of `ip4` does not
begin the tag of `http`.  A code may be read from more bytes than its tag has, which then are not
the tag. -/
theorem walk_tags_builtin :
    let http := Descriptor.plain 480 "http" (.bits 0) false
    let ip4 := Descriptor.plain 4 "ip4" (.bits 32) false
    builtin.Reachable ∧ (∀ p ∈ [http, ip4, http], p ∈ builtin.protocols) ∧
      builtin.walk ([http, ip4, http].flatMap (·.tag)) =
        .ok [(480, http.tag.length, some http), (4, ip4.tag.length, some ip4),
          (480, http.tag.length, some http)] ∧
      ¬ip4.tag <+: http.tag ∧
      Walks [0x84, 0x00] 0 [(4, 2)] 2 none ∧ [builtin.lookupCode (.int 4)] = [some ip4] ∧
      [0x84, 0x00] ≠ [ip4].flatMap (·.tag) := by
  intro http ip4
  obtain ⟨hsequence, hpre, hbytes⟩ := walk_tags builtin_reachable
  have hip4 : ip4 ∈ Descriptor.builtins := by simp [Descriptor.builtins, ip4]
  have hhttp : http ∈ Descriptor.builtins := by simp [Descriptor.builtins, http]
  have hmem : ∀ p ∈ [http, ip4, http], p ∈ builtin.protocols := by
    intro p hp
    rcases List.mem_cons.mp hp with rfl | hp
    · exact hhttp
    · rcases List.mem_cons.mp hp with rfl | hp
      · exact hip4
      · rw [List.mem_singleton.mp hp]
        exact hhttp
  obtain ⟨-, hwalk, hfind⟩ := hsequence [http, ip4, http] hmem
  have hfound : [builtin.lookupCode (.int 4)] = [some ip4] :=
    congrArg (fun found => [found]) (hfind ip4 (by simp))
  have hlong : Walks [0x84, 0x00] 0 [(4, 2)] 2 none :=
    Walks.next (by decide) (by rfl) (Walks.finished (by decide))
  obtain ⟨-, -, hiff⟩ := (hbytes [0x84, 0x00]).2 _ _ hlong
  refine ⟨builtin_reachable, hmem, hwalk, fun h => ?_, hlong, hfound, fun heq => ?_⟩
  · have hcode : ip4.code = http.code := congrArg (·.code) (hpre ip4 hip4 http hhttp h)
    exact absurd hcode (by decide)
  · exact absurd ((hiff [ip4] hfound).mp heq (4, 2) (by simp)) (by decide)

end Registry

end AddressProtocols
