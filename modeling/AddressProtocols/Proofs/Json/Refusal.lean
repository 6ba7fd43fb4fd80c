import AddressProtocols.Proofs.Json.Fold

/-!
# The first refusal

A builder may refuse a value in the middle of a text.  If the text is JSON, what is refused first is
what a fold of the builder over the whole tree would refuse first.

* `Json.State.parts`: the trees that a state holds, in the order in which they were read;
* `Json.Builder.partsOf_of_folds`: a builder that has come this far refuses none of them;
* `Json.Builder.step_keeps_refusal`: what is refused among the parts of a state stays the first
  refusal, and `Json.Builder.step_refuses`: a step that a builder does not take refuses the last
  part;
* `Json.read_of_parse`: reading with a builder is parsing and folding.
-/

namespace AddressProtocols

namespace Json

variable {ε α : Type}

/-! ### What has been read -/

def Frame.parts : Frame Tree → List Tree
  | .array items => items.reverse
  | .object members _ => (members.map (·.2)).reverse

/-- The parts of open containers, those of the outermost first. -/
def partsOf : List (Frame Tree) → List Tree
  | [] => []
  | frame :: rest => partsOf rest ++ frame.parts

/-- The trees that a state holds, in the order in which they were read. -/
def State.parts : State Tree → List Tree
  | .value fs => partsOf fs
  | .firstItem fs => partsOf fs
  | .firstName fs => partsOf fs
  | .name members fs => partsOf fs ++ (members.map (·.2)).reverse
  | .colon members _ fs => partsOf fs ++ (members.map (·.2)).reverse
  | .after t fs => partsOf fs ++ [t]

namespace Builder

variable {build : Builder ε α} {e : ε}

theorem foldItems_append (ts us : List Tree) :
    build.foldItems (ts ++ us) =
      build.foldItems ts >>= fun vs => (build.foldItems us).map (vs ++ ·) := by
  induction ts with
  | nil =>
    show build.foldItems us = (build.foldItems us).map id
    cases build.foldItems us <;> rfl
  | cons t rest ih =>
    rw [List.cons_append, foldItems, foldItems, ih]
    cases build.fold t with
    | error e => rfl
    | ok v =>
      cases build.foldItems rest with
      | error e => rfl
      | ok vs => cases build.foldItems us <;> rfl

theorem foldItems_singleton_eq_error {t : Tree} :
    build.foldItems [t] = .error e ↔ build.fold t = .error e := by
  rw [foldItems, foldItems]
  cases build.fold t with
  | error e' =>
    show (Except.error e' : Except ε (List α)) = .error e ↔ _
    rw [Except.error.injEq, Except.error.injEq]
  | ok v =>
    constructor
    · intro h
      cases h
    · intro h
      cases h

/-- What is refused first is refused first whatever follows. -/
theorem foldItems_append_of_error {ts : List Tree} (h : build.foldItems ts = .error e)
    (us : List Tree) : build.foldItems (ts ++ us) = .error e := by
  rw [foldItems_append, h]
  rfl

theorem foldItems_append_of_ok {ts us : List Tree} {vs : List α}
    (h : build.foldItems ts = .ok vs) (hus : build.foldItems us = .error e) :
    build.foldItems (ts ++ us) = .error e := by
  rw [foldItems_append, h, hus]
  rfl

/-- Trees may be put together to one, if it is refused for the first of them that is. -/
theorem foldItems_replace {ts us : List Tree} {t : Tree}
    (ht : ∀ e, build.foldItems us = .error e → build.fold t = .error e)
    (h : build.foldItems (ts ++ us) = .error e) : build.foldItems (ts ++ [t]) = .error e := by
  cases hts : build.foldItems ts with
  | error e' =>
    cases (foldItems_append_of_error hts us).symm.trans h
    exact foldItems_append_of_error hts [t]
  | ok vs =>
    rw [foldItems_append, hts] at h
    have hus : build.foldItems us = .error e := Outcome.map_eq_error.mp h
    exact foldItems_append_of_ok hts (foldItems_singleton_eq_error.mpr (ht e hus))

theorem fold_array_eq_error {items : List Tree} (h : build.foldItems items = .error e) :
    build.fold (.array items) = .error e := by
  rw [fold, h]
  rfl

theorem foldMembers_eq_error {members : List (Text × Tree)} :
    build.foldMembers members = .error e ↔ build.foldItems (members.map (·.2)) = .error e := by
  induction members with
  | nil => exact iff_of_false nofun nofun
  | cons m rest ih =>
    obtain ⟨name, t⟩ := m
    rw [List.map_cons, foldMembers, foldItems, Outcome.bind_eq_error, Outcome.bind_eq_error]
    simp only [Outcome.bind_pure_eq_map, Outcome.map_eq_error, ih]

theorem fold_object_eq_error {members : List (Text × Tree)}
    (h : build.foldItems (members.map (·.2)) = .error e) :
    build.fold (.object members) = .error e := by
  rw [fold, foldMembers_eq_error.mpr h]
  rfl

/-! ### A builder that has come this far -/

theorem exists_foldItems_members {members : List (Text × Tree)} {ws : List (Text × α)}
    (h : List.Forall₂ build.FoldsMember members ws) :
    ∃ vs, build.foldItems (members.map (·.2)).reverse = .ok vs := by
  have hvalues : List.Forall₂ (fun t v => build.fold t = .ok v) (members.map (·.2))
      (ws.map (·.2)) := by
    rw [List.forall₂_map_left_iff, List.forall₂_map_right_iff]
    exact h.imp fun _ _ hm => hm.2
  exact ⟨_, foldItems_eq_ok.mpr (List.rel_reverse hvalues)⟩

theorem exists_foldItems_append {ts us : List Tree} (hts : ∃ vs, build.foldItems ts = .ok vs)
    (hus : ∃ vs, build.foldItems us = .ok vs) : ∃ vs, build.foldItems (ts ++ us) = .ok vs := by
  obtain ⟨vs, hvs⟩ := hts
  obtain ⟨ws, hws⟩ := hus
  rw [foldItems_append, hvs, hws]
  exact ⟨vs ++ ws, rfl⟩

theorem partsOf_of_folds {fs : List (Frame Tree)} {fs' : List (Frame α)}
    (h : build.FoldsFrames fs fs') : ∃ vs, build.foldItems (partsOf fs) = .ok vs := by
  induction h with
  | nil => exact ⟨[], rfl⟩
  | cons hframe _ ih =>
    refine exists_foldItems_append ih ?_
    cases hframe with
    | array hitems => exact ⟨_, foldItems_eq_ok.mpr (List.rel_reverse hitems)⟩
    | object hmembers => exact exists_foldItems_members hmembers

/-! ### Steps -/

variable {fs : List (Frame Tree)} {fs' : List (Frame α)} {s n : State Tree} {s' : State α}
  {position : ℕ} {token : Token}

theorem stepValue_keeps_refusal (h : stepValue treeBuilder fs position token = .ok n)
    (hparts : build.foldItems (partsOf fs) = .error e) : build.foldItems n.parts = .error e := by
  cases token with
  | null | bool | string | integer | real | constant =>
    cases h
    exact foldItems_append_of_error hparts _
  | leftBracket | leftBrace =>
    obtain ⟨-, rfl⟩ := descend_eq_ok.mp h
    exact hparts
  | rightBracket | rightBrace | comma | colon | badString | unknown => cases h

theorem stepName_keeps_refusal {members : List (Text × Tree)}
    (h : (stepName members fs position token : Except (Fault Empty) (State Tree)) = .ok n) :
    n.parts = partsOf fs ++ (members.map (·.2)).reverse := by
  cases token with
  | string t =>
    cases h
    rfl
  | _ => cases h

theorem stepAfter_keeps_refusal {t : Tree} (h : stepAfter treeBuilder t position fs token = .ok n)
    (hparts : build.foldItems (partsOf fs ++ [t]) = .error e) :
    build.foldItems n.parts = .error e := by
  cases fs with
  | nil => cases h
  | cons frame rest =>
    rw [partsOf, List.append_assoc] at hparts
    cases frame with
    | array items =>
      have hitems : (Frame.array items).parts ++ [t] = (t :: items).reverse :=
        List.reverse_cons.symm
      rw [hitems] at hparts
      cases token with
      | comma =>
        cases h
        exact hparts
      | rightBracket =>
        cases h
        exact foldItems_replace (fun _ => fold_array_eq_error) hparts
      | _ => cases h
    | object members name =>
      have hvalues : (Frame.object members name).parts ++ [t] =
          (((name, t) :: members).map (·.2)).reverse := List.reverse_cons.symm
      rw [hvalues] at hparts
      cases token with
      | comma =>
        cases h
        exact hparts
      | rightBrace =>
        cases h
        rw [← List.map_reverse] at hparts
        exact foldItems_replace (fun _ => fold_object_eq_error) hparts
      | _ => cases h

/-- What is refused among the parts of a state stays the first refusal. -/
theorem step_keeps_refusal (h : step treeBuilder s position token = .ok n)
    (hparts : build.foldItems s.parts = .error e) : build.foldItems n.parts = .error e := by
  cases s with
  | value fs => exact stepValue_keeps_refusal h hparts
  | firstItem fs =>
    rw [step] at h
    split at h
    · cases h
      exact foldItems_append_of_error hparts _
    · refine stepValue_keeps_refusal h ?_
      exact foldItems_append_of_error hparts []
  | firstName fs =>
    rw [step] at h
    split at h
    · cases h
      exact foldItems_append_of_error hparts _
    · rw [stepName_keeps_refusal h]
      exact foldItems_append_of_error hparts []
  | name members fs =>
    rw [stepName_keeps_refusal h]
    exact hparts
  | colon members name fs =>
    rw [step] at h
    split at h
    · cases h
      exact hparts
    · cases h
  | after t fs => exact stepAfter_keeps_refusal h hparts

theorem complete_refuses {t : Tree} {fault : Fault ε} (hfs : build.FoldsFrames fs fs')
    (h : complete fs' (build.fold t) = .error fault) :
    ∃ e, fault = .refused e ∧ build.foldItems (partsOf fs ++ [t]) = .error e := by
  cases ht : build.fold t with
  | error e =>
    obtain ⟨vs, hvs⟩ := partsOf_of_folds hfs
    rw [ht] at h
    cases h
    exact ⟨e, rfl, foldItems_append_of_ok hvs (foldItems_singleton_eq_error.mpr ht)⟩
  | ok v =>
    rw [ht] at h
    cases h

theorem descend_ne_error {frames : List (Frame α)} {next : State α} {fault : Fault ε}
    (h : frames.length < maxDepth) : descend frames next ≠ .error fault := by
  rw [descend, if_pos h]
  intro hfault
  cases hfault

theorem stepValue_refuses {fault : Fault ε} (hfs : build.FoldsFrames fs fs')
    (h : stepValue treeBuilder fs position token = .ok n)
    (hfault : stepValue build fs' position token = .error fault) :
    ∃ e, fault = .refused e ∧ build.foldItems n.parts = .error e := by
  cases token with
  | null | bool | string => cases hfault
  | integer numeral =>
    cases h
    exact complete_refuses (t := .integer numeral) hfs hfault
  | real numeral =>
    cases h
    exact complete_refuses (t := .real numeral) hfs hfault
  | constant name =>
    cases h
    exact complete_refuses (t := .constant name) hfs hfault
  | leftBracket | leftBrace =>
    obtain ⟨hdepth, -⟩ := descend_eq_ok.mp h
    rw [hfs.length_eq] at hdepth
    exact absurd hfault (descend_ne_error hdepth)
  | rightBracket | rightBrace | comma | colon | badString | unknown => cases h

theorem stepName_ne_error {members : List (Text × Tree)} {ws : List (Text × α)} {fault : Fault ε}
    (h : (stepName members fs position token : Except (Fault Empty) (State Tree)) = .ok n) :
    (stepName ws fs' position token : Except (Fault ε) (State α)) ≠ .error fault := by
  cases token with
  | string t => nofun
  | _ => cases h

theorem stepAfter_refuses {t : Tree} {v : α} {fault : Fault ε} (ht : build.fold t = .ok v)
    (hfs : build.FoldsFrames fs fs') (h : stepAfter treeBuilder t position fs token = .ok n)
    (hfault : stepAfter build v position fs' token = .error fault) :
    ∃ e, fault = .refused e ∧ build.foldItems n.parts = .error e := by
  cases hfs with
  | nil => cases h
  | cons hframe hrest =>
    cases hframe with
    | array hitems =>
      cases token with
      | comma | rightBracket => cases hfault
      | _ => cases h
    | @object members ws name hmembers =>
      have hmember : build.FoldsMember (name, t) (name, v) := ⟨rfl, ht⟩
      cases token with
      | comma => cases hfault
      | rightBrace =>
        rw [stepAfter, ← fold_object (List.Forall₂.cons hmember hmembers)] at hfault
        cases h
        exact complete_refuses hrest hfault
      | _ => cases h

/-- A step that a builder does not take, though the text goes on as JSON, refuses the last part. -/
theorem step_refuses {fault : Fault ε} (hs : build.FoldsState s s')
    (h : step treeBuilder s position token = .ok n)
    (hfault : step build s' position token = .error fault) :
    ∃ e, fault = .refused e ∧ build.foldItems n.parts = .error e := by
  cases hs with
  | value hfs => exact stepValue_refuses hfs h hfault
  | firstItem hfs =>
    rw [step] at h hfault
    split at h
    · rename_i hend
      rw [if_pos hend] at hfault
      cases hfault
    · rename_i hend
      rw [if_neg hend] at hfault
      exact stepValue_refuses (.cons (.array .nil) hfs) h hfault
  | firstName hfs =>
    rw [step] at h hfault
    split at h
    · rename_i hend
      rw [if_pos hend] at hfault
      cases h
      exact complete_refuses (t := .object []) hfs hfault
    · rename_i hend
      rw [if_neg hend] at hfault
      exact absurd hfault (stepName_ne_error h)
  | name hmembers hfs => exact absurd hfault (stepName_ne_error h)
  | colon hmembers hfs =>
    rw [step] at h hfault
    split at h
    · rename_i hcolon
      rw [if_pos hcolon] at hfault
      cases hfault
    · cases h
  | after ht hfs => exact stepAfter_refuses ht hfs h hfault

end Builder

/-! ### Whole texts -/

section Run

variable {build : Builder ε α} {s : State Tree} {position : ℕ} {tree : Tree} {e : ε}

theorem fold_of_run {t : Text} (hrun : run treeBuilder s position t = .ok tree)
    (hparts : build.foldItems s.parts = .error e) : build.fold tree = .error e := by
  induction t using token_induction generalizing s position with
  | nil =>
    rw [run, finish_eq_ok] at hrun
    rw [hrun] at hparts
    exact Builder.foldItems_singleton_eq_error.mp hparts
  | space c rest hc ih =>
    rw [run_space hc] at hrun
    exact ih hrun hparts
  | token c rest hc ih =>
    rw [run_token hc] at hrun
    obtain ⟨n, hstep, hrun⟩ := Outcome.bind_eq_ok.mp hrun
    exact ih hrun (Builder.step_keeps_refusal hstep hparts)

/-- Of a text that is JSON, a builder refuses first what its fold over the tree does. -/
theorem run_refuses {s' : State α} {t : Text} (hs : build.FoldsState s s')
    (hrun : run treeBuilder s position t = .ok tree) (hfold : build.fold tree = .error e) :
    run build s' position t = .error (.refused e) := by
  induction t using token_induction generalizing s s' position with
  | nil =>
    rw [run, finish_eq_ok] at hrun
    subst hrun
    cases hs with
    | after ht _ => cases ht.symm.trans hfold
  | space c rest hc ih =>
    rw [run_space hc] at hrun ⊢
    exact ih hs hrun
  | token c rest hc ih =>
    rw [run_token hc] at hrun ⊢
    obtain ⟨n, hstep, hrun⟩ := Outcome.bind_eq_ok.mp hrun
    cases hstep' : step build s' position (scan c rest).1 with
    | error fault =>
      obtain ⟨e', rfl, hparts⟩ := Builder.step_refuses hs hstep hstep'
      cases (fold_of_run hrun hparts).symm.trans hfold
      rfl
    | ok n' =>
      obtain ⟨n₁, hstep₁, hn⟩ := Builder.step_forward hs hstep'
      cases hstep.symm.trans hstep₁
      exact ih hn hrun

end Run

/-- Reading with a builder is parsing and folding the builder over the tree, refusals included. -/
theorem read_of_parse {build : Builder ε α} {t : Text} {tree : Tree} (h : parse t = .ok tree) :
    read build t = (build.fold tree).mapError .refused := by
  cases hfold : build.fold tree with
  | ok v => exact read_eq_ok.mpr ⟨tree, h, hfold⟩
  | error e =>
    rw [parse, read] at h
    split at h
    · cases h
    · rename_i hmark
      rw [read, if_neg hmark]
      exact run_refuses (.value .nil) h hfold

end Json

end AddressProtocols
