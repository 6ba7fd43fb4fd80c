import AddressProtocols.Json.Reader
import AddressProtocols.Proofs.Outcome

/-!
# Reading with a builder

The reader calls its builder while it reads.  It could as well read the whole tree first and fold
the builder over it afterwards:

* `Json.Builder.fold` folds a builder over a tree;
* `Json.Builder.FoldsState` relates a state of the machine that builds trees to the state of the
  machine that builds with `build`;
* `Json.Builder.step_forward` and `Json.Builder.step_backward`: the two machines go through related
  states;
* `Json.token_induction`: what holds of the empty text, and is passed on by white space and by
  tokens, holds of every text;
* `Json.read_eq_ok`: reading with a builder succeeds if parsing does and the builder refuses no part
  of the tree. -/

namespace AddressProtocols

namespace Json

variable {ε α : Type}

namespace Builder

variable (build : Builder ε α)

mutual

/-- What a builder makes of a tree, or its first refusal. -/
def fold : Tree → Except ε α
  | .null => .ok build.null
  | .bool b => .ok (build.bool b)
  | .integer numeral => build.integer numeral
  | .real numeral => build.real numeral
  | .constant name => build.constant name
  | .string t => .ok (build.string t)
  | .array items => (foldItems items).map build.array
  | .object members => foldMembers members >>= build.object

def foldItems : List Tree → Except ε (List α)
  | [] => .ok []
  | t :: rest => do return (← fold t) :: (← foldItems rest)

def foldMembers : List (Text × Tree) → Except ε (List (Text × α))
  | [] => .ok []
  | (name, t) :: rest => do return (name, ← fold t) :: (← foldMembers rest)

end

/-- `w` is the member `m` with its tree folded. -/
def FoldsMember (m : Text × Tree) (w : Text × α) : Prop := m.1 = w.1 ∧ build.fold m.2 = .ok w.2

variable {build}

theorem foldItems_eq_ok {items : List Tree} {vs : List α} :
    build.foldItems items = .ok vs ↔ List.Forall₂ (fun t v => build.fold t = .ok v) items vs := by
  induction items generalizing vs with
  | nil => simp [foldItems, eq_comm]
  | cons t rest ih =>
    rw [foldItems, List.forall₂_cons_left_iff, Outcome.bind_eq_ok]
    simp only [Outcome.bind_pure_eq_map, Outcome.map_cons_eq_ok, ih]
    constructor
    · intro h
      obtain ⟨v, hv, vs', hvs, rfl⟩ := h
      exact ⟨v, vs', hv, hvs, rfl⟩
    · intro h
      obtain ⟨v, vs', hv, hvs, rfl⟩ := h
      exact ⟨v, hv, vs', hvs, rfl⟩

theorem foldMembers_eq_ok {members : List (Text × Tree)} {ws : List (Text × α)} :
    build.foldMembers members = .ok ws ↔ List.Forall₂ build.FoldsMember members ws := by
  induction members generalizing ws with
  | nil => simp [foldMembers, eq_comm]
  | cons m rest ih =>
    obtain ⟨name, t⟩ := m
    rw [foldMembers, List.forall₂_cons_left_iff, Outcome.bind_eq_ok]
    simp only [Outcome.bind_pure_eq_map, Outcome.map_cons_eq_ok, ih]
    constructor
    · intro h
      obtain ⟨v, hv, ws', hws, rfl⟩ := h
      exact ⟨(name, v), ws', ⟨rfl, hv⟩, hws, rfl⟩
    · intro h
      obtain ⟨⟨-, v⟩, ws', ⟨rfl, hv⟩, hws, rfl⟩ := h
      exact ⟨v, hv, ws', hws, rfl⟩

/-! ### Related states -/

variable (build)

/-- The frame on the right holds what `build` makes of the trees in the frame on the left. -/
inductive FoldsFrame : Frame Tree → Frame α → Prop where
  | array {items : List Tree} {vs : List α}
      (hitems : List.Forall₂ (fun t v => build.fold t = .ok v) items vs) :
      FoldsFrame (.array items) (.array vs)
  | object {members : List (Text × Tree)} {ws : List (Text × α)} {name : Text}
      (hmembers : List.Forall₂ build.FoldsMember members ws) :
      FoldsFrame (.object members name) (.object ws name)

/-- The same for lists of frames. -/
def FoldsFrames : List (Frame Tree) → List (Frame α) → Prop := List.Forall₂ build.FoldsFrame

/-- The same for states. -/
inductive FoldsState : State Tree → State α → Prop where
  | value {fs : List (Frame Tree)} {fs' : List (Frame α)} (hfs : build.FoldsFrames fs fs') :
      FoldsState (.value fs) (.value fs')
  | firstItem {fs : List (Frame Tree)} {fs' : List (Frame α)} (hfs : build.FoldsFrames fs fs') :
      FoldsState (.firstItem fs) (.firstItem fs')
  | firstName {fs : List (Frame Tree)} {fs' : List (Frame α)} (hfs : build.FoldsFrames fs fs') :
      FoldsState (.firstName fs) (.firstName fs')
  | name {members : List (Text × Tree)} {ws : List (Text × α)} {fs : List (Frame Tree)}
      {fs' : List (Frame α)} (hmembers : List.Forall₂ build.FoldsMember members ws)
      (hfs : build.FoldsFrames fs fs') : FoldsState (.name members fs) (.name ws fs')
  | colon {members : List (Text × Tree)} {ws : List (Text × α)} {name : Text}
      {fs : List (Frame Tree)} {fs' : List (Frame α)}
      (hmembers : List.Forall₂ build.FoldsMember members ws) (hfs : build.FoldsFrames fs fs') :
      FoldsState (.colon members name fs) (.colon ws name fs')
  | after {t : Tree} {v : α} {fs : List (Frame Tree)} {fs' : List (Frame α)}
      (ht : build.fold t = .ok v) (hfs : build.FoldsFrames fs fs') :
      FoldsState (.after t fs) (.after v fs')

variable {build} {fs : List (Frame Tree)} {fs' : List (Frame α)} {s n : State Tree}
  {s' n' : State α} {position : ℕ} {token : Token}

theorem fold_array {items : List Tree} {vs : List α}
    (h : List.Forall₂ (fun t v => build.fold t = .ok v) items vs) :
    build.fold (.array items.reverse) = .ok (build.array vs.reverse) := by
  rw [fold, foldItems_eq_ok.mpr (List.rel_reverse h)]
  rfl

theorem fold_object {members : List (Text × Tree)} {ws : List (Text × α)}
    (h : List.Forall₂ build.FoldsMember members ws) :
    build.fold (.object members.reverse) = build.object ws.reverse := by
  rw [fold, foldMembers_eq_ok.mpr (List.rel_reverse h)]
  rfl

theorem descend_eq_ok {frames : List (Frame α)} {next n : State α} :
    (descend frames next : Except (Fault ε) (State α)) = .ok n ↔
      frames.length < maxDepth ∧ n = next := by
  rw [descend]
  split
  · rename_i hdepth
    simp [hdepth, eq_comm]
  · rename_i hdepth
    simp [hdepth]

/-! ### Forward -/

theorem complete_forward {t : Tree} (hfs : build.FoldsFrames fs fs')
    (h : complete fs' (build.fold t) = .ok n') : build.FoldsState (.after t fs) n' := by
  cases ht : build.fold t with
  | error reason =>
    rw [ht] at h
    cases h
  | ok v =>
    rw [ht] at h
    cases h
    exact .after ht hfs

theorem stepValue_forward (hfs : build.FoldsFrames fs fs')
    (h : stepValue build fs' position token = .ok n') :
    ∃ n, stepValue treeBuilder fs position token = .ok n ∧ build.FoldsState n n' := by
  cases token with
  | null =>
    cases h
    exact ⟨_, rfl, .after rfl hfs⟩
  | bool b =>
    cases h
    exact ⟨_, rfl, .after rfl hfs⟩
  | string t =>
    cases h
    exact ⟨_, rfl, .after rfl hfs⟩
  | integer numeral => exact ⟨_, rfl, complete_forward (t := .integer numeral) hfs h⟩
  | real numeral => exact ⟨_, rfl, complete_forward (t := .real numeral) hfs h⟩
  | constant name => exact ⟨_, rfl, complete_forward (t := .constant name) hfs h⟩
  | leftBracket =>
    obtain ⟨hdepth, rfl⟩ := descend_eq_ok.mp h
    rw [← hfs.length_eq] at hdepth
    exact ⟨_, descend_eq_ok.mpr ⟨hdepth, rfl⟩, .firstItem hfs⟩
  | leftBrace =>
    obtain ⟨hdepth, rfl⟩ := descend_eq_ok.mp h
    rw [← hfs.length_eq] at hdepth
    exact ⟨_, descend_eq_ok.mpr ⟨hdepth, rfl⟩, .firstName hfs⟩
  | rightBracket | rightBrace | comma | colon | badString | unknown => cases h

theorem stepName_forward {members : List (Text × Tree)} {ws : List (Text × α)}
    (hmembers : List.Forall₂ build.FoldsMember members ws) (hfs : build.FoldsFrames fs fs')
    (h : (stepName ws fs' position token : Except (Fault ε) (State α)) = .ok n') :
    ∃ n, (stepName members fs position token : Except (Fault Empty) (State Tree)) = .ok n ∧
      build.FoldsState n n' := by
  cases token with
  | string t =>
    cases h
    exact ⟨_, rfl, .colon hmembers hfs⟩
  | _ => cases h

theorem stepAfter_forward {t : Tree} {v : α} (ht : build.fold t = .ok v)
    (hfs : build.FoldsFrames fs fs') (h : stepAfter build v position fs' token = .ok n') :
    ∃ n, stepAfter treeBuilder t position fs token = .ok n ∧ build.FoldsState n n' := by
  cases hfs with
  | nil => cases h
  | cons hframe hrest =>
    cases hframe with
    | @array items vs hitems =>
      have hall : List.Forall₂ (fun t v => build.fold t = .ok v) (t :: items) (v :: vs) :=
        .cons ht hitems
      cases token with
      | comma =>
        cases h
        exact ⟨_, rfl, .value (.cons (.array hall) hrest)⟩
      | rightBracket =>
        cases h
        exact ⟨_, rfl, .after (fold_array hall) hrest⟩
      | _ => cases h
    | @object members ws name hmembers =>
      have hmember : build.FoldsMember (name, t) (name, v) := ⟨rfl, ht⟩
      have hall := List.Forall₂.cons hmember hmembers
      cases token with
      | comma =>
        cases h
        exact ⟨_, rfl, .name hall hrest⟩
      | rightBrace =>
        rw [stepAfter, ← fold_object hall] at h
        exact ⟨_, rfl, complete_forward hrest h⟩
      | _ => cases h

/-- A step with `build` is a step that builds trees. -/
theorem step_forward (hs : build.FoldsState s s') (h : step build s' position token = .ok n') :
    ∃ n, step treeBuilder s position token = .ok n ∧ build.FoldsState n n' := by
  cases hs with
  | value hfs => exact stepValue_forward hfs h
  | firstItem hfs =>
    rw [step] at h ⊢
    split at h
    · rename_i hend
      cases h
      exact ⟨_, if_pos hend, .after rfl hfs⟩
    · rename_i hend
      rw [if_neg hend]
      exact stepValue_forward (.cons (.array .nil) hfs) h
  | firstName hfs =>
    rw [step] at h ⊢
    split at h
    · rename_i hend
      rw [if_pos hend]
      exact ⟨_, rfl, complete_forward (t := .object []) hfs h⟩
    · rename_i hend
      rw [if_neg hend]
      exact stepName_forward .nil hfs h
  | name hmembers hfs => exact stepName_forward hmembers hfs h
  | colon hmembers hfs =>
    rw [step] at h ⊢
    split at h
    · rename_i hcolon
      cases h
      exact ⟨_, if_pos hcolon, .value (.cons (.object hmembers) hfs)⟩
    · cases h
  | after ht hfs => exact stepAfter_forward ht hfs h

/-! ### Backward -/

theorem complete_backward {t : Tree} (h : build.FoldsState (.after t fs) n') :
    ∃ fs', build.FoldsFrames fs fs' ∧ complete fs' (build.fold t) = .ok n' := by
  cases h with
  | @after _ v _ fs' ht hfs => exact ⟨fs', hfs, by rw [ht]; rfl⟩

theorem stepValue_backward (h : stepValue treeBuilder fs position token = .ok n)
    (hn : build.FoldsState n n') :
    ∃ fs', build.FoldsFrames fs fs' ∧ stepValue build fs' position token = .ok n' := by
  cases token with
  | null | bool b | string t | integer numeral | real numeral | constant name =>
    cases h
    exact complete_backward hn
  | leftBracket =>
    obtain ⟨hdepth, rfl⟩ := descend_eq_ok.mp h
    cases hn with
    | firstItem hfs =>
      rw [hfs.length_eq] at hdepth
      exact ⟨_, hfs, descend_eq_ok.mpr ⟨hdepth, rfl⟩⟩
  | leftBrace =>
    obtain ⟨hdepth, rfl⟩ := descend_eq_ok.mp h
    cases hn with
    | firstName hfs =>
      rw [hfs.length_eq] at hdepth
      exact ⟨_, hfs, descend_eq_ok.mpr ⟨hdepth, rfl⟩⟩
  | rightBracket | rightBrace | comma | colon | badString | unknown => cases h

theorem stepName_backward {members : List (Text × Tree)}
    (h : (stepName members fs position token : Except (Fault Empty) (State Tree)) = .ok n)
    (hn : build.FoldsState n n') :
    ∃ ws fs', List.Forall₂ build.FoldsMember members ws ∧ build.FoldsFrames fs fs' ∧
      (stepName ws fs' position token : Except (Fault ε) (State α)) = .ok n' := by
  cases token with
  | string t =>
    cases h
    cases hn with
    | colon hmembers hfs => exact ⟨_, _, hmembers, hfs, rfl⟩
  | _ => cases h

theorem stepAfter_backward {t : Tree} (h : stepAfter treeBuilder t position fs token = .ok n)
    (hn : build.FoldsState n n') :
    ∃ v fs', build.fold t = .ok v ∧ build.FoldsFrames fs fs' ∧
      stepAfter build v position fs' token = .ok n' := by
  cases fs with
  | nil => cases h
  | cons frame rest =>
    cases frame with
    | array items =>
      cases token with
      | comma =>
        cases h
        cases hn with
        | value hfs =>
          obtain ⟨frame', rest', hframe, hrest, rfl⟩ := List.forall₂_cons_left_iff.mp hfs
          cases hframe with
          | array hitems =>
            obtain ⟨v, vs, hv, hvs, rfl⟩ := List.forall₂_cons_left_iff.mp hitems
            exact ⟨v, _, hv, .cons (.array hvs) hrest, rfl⟩
      | rightBracket =>
        cases h
        cases hn with
        | after hfold hfs =>
          obtain ⟨vs, hvs, rfl⟩ := Outcome.map_eq_ok.mp hfold
          have hitems := List.rel_reverse (foldItems_eq_ok.mp hvs)
          rw [List.reverse_reverse] at hitems
          obtain ⟨v, vs', hv, hvs', heq⟩ := List.forall₂_cons_left_iff.mp hitems
          refine ⟨v, _, hv, .cons (.array hvs') hfs, ?_⟩
          rw [stepAfter, ← heq, List.reverse_reverse]
      | _ => cases h
    | object members name =>
      cases token with
      | comma =>
        cases h
        cases hn with
        | name hmembers hfs =>
          obtain ⟨⟨-, v⟩, ws, ⟨rfl, hv⟩, hws, rfl⟩ := List.forall₂_cons_left_iff.mp hmembers
          exact ⟨v, _, hv, .cons (.object hws) hfs, rfl⟩
      | rightBrace =>
        cases h
        cases hn with
        | after hfold hfs =>
          obtain ⟨ws, hws, hobject⟩ := Outcome.bind_eq_ok.mp hfold
          have hmembers := List.rel_reverse (foldMembers_eq_ok.mp hws)
          rw [List.reverse_reverse] at hmembers
          obtain ⟨⟨-, v⟩, ws', ⟨rfl, hv⟩, hws', heq⟩ := List.forall₂_cons_left_iff.mp hmembers
          refine ⟨v, _, hv, .cons (.object hws') hfs, ?_⟩
          rw [stepAfter, ← heq, List.reverse_reverse, hobject]
          rfl
      | _ => cases h

/-- A step that builds trees, to a state in which `build` refuses nothing, is a step with
`build`. -/
theorem step_backward (h : step treeBuilder s position token = .ok n)
    (hn : build.FoldsState n n') :
    ∃ s', build.FoldsState s s' ∧ step build s' position token = .ok n' := by
  cases s with
  | value fs =>
    obtain ⟨fs', hfs, hstep⟩ := stepValue_backward h hn
    exact ⟨_, .value hfs, hstep⟩
  | firstItem fs =>
    simp only [step] at h ⊢
    split at h
    · rename_i hend
      cases h
      obtain ⟨fs', hfs, hstep⟩ := complete_backward hn
      exact ⟨_, .firstItem hfs, (if_pos hend).trans hstep⟩
    · rename_i hend
      obtain ⟨fs', hfs, hstep⟩ := stepValue_backward h hn
      obtain ⟨frame', fs', hframe, hrest, rfl⟩ := List.forall₂_cons_left_iff.mp hfs
      cases hframe with
      | array hitems =>
        cases hitems
        exact ⟨_, .firstItem hrest, (if_neg hend).trans hstep⟩
  | firstName fs =>
    simp only [step] at h ⊢
    split at h
    · rename_i hend
      cases h
      obtain ⟨fs', hfs, hstep⟩ := complete_backward hn
      exact ⟨_, .firstName hfs, (if_pos hend).trans hstep⟩
    · rename_i hend
      obtain ⟨ws, fs', hmembers, hfs, hstep⟩ := stepName_backward h hn
      cases hmembers
      exact ⟨_, .firstName hfs, (if_neg hend).trans hstep⟩
  | name members fs =>
    obtain ⟨ws, fs', hmembers, hfs, hstep⟩ := stepName_backward h hn
    exact ⟨_, .name hmembers hfs, hstep⟩
  | colon members name fs =>
    simp only [step] at h ⊢
    split at h
    · rename_i hcolon
      cases h
      cases hn with
      | value hfs =>
        obtain ⟨frame', fs', hframe, hrest, rfl⟩ := List.forall₂_cons_left_iff.mp hfs
        cases hframe with
        | object hmembers => exact ⟨_, .colon hmembers hrest, if_pos hcolon⟩
    · cases h
  | after t fs =>
    obtain ⟨v, fs', ht, hfs, hstep⟩ := stepAfter_backward h hn
    exact ⟨_, .after ht hfs, hstep⟩

end Builder

/-! ### Whole runs -/

section Run

variable {build : Builder ε α} {position : ℕ}

theorem run_space {c : CodePoint} (hc : isSpace c = true) (s : State α) (rest : Text) :
    run build s position (c :: rest) = run build s (position + 1) rest := by
  rw [run, if_pos hc]

theorem run_token {c : CodePoint} (hc : isSpace c = false) (s : State α) (rest : Text) :
    run build s position (c :: rest) =
      step build s position (scan c rest).1 >>= fun next =>
        run build next (position + 1 + (scan c rest).2) (rest.drop (scan c rest).2) := by
  rw [run, if_neg (by rw [hc]; exact Bool.false_ne_true)]
  obtain ⟨token, n⟩ := scan c rest
  dsimp only
  cases step build s position token <;> rfl

/-- Induction along the tokens of a text: white space may be left out, and a token is followed by
what it does not take. -/
theorem token_induction {motive : Text → Prop} (nil : motive [])
    (space : ∀ c rest, isSpace c = true → motive rest → motive (c :: rest))
    (token : ∀ c rest, isSpace c = false → motive (rest.drop (scan c rest).2) → motive (c :: rest))
    (t : Text) : motive t := by
  induction hlength : t.length using Nat.strongRecOn generalizing t with
  | ind length ih =>
    cases t with
    | nil => exact nil
    | cons c rest =>
      rw [List.length_cons] at hlength
      cases hc : isSpace c with
      | true => exact space c rest hc (ih rest.length (by omega) rest rfl)
      | false =>
        refine token c rest hc (ih _ ?_ _ rfl)
        rw [List.length_drop]
        omega

/-- Builders that treat alike every token that can be read run alike. -/
theorem run_congr {build' : Builder ε α}
    (h : ∀ s position c rest, step build s position (scan c rest).1 =
      step build' s position (scan c rest).1) (s : State α) (t : Text) :
    run build s position t = run build' s position t := by
  induction t using token_induction generalizing s position with
  | nil => simp only [run]
  | space c rest hc ih =>
    rw [run_space hc, run_space hc]
    exact ih s
  | token c rest hc ih =>
    rw [run_token hc, run_token hc, h]
    exact congrArg _ (funext fun next => ih next)

theorem finish_eq_ok {s : State α} {v : α} :
    (finish position s : Except (Fault ε) α) = .ok v ↔ s = .after v [] := by
  unfold finish
  split <;> simp_all

/-- A run with `build` is a run that builds a tree of which `build` makes something. -/
theorem run_eq_ok {s : State Tree} {t : Text} {v : α} :
    (∃ s', build.FoldsState s s' ∧ run build s' position t = .ok v) ↔
      ∃ tree, run treeBuilder s position t = .ok tree ∧ build.fold tree = .ok v := by
  induction t using token_induction generalizing s position with
  | nil =>
    simp only [run, finish_eq_ok]
    constructor
    · intro h
      obtain ⟨s', hs, rfl⟩ := h
      cases hs with
      | after ht hfs =>
        cases hfs
        exact ⟨_, rfl, ht⟩
    · intro h
      obtain ⟨tree, rfl, ht⟩ := h
      exact ⟨_, .after ht .nil, rfl⟩
  | space c rest hc ih =>
    simp only [run_space hc]
    exact ih
  | token c rest hc ih =>
    simp only [run_token hc, Outcome.bind_eq_ok]
    constructor
    · intro h
      obtain ⟨s', hs, n', hstep, hrun⟩ := h
      obtain ⟨n, hstep, hn⟩ := Builder.step_forward hs hstep
      obtain ⟨tree, hrun, ht⟩ := ih.mp ⟨n', hn, hrun⟩
      exact ⟨tree, ⟨n, hstep, hrun⟩, ht⟩
    · intro h
      obtain ⟨tree, ⟨n, hstep, hrun⟩, ht⟩ := h
      obtain ⟨n', hn, hrun⟩ := ih.mpr ⟨tree, hrun, ht⟩
      obtain ⟨s', hs, hstep⟩ := Builder.step_backward hstep hn
      exact ⟨s', hs, n', hstep, hrun⟩

end Run

/-- Reading with a builder succeeds if parsing does and the builder refuses no part of the tree. -/
theorem read_eq_ok {build : Builder ε α} {t : Text} {v : α} :
    read build t = .ok v ↔ ∃ tree, parse t = .ok tree ∧ build.fold tree = .ok v := by
  rw [parse, read, read]
  split
  · simp
  · rw [← run_eq_ok]
    constructor
    · intro h
      exact ⟨_, .value .nil, h⟩
    · intro h
      obtain ⟨s', hs, h⟩ := h
      cases hs with
      | value hfs =>
        cases hfs
        exact h

end Json

end AddressProtocols
