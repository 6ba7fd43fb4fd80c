import AddressProtocols.CommandLine.Match
import AddressProtocols.Proofs.Outcome

/-!
# What a level reads

* `Level.Ends`: a level ends a run with its help text or with a usage error, and in no other way
  (`Level.read_eq_error`);
* `Level.Step` is one step of using classified arguments; `Level.exists_step_of_readMarks` says that
  all reading proceeds by such steps, and `Level.readMarks_invariant` that what each step preserves
  holds in the end;
* `Reading.From`: what has been read comes from the arguments and is of the kind that the level asks
  for (`Level.from_of_read`), and what the level requires has been found
  (`Level.exists_found_of_read`);
* `Level.eq_nil_of_read`: without options that take a value, only an empty command line has neither
  an operand nor arguments left over. -/

namespace AddressProtocols

namespace CommandLine

/-- The text that is attached to an option, if there is one. -/
def Attached.text? : Attached → Option Text
  | .nothing => none
  | .long t => some t
  | .short t => some t

namespace Level

variable {level : Level}

/-! ### How a level ends a run -/

/-- The run ends with the help text of the level, or because the command line is wrong there. -/
def Ends (level : Level) (o : Outcome) : Prop :=
  o = level.showHelp ∨ ∃ message, o = level.fail message

theorem ends_showHelp (level : Level) : level.Ends level.showHelp := .inl rfl

theorem ends_fail (level : Level) (message : Text) : level.Ends (level.fail message) :=
  .inr ⟨message, rfl⟩

theorem markDashed_eq_error {arg : Text} {o : Outcome} (h : level.markDashed arg = .error o) :
    level.Ends o := by
  rw [markDashed] at h
  split at h
  · cases h
  · split at h <;> cases h
  · cases h
    exact level.ends_fail _

theorem mark_eq_error {arg : Text} {o : Outcome} (h : level.mark arg = .error o) :
    level.Ends o := by
  rw [mark.eq_def] at h
  split at h
  · split at h
    · cases h
    · cases h
    · dsimp only at h
      split at h
      · cases h
      · exact markDashed_eq_error h
  · cases h

theorem marks_eq_error {args : List Text} {o : Outcome} (h : level.marks args = .error o) :
    level.Ends o := by
  induction args with
  | nil => cases h
  | cons arg rest ih =>
    rw [marks] at h
    split at h
    · cases h
    · rcases Outcome.bind_eq_error.mp h with hmark | ⟨m, -, h⟩
      · exact mark_eq_error hmark
      · rcases Outcome.bind_eq_error.mp h with hmarks | ⟨ms, -, h⟩
        · exact ih hmarks
        · cases h

theorem followingValue_eq_error {f : Flag} {items : List (Text × Mark)} {o : Outcome}
    (h : level.followingValue f items = .error o) : level.Ends o := by
  rw [followingValue.eq_def] at h
  split at h
  · cases h
  · cases h
    exact level.ends_fail _

theorem ends_showHelpAfter (level : Level) (rest : List (Text × Mark)) (f : Flag) (letters : Text) :
    level.Ends (level.showHelpAfter rest f letters) := by
  induction letters generalizing f with
  | nil => exact level.ends_showHelp
  | cons letter more ih =>
    rw [showHelpAfter]
    split
    · exact level.ends_fail _
    · split
      · exact ih _
      · exact level.ends_showHelp
      · split
        · exact followingValue_eq_error ‹_›
        · exact level.ends_showHelp

theorem useFlag_eq_error {f : Flag} {attached : Attached} {rest : List (Text × Mark)} {o : Outcome}
    (h : level.useFlag f attached rest = .error o) : level.Ends o := by
  rw [useFlag.eq_def] at h
  split at h
  · exact followingValue_eq_error (Outcome.map_eq_error.mp h)
  · cases h
  · cases h
  · cases h
    exact level.ends_showHelp
  · cases h
    exact level.ends_fail _
  · cases h
    exact level.ends_fail _
  · cases h
    exact level.ends_showHelpAfter _ _ _

theorem takeTail_eq_error {items : List (Text × Mark)} {o : Outcome}
    (h : level.takeTail items = .error o) : level.Ends o := by
  rw [takeTail.eq_def] at h
  split at h
  · cases h
  · cases h
  · split at h
    · cases h
    · split at h
      · cases h
      · cases h
        exact level.ends_fail _
  · split at h
    · dsimp only at h
      split at h
      · cases h
      · cases h
        exact level.ends_fail _
    · cases h

theorem findTail_eq_error {reading : Reading} {items : List (Text × Mark)} {o : Outcome}
    (h : level.findTail reading items = .error o) : level.Ends o := by
  rw [findTail] at h
  split at h
  · cases h
  · exact takeTail_eq_error h

theorem readMarks_eq_error {reading : Reading} {items : List (Text × Mark)} {o : Outcome}
    (h : level.readMarks reading items = .error o) : level.Ends o := by
  fun_induction readMarks level reading items with
  | case1 => cases h
  | case2 _ _ _ ih => exact ih h
  | case3 _ _ _ _ _ _ huse =>
    cases h
    exact useFlag_eq_error huse
  | case4 _ _ _ _ _ _ _ _ ih => exact ih h
  | case5 _ _ _ _ _ _ _ hfind =>
    cases h
    exact findTail_eq_error hfind
  | case6 _ _ _ _ _ _ _ _ _ ih => exact ih h
  | case7 _ _ _ _ _ _ _ _ ih => exact ih h

theorem read_eq_error {args : List Text} {o : Outcome} (h : level.read args = .error o) :
    level.Ends o := by
  rw [read] at h
  rcases Outcome.bind_eq_error.mp h with hmarks | ⟨items, -, h⟩
  · exact marks_eq_error hmarks
  · rcases Outcome.bind_eq_error.mp h with hread | ⟨reading, -, h⟩
    · exact readMarks_eq_error hread
    · split at h
      · cases h
        exact level.ends_fail _
      · cases h

/-! ### Where the parts of a reading come from -/

/-- If an argument is an option, the level has the option and what is attached to it ends the
argument. -/
def WellMarked (level : Level) (item : Text × Mark) : Prop :=
  ∀ f attached, item.2 = .flag f attached → f ∈ level.flags ∧ ∀ t, attached.text? = some t →
    t <:+ item.1

theorem mem_flags_of_mem_flagNames {name : Text} {f : Flag} (h : (name, f) ∈ level.flagNames) :
    f ∈ level.flags := by
  obtain ⟨g, hg, hmem⟩ := List.mem_flatMap.mp h
  obtain ⟨name', -, heq⟩ := List.mem_map.mp hmem
  cases heq
  exact hg

theorem mem_flags_of_findFlag {name : Text} {f : Flag} (h : level.findFlag name = some f) :
    f ∈ level.flags := by
  obtain ⟨before, after, hnames, -⟩ := List.lookup_eq_some_iff.mp h
  have hmem : (name, f) ∈ level.flagNames := by
    rw [hnames]
    exact List.mem_append_right _ List.mem_cons_self
  exact mem_flags_of_mem_flagNames hmem

theorem suffix_of_splitEquals {arg t : Text} (h : (splitEquals arg).2.text? = some t) :
    t <:+ arg := by
  rw [splitEquals] at h
  split at h
  · cases h
  · rename_i hdrop
    have hsuffix := (List.suffix_cons _ _).trans (hdrop ▸ List.drop_suffix _ arg)
    split at h
    · cases h
      exact hsuffix
    · cases h
      exact hsuffix

/-- What an argument may mean is an option of the level, with the end of the argument attached to
it. -/
theorem exists_flag_of_mem_candidates {arg : Text} {c : Text × Mark}
    (h : c ∈ level.candidates arg) :
    ∃ f attached, c.2 = .flag f attached ∧ f ∈ level.flags ∧ ∀ t, attached.text? = some t →
      t <:+ arg := by
  rw [candidates] at h
  split at h
  · obtain ⟨⟨name, f⟩, hmem, hc⟩ := List.mem_filterMap.mp h
    obtain ⟨-, hc⟩ := Option.ite_none_right_eq_some.mp hc
    cases hc
    exact ⟨f, _, rfl, mem_flags_of_mem_flagNames hmem, fun t ht => suffix_of_splitEquals ht⟩
  · obtain ⟨⟨name, f⟩, hmem, hc⟩ := List.mem_filterMap.mp h
    obtain ⟨-, hc⟩ := Option.ite_none_right_eq_some.mp hc
    cases hc
    refine ⟨f, _, rfl, mem_flags_of_mem_flagNames hmem, fun t ht => ?_⟩
    cases ht
    exact List.drop_suffix 2 arg

theorem wellMarked_of_mem_candidates {arg : Text} {c : Text × Mark} (h : c ∈ level.candidates arg) :
    level.WellMarked (arg, c.2) := by
  obtain ⟨f, attached, hflag, hmem, hsuffix⟩ := exists_flag_of_mem_candidates h
  intro f' attached' heq
  cases hflag.symm.trans heq
  exact ⟨hmem, hsuffix⟩

theorem wellMarked_of_markDashed {arg : Text} {m : Mark} (h : level.markDashed arg = .ok m) :
    level.WellMarked (arg, m) := by
  rw [markDashed] at h
  split at h
  · rename_i hcandidates
    cases h
    exact wellMarked_of_mem_candidates (hcandidates ▸ List.mem_cons_self)
  · split at h <;> cases h <;> nofun
  · cases h

theorem wellMarked_of_mark {arg : Text} {m : Mark} (h : level.mark arg = .ok m) :
    level.WellMarked (arg, m) := by
  rw [mark.eq_def] at h
  split at h
  · split at h
    · rename_i hfind
      cases h
      rintro f attached heq
      cases heq
      exact ⟨mem_flags_of_findFlag hfind, nofun⟩
    · cases h
      nofun
    · dsimp only at h
      split at h
      · rename_i hfind
        cases h
        rintro f attached heq
        cases heq
        exact ⟨mem_flags_of_findFlag hfind, fun t ht => suffix_of_splitEquals ht⟩
      · exact wellMarked_of_markDashed h
  · cases h
    nofun

/-- Classification keeps the arguments and their order. -/
theorem marks_eq_ok {args : List Text} {items : List (Text × Mark)}
    (h : level.marks args = .ok items) :
    items.map (·.1) = args ∧ ∀ item ∈ items, level.WellMarked item := by
  induction args generalizing items with
  | nil =>
    cases h
    exact ⟨rfl, nofun⟩
  | cons arg rest ih =>
    rw [marks] at h
    split at h
    · cases h
      have hrest : ∀ item ∈ rest.map (·, Mark.plain), level.WellMarked item :=
        List.forall_mem_map.mpr fun _ _ => nofun
      exact ⟨by simp [Function.comp_def], List.forall_mem_cons.mpr ⟨nofun, hrest⟩⟩
    · obtain ⟨m, hmark, h⟩ := Outcome.bind_eq_ok.mp h
      obtain ⟨ms, hmarks, h⟩ := Outcome.bind_eq_ok.mp h
      cases h
      obtain ⟨hmap, hmarked⟩ := ih hmarks
      exact ⟨by rw [List.map_cons, hmap],
        List.forall_mem_cons.mpr ⟨wellMarked_of_mark hmark, hmarked⟩⟩

theorem mem_of_followingValue {f : Flag} {items : List (Text × Mark)} {t : Text}
    (h : level.followingValue f items = .ok t) : t ∈ items.map (·.1) := by
  rw [followingValue.eq_def] at h
  split at h
  · cases h
    exact List.mem_cons_self
  · cases h

theorem eq_of_attachedValue {t u : Text} (h : attachedValue t = some u) : u = t := by
  rw [attachedValue] at h
  split at h
  · cases h
  · cases h
    rfl

/-- The value of an option is attached to it or follows it. -/
theorem value_of_useFlag {f : Flag} {attached : Attached} {rest : List (Text × Mark)}
    {value : Option Text}
    {more : ℕ} (h : level.useFlag f attached rest = .ok (value, more)) {t : Text}
    (ht : value = some t) : attached.text? = some t ∨ t ∈ rest.map (·.1) := by
  subst ht
  rw [useFlag.eq_def] at h
  split at h
  · obtain ⟨u, hu, heq⟩ := Outcome.map_eq_ok.mp h
    cases heq
    exact .inr (mem_of_followingValue hu)
  · obtain ⟨heq, -⟩ := Prod.mk.inj (Except.ok.inj h)
    exact .inl (congrArg some (eq_of_attachedValue heq).symm)
  · obtain ⟨heq, -⟩ := Prod.mk.inj (Except.ok.inj h)
    exact .inl (congrArg some (eq_of_attachedValue heq).symm)
  · cases h
  · cases h
  · cases h
  · cases h

/-- An option that shows the help text ends the run. -/
theorem value_kind_of_useFlag {f : Flag} {attached : Attached} {rest : List (Text × Mark)}
    {result : Option Text × ℕ} (h : level.useFlag f attached rest = .ok result) :
      f.kind ≠ .help := by
  intro hkind
  rw [useFlag.eq_def, hkind] at h
  split at h <;> simp_all

end Level

/-- What an operand took is of the kind that was asked for, and comes from the arguments. -/
def Tail.Fits (args : List Text) : Tail → Found → Prop
  | .text _, .text t => t ∈ args
  | .integer _, .integer _ => True
  | .command _ _ commands, .command name rest => name ∈ commands.map (·.1) ∧ rest ⊆ args
  | _, _ => False

theorem Tail.Fits.mono {args args' : List Text} {tail : Tail} {found : Found}
    (h : tail.Fits args found) (hsub : args ⊆ args') : tail.Fits args' found := by
  cases tail <;> cases found <;> try exact h
  · exact hsub h
  · exact ⟨h.1, List.Subset.trans h.2 hsub⟩

section Fits

variable {args : List Text} {label : Text} {found : Found}

theorem Tail.fits_text : (Tail.text label).Fits args found ↔ ∃ t ∈ args, found = .text t := by
  cases found <;> simp [Fits]

theorem Tail.fits_integer : (Tail.integer label).Fits args found ↔ ∃ n, found = .integer n := by
  cases found <;> simp [Fits]

theorem Tail.fits_command {required : Bool} {commands : List (Text × Text)} :
    (Tail.command label required commands).Fits args found ↔
      ∃ name rest, name ∈ commands.map (·.1) ∧ rest ⊆ args ∧ found = .command name rest := by
  cases found <;> simp [Fits]

end Fits

/-- What has been read comes from the arguments. -/
structure Reading.From (args : List Text) (tail : Tail) (reading : Reading) : Prop where
  value : ∀ t, reading.value = some t → ∃ arg ∈ args, t <:+ arg
  found : ∀ f, reading.found = some f → tail.Fits args f

namespace Level

variable {level : Level}

theorem mem_of_takePlain {items : List (Text × Mark)} {arg : Text} {more : ℕ}
    (h : takePlain items = some (arg, more)) : arg ∈ items.map (·.1) := by
  rw [takePlain.eq_def] at h
  split at h
  · cases h
    exact List.mem_cons_self
  · cases h
    exact List.mem_cons_self
  · cases h
    exact List.mem_cons_of_mem _ List.mem_cons_self
  · cases h

theorem fits_of_takeTail {items : List (Text × Mark)} {found : Found} {more : ℕ}
    (h : level.takeTail items = .ok (some (found, more))) :
      level.tail.Fits (items.map (·.1)) found := by
  rw [takeTail.eq_def] at h
  split at h
  · cases h
  · rename_i htail
    obtain ⟨⟨arg, n⟩, htake, heq⟩ := Option.map_eq_some_iff.mp (Except.ok.inj h)
    cases heq
    rw [htail]
    exact mem_of_takePlain htake
  · rename_i htail
    rw [htail]
    split at h
    · cases h
    · split at h
      · cases h
        trivial
      · cases h
  · rename_i htail
    rw [htail]
    split at h
    · dsimp only at h
      split at h
      · rename_i hcontains
        cases h
        exact ⟨List.contains_iff_mem.mp hcontains, List.subset_cons_self _ _⟩
      · cases h
    · cases h

/-! ### Steps -/

/-- One step of using classified arguments, on what has been read and what is left: an unknown
option is left over, an option takes its value, the operand is found, or plain arguments are left
over. -/
inductive Step (level : Level) :
    Reading × List (Text × Mark) → Reading × List (Text × Mark) → Prop
  | unknown {reading : Reading} {arg : Text} {rest : List (Text × Mark)} :
    Step level (reading, (arg, .unknownFlag) :: rest)
      ({ reading with extras := reading.extras ++ [arg] }, rest)
  | flag {reading : Reading} {arg : Text} {f : Flag} {attached : Attached}
    {rest : List (Text × Mark)}
      {value : Option Text} {more : ℕ} (huse : level.useFlag f attached rest = .ok (value, more)) :
    Step level (reading, (arg, .flag f attached) :: rest) ({ reading with value }, rest.drop more)
  | operand {reading : Reading} {item : Text × Mark} {rest : List (Text × Mark)} {found : Found}
      {more : ℕ} (hfound : reading.found = none)
      (htake : level.takeTail (item :: rest) = .ok (some (found, more))) :
    Step level (reading, item :: rest) ({ reading with found := some found }, rest.drop more)
  | skip {reading : Reading} {arg : Text} {m : Mark} {rest : List (Text × Mark)}
      {skipped : List Text} :
    Step level (reading, (arg, m) :: rest)
      ({ reading with extras := reading.extras ++ arg :: skipped }, rest.drop skipped.length)

/-- Whatever is read from some arguments is read in a step and from what the step leaves. -/
theorem exists_step_of_readMarks {reading result : Reading} {item : Text × Mark}
    {rest : List (Text × Mark)} (h : level.readMarks reading (item :: rest) = .ok result) :
    ∃ s, level.Step (reading, item :: rest) s ∧ s.2.length ≤ rest.length ∧
      level.readMarks s.1 s.2 = .ok result := by
  have hdrop : ∀ more, (rest.drop more).length ≤ rest.length := fun more => by
    rw [List.length_drop]
    exact Nat.sub_le _ _
  obtain ⟨arg, m⟩ := item
  rw [readMarks.eq_def] at h
  split at h
  · rename_i heq
    cases heq
  · rename_i heq
    cases heq
    exact ⟨_, .unknown, Nat.le_refl _, h⟩
  · rename_i heq
    cases heq
    split at h
    · cases h
    · exact ⟨_, .flag ‹_›, hdrop _, h⟩
  · rename_i heq
    cases heq
    split at h
    · cases h
    · rename_i hfind
      rw [findTail] at hfind
      split at hfind
      · cases hfind
      · rename_i hfound
        exact ⟨_, .operand (by simpa using hfound) hfind, hdrop _, h⟩
    · exact ⟨_, .skip, hdrop _, h⟩

/-- What every step preserves holds when all arguments have been used. -/
theorem readMarks_invariant {P : Reading × List (Text × Mark) → Prop}
    (hstep : ∀ s s', level.Step s s' → P s → P s') {reading result : Reading}
    {items : List (Text × Mark)}
    (h : level.readMarks reading items = .ok result) (hstart : P (reading, items)) :
      P (result, []) := by
  induction hlength : items.length using Nat.strongRecOn generalizing reading items with
  | ind n ih =>
    cases items with
    | nil =>
      rw [readMarks] at h
      cases h
      exact hstart
    | cons item rest =>
      obtain ⟨s, hs, hshorter, h⟩ := exists_step_of_readMarks h
      refine ih s.2.length ?_ h (hstep _ _ hs hstart) rfl
      rw [← hlength, List.length_cons]
      omega

theorem from_of_readMarks {args : List Text} {reading : Reading} {items : List (Text × Mark)}
    (h : level.readMarks ⟨none, none, []⟩ items = .ok reading) (hargs : items.map (·.1) = args)
    (hmarked : ∀ item ∈ items, level.WellMarked item) : reading.From args level.tail := by
  have hstep : ∀ s s', level.Step s s' →
      (s.1.From args level.tail ∧ ∀ item ∈ s.2, item.1 ∈ args ∧ level.WellMarked item) →
      (s'.1.From args level.tail ∧ ∀ item ∈ s'.2, item.1 ∈ args ∧ level.WellMarked item) := by
    rintro s s' hs ⟨⟨hvalue, hfound⟩, hitems⟩
    cases hs with
    | unknown => exact ⟨⟨hvalue, hfound⟩, (List.forall_mem_cons.mp hitems).2⟩
    | flag huse =>
      obtain ⟨⟨harg, hattached⟩, hrest⟩ := List.forall_mem_cons.mp hitems
      refine ⟨⟨fun t ht => ?_, hfound⟩, fun item hitem => hrest item (List.mem_of_mem_drop hitem)⟩
      rcases value_of_useFlag huse ht with hsuffix | hmem
      · exact ⟨_, harg, (hattached _ _ rfl).2 t hsuffix⟩
      · obtain ⟨item, hitem, rfl⟩ := List.mem_map.mp hmem
        exact ⟨_, (hrest item hitem).1, List.suffix_refl _⟩
    | operand _ htake =>
      refine ⟨⟨hvalue, fun f hf => ?_⟩, fun item hitem =>
        hitems item (List.mem_cons_of_mem _ (List.mem_of_mem_drop hitem))⟩
      cases hf
      refine (fits_of_takeTail htake).mono fun arg harg => ?_
      obtain ⟨item, hitem, rfl⟩ := List.mem_map.mp harg
      exact (hitems item hitem).1
    | skip =>
      exact ⟨⟨hvalue, hfound⟩, fun item hitem =>
        hitems item (List.mem_cons_of_mem _ (List.mem_of_mem_drop hitem))⟩
  refine (readMarks_invariant hstep h ⟨⟨nofun, nofun⟩, fun item hitem =>
    ⟨?_, hmarked item hitem⟩⟩).1
  rw [← hargs]
  exact List.mem_map_of_mem hitem

/-- Without options that take a value, whatever stands on the command line is the operand or is left
over. -/
theorem eq_nil_of_readMarks {reading : Reading} {items : List (Text × Mark)}
    (h : level.readMarks ⟨none, none, []⟩ items = .ok reading)
    (hmarked : ∀ item ∈ items, level.WellMarked item)
    (hflags : ∀ f ∈ level.flags, f.kind = .help) (hfound : reading.found = none)
    (hextras : reading.extras = []) : items = [] := by
  have hstep : ∀ s s', level.Step s s' →
      (s.1.found.isSome ∨ s.1.extras ≠ []) → (s'.1.found.isSome ∨ s'.1.extras ≠ []) := by
    intro s s' hs hused
    cases hs with
    | unknown => exact .inr (by simp)
    | flag => exact hused
    | operand => exact .inl rfl
    | skip => exact .inr (by simp)
  cases items with
  | nil => rfl
  | cons item rest =>
    obtain ⟨s, hs, -, h⟩ := exists_step_of_readMarks h
    have hfirst : s.1.found.isSome ∨ s.1.extras ≠ [] := by
      cases hs with
      | unknown => exact .inr (by simp)
      | flag huse =>
        obtain ⟨hmem, -⟩ := (List.forall_mem_cons.mp hmarked).1 _ _ rfl
        exact absurd (hflags _ hmem) (value_kind_of_useFlag huse)
      | operand => exact .inl rfl
      | skip => exact .inr (by simp)
    rcases readMarks_invariant hstep h hfirst with hsome | hne
    · rw [hfound] at hsome
      cases hsome
    · exact absurd hextras hne

/-! ### Readings -/

theorem read_eq_ok {args : List Text} {reading : Reading} :
    level.read args = .ok reading ↔ ∃ items, level.marks args = .ok items ∧
      level.readMarks ⟨none, none, []⟩ items = .ok reading ∧
      (reading.found = none → level.tail.required? = none) := by
  rw [read, Outcome.bind_eq_ok]
  refine exists_congr fun items => and_congr_right fun _ => ?_
  rw [Outcome.bind_eq_ok]
  constructor
  · rintro ⟨reading', hread, h⟩
    split at h
    · cases h
    · rename_i hnot
      cases h
      refine ⟨hread, fun hfound => ?_⟩
      cases hrequired : level.tail.required? with
      | none => rfl
      | some label => exact absurd hrequired (hnot label hfound)
  · rintro ⟨hread, hrequired⟩
    refine ⟨reading, hread, ?_⟩
    split
    · rename_i hfound hlabel
      rw [hrequired hfound] at hlabel
      cases hlabel
    · rfl

theorem from_of_read {args : List Text} {reading : Reading} (h : level.read args = .ok reading) :
    reading.From args level.tail := by
  obtain ⟨items, hmarks, hread, -⟩ := read_eq_ok.mp h
  obtain ⟨hargs, hmarked⟩ := marks_eq_ok hmarks
  exact from_of_readMarks hread hargs hmarked

/-- What must be there has been found. -/
theorem exists_found_of_read {args : List Text} {reading : Reading}
    (h : level.read args = .ok reading) (hrequired : level.tail.required? ≠ none) :
    ∃ found, reading.found = some found ∧ level.tail.Fits args found := by
  obtain ⟨items, -, -, hnone⟩ := read_eq_ok.mp h
  cases hfound : reading.found with
  | none => exact absurd (hnone hfound) hrequired
  | some found => exact ⟨found, rfl, (from_of_read h).found found hfound⟩

theorem eq_nil_of_read {args : List Text} {reading : Reading} (h : level.read args = .ok reading)
    (hflags : ∀ f ∈ level.flags, f.kind = .help) (hfound : reading.found = none)
    (hextras : reading.extras = []) : args = [] := by
  obtain ⟨items, hmarks, hread, -⟩ := read_eq_ok.mp h
  obtain ⟨hargs, hmarked⟩ := marks_eq_ok hmarks
  rw [← hargs, eq_nil_of_readMarks hread hmarked hflags hfound hextras, List.map_nil]

end Level

end CommandLine

end AddressProtocols
