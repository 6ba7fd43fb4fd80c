import Mathlib.Data.List.Forall2

/-!
# Computations that may fail

When a sequence of checks succeeds: every check did, and later ones saw what earlier ones gave.
-/

namespace AddressProtocols

namespace Outcome

variable {ε ε' α β γ : Type}

theorem bind_eq_ok {x : Except ε α} {f : α → Except ε β} {b : β} :
    x >>= f = .ok b ↔ ∃ a, x = .ok a ∧ f a = .ok b := by
  cases x with
  | error e => simp [bind, Except.bind]
  | ok a => simp [bind, Except.bind]

theorem bind_eq_error {x : Except ε α} {f : α → Except ε β} {e : ε} :
    x >>= f = .error e ↔ x = .error e ∨ ∃ a, x = .ok a ∧ f a = .error e := by
  cases x with
  | error e' => simp [bind, Except.bind]
  | ok a => simp [bind, Except.bind]

theorem bind_pure_eq_map (x : Except ε α) (f : α → β) : (x >>= fun a => pure (f a)) = x.map f := by
  cases x with
  | error e => rfl
  | ok a => rfl

theorem map_eq_ok {x : Except ε α} {f : α → β} {b : β} :
    x.map f = .ok b ↔ ∃ a, x = .ok a ∧ f a = b := by
  cases x with
  | error e => simp [Except.map]
  | ok a => simp [Except.map]

theorem map_eq_error {x : Except ε α} {f : α → β} {e : ε} : x.map f = .error e ↔ x = .error e := by
  cases x with
  | error e' => simp [Except.map]
  | ok a => simp [Except.map]

/-- A guard lets a computation go on exactly if its condition fails. -/
theorem guard_bind_eq_ok {c : Prop} [Decidable c] {e : ε} {f : PUnit → Except ε β}
    {x : Except ε β} {b : β} :
    (if c then Except.error e >>= f else x) = .ok b ↔ ¬c ∧ x = .ok b := by
  split
  · rename_i hc
    simp [hc, bind, Except.bind]
  · rename_i hc
    simp [hc]

/-- The last step of a list of checks puts its first result in front. -/
theorem map_cons_eq_ok {x : Except ε (List β)} {y : β} {ys : List β} :
    x.map (y :: ·) = .ok ys ↔ ∃ rest, x = .ok rest ∧ ys = y :: rest := by
  rw [map_eq_ok]
  exact exists_congr fun rest => and_congr_right fun _ => eq_comm

theorem mapError_eq_ok {x : Except ε α} {f : ε → ε'} {a : α} :
    x.mapError f = .ok a ↔ x = .ok a := by
  cases x with
  | error e => simp [Except.mapError]
  | ok a' => simp [Except.mapError]

theorem mapError_eq_error {x : Except ε α} {f : ε → ε'} {e' : ε'} :
    x.mapError f = .error e' ↔ ∃ e, x = .error e ∧ f e = e' := by
  cases x with
  | error e => simp [Except.mapError]
  | ok a => simp [Except.mapError]

/-- A list of checks succeeds if each does, and gives what they give, in order. -/
theorem mapM_eq_ok {f : α → Except ε β} {xs : List α} {ys : List β} :
    xs.mapM f = .ok ys ↔ List.Forall₂ (fun x y => f x = .ok y) xs ys := by
  induction xs generalizing ys with
  | nil => simp [pure, Except.pure, eq_comm]
  | cons x xs ih =>
    rw [List.mapM_cons, List.forall₂_cons_left_iff, bind_eq_ok]
    constructor
    · intro h
      obtain ⟨y, hy, h⟩ := h
      obtain ⟨ys', hys, h⟩ := bind_eq_ok.mp h
      cases h
      exact ⟨y, ys', hy, ih.mp hys, rfl⟩
    · intro h
      obtain ⟨y, ys', hy, hys, rfl⟩ := h
      exact ⟨y, hy, bind_eq_ok.mpr ⟨ys', ih.mpr hys, rfl⟩⟩

/-- Two lists of checks, the second on what the first gives, are one list of both checks. -/
theorem exists_mapM_mapM_eq_ok {f : α → Except ε β} {g : β → Except ε γ} {xs : List α}
    {zs : List γ} :
    (∃ ys, xs.mapM f = .ok ys ∧ ys.mapM g = .ok zs) ↔ xs.mapM (fun x => f x >>= g) = .ok zs := by
  simp only [mapM_eq_ok, bind_eq_ok]
  induction xs generalizing zs with
  | nil => simp
  | cons x xs ih =>
    simp only [List.forall₂_cons_left_iff, ← ih]
    constructor
    · intro h
      obtain ⟨_, ⟨y, ys, hxy, hys, rfl⟩, hzs⟩ := h
      obtain ⟨z, zs', hyz, hzs', rfl⟩ := List.forall₂_cons_left_iff.mp hzs
      exact ⟨z, zs', ⟨y, hxy, hyz⟩, ⟨ys, hys, hzs'⟩, rfl⟩
    · intro h
      obtain ⟨z, zs', ⟨y, hxy, hyz⟩, ⟨ys, hys, hzs'⟩, rfl⟩ := h
      exact ⟨y :: ys, ⟨y, ys, hxy, hys, rfl⟩, List.Forall₂.cons hyz hzs'⟩

/-- Checks whose results are converted give the converted results. -/
theorem mapM_map_eq_ok {f : α → Except ε β} {g : β → γ} {xs : List α} {zs : List γ} :
    xs.mapM (fun x => (f x).map g) = .ok zs ↔ ∃ ys, xs.mapM f = .ok ys ∧ zs = ys.map g := by
  have hbind : (fun x => (f x).map g) = fun x => f x >>= fun y => pure (g y) :=
    funext fun x => (bind_pure_eq_map (f x) g).symm
  have hpure : ∀ ys : List β, ys.mapM (fun y => (pure (g y) : Except ε γ)) = .ok (ys.map g) := by
    intro ys
    rw [mapM_eq_ok, List.forall₂_map_right_iff, List.forall₂_same]
    exact fun _ _ => rfl
  simp only [hbind, ← exists_mapM_mapM_eq_ok, hpure, Except.ok.injEq, eq_comm (a := zs)]

theorem exists_mapM_eq_ok {f : α → Except ε β} {xs : List α} (h : ∀ x ∈ xs, ∃ y, f x = .ok y) :
    ∃ ys, xs.mapM f = .ok ys := by
  induction xs with
  | nil => exact ⟨[], rfl⟩
  | cons x xs ih =>
    obtain ⟨⟨y, hy⟩, hrest⟩ := List.forall_mem_cons.mp h
    obtain ⟨ys, hys⟩ := ih hrest
    exact ⟨y :: ys, mapM_eq_ok.mpr (List.Forall₂.cons hy (mapM_eq_ok.mp hys))⟩

/-- A list of checks fails as its first failing check does, whatever comes after. -/
theorem mapM_append_cons_of_error {f : α → Except ε β} {before : List α} {x : α} {e : ε}
    (hbefore : ∀ u ∈ before, ∃ y, f u = .ok y) (hx : f x = .error e) (rest : List α) :
    (before ++ x :: rest).mapM f = .error e := by
  obtain ⟨ys, hys⟩ := exists_mapM_eq_ok hbefore
  rw [List.mapM_append, hys, List.mapM_cons, hx]
  rfl

/-- What a list of checks gives for the checks before one, for that one and for those after it. -/
theorem mapM_append_cons_eq_ok {f : α → Except ε β} {before rest : List α} {x : α} {ys : List β}
    (h : (before ++ x :: rest).mapM f = .ok ys) :
    ∃ earlier y later, before.mapM f = .ok earlier ∧ f x = .ok y ∧ ys = earlier ++ y :: later := by
  rw [List.mapM_append, List.mapM_cons] at h
  obtain ⟨earlier, hearlier, h⟩ := bind_eq_ok.mp h
  obtain ⟨others, hothers, h⟩ := bind_eq_ok.mp h
  obtain ⟨y, hy, hothers⟩ := bind_eq_ok.mp hothers
  obtain ⟨later, -, hlater⟩ := bind_eq_ok.mp hothers
  cases hlater
  cases h
  exact ⟨earlier, y, later, hearlier, hy, rfl⟩

/-- Where the first member stands that breaks off a traversal: at the front or behind it. -/
theorem exists_append_cons_iff {P : α → Prop} {Q : List α → α → Prop} {x : α} {xs : List α} :
    (∃ before y after, x :: xs = before ++ y :: after ∧ (∀ u ∈ before, P u) ∧ Q before y) ↔
      Q [] x ∨ P x ∧ ∃ before y after, xs = before ++ y :: after ∧ (∀ u ∈ before, P u) ∧
        Q (x :: before) y := by
  constructor
  · intro h
    obtain ⟨before, y, after, hsplit, hbefore, hy⟩ := h
    cases before with
    | nil =>
      cases hsplit
      exact .inl hy
    | cons u before =>
      cases hsplit
      obtain ⟨hx, hbefore⟩ := List.forall_mem_cons.mp hbefore
      exact .inr ⟨hx, before, y, after, rfl, hbefore, hy⟩
  · rintro (hx | ⟨hx, before, y, after, rfl, hbefore, hy⟩)
    · exact ⟨[], x, xs, rfl, by simp, hx⟩
    · exact ⟨x :: before, y, after, rfl, List.forall_mem_cons.mpr ⟨hx, hbefore⟩, hy⟩

/-- Whatever a list is related to has a member of the list that it comes from. -/
theorem exists_mem_of_forall₂ {R : α → β → Prop} {xs : List α} {ys : List β}
    (h : List.Forall₂ R xs ys) {y : β} (hy : y ∈ ys) : ∃ x ∈ xs, R x y := by
  induction h with
  | nil => cases hy
  | cons hxy _ ih =>
    rcases List.mem_cons.mp hy with rfl | hy
    · exact ⟨_, List.mem_cons_self, hxy⟩
    · obtain ⟨x, hx, hR⟩ := ih hy
      exact ⟨x, List.mem_cons_of_mem _ hx, hR⟩

/-- What a relation ensures of its second argument holds of all that a list is related to. -/
theorem forall_mem_of_forall₂ {R : α → β → Prop} {P : β → Prop} {xs : List α} {ys : List β}
    (h : List.Forall₂ R xs ys) (hR : ∀ x y, R x y → P y) : ∀ y ∈ ys, P y := by
  induction h with
  | nil => simp
  | cons hxy _ ih => exact List.forall_mem_cons.mpr ⟨hR _ _ hxy, ih⟩

/-- A relation that ties what it admits to its image relates a list to nothing but its images, and
only if it admits every member. -/
theorem forall₂_iff_map {R : α → β → Prop} {f : α → β} {P : α → Prop} {xs : List α} {ys : List β}
    (h : ∀ x ∈ xs, ∀ y, R x y ↔ P x ∧ y = f x) :
    List.Forall₂ R xs ys ↔ (∀ x ∈ xs, P x) ∧ ys = xs.map f := by
  induction xs generalizing ys with
  | nil => simp
  | cons x xs ih =>
    obtain ⟨hx, hxs⟩ := List.forall_mem_cons.mp h
    rw [List.forall₂_cons_left_iff, List.forall_mem_cons, List.map_cons]
    simp only [hx, ih hxs]
    constructor
    · intro h
      obtain ⟨y, ys', ⟨hPx, rfl⟩, ⟨hPxs, rfl⟩, rfl⟩ := h
      exact ⟨⟨hPx, hPxs⟩, rfl⟩
    · intro h
      obtain ⟨⟨hPx, hPxs⟩, rfl⟩ := h
      exact ⟨f x, xs.map f, ⟨hPx, rfl⟩, ⟨hPxs, rfl⟩, rfl⟩

/-- A relation that only holds of equals, and only of some, relates a list to nothing but itself. -/
theorem forall₂_iff_eq {R : β → β → Prop} {P : β → Prop} {xs ys : List β}
    (h : ∀ x ∈ xs, ∀ y, R x y ↔ y = x ∧ P x) :
    List.Forall₂ R xs ys ↔ ys = xs ∧ ∀ x ∈ xs, P x := by
  rw [forall₂_iff_map (f := id) fun x hx y => (h x hx y).trans and_comm, List.map_id, and_comm]

/-- What every successful check ensures holds of all that a list of checks gives. -/
theorem forall_of_mapM_eq_ok {f : α → Except ε β} {xs : List α} {ys : List β} {P : β → Prop}
    (h : xs.mapM f = .ok ys) (hf : ∀ x y, f x = .ok y → P y) : ∀ y ∈ ys, P y :=
  forall_mem_of_forall₂ (mapM_eq_ok.mp h) hf

end Outcome

end AddressProtocols
