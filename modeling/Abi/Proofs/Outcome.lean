/-
  Results that may be errors: when a chain of steps succeeds, and when a walk along a list does.
-/
import Mathlib.Data.List.Forall2

namespace Abi.Outcome

variable {ε α β γ : Type}

theorem bind_eq_ok_iff {x : Except ε α} {f : α → Except ε β} {b : β} :
    (x >>= f) = .ok b ↔ ∃ a, x = .ok a ∧ f a = .ok b := by
  cases x with
  | error e => simp [bind, Except.bind]
  | ok a => simp [bind, Except.bind]

theorem bind_eq_error_iff {x : Except ε α} {f : α → Except ε β} {e : ε} :
    (x >>= f) = .error e ↔ x = .error e ∨ ∃ a, x = .ok a ∧ f a = .error e := by
  cases x with
  | error d => simp [bind, Except.bind]
  | ok a => simp [bind, Except.bind]

theorem map_eq_ok_iff {x : Except ε α} {f : α → β} {b : β} :
    x.map f = .ok b ↔ ∃ a, x = .ok a ∧ f a = b := by
  cases x <;> simp [Except.map]

theorem mapError_eq_ok_iff {x : Except ε α} {f : ε → β} {a : α} :
    x.mapError f = .ok a ↔ x = .ok a := by
  cases x <;> simp [Except.mapError]

theorem bind_pure_eq_map (x : Except ε α) (f : α → β) : (x >>= fun a => pure (f a)) = x.map f := by
  cases x <;> rfl

/-- Without a result there is an error. -/
theorem exists_error_of_ne_ok {x : Except ε α} (h : ∀ a, x ≠ .ok a) : ∃ e, x = .error e := by
  cases x with
  | error e => exact ⟨e, rfl⟩
  | ok a => exact absurd rfl (h a)

theorem map_bind (x : Except ε α) (f : α → Except ε β) (g : β → γ) :
    (x >>= f).map g = x >>= fun a => (f a).map g := by
  cases x <;> rfl

theorem map_map (x : Except ε α) (f : α → β) (g : β → γ) :
    (x.map f).map g = x.map fun a => g (f a) := by
  cases x <;> rfl

/-- Two ways to go on that agree on the result end alike. -/
theorem bind_congr {x : Except ε α} {f g : α → Except ε β} (h : ∀ a, x = .ok a → f a = g a) :
    x >>= f = x >>= g := by
  cases x with
  | error e => rfl
  | ok a => exact h a rfl

/-- What goes on in the same way from two results that look alike ends alike. -/
theorem bind_congr_of_map {x y : Except ε α} {f : α → Except ε β} {g : α → γ}
    (hf : ∀ a b, g a = g b → f a = f b) (h : x.map g = y.map g) : x >>= f = y >>= f := by
  cases x with
  | error e =>
    cases y with
    | error d => cases h; rfl
    | ok b => cases h
  | ok a =>
    cases y with
    | error d => cases h
    | ok b => exact hf a b (Except.ok.inj h)

@[simp] theorem ok_bind (a : α) (f : α → Except ε β) : (Except.ok a >>= f) = f a := rfl

@[simp] theorem error_bind (e : ε) (f : α → Except ε β) :
    (Except.error e >>= f) = .error e := rfl

/-- A walk along a list succeeds exactly if every step does. -/
theorem mapM_eq_ok_iff {f : α → Except ε β} {xs : List α} {ys : List β} :
    xs.mapM f = .ok ys ↔ List.Forall₂ (fun x y => f x = .ok y) xs ys := by
  induction xs generalizing ys with
  | nil => cases ys <;> simp [pure, Except.pure]
  | cons x xs ih =>
    rw [List.mapM_cons, bind_eq_ok_iff, List.forall₂_cons_left_iff]
    constructor
    · intro h
      obtain ⟨y, hy, h⟩ := h
      obtain ⟨zs, hz, h⟩ := bind_eq_ok_iff.1 h
      cases h
      exact ⟨y, zs, hy, ih.1 hz, rfl⟩
    · intro h
      obtain ⟨y, zs, hy, hz, rfl⟩ := h
      exact ⟨y, hy, bind_eq_ok_iff.2 ⟨zs, ih.2 hz, rfl⟩⟩

theorem mapM_cons_eq_ok_iff {f : α → Except ε β} {x : α} {xs : List α} {zs : List β} :
    (x :: xs).mapM f = .ok zs ↔ ∃ y ys, zs = y :: ys ∧ f x = .ok y ∧ xs.mapM f = .ok ys := by
  simp only [mapM_eq_ok_iff, List.forall₂_cons_left_iff]
  constructor
  · intro h
    obtain ⟨y, ys, hy, hys, hz⟩ := h
    exact ⟨y, ys, hz, hy, hys⟩
  · intro h
    obtain ⟨y, ys, hz, hy, hys⟩ := h
    exact ⟨y, ys, hy, hys, hz⟩

/-- A walk along two lists in a row gives the results of the one and then those of the other. -/
theorem mapM_append_eq_ok_iff {f : α → Except ε β} {xs ys : List α} {zs : List β} :
    (xs ++ ys).mapM f = .ok zs ↔
      ∃ us vs, zs = us ++ vs ∧ xs.mapM f = .ok us ∧ ys.mapM f = .ok vs := by
  rw [List.mapM_append, bind_eq_ok_iff]
  constructor
  · intro h
    obtain ⟨us, hu, h⟩ := h
    obtain ⟨vs, hv, h⟩ := bind_eq_ok_iff.1 h
    cases h
    exact ⟨us, vs, rfl, hu, hv⟩
  · intro h
    obtain ⟨us, vs, rfl, hu, hv⟩ := h
    exact ⟨us, hu, bind_eq_ok_iff.2 ⟨vs, hv, rfl⟩⟩

/-- The results of a walk can be changed one by one on the way. -/
theorem map_mapM (f : α → Except ε β) (g : β → γ) (xs : List α) :
    (xs.mapM f).map (List.map g) = xs.mapM fun x => (f x).map g := by
  induction xs with
  | nil => rfl
  | cons x xs ih =>
    rw [List.mapM_cons, List.mapM_cons, ← ih, map_bind]
    cases f x with
    | error e => rfl
    | ok y => cases xs.mapM f <;> rfl

/-- Walks that agree on every step agree. -/
theorem mapM_congr {f g : α → Except ε β} {xs : List α} (h : ∀ x ∈ xs, f x = g x) :
    xs.mapM f = xs.mapM g := by
  induction xs with
  | nil => rfl
  | cons x xs ih =>
    rw [List.forall_mem_cons] at h
    rw [List.mapM_cons, List.mapM_cons, h.1, ih h.2]

/-- A walk succeeds if every step does. -/
theorem exists_mapM {f : α → Except ε β} {xs : List α} (h : ∀ x ∈ xs, ∃ y, f x = .ok y) :
    ∃ ys, xs.mapM f = .ok ys := by
  induction xs with
  | nil => exact ⟨[], rfl⟩
  | cons x xs ih =>
    rw [List.forall_mem_cons] at h
    obtain ⟨y, hy⟩ := h.1
    obtain ⟨ys, hys⟩ := ih h.2
    exact ⟨y :: ys, mapM_cons_eq_ok_iff.2 ⟨y, ys, rfl, hy, hys⟩⟩

/-- A walk fails with the error of some step. -/
theorem exists_of_mapM_eq_error {f : α → Except ε β} {xs : List α} {e : ε}
    (h : xs.mapM f = .error e) : ∃ x ∈ xs, f x = .error e := by
  induction xs with
  | nil => cases h
  | cons x xs ih =>
    rw [List.mapM_cons] at h
    cases hx : f x with
    | error d =>
      rw [hx, error_bind] at h
      cases h
      exact ⟨x, List.mem_cons_self .., hx⟩
    | ok y =>
      cases hxs : xs.mapM f with
      | error d =>
        rw [hx, hxs] at h
        cases h
        obtain ⟨z, hz, hf⟩ := ih hxs
        exact ⟨z, List.mem_cons_of_mem x hz, hf⟩
      | ok ys =>
        rw [hx, hxs] at h
        cases h

/-- Every result of a walk is the result of some step. -/
theorem exists_of_mem_mapM {f : α → Except ε β} {xs : List α} {ys : List β} {y : β}
    (h : xs.mapM f = .ok ys) (hy : y ∈ ys) : ∃ x ∈ xs, f x = .ok y := by
  rw [mapM_eq_ok_iff] at h
  induction h with
  | nil => exact absurd hy List.not_mem_nil
  | @cons x z xs ys hz _ ih =>
    rcases List.mem_cons.1 hy with rfl | hy
    · exact ⟨x, List.mem_cons_self .., hz⟩
    · obtain ⟨w, hw, hf⟩ := ih hy
      exact ⟨w, List.mem_cons_of_mem x hw, hf⟩

/-- Every step of a walk that succeeds has a result. -/
theorem exists_result_of_mapM {f : α → Except ε β} {xs : List α} {ys : List β} {x : α}
    (h : xs.mapM f = .ok ys) (hx : x ∈ xs) : ∃ y ∈ ys, f x = .ok y := by
  rw [mapM_eq_ok_iff] at h
  induction h with
  | nil => exact absurd hx List.not_mem_nil
  | @cons z y xs ys hz _ ih =>
    rcases List.mem_cons.1 hx with rfl | hx
    · exact ⟨y, List.mem_cons_self .., hz⟩
    · obtain ⟨w, hw, hf⟩ := ih hx
      exact ⟨w, List.mem_cons_of_mem y hw, hf⟩

/-- The result of a step stands where the step does. -/
theorem getElem?_of_mapM {f : α → Except ε β} {xs : List α} {ys : List β} {i : Nat} {x : α}
    (h : xs.mapM f = .ok ys) (hx : xs[i]? = some x) : ∃ y, ys[i]? = some y ∧ f x = .ok y := by
  rw [mapM_eq_ok_iff, List.forall₂_iff_get] at h
  obtain ⟨hl, h⟩ := h
  obtain ⟨hi, rfl⟩ := List.getElem?_eq_some_iff.1 hx
  exact ⟨ys[i], List.getElem?_eq_getElem (hl ▸ hi), h i hi (hl ▸ hi)⟩

/-- Another step has its result in the same place. -/
theorem mapM_set {f : α → Except ε β} {xs : List α} {ys : List β} {x : α} {y : β}
    (h : xs.mapM f = .ok ys) (i : Nat) (hx : f x = .ok y) :
    (xs.set i x).mapM f = .ok (ys.set i y) := by
  induction xs generalizing ys i with
  | nil =>
    cases h
    rfl
  | cons z xs ih =>
    obtain ⟨w, ws, rfl, hz, hxs⟩ := mapM_cons_eq_ok_iff.1 h
    cases i with
    | zero => exact mapM_cons_eq_ok_iff.2 ⟨y, ws, rfl, hx, hxs⟩
    | succ i => exact mapM_cons_eq_ok_iff.2 ⟨w, ws.set i y, rfl, hz, ih hxs i⟩

/-- What holds of the result of every step holds along the list. -/
theorem map_eq_of_mapM {f : α → Except ε β} {g : β → γ} {k : α → γ} {xs : List α} {ys : List β}
    (hg : ∀ x ∈ xs, ∀ y, f x = .ok y → g y = k x) (h : xs.mapM f = .ok ys) :
    ys.map g = xs.map k := by
  rw [mapM_eq_ok_iff] at h
  induction h with
  | nil => rfl
  | cons hx _ ih =>
    rw [List.forall_mem_cons] at hg
    rw [List.map_cons, List.map_cons, hg.1 _ hx, ih hg.2]

end Abi.Outcome
