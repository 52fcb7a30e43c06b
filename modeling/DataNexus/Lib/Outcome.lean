/-
  DataNexus.Lib.Outcome — computations that may throw (`Except ε`), read backwards:
  what an `.ok` result of a guard, a sequence, a loop or a traversal says about its
  parts. Nothing here is about one program.
-/

import Mathlib

namespace DataNexus.Lib

variable {ε α β : Type}

/-- `if c: raise e`. -/
def refuseIf (c : Bool) (e : ε) : Except ε Unit := if c then .error e else .ok ()

@[simp] theorem refuseIf_eq_ok {c : Bool} {e : ε} {u : Unit} : refuseIf c e = .ok u ↔ c = false := by
  cases c <;> simp [refuseIf]

@[simp] theorem refuseIf_eq_error {c : Bool} {e e' : ε} : refuseIf c e = .error e' ↔ c = true ∧ e = e' := by
  cases c <;> simp [refuseIf]

/-- `len(set(xs)) != len(xs)` does not hold. -/
theorem dedup_length_bne [DecidableEq α] {xs : List α} : (xs.dedup.length != xs.length) = false ↔ xs.Nodup := by
  constructor
  · intro h
    have hself : xs.dedup = xs := (List.dedup_sublist xs).eq_of_length (by simpa using h)
    exact hself ▸ List.nodup_dedup xs
  · intro h
    simp [h.dedup]

@[simp] theorem bind_eq_ok {x : Except ε α} {f : α → Except ε β} {b : β} :
    (x >>= f) = .ok b ↔ ∃ a, x = .ok a ∧ f a = .ok b := by
  cases x <;> simp [bind, Except.bind]

@[simp] theorem bind_eq_error {x : Except ε α} {f : α → Except ε β} {e : ε} :
    (x >>= f) = .error e ↔ x = .error e ∨ ∃ a, x = .ok a ∧ f a = .error e := by
  cases x <;> simp [bind, Except.bind]

@[simp] theorem pure_eq_ok {a b : α} : (pure a : Except ε α) = .ok b ↔ a = b := by
  simp [pure, Except.pure]

@[simp] theorem map_eq_ok {x : Except ε α} {f : α → β} {b : β} :
    (f <$> x) = .ok b ↔ ∃ a, x = .ok a ∧ f a = b := by
  cases x <;> simp [Functor.map, Except.map]

@[simp] theorem forM_eq_ok {xs : List α} {f : α → Except ε Unit} {u : Unit} :
    forM xs f = .ok u ↔ ∀ x ∈ xs, f x = .ok () := by
  induction xs with
  | nil => simp
  | cons x xs ih =>
    simp only [List.forM_cons, bind_eq_ok, ih, List.mem_cons, forall_eq_or_imp]
    exact ⟨fun ⟨⟨⟩, hx, hxs⟩ => ⟨hx, hxs⟩, fun ⟨hx, hxs⟩ => ⟨(), hx, hxs⟩⟩

theorem mapM_eq_ok {xs : List α} {f : α → Except ε β} {ys : List β} :
    xs.mapM f = .ok ys ↔ List.Forall₂ (fun x y => f x = .ok y) xs ys := by
  induction xs generalizing ys with
  | nil => cases ys <;> simp
  | cons x xs ih =>
    rw [List.mapM_cons, bind_eq_ok]
    cases ys with
    | nil => simp
    | cons y ys =>
      simp only [bind_eq_ok, pure_eq_ok, List.cons.injEq, List.forall₂_cons, ih]
      constructor
      · rintro ⟨a, hx, as, hs, rfl, rfl⟩
        exact ⟨hx, hs⟩
      · rintro ⟨hx, hs⟩
        exact ⟨y, hx, ys, hs, rfl, rfl⟩

/-- A pass that returns a function of each element, after a check of it. -/
theorem mapM_ok_map {xs : List α} {f : α → Except ε β} {g : α → β} {P : α → Prop} {ys : List β}
    (hf : ∀ x y, f x = .ok y → y = g x ∧ P x) (h : xs.mapM f = .ok ys) : ys = xs.map g ∧ ∀ x ∈ xs, P x := by
  rw [mapM_eq_ok] at h
  induction h with
  | nil => simp
  | cons hfirst _ ih =>
    obtain ⟨rfl, hx⟩ := hf _ _ hfirst
    obtain ⟨rfl, hrest⟩ := ih
    exact ⟨rfl, List.forall_mem_cons.mpr ⟨hx, hrest⟩⟩

/-- What every element's outcome allows, the whole traversal's outcome has. -/
theorem mapM_error {xs : List α} {f : α → Except ε β} {e : ε} (h : xs.mapM f = .error e) :
    ∃ x ∈ xs, f x = .error e := by
  induction xs with
  | nil => simp [pure, Except.pure] at h
  | cons x xs ih =>
    rw [List.mapM_cons] at h
    rcases bind_eq_error.mp h with hx | ⟨a, _, h⟩
    · exact ⟨x, by simp, hx⟩
    rcases bind_eq_error.mp h with hxs | ⟨b, _, h⟩
    · obtain ⟨y, hy, he⟩ := ih hxs
      exact ⟨y, by simp [hy], he⟩
    · simp [pure, Except.pure] at h

theorem forM_error {xs : List α} {f : α → Except ε Unit} {e : ε} (h : forM xs f = .error e) :
    ∃ x ∈ xs, f x = .error e := by
  induction xs with
  | nil => simp [pure, Except.pure] at h
  | cons x xs ih =>
    rw [List.forM_cons] at h
    rcases bind_eq_error.mp h with hx | ⟨_, _, h⟩
    · exact ⟨x, by simp, hx⟩
    · obtain ⟨y, hy, he⟩ := ih h
      exact ⟨y, by simp [hy], he⟩

theorem option_mapM_eq_some {xs : List α} {f : α → Option β} {ys : List β} :
    xs.mapM f = some ys ↔ List.Forall₂ (fun x y => f x = some y) xs ys := by
  induction xs generalizing ys with
  | nil => cases ys <;> simp
  | cons x xs ih =>
    have hcons : (x :: xs).mapM f = (f x).bind fun y => (xs.mapM f).bind fun ys => some (y :: ys) := by
      simp [List.mapM_cons]
    rw [hcons]
    cases ys with
    | nil => simp [Option.bind_eq_some_iff]
    | cons y ys =>
      simp only [Option.bind_eq_some_iff, Option.some.injEq, List.cons.injEq, List.forall₂_cons, ih]
      constructor
      · rintro ⟨a, hx, as, hs, rfl, rfl⟩
        exact ⟨hx, hs⟩
      · rintro ⟨hx, hs⟩
        exact ⟨y, hx, ys, hs, rfl, rfl⟩

/-- A loop that may throw keeps what each of its iterations keeps. -/
theorem foldlM_invariant {σ : Type} {f : σ → α → Except ε σ} {xs : List α} {s s' : σ}
    (h : xs.foldlM f s = .ok s') {P : List α → σ → Prop} (h0 : P [] s)
    (hstep : ∀ done x rest t t', xs = done ++ x :: rest → P done t → f t x = .ok t' → P (done ++ [x]) t') :
    P xs s' := by
  -- The invariant speaks of the elements already consumed, so generalise over the split.
  suffices ∀ done rest t, xs = done ++ rest → P done t → rest.foldlM f t = .ok s' → P xs s' from
    this [] xs s rfl h0 h
  intro done rest
  induction rest generalizing done with
  | nil =>
    intro t hxs hp hr
    have : t = s' := by simpa using hr
    subst this
    simpa [hxs] using hp
  | cons x rest ih =>
    intro t hxs hp hr
    rw [List.foldlM_cons, bind_eq_ok] at hr
    obtain ⟨t', hx, hr⟩ := hr
    exact ih (done ++ [x]) t' (by simp [hxs]) (hstep done x rest t t' hxs hp hx) hr

/-- A loop that throws ran a prefix and threw in the next iteration. -/
theorem foldlM_error {σ : Type} {f : σ → α → Except ε σ} {xs : List α} {s : σ} {e : ε}
    (h : xs.foldlM f s = .error e) :
    ∃ done x rest t, xs = done ++ x :: rest ∧ done.foldlM f s = .ok t ∧ f t x = .error e := by
  induction xs generalizing s with
  | nil => simp [pure, Except.pure] at h
  | cons x xs ih =>
    rw [List.foldlM_cons] at h
    rcases bind_eq_error.mp h with hx | ⟨t, hx, h⟩
    · exact ⟨[], x, xs, s, rfl, rfl, hx⟩
    · obtain ⟨done, y, rest, u, rfl, hd, hy⟩ := ih h
      exact ⟨x :: done, y, rest, u, rfl, by rw [List.foldlM_cons, bind_eq_ok]; exact ⟨t, hx, hd⟩, hy⟩

end DataNexus.Lib
