/-
  DataNexus.Lib.Noted — computations that go on past what they object to, and collect it.

  A value with a list of notes; sequencing appends the notes. A computation is clean when
  it has none: then so is each of its parts, and a clean loop keeps what each of its clean
  iterations keeps (`foldlM_clean`).
-/

import Mathlib

namespace DataNexus.Lib

structure Noted (δ α : Type) where
  notes : List δ
  value : α

namespace Noted

variable {δ α β σ : Type}

instance : Monad (Noted δ) where
  pure a := ⟨[], a⟩
  bind x f := ⟨x.notes ++ (f x.value).notes, (f x.value).value⟩

def note (d : δ) : Noted δ Unit := ⟨[d], ()⟩

def noteIf (c : Bool) (d : δ) : Noted δ Unit := ⟨if c then [d] else [], ()⟩

@[simp] theorem notes_pure (a : α) : (pure a : Noted δ α).notes = [] := rfl

@[simp] theorem value_pure (a : α) : (pure a : Noted δ α).value = a := rfl

@[simp] theorem notes_bind (x : Noted δ α) (f : α → Noted δ β) : (x >>= f).notes = x.notes ++ (f x.value).notes := rfl

@[simp] theorem value_bind (x : Noted δ α) (f : α → Noted δ β) : (x >>= f).value = (f x.value).value := rfl

@[simp] theorem notes_map (x : Noted δ α) (f : α → β) : (f <$> x).notes = x.notes := by
  show x.notes ++ [] = x.notes
  rw [List.append_nil]

@[simp] theorem value_map (x : Noted δ α) (f : α → β) : (f <$> x).value = f x.value := rfl

@[simp] theorem notes_note (d : δ) : (note d).notes = [d] := rfl

@[simp] theorem notes_noteIf {c : Bool} {d : δ} : (noteIf c d).notes = [] ↔ c = false := by
  cases c <;> simp [noteIf]

/-- A clean loop keeps what each of its clean iterations keeps. -/
theorem foldlM_clean {f : σ → α → Noted δ σ} {xs : List α} {s : σ} (h : (xs.foldlM f s).notes = [])
    {P : List α → σ → Prop} (h0 : P [] s)
    (hstep : ∀ done x rest t, xs = done ++ x :: rest → P done t → (f t x).notes = [] → P (done ++ [x]) (f t x).value) :
    P xs (xs.foldlM f s).value := by
  suffices ∀ done rest t, xs = done ++ rest → P done t → (rest.foldlM f t).notes = [] →
      P xs (rest.foldlM f t).value from this [] xs s rfl h0 h
  intro done rest
  induction rest generalizing done with
  | nil =>
    intro t hxs hp _
    simpa [hxs] using hp
  | cons x rest ih =>
    intro t hxs hp hr
    rw [List.foldlM_cons] at hr ⊢
    rw [notes_bind, List.append_eq_nil_iff] at hr
    exact ih (done ++ [x]) (f t x).value (by simp [hxs]) (hstep done x rest t hxs hp hr.1) hr.2

theorem forM_clean {f : α → Noted δ Unit} {xs : List α} :
    (forM xs f).notes = [] ↔ ∀ x ∈ xs, (f x).notes = [] := by
  induction xs with
  | nil => simp
  | cons x xs ih =>
    rw [List.forM_cons, notes_bind, List.append_eq_nil_iff, ih]
    simp

theorem bind_assoc' {γ : Type} (x : Noted δ α) (f : α → Noted δ β) (g : β → Noted δ γ) :
    (x >>= f >>= g) = x >>= fun a => f a >>= g :=
  congrArg (Noted.mk · _) (List.append_assoc _ _ _)

instance : LawfulMonad (Noted δ) :=
  LawfulMonad.mk' _ (fun x => congrArg (Noted.mk · x.value) (List.append_nil x.notes)) (fun _ _ => rfl) bind_assoc'

theorem mapM_clean {f : α → Noted δ β} {xs : List α} (h : (xs.mapM f).notes = []) :
    ∀ x ∈ xs, (f x).notes = [] := by
  induction xs with
  | nil => simp
  | cons x xs ih =>
    rw [List.mapM_cons, notes_bind, notes_bind, List.append_eq_nil_iff, List.append_eq_nil_iff] at h
    simpa using ⟨h.1, ih h.2.1⟩

end Noted

end DataNexus.Lib
