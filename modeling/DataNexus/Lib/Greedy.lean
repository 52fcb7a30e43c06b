/-
  DataNexus.Lib.Greedy — greedy selection: from a list in order of preference, what is not in
  conflict with anything selected before it.

  - `select_apart`: no two of the selected are in conflict.
  - `exists_conflict`: what is not selected is in conflict with something selected that was
    preferred to it.
  - `map_select`: a selection only depends on what its conflicts depend on.
-/

import Mathlib

namespace DataNexus.Lib.Greedy

variable {α β : Type}

section

variable (conflict : α → α → Bool)

def selectFrom (selected : List α) (xs : List α) : List α :=
  xs.foldl (fun selected x => if selected.any (conflict x) then selected else selected ++ [x]) selected

def select (xs : List α) : List α := selectFrom conflict [] xs

theorem selectFrom_cons (selected : List α) (x : α) (xs : List α) :
    selectFrom conflict selected (x :: xs) =
      selectFrom conflict (if selected.any (conflict x) then selected else selected ++ [x]) xs := rfl

variable {conflict}

theorem mem_selectFrom_of_mem {selected xs : List α} {x : α} (h : x ∈ selected) : x ∈ selectFrom conflict selected xs := by
  induction xs generalizing selected with
  | nil => exact h
  | cons y xs ih =>
    rw [selectFrom_cons]
    refine ih ?_
    split
    · exact h
    · exact List.mem_append_left _ h

theorem mem_of_mem_selectFrom {selected xs : List α} {x : α} (h : x ∈ selectFrom conflict selected xs) :
    x ∈ selected ∨ x ∈ xs := by
  induction xs generalizing selected with
  | nil => exact .inl h
  | cons y xs ih =>
    rw [selectFrom_cons] at h
    rcases ih h with h | h
    · split at h
      · exact .inl h
      · rcases List.mem_append.mp h with h | h
        · exact .inl h
        · exact .inr (by simp [List.mem_singleton.mp h])
    · exact .inr (List.mem_cons_of_mem y h)

theorem mem_of_mem_select {xs : List α} {x : α} (h : x ∈ select conflict xs) : x ∈ xs := by
  rcases mem_of_mem_selectFrom h with h | h
  · cases h
  · exact h

theorem selectFrom_apart (hsymm : ∀ x y, conflict x y = conflict y x) {selected xs : List α}
    (h : selected.Pairwise fun x y => conflict x y = false) :
    (selectFrom conflict selected xs).Pairwise fun x y => conflict x y = false := by
  induction xs generalizing selected with
  | nil => exact h
  | cons y xs ih =>
    rw [selectFrom_cons]
    refine ih ?_
    split
    · exact h
    · rename_i hnone
      rw [List.any_eq_true] at hnone
      refine List.pairwise_append.mpr ⟨h, List.pairwise_singleton _ _, fun x hx z hz => ?_⟩
      rw [List.mem_singleton.mp hz, hsymm]
      by_contra hconflict
      exact hnone ⟨x, hx, by simpa using hconflict⟩

theorem select_apart (hsymm : ∀ x y, conflict x y = conflict y x) (xs : List α) :
    (select conflict xs).Pairwise fun x y => conflict x y = false := selectFrom_apart hsymm List.Pairwise.nil

theorem exists_conflict_from {R : α → α → Prop} {selected xs : List α} {x : α} (hR : xs.Pairwise R)
    (hbefore : ∀ y ∈ selected, ∀ z ∈ xs, R y z) (hx : x ∈ xs) (hnot : x ∉ selectFrom conflict selected xs) :
    ∃ y ∈ selectFrom conflict selected xs, conflict x y = true ∧ R y x := by
  induction xs generalizing selected with
  | nil => cases hx
  | cons z xs ih =>
    rw [selectFrom_cons] at hnot ⊢
    rcases List.mem_cons.mp hx with rfl | hx
    · by_cases hany : selected.any (conflict x) = true
      · obtain ⟨y, hy, hconflict⟩ := List.any_eq_true.mp hany
        rw [if_pos hany]
        exact ⟨y, mem_selectFrom_of_mem hy, hconflict, hbefore y hy x (by simp)⟩
      · rw [if_neg hany] at hnot
        exact absurd (mem_selectFrom_of_mem (by simp)) hnot
    · refine ih (List.pairwise_cons.mp hR).2 ?_ hx hnot
      intro y hy w hw
      split at hy
      · exact hbefore y hy w (by simp [hw])
      · rcases List.mem_append.mp hy with hy | hy
        · exact hbefore y hy w (by simp [hw])
        · rw [List.mem_singleton.mp hy]
          exact (List.pairwise_cons.mp hR).1 w hw

theorem exists_conflict {R : α → α → Prop} {xs : List α} {x : α} (hR : xs.Pairwise R) (hx : x ∈ xs)
    (hnot : x ∉ select conflict xs) : ∃ y ∈ select conflict xs, conflict x y = true ∧ R y x :=
  exists_conflict_from hR (by simp) hx hnot

end

section

variable (conflict : α → α → Bool) (conflict' : β → β → Bool) (f : α → β)

theorem map_selectFrom (h : ∀ x y, conflict x y = conflict' (f x) (f y)) (selected xs : List α) :
    (selectFrom conflict selected xs).map f = selectFrom conflict' (selected.map f) (xs.map f) := by
  induction xs generalizing selected with
  | nil => rfl
  | cons x xs ih =>
    rw [selectFrom_cons, List.map_cons, selectFrom_cons, ih]
    have hany : (selected.map f).any (conflict' (f x)) = selected.any (conflict x) := by
      rw [List.any_map]
      exact congrArg (List.any selected) (funext fun y => (h x y).symm)
    rw [hany]
    congr 1
    split
    · rfl
    · simp

theorem map_select (h : ∀ x y, conflict x y = conflict' (f x) (f y)) (xs : List α) :
    (select conflict xs).map f = select conflict' (xs.map f) := map_selectFrom conflict conflict' f h [] xs

end

end DataNexus.Lib.Greedy
