/-
  DataNexus.Lib.Roster — the actors of a system, listed in the order they arrived.

  An actor is named by its position and only ever replaced in place, so a count over the
  roster moves by what one replacement changes (`countP_set`), and a member after the
  replacement is the new one or another of the old ones (`getElem?_set_cases`).
-/

import Mathlib

namespace DataNexus.Lib.Roster

variable {α : Type} {p : α → Bool}

theorem countP_set {l : List α} {i : Nat} {a : α} (h : l[i]? = some a) (b : α) :
    (l.set i b).countP p + (if p a then 1 else 0) = l.countP p + (if p b then 1 else 0) := by
  induction l generalizing i with
  | nil => simp at h
  | cons x l ih =>
    cases i with
    | zero =>
      obtain rfl : x = a := by simpa using h
      simp only [List.set_cons_zero, List.countP_cons]
      omega
    | succ i =>
      have hrest := ih (i := i) (by simpa using h)
      simp only [List.set_cons_succ, List.countP_cons]
      omega

/-- A replacement that the predicate does not see. -/
theorem countP_set_same {l : List α} {i : Nat} {a b : α} (h : l[i]? = some a) (hp : p b = p a) :
    (l.set i b).countP p = l.countP p := by
  have hset := countP_set (p := p) h b
  rw [hp] at hset
  omega

/-- The count without one member. -/
theorem countP_eraseIdx {l : List α} {i : Nat} {a : α} (h : l[i]? = some a) :
    l.countP p = (l.eraseIdx i).countP p + if p a then 1 else 0 := by
  induction l generalizing i with
  | nil => simp at h
  | cons x l ih =>
    cases i with
    | zero =>
      obtain rfl : x = a := by simpa using h
      rw [List.eraseIdx_cons_zero, List.countP_cons]
    | succ i =>
      have hrest := ih (i := i) (by simpa using h)
      simp only [List.eraseIdx_cons_succ, List.countP_cons]
      omega

theorem getElem?_set_cases {l : List α} {i j : Nat} {b c : α} (h : (l.set i b)[j]? = some c) :
    (j = i ∧ c = b) ∨ (j ≠ i ∧ l[j]? = some c) := by
  rw [List.getElem?_set] at h
  by_cases hij : i = j
  · rw [if_pos hij] at h
    split at h
    · exact .inl ⟨hij.symm, by simpa using h.symm⟩
    · cases h
  · rw [if_neg hij] at h
    exact .inr ⟨fun e => hij e.symm, h⟩

theorem getElem?_set_self {l : List α} {i : Nat} {a : α} (h : l[i]? = some a) (b : α) : (l.set i b)[i]? = some b := by
  have hi : i < l.length := List.getElem?_eq_some_iff.mp h |>.1
  simp [hi]

theorem getElem?_append_cases {l : List α} {j : Nat} {b c : α} (h : (l ++ [b])[j]? = some c) :
    (j = l.length ∧ c = b) ∨ l[j]? = some c := by
  rw [List.getElem?_append] at h
  split at h
  · exact .inr h
  · have hj : j - l.length = 0 := by
      by_contra hne
      rw [List.getElem?_eq_none (by simp; omega)] at h
      cases h
    rw [hj] at h
    exact .inl ⟨by omega, by simpa using h.symm⟩

/-- Two members at different places make the count at least two. -/
theorem two_le_countP {l : List α} {i j : Nat} {a b : α} (hi : l[i]? = some a) (hj : l[j]? = some b) (hne : i ≠ j)
    (ha : p a = true) (hb : p b = true) : 2 ≤ l.countP p := by
  induction l generalizing i j with
  | nil => simp at hi
  | cons x l ih =>
    rw [List.countP_cons]
    cases i with
    | zero =>
      obtain rfl : x = a := by simpa using hi
      cases j with
      | zero => exact absurd rfl hne
      | succ j =>
        have hpos : 0 < l.countP p := List.countP_pos_iff.mpr ⟨b, List.mem_of_getElem? (by simpa using hj), hb⟩
        simp only [ha, if_true]
        omega
    | succ i =>
      cases j with
      | zero =>
        obtain rfl : x = b := by simpa using hj
        have hpos : 0 < l.countP p := List.countP_pos_iff.mpr ⟨a, List.mem_of_getElem? (by simpa using hi), ha⟩
        simp only [hb, if_true]
        omega
      | succ j =>
        have := ih (i := i) (j := j) (by simpa using hi) (by simpa using hj) (by omega)
        omega

end DataNexus.Lib.Roster
