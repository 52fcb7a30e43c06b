/-
  DataNexus.Lib.Keyed — lists read by key, and lists aligned position by position.

  `lookup` in a list of pairs, `find?` of the one element a predicate holds of, a loop of
  lookups, and `Forall₂` as what an element-by-element loop leaves behind.
-/

import DataNexus.Lib.Outcome

namespace DataNexus.Lib

variable {κ α β : Type}

theorem find?_eq_of_unique {xs : List α} {p : α → Bool} {x : α} (hx : x ∈ xs) (hp : p x = true)
    (huniq : ∀ y ∈ xs, p y = true → y = x) : xs.find? p = some x := by
  cases hf : xs.find? p with
  | none =>
    have := List.find?_eq_none.mp hf x hx
    exact absurd hp this
  | some y => rw [huniq y (List.mem_of_find?_eq_some hf) (List.find?_some hf)]

/-! ## Lookup -/

section Lookup

variable [DecidableEq κ]

theorem mem_of_lookup {l : List (κ × β)} {name : κ} {b : β} (h : l.lookup name = some b) :
    (name, b) ∈ l := by
  induction l with
  | nil => cases h
  | cons x l ih =>
    obtain ⟨k, x⟩ := x
    by_cases hk : name = k
    · subst hk
      simp only [List.lookup_cons, beq_self_eq_true, Option.some.injEq] at h
      rw [h]
      exact List.mem_cons_self
    · rw [List.lookup_cons, beq_false_of_ne hk] at h
      exact List.mem_cons_of_mem _ (ih h)

theorem lookup_cons_ne {id key : κ} {x : β} {l : List (κ × β)} (h : id ≠ key) :
    ((key, x) :: l).lookup id = l.lookup id := by
  rw [List.lookup_cons, beq_false_of_ne h]

theorem mem_of_mapM_lookup {table : List (κ × β)} {ds : List κ} {inputs : List β}
    (h : (ds.mapM fun d => table.lookup d) = some inputs) {x : β} (hx : x ∈ inputs) :
    ∃ d ∈ ds, table.lookup d = some x := by
  obtain ⟨i, hi, rfl⟩ := List.mem_iff_getElem.mp hx
  have hall := option_mapM_eq_some.mp h
  have hlen : i < ds.length := hall.length_eq ▸ hi
  exact ⟨ds[i], List.getElem_mem hlen, hall.get hlen hi⟩

theorem exists_mapM_lookup {table : List (κ × β)} {ds : List κ} {inputs : List β}
    (h : (ds.mapM fun d => table.lookup d) = some inputs) {d : κ} (hd : d ∈ ds) :
    ∃ x ∈ inputs, table.lookup d = some x := by
  obtain ⟨i, hi, rfl⟩ := List.mem_iff_getElem.mp hd
  have hall := option_mapM_eq_some.mp h
  have hlen : i < inputs.length := hall.length_eq ▸ hi
  exact ⟨inputs[i], List.getElem_mem hlen, hall.get hi hlen⟩

/-- A loop of lookups sees two tables alike where their lookups are. -/
theorem mapM_lookup_congr {table table' : List (κ × β)} {ds : List κ}
    (h : ∀ d ∈ ds, table.lookup d = table'.lookup d) :
    (ds.mapM fun d => table.lookup d) = ds.mapM fun d => table'.lookup d := by
  induction ds with
  | nil => rfl
  | cons d ds ih =>
    rw [List.mapM_cons, List.mapM_cons, h d List.mem_cons_self, ih fun d hd => h d (List.mem_cons_of_mem _ hd)]

end Lookup

/-! ## Positions -/

theorem exists_mem_zipIdx {xs : List α} {x : α} (h : x ∈ xs) : ∃ i, (x, i) ∈ xs.zipIdx := by
  obtain ⟨i, hi⟩ := List.mem_iff_getElem?.mp h
  exact ⟨i, List.mk_mem_zipIdx_iff_getElem?.mpr hi⟩

/-- Appending to both sides of an aligned pair of lists. -/
theorem forall₂_snoc {R : α → β → Prop} {xs : List α} {ys : List β} {x : α} {y : β}
    (h : List.Forall₂ R xs ys) (hxy : R x y) : List.Forall₂ R (xs ++ [x]) (ys ++ [y]) :=
  List.rel_append h (.cons hxy .nil)

theorem forall₂_singleton {R : α → β → Prop} {x : α} {ys : List β} (h : List.Forall₂ R [x] ys) :
    ∃ y, ys = [y] ∧ R x y := by
  cases h with
  | cons hxy hrest =>
    cases hrest
    exact ⟨_, rfl, hxy⟩

/-- Values found for the keys of aligned lists, one for each. -/
theorem exists_forall₂_of_forall₂ {R : κ → α → Prop} {S : κ → β → Prop} {T : α → β → Prop} {ks : List κ}
    {xs : List α} (h : List.Forall₂ R ks xs) (hstep : ∀ k ∈ ks, ∀ x, R k x → ∃ y, S k y ∧ T x y) :
    ∃ ys, List.Forall₂ S ks ys ∧ List.Forall₂ T xs ys := by
  induction h with
  | nil => exact ⟨[], .nil, .nil⟩
  | @cons k x ks xs hkx _ ih =>
    obtain ⟨y, hky, hxy⟩ := hstep k List.mem_cons_self x hkx
    obtain ⟨ys, hks, hxs⟩ := ih fun k hk => hstep k (List.mem_cons_of_mem _ hk)
    exact ⟨y :: ys, .cons hky hks, .cons hxy hxs⟩

theorem mem_of_forall₂ {R : α → β → Prop} {xs : List α} {ys : List β} (h : List.Forall₂ R xs ys) {y : β}
    (hy : y ∈ ys) : ∃ x ∈ xs, R x y := by
  induction h with
  | nil => cases hy
  | cons hxy _ ih =>
    rcases List.mem_cons.mp hy with rfl | hy
    · exact ⟨_, List.mem_cons_self, hxy⟩
    · obtain ⟨x, hx, hr⟩ := ih hy
      exact ⟨x, List.mem_cons_of_mem _ hx, hr⟩

end DataNexus.Lib
