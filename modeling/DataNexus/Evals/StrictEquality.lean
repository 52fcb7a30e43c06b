/-
  DataNexus.Evals.StrictEquality — `_strict_equal` on JSON values, and what `_compare_exact` says of
  two unordered lists.

  A value is well formed if no object in it has a key twice, as `_unique_json_object` asks. On
  these `_strict_equal` is an equivalence (`strictEqual_equivalence`). Two unordered lists are
  sorted by the text of a canonical form and then compared position by position
  (`accepts_iff`). Values that are strictly equal can have different texts, 0.0 and -0.0, and
  values that are not can have the same one, `{}` and `[]`.

  - `accepts_same`: a list in another order is compared alike, if values with one key are equal.
  - `accepts_swapped`: two that are not, in the one order and in the other, are refused.
-/

import DataNexus.Evals.CaseEvaluation
import DataNexus.Lib.Keyed

namespace DataNexus.Evals

open Lib

namespace Document

/-- No object has a key twice. -/
inductive WellFormed : Document → Prop where
  | scalar {v : Document} (h : v.isContainer = false) : WellFormed v
  | arr {items : List Document} (h : ∀ v ∈ items, WellFormed v) : WellFormed (.arr items)
  | obj {members : Fields} (hkeys : (members.map (·.1)).Nodup) (h : ∀ m ∈ members, WellFormed m.2) :
    WellFormed (.obj members)

theorem WellFormed.items {items : List Document} (h : WellFormed (.arr items)) : ∀ v ∈ items, v.WellFormed := by
  cases h with
  | scalar h => cases h
  | arr h => exact h

theorem WellFormed.members {members : Fields} (h : WellFormed (.obj members)) :
    (members.map (·.1)).Nodup ∧ ∀ m ∈ members, m.2.WellFormed := by
  cases h with
  | scalar h => cases h
  | obj hkeys h => exact ⟨hkeys, h⟩

/-- Induction on a value, by the items of its list or the values of its object. -/
theorem induct {P : Document → Prop} (scalar : ∀ v : Document, v.isContainer = false → P v)
    (arr : ∀ items, (∀ v ∈ items, P v) → P (.arr items)) (obj : ∀ members : Fields, (∀ m ∈ members, P m.2) → P (.obj members)) :
    ∀ v, P v
  | .arr items => arr items fun v _ => induct scalar arr obj v
  | .obj members => obj members fun m _ => induct scalar arr obj m.2
  | .null => scalar _ rfl
  | .bool _ => scalar _ rfl
  | .int _ => scalar _ rfl
  | .float _ _ => scalar _ rfl
  | .str _ => scalar _ rfl
termination_by v => sizeOf v
decreasing_by
  · rename_i hmem
    have := List.sizeOf_lt_of_mem hmem
    simp
    omega
  · rename_i hmem
    have := List.sizeOf_lt_of_mem hmem
    obtain ⟨key, value⟩ := m
    simp at this ⊢
    omega

end Document

open Document

/-! ## `_strict_equal` -/

attribute [local simp] strictItems in
theorem strictItems_iff {xs ys : List Document} :
    strictItems xs ys = true ↔ List.Forall₂ (fun x y => strictEqual x y = true) xs ys := by
  induction xs generalizing ys with
  | nil => cases ys <;> simp [strictItems]
  | cons x xs ih =>
    cases ys with
    | nil => simp [strictItems]
    | cons y ys => simp [strictItems, ih]

attribute [local simp] strictMembers in
theorem strictMembers_iff {ms ns : Fields} :
    strictMembers ms ns = true ↔ ∀ m ∈ ms, ∃ y, ns.lookup m.1 = some y ∧ strictEqual m.2 y = true := by
  induction ms with
  | nil => simp [strictMembers]
  | cons m ms ih =>
    obtain ⟨key, x⟩ := m
    simp [strictMembers, ih, Option.any_eq_true]

theorem keysIn_iff {ms ns : Fields} : keysIn ns ms = true ↔ ∀ n ∈ ns, ∃ x, ms.lookup n.1 = some x := by
  unfold keysIn
  rw [List.all_eq_true]
  refine forall₂_congr fun n _ => ?_
  rw [← Option.isSome_iff_exists, List.lookup_isSome_iff]
  simp only [List.any_eq_true, beq_iff_eq]
  exact exists_congr fun m => and_congr_right fun _ => eq_comm

attribute [local simp] strictEqual in
theorem strictEqual_obj {ms ns : Fields} : strictEqual (.obj ms) (.obj ns) = true ↔
    (∀ n ∈ ns, ∃ x, ms.lookup n.1 = some x) ∧ ∀ m ∈ ms, ∃ y, ns.lookup m.1 = some y ∧ strictEqual m.2 y = true := by
  rw [strictEqual, Bool.and_eq_true, keysIn_iff, strictMembers_iff]

theorem strictEqual_arr {xs ys : List Document} :
    strictEqual (.arr xs) (.arr ys) = true ↔ List.Forall₂ (fun x y => strictEqual x y = true) xs ys := by
  rw [strictEqual, strictItems_iff]

theorem lookup_of_mem_nodup {ms : Fields} (hkeys : (ms.map (·.1)).Nodup) {m : String × Document} (hm : m ∈ ms) :
    ms.lookup m.1 = some m.2 := by
  induction ms with
  | nil => cases hm
  | cons first rest ih =>
    obtain ⟨key, value⟩ := first
    rw [List.map_cons, List.nodup_cons] at hkeys
    rcases List.mem_cons.mp hm with rfl | hm
    · rw [List.lookup_cons_self]
    · have hne : m.1 ≠ key := fun he => hkeys.1 (List.mem_map.mpr ⟨m, hm, he⟩)
      rw [lookup_cons_ne hne]
      exact ih hkeys.2 hm

theorem forall₂_flip {α : Type} {R : α → α → Prop} {xs ys : List α} (h : List.Forall₂ R xs ys)
    (hsymm : ∀ y ∈ ys, ∀ x, R x y → R y x) : List.Forall₂ R ys xs := by
  induction h with
  | nil => exact .nil
  | cons hfirst _ ih =>
    exact .cons (hsymm _ List.mem_cons_self _ hfirst) (ih fun y hy => hsymm y (List.mem_cons_of_mem _ hy))

theorem forall₂_comp {α : Type} {R : α → α → Prop} {xs ys zs : List α} (h : List.Forall₂ R xs ys)
    (h' : List.Forall₂ R ys zs) (htrans : ∀ x ∈ xs, ∀ y z, R x y → R y z → R x z) : List.Forall₂ R xs zs := by
  induction h generalizing zs with
  | nil =>
    cases h'
    exact .nil
  | cons hfirst _ ih =>
    obtain ⟨z, zs, hfirst', hrest', rfl⟩ := List.forall₂_cons_left_iff.mp h'
    exact .cons (htrans _ List.mem_cons_self _ _ hfirst hfirst')
      (ih hrest' fun x hx => htrans x (List.mem_cons_of_mem _ hx))

theorem strictEqual_refl {v : Document} (h : v.WellFormed) : strictEqual v v = true := by
  induction h with
  | @scalar v hv => cases v <;> simp_all [strictEqual, isContainer]
  | arr _ ih => exact strictEqual_arr.mpr (List.forall₂_same.mpr ih)
  | @obj members hkeys _ ih =>
    have hself : ∀ m ∈ members, members.lookup m.1 = some m.2 := fun m hm => lookup_of_mem_nodup hkeys hm
    exact strictEqual_obj.mpr ⟨fun m hm => ⟨m.2, hself m hm⟩, fun m hm => ⟨m.2, hself m hm, ih m hm⟩⟩

theorem strictEqual_symm {y : Document} (h : y.WellFormed) : ∀ {x}, strictEqual x y = true → strictEqual y x = true := by
  induction h with
  | @scalar y hy =>
    intro x hxy
    cases x <;> cases y <;> simp_all [strictEqual, isContainer]
  | @arr ys _ ih =>
    intro x hxy
    cases x with
    | arr xs =>
      rw [strictEqual_arr] at hxy ⊢
      exact forall₂_flip hxy fun y hy x => ih y hy
    | _ => simp [strictEqual] at hxy
  | @obj ns hkeys _ ih =>
    intro x hxy
    cases x with
    | obj ms =>
      rw [strictEqual_obj] at hxy ⊢
      obtain ⟨hns, hms⟩ := hxy
      refine ⟨fun m hm => (hms m hm).imp fun _ => And.left, fun n hn => ?_⟩
      obtain ⟨x, hx⟩ := hns n hn
      obtain ⟨y, hy, hequal⟩ := hms (n.1, x) (mem_of_lookup hx)
      obtain rfl : n.2 = y := Option.some.inj ((lookup_of_mem_nodup hkeys hn).symm.trans hy)
      exact ⟨x, hx, ih n hn hequal⟩
    | _ => simp [strictEqual] at hxy

theorem strictEqual_trans (x : Document) :
    ∀ {y z}, strictEqual x y = true → strictEqual y z = true → strictEqual x z = true := by
  induction x using Document.induct with
  | scalar x hx =>
    intro y z hxy hyz
    cases x <;> cases y <;> cases z <;> simp_all [strictEqual, isContainer]
  | arr xs ih =>
    intro y z hxy hyz
    cases y with
    | arr ys =>
      cases z with
      | arr zs =>
        rw [strictEqual_arr] at hxy hyz ⊢
        exact forall₂_comp hxy hyz fun x hx y z => ih x hx
      | _ => simp [strictEqual] at hyz
    | _ => simp [strictEqual] at hxy
  | obj ms ih =>
    intro y z hxy hyz
    cases y with
    | obj ns =>
      cases z with
      | obj os =>
        rw [strictEqual_obj] at hxy hyz ⊢
        constructor
        · intro o ho
          obtain ⟨y, hy⟩ := hyz.1 o ho
          exact hxy.1 (o.1, y) (mem_of_lookup hy)
        · intro m hm
          obtain ⟨y, hy, hequal⟩ := hxy.2 m hm
          obtain ⟨z, hz, hequal'⟩ := hyz.2 (m.1, y) (mem_of_lookup hy)
          exact ⟨z, hz, ih m hm hequal hequal'⟩
      | _ => simp [strictEqual] at hyz
    | _ => simp [strictEqual] at hxy

/-- The relation of `_strict_equal`. -/
def StrictlyEqual (x y : Document) : Prop := strictEqual x y = true

theorem strictEqual_equivalence {V : Set Document} (hV : ∀ v ∈ V, v.WellFormed) : EquivalenceOn StrictlyEqual V where
  refl x hx := strictEqual_refl (hV x hx)
  symm _ _ y hy := strictEqual_symm (hV y hy)
  trans x _ _ _ _ _ := strictEqual_trans x

/-! ## Unordered lists -/

section

variable (python : Python)

theorem accepts_iff {xs ys : List Document} : accepts python true (.arr xs) (.arr ys) = true ↔
    List.Forall₂ StrictlyEqual (sortBy (sortKey python) xs) (sortBy (sortKey python) ys) := strictEqual_arr

/-- Values of a list with one sort key are strictly equal. -/
def KeyDetermines (xs : List Document) : Prop :=
  ∀ x ∈ xs, ∀ y ∈ xs, sortKey python x = sortKey python y → StrictlyEqual x y

/-- A list in another order is compared alike, with whatever is expected. -/
theorem accepts_same {xs ys : List Document} (hperm : xs.Perm ys) (hwell : ∀ x ∈ xs, x.WellFormed)
    (hkeys : KeyDetermines python xs) (expected : Document) :
    accepts python true expected (.arr xs) = accepts python true expected (.arr ys) := by
  cases expected with
  | arr es =>
    have hsame := sorted_of_perm (sortKey python) hperm hkeys
    have hback : List.Forall₂ StrictlyEqual (sortBy (sortKey python) ys) (sortBy (sortKey python) xs) :=
      sorted_of_perm (sortKey python) hperm.symm fun y hy x hx hkey =>
        strictEqual_symm (hwell y (hperm.symm.subset hy)) (hkeys x (hperm.symm.subset hx) y (hperm.symm.subset hy) hkey.symm)
    rw [Bool.eq_iff_iff, accepts_iff, accepts_iff]
    exact ⟨fun h => forall₂_comp h hsame fun x _ y z => strictEqual_trans x,
      fun h => forall₂_comp h hback fun x _ y z => strictEqual_trans x⟩
  | _ => rfl

/-- Where two values have one key and are not strictly equal, their order is told apart. -/
theorem accepts_swapped {x z : Document} (hkey : sortKey python x = sortKey python z) {rest : List Document}
    (h : accepts python true (.arr (x :: z :: rest)) (.arr (z :: x :: rest)) = true) : StrictlyEqual x z :=
  sorted_swapped (sortKey python) hkey rest ((accepts_iff python).mp h)

theorem accepts_self {xs : List Document} (hwell : ∀ x ∈ xs, x.WellFormed) :
    accepts python true (.arr xs) (.arr xs) = true := by
  rw [accepts_iff]
  exact List.forall₂_same.mpr fun x hx => strictEqual_refl (hwell x ((sortBy_perm (sortKey python) xs).subset hx))

end

end DataNexus.Evals
