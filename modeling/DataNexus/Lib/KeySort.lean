/-
  DataNexus.Lib.KeySort — comparing two lists as collections by sorting them.

  Both lists are sorted by a key, ties left as they are, and compared position by position with
  a relation. What that accepts is always a rearrangement up to the relation (`permUpTo_of_sorted`).
  The converse needs the values of the lists to have the same keys, and values with one key to be
  related (`sorted_of_keys`); what both lists end with may be anything, since sorting is stable.
  Where related values have one key, a rearrangement has the same keys (`PermUpTo.map`), and
  what both lists end with can be left out of it (`PermUpTo.cancel`).
-/

import Mathlib

namespace DataNexus.Lib

variable {α κ : Type} [LinearOrder κ] (key : α → κ)

/-- Sorted by the key; equal keys keep their order. -/
def sortBy (xs : List α) : List α := xs.insertionSort fun a b => key a ≤ key b

theorem sortBy_perm (xs : List α) : (sortBy key xs).Perm xs := List.perm_insertionSort _ xs

theorem sortBy_pairwise (xs : List α) : (sortBy key xs).Pairwise fun a b => key a ≤ key b := by
  have : Std.Total fun a b : α => key a ≤ key b := ⟨fun a b => le_total (key a) (key b)⟩
  have : IsTrans α fun a b => key a ≤ key b := ⟨fun _ _ _ => le_trans⟩
  exact List.pairwise_insertionSort _ xs

theorem sortBy_map {β : Type} (f : β → α) (xs : List β) :
    sortBy key (xs.map f) = (sortBy (fun b => key (f b)) xs).map f :=
  (List.map_insertionSort (fun a b => key (f a) ≤ key (f b)) (fun a b => key a ≤ key b) f xs fun _ _ _ _ => Iff.rfl).symm

/-- One of the lists is a rearrangement of the other, up to the relation. -/
def PermUpTo (R : α → α → Prop) (xs ys : List α) : Prop := ∃ zs, zs.Perm ys ∧ List.Forall₂ R xs zs

theorem PermUpTo.perm_right {R : α → α → Prop} {xs ys ys' : List α} (h : PermUpTo R xs ys) (hys : ys.Perm ys') :
    PermUpTo R xs ys' := by
  obtain ⟨zs, hzs, hall⟩ := h
  exact ⟨zs, hzs.trans hys, hall⟩

theorem PermUpTo.perm_left {R : α → α → Prop} {xs xs' ys : List α} (h : PermUpTo R xs ys) (hxs : xs'.Perm xs) :
    PermUpTo R xs' ys := by
  obtain ⟨zs, hzs, hall⟩ := h
  have hcomp : (Relation.Comp (List.Forall₂ R) List.Perm) xs' zs := by
    rw [List.forall₂_comp_perm_eq_perm_comp_forall₂]
    exact ⟨xs, hxs, hall⟩
  obtain ⟨zs', hall', hzs'⟩ := hcomp
  exact ⟨zs', hzs'.trans hzs, hall'⟩

/-- Where related values agree in a function, so do a list and its rearrangement. -/
theorem PermUpTo.map {γ : Type} {f : α → γ} {R : α → α → Prop} {xs ys : List α} (h : PermUpTo R xs ys)
    (hf : ∀ x ∈ xs, ∀ y ∈ ys, R x y → f x = f y) : (xs.map f).Perm (ys.map f) := by
  obtain ⟨zs, hzs, hall⟩ := h
  have hsame : xs.map f = zs.map f := by
    rw [← List.forall₂_eq_eq_eq, List.forall₂_map_left_iff, List.forall₂_map_right_iff]
    exact List.forall₂_iff_zip.mpr ⟨hall.length_eq, fun {x z} hxz =>
      hf x (List.of_mem_zip hxz).1 z (hzs.subset (List.of_mem_zip hxz).2) ((List.forall₂_iff_zip.mp hall).2 hxz)⟩
  rw [hsame]
  exact hzs.map f

theorem permUpTo_of_sorted {R : α → α → Prop} {xs ys : List α}
    (h : List.Forall₂ R (sortBy key xs) (sortBy key ys)) : PermUpTo R xs ys := by
  have hsorted : PermUpTo R (sortBy key xs) (sortBy key ys) := ⟨sortBy key ys, .refl _, h⟩
  exact (hsorted.perm_left (sortBy_perm key xs).symm).perm_right (sortBy_perm key ys)

/-- The relation is an equivalence on some values. -/
structure EquivalenceOn (R : α → α → Prop) (V : Set α) : Prop where
  refl : ∀ x ∈ V, R x x
  symm : ∀ x ∈ V, ∀ y ∈ V, R x y → R y x
  trans : ∀ x ∈ V, ∀ y ∈ V, ∀ z ∈ V, R x y → R y z → R x z

section Classes

variable {R : α → α → Prop} {V : Set α}

/-- The values related to one. -/
def classOf (R : α → α → Prop) (V : Set α) (x : α) : Set α := {y | y ∈ V ∧ R x y}

/-- Lists with the same values of a function, in some order. -/
theorem exists_perm_of_map {γ : Type} {f : α → γ} {xs ys : List α} (h : (xs.map f).Perm (ys.map f)) :
    ∃ zs : List α, zs.Perm ys ∧ xs.map f = zs.map f := by
  have hvalues : ∀ ws : List α, List.Forall₂ (fun w c => f w = c) ws (ws.map f) :=
    fun ws => List.forall₂_map_right_iff.mpr (List.forall₂_same.mpr fun _ _ => rfl)
  have hcomp : (Relation.Comp List.Perm (List.Forall₂ fun w c => f w = c)) ys (xs.map f) := by
    rw [← List.forall₂_comp_perm_eq_perm_comp_forall₂]
    exact ⟨ys.map f, hvalues ys, h.symm⟩
  obtain ⟨zs, hperm, hall⟩ := hcomp
  refine ⟨zs, hperm.symm, ?_⟩
  rw [← List.forall₂_eq_eq_eq]
  exact (List.forall₂_map_left_iff.mpr hall).flip.imp fun _ _ h => h.symm

theorem classOf_eq (hR : EquivalenceOn R V) {x y : α} (hx : x ∈ V) (hy : y ∈ V) :
    classOf R V x = classOf R V y ↔ R x y := by
  constructor
  · intro h
    have hmem : y ∈ classOf R V y := ⟨hy, hR.refl y hy⟩
    rw [← h] at hmem
    exact hmem.2
  · intro h
    ext z
    constructor
    · rintro ⟨hz, hxz⟩
      exact ⟨hz, hR.trans y hy x hx z hz (hR.symm x hx y hy h) hxz⟩
    · rintro ⟨hz, hyz⟩
      exact ⟨hz, hR.trans x hx y hy z hz h hyz⟩

theorem forall₂_iff_classes (hR : EquivalenceOn R V) {xs ys : List α} (hxs : ∀ x ∈ xs, x ∈ V) (hys : ∀ y ∈ ys, y ∈ V) :
    List.Forall₂ R xs ys ↔ xs.map (classOf R V) = ys.map (classOf R V) := by
  induction xs generalizing ys with
  | nil =>
    cases ys with
    | nil => simp
    | cons y ys => simp
  | cons x xs ih =>
    cases ys with
    | nil => simp
    | cons y ys =>
      have ih := @ih ys (fun x hx => hxs x (List.mem_cons_of_mem _ hx))
        fun y hy => hys y (List.mem_cons_of_mem _ hy)
      rw [List.forall₂_cons, List.map_cons, List.map_cons, List.cons.injEq, ih,
        classOf_eq hR (hxs x (by simp)) (hys y (by simp))]

/-- What two lists both end with does not decide whether one is a rearrangement of the other. -/
theorem PermUpTo.cancel (hR : EquivalenceOn R V) {xs ys rest : List α} (hxs : ∀ x ∈ xs, x ∈ V) (hys : ∀ y ∈ ys, y ∈ V)
    (hrest : ∀ v ∈ rest, v ∈ V) (h : PermUpTo R (xs ++ rest) (ys ++ rest)) : PermUpTo R xs ys := by
  obtain ⟨zs, hzs, hall⟩ := h
  have hwhole : ∀ {ws}, (∀ w ∈ ws, w ∈ V) → ∀ w ∈ ws ++ rest, w ∈ V :=
    fun hws w hw => (List.mem_append.mp hw).elim (hws w) (hrest w)
  have hclasses : ((xs ++ rest).map (classOf R V)).Perm ((ys ++ rest).map (classOf R V)) := by
    rw [(forall₂_iff_classes hR (hwhole hxs) fun z hz => hwhole hys z (hzs.subset hz)).mp hall]
    exact hzs.map _
  rw [List.map_append, List.map_append, List.perm_append_right_iff] at hclasses
  obtain ⟨ws, hperm, hws⟩ := exists_perm_of_map hclasses
  exact ⟨ws, hperm, (forall₂_iff_classes hR hxs fun w hw => hys w (hperm.subset hw)).mpr hws⟩

end Classes

/-! ## Keys -/

theorem sortBy_keys {xs ys : List α} (h : (xs.map key).Perm (ys.map key)) :
    (sortBy key xs).map key = (sortBy key ys).map key := by
  have hsorted : ∀ zs, ((sortBy key zs).map key).Pairwise (· ≤ ·) :=
    fun zs => List.pairwise_map.mpr (sortBy_pairwise key zs)
  refine List.Perm.eq_of_pairwise (fun _ _ _ _ => le_antisymm) (hsorted xs) (hsorted ys) ?_
  exact (((sortBy_perm key xs).map key).trans h).trans ((sortBy_perm key ys).map key).symm

/-- The values with one key stay in their order. -/
theorem sortBy_filter (xs : List α) (k : κ) :
    (sortBy key xs).filter (fun x => key x = k) = xs.filter fun x => key x = k := by
  have hequal : (xs.filter fun x => key x = k).Pairwise fun a b => key a ≤ key b := by
    refine List.pairwise_of_forall_mem_list fun a ha b hb => ?_
    rw [of_decide_eq_true (List.mem_filter.mp ha).2, of_decide_eq_true (List.mem_filter.mp hb).2]
  have hsub := (List.sublist_insertionSort hequal List.filter_sublist).filter fun x => key x = k
  rw [List.filter_filter] at hsub
  simp only [Bool.and_self] at hsub
  exact (hsub.eq_of_length ((sortBy_perm key xs).filter _).length_eq.symm).symm

/-- Two lists with the same keys are related position by position, if they are so key by key. -/
theorem forall₂_of_filters {R : α → α → Prop} {xs ys : List α} (hkeys : xs.map key = ys.map key)
    (h : ∀ k, List.Forall₂ R (xs.filter fun x => key x = k) (ys.filter fun y => key y = k)) : List.Forall₂ R xs ys := by
  induction xs generalizing ys with
  | nil =>
    obtain rfl : ys = [] := List.map_eq_nil_iff.mp hkeys.symm
    exact .nil
  | cons x xs ih =>
    cases ys with
    | nil => cases hkeys
    | cons y ys =>
      rw [List.map_cons, List.map_cons, List.cons.injEq] at hkeys
      have hfirst : ∀ k, key x = k → R x y ∧ List.Forall₂ R (xs.filter fun x => key x = k) (ys.filter fun y => key y = k) := by
        intro k hk
        have hboth := h k
        rw [List.filter_cons_of_pos (by simpa using hk), List.filter_cons_of_pos (by simpa [← hkeys.1] using hk)] at hboth
        exact List.forall₂_cons.mp hboth
      refine .cons (hfirst _ rfl).1 (ih hkeys.2 fun k => ?_)
      by_cases hk : key x = k
      · exact (hfirst k hk).2
      · have hboth := h k
        rwa [List.filter_cons_of_neg (by simpa using hk), List.filter_cons_of_neg (by simpa [← hkeys.1] using hk)] at hboth

/-- Lists with the same keys are lined up where values with one key are related, whatever they both
    end with. -/
theorem sorted_of_keys {R : α → α → Prop} {xs ys rest : List α} (hkeys : (xs.map key).Perm (ys.map key))
    (hties : ∀ x ∈ xs, ∀ y ∈ ys, key x = key y → R x y) (hrest : ∀ v ∈ rest, R v v) :
    List.Forall₂ R (sortBy key (xs ++ rest)) (sortBy key (ys ++ rest)) := by
  refine forall₂_of_filters key (sortBy_keys key ?_) fun k => ?_
  · rw [List.map_append, List.map_append]
    exact hkeys.append_right _
  · rw [sortBy_filter, sortBy_filter, List.filter_append, List.filter_append]
    refine List.rel_append ?_ (List.forall₂_same.mpr fun v hv => hrest v (List.mem_of_mem_filter hv))
    have hlength : ∀ zs : List α, (zs.filter fun z => key z = k).length = (zs.map key).count k := by
      intro zs
      rw [List.count, List.countP_map, List.countP_eq_length_filter]
      rfl
    refine List.forall₂_iff_zip.mpr ⟨by rw [hlength, hlength, hkeys.count_eq], fun {x y} hxy => ?_⟩
    obtain ⟨hx, hxk⟩ := List.mem_filter.mp (List.of_mem_zip hxy).1
    obtain ⟨hy, hyk⟩ := List.mem_filter.mp (List.of_mem_zip hxy).2
    exact hties x hx y hy ((of_decide_eq_true hxk).trans (of_decide_eq_true hyk).symm)

/-- Where equal keys are keys of related values, the order of a list does not matter. -/
theorem sorted_of_perm {R : α → α → Prop} {xs ys : List α} (hperm : xs.Perm ys)
    (hties : ∀ x ∈ xs, ∀ y ∈ xs, key x = key y → R x y) : List.Forall₂ R (sortBy key xs) (sortBy key ys) := by
  have hsorted : List.Forall₂ R (sortBy key (xs ++ [])) (sortBy key (ys ++ [])) :=
    sorted_of_keys key (hperm.map key) (fun x hx y hy => hties x hx y (hperm.symm.subset hy)) (by simp)
  rwa [List.append_nil, List.append_nil] at hsorted

theorem sortBy_pair {a b : α} (h : key a ≤ key b) : sortBy key [a, b] = [a, b] := by
  simp [sortBy, List.insertionSort, h]

theorem sortBy_pair_swap {a b : α} (h : key b < key a) : sortBy key [a, b] = [b, a] := by
  simp [sortBy, List.insertionSort, h.not_ge]

/-- Two values with one key come out in the order in which they go in. -/
theorem insert_pair {x z : α} (hkey : key x = key z) (ys : List α) :
    ∃ before after, List.orderedInsert (fun a b => key a ≤ key b) x (List.orderedInsert (fun a b => key a ≤ key b) z ys) =
        before ++ x :: z :: after ∧
      List.orderedInsert (fun a b => key a ≤ key b) z (List.orderedInsert (fun a b => key a ≤ key b) x ys) =
        before ++ z :: x :: after := by
  induction ys with
  | nil => exact ⟨[], [], by simp [hkey], by simp [hkey]⟩
  | cons y ys ih =>
    by_cases hle : key x ≤ key y
    · exact ⟨[], y :: ys, by simp [← hkey, hle], by simp [← hkey, hle]⟩
    · obtain ⟨before, after, hfirst, hsecond⟩ := ih
      have hle' : ¬ key z ≤ key y := hkey ▸ hle
      refine ⟨y :: before, after, ?_, ?_⟩
      · simp only [List.orderedInsert_cons, if_neg hle', if_neg hle, hfirst, List.cons_append]
      · simp only [List.orderedInsert_cons, if_neg hle', if_neg hle, hsecond, List.cons_append]

/-- Where two values have one key and are not related, their order does matter. -/
theorem sorted_swapped {R : α → α → Prop} {x z : α} (hkey : key x = key z) (rest : List α)
    (h : List.Forall₂ R (sortBy key (x :: z :: rest)) (sortBy key (z :: x :: rest))) : R x z := by
  obtain ⟨before, after, hfirst, hsecond⟩ := insert_pair key hkey (sortBy key rest)
  have hsame : List.Forall₂ R (before ++ x :: z :: after) (before ++ z :: x :: after) := hfirst ▸ hsecond ▸ h
  have hdrop := List.forall₂_drop before.length hsame
  rw [List.drop_left, List.drop_left] at hdrop
  exact (List.forall₂_cons.mp hdrop).1

end DataNexus.Lib
