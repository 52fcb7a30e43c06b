/-
  DataNexus.Lib.Layers — the layers of an acyclic graph.

  `assign` works in rounds: every key whose dependencies all have a layer gets one, zero
  without dependencies and one more than their greatest otherwise; the keys of a round
  are taken in order. It gives up when a round has nothing to assign, which needs a
  cycle (`assign_isSome`). The layers it returns are the fixed point of `layerOf`
  (`assign_spec`), so a key lies strictly above everything it depends on.
-/

import DataNexus.Lib.Kahn

namespace DataNexus.Lib.Layers

open Kahn (sorted mem_sorted sorted_perm)

variable {κ : Type} [LinearOrder κ] (deps : κ → List κ)

/-- The layers given so far, in the order they were given. -/
abbrev Table (κ : Type) := List (κ × Nat)

def layerOf (t : Table κ) (ds : List κ) : Nat :=
  if ds = [] then 0 else (ds.map fun d => (t.lookup d).getD 0).foldr max 0 + 1

def place (t : Table κ) (k : κ) : Table κ := t ++ [(k, layerOf t (deps k))]

def readyKeys (t : Table κ) (remaining : List κ) : List κ :=
  sorted (remaining.filter fun k => (deps k).all fun d => (t.lookup d).isSome)

def rounds : Nat → List κ → Table κ → Option (Table κ)
  | 0, remaining, t => if remaining = [] then some t else none
  | fuel + 1, remaining, t =>
    if remaining = [] then some t
    else if readyKeys deps t remaining = [] then none
    else
      rounds fuel (remaining.filter (!(readyKeys deps t remaining).contains ·))
        ((readyKeys deps t remaining).foldl (place deps) t)

def assign (ks : List κ) : Option (Table κ) := rounds deps ks.length ks []

/-! ## Looking up -/

variable {deps}

theorem lookup_append {t u : Table κ} {k : κ} : (t ++ u).lookup k = (t.lookup k).or (u.lookup k) := by
  induction t with
  | nil => simp
  | cons a t ih =>
    rw [List.cons_append, List.lookup, List.lookup]
    split <;> simp_all

theorem lookup_isSome {t : Table κ} {k : κ} : (t.lookup k).isSome ↔ k ∈ t.map (·.1) := by
  induction t with
  | nil => simp
  | cons a t ih =>
    rw [List.lookup]
    split
    · rename_i h
      simp [eq_of_beq h]
    · rename_i h
      have : k ≠ a.1 := by simpa using h
      simp [ih, this]

theorem lookup_eq_some {t : Table κ} (hnd : (t.map (·.1)).Nodup) {k : κ} {w : Nat} :
    t.lookup k = some w ↔ (k, w) ∈ t := by
  induction t with
  | nil => simp
  | cons a t ih =>
    rw [List.map_cons, List.nodup_cons] at hnd
    rw [List.lookup, List.mem_cons]
    split
    · rename_i h
      obtain rfl : k = a.1 := eq_of_beq h
      have : (a.1, w) ∉ t := fun hm => hnd.1 (List.mem_map.mpr ⟨_, hm, rfl⟩)
      simp [this, Prod.ext_iff, eq_comm]
    · rename_i h
      have : k ≠ a.1 := by simpa using h
      simp [ih hnd.2, Prod.ext_iff, this]

theorem layerOf_append {t u : Table κ} {ds : List κ} (h : ∀ d ∈ ds, (t.lookup d).isSome) :
    layerOf (t ++ u) ds = layerOf t ds := by
  unfold layerOf
  split
  · rfl
  · congr 2
    refine List.map_congr_left fun d hd => ?_
    obtain ⟨w, hw⟩ := Option.isSome_iff_exists.mp (h d hd)
    simp [lookup_append, hw]

theorem lt_layerOf {t : Table κ} {ds : List κ} {d : κ} {w : Nat} (hd : d ∈ ds) (hw : t.lookup d = some w) :
    w < layerOf t ds := by
  have hne : ds ≠ [] := List.ne_nil_of_mem hd
  rw [layerOf, if_neg hne]
  have : ∀ l : List Nat, w ∈ l → w ≤ l.foldr max 0 := by
    intro l
    induction l with
    | nil => simp
    | cons x l ih =>
      intro hm
      rcases List.mem_cons.mp hm with rfl | hm
      · simp
      · exact Nat.le_trans (ih hm) (by simp)
  have := this (ds.map fun d => (t.lookup d).getD 0) (List.mem_map.mpr ⟨d, hd, by simp [hw]⟩)
  omega

/-! ## The table -/

variable (deps)

/-- Every key has the layer its dependencies give it, and they have theirs. -/
structure Layered (t : Table κ) : Prop where
  nodup : (t.map (·.1)).Nodup
  known : ∀ k ∈ t.map (·.1), ∀ d ∈ deps k, (t.lookup d).isSome
  layer : ∀ k w, t.lookup k = some w → w = layerOf t (deps k)

variable {deps}

theorem place_layered {t : Table κ} (h : Layered deps t) {k : κ} (hk : k ∉ t.map (·.1))
    (hd : ∀ d ∈ deps k, (t.lookup d).isSome) : Layered deps (place deps t k) := by
  refine ⟨?_, ?_, ?_⟩
  · rw [place, List.map_append]
    exact List.Nodup.append h.nodup (by simp) (by simpa using hk)
  · intro m hm d hdm
    rw [place, lookup_append]
    rw [place, List.map_append, List.mem_append] at hm
    have : (t.lookup d).isSome := by
      rcases hm with hm | hm
      · exact h.known m hm d hdm
      · simp only [List.map_cons, List.map_nil, List.mem_singleton] at hm
        exact hd d (hm ▸ hdm)
    simp [this]
  · intro m w hm
    rw [place, lookup_append] at hm
    rw [place]
    cases ht : t.lookup m with
    | some v =>
      obtain rfl : v = w := by simpa [ht] using hm
      rw [layerOf_append (h.known m (lookup_isSome.mp (by simp [ht])))]
      exact h.layer m v ht
    | none =>
      simp only [ht, Option.none_or, List.lookup] at hm
      split at hm
      · rename_i e
        obtain rfl : m = k := eq_of_beq e
        rw [layerOf_append hd]
        exact (Option.some.inj hm).symm
      · cases hm

theorem foldl_place_keys (ks : List κ) (t : Table κ) :
    (ks.foldl (place deps) t).map (·.1) = t.map (·.1) ++ ks := by
  induction ks generalizing t with
  | nil => simp
  | cons k ks ih => simp [ih, place]

theorem foldl_place_layered {ks : List κ} {t : Table κ} (h : Layered deps t)
    (hks : (t.map (·.1) ++ ks).Nodup) (hd : ∀ k ∈ ks, ∀ d ∈ deps k, (t.lookup d).isSome) :
    Layered deps (ks.foldl (place deps) t) := by
  induction ks generalizing t with
  | nil => exact h
  | cons k ks ih =>
    have hk : k ∉ t.map (·.1) := fun hm =>
      (List.nodup_append.mp hks).2.2 k hm k (by simp) rfl
    refine ih (place_layered h hk (hd k (by simp))) (by simpa [place] using hks) fun m hm d hdm => ?_
    rw [place, lookup_append]
    simp [hd m (by simp [hm]) d hdm]

theorem mem_readyKeys {t : Table κ} {remaining : List κ} {k : κ} :
    k ∈ readyKeys deps t remaining ↔ k ∈ remaining ∧ ∀ d ∈ deps k, (t.lookup d).isSome := by
  simp [readyKeys]

theorem readyKeys_nodup {t : Table κ} {remaining : List κ} (h : remaining.Nodup) :
    (readyKeys deps t remaining).Nodup :=
  (sorted_perm _).nodup_iff.mpr (h.filter _)

theorem rounds_spec {fuel : Nat} {remaining : List κ} {t t' : Table κ} (h : rounds deps fuel remaining t = some t')
    (hl : Layered deps t) (hnd : (t.map (·.1) ++ remaining).Nodup) :
    Layered deps t' ∧ (t'.map (·.1)).Perm (t.map (·.1) ++ remaining) := by
  induction fuel generalizing remaining t with
  | zero =>
    rw [rounds] at h
    split at h
    · obtain rfl := Option.some.inj h
      rename_i hr
      exact ⟨hl, by simp [hr]⟩
    · cases h
  | succ fuel ih =>
    rw [rounds] at h
    split at h
    · obtain rfl := Option.some.inj h
      rename_i hr
      exact ⟨hl, by simp [hr]⟩
    · split at h
      · cases h
      · obtain ⟨h1, h2, hdis⟩ := List.nodup_append.mp hnd
        have hrnd : (readyKeys deps t remaining).Nodup := readyKeys_nodup h2
        have hnew : (t.map (·.1) ++ readyKeys deps t remaining).Nodup := by
          refine List.nodup_append.mpr ⟨h1, hrnd, fun a ha b hb => hdis a ha b (mem_readyKeys.mp hb).1⟩
        have hperm : (readyKeys deps t remaining ++ remaining.filter (!(readyKeys deps t remaining).contains ·)).Perm
            remaining := by
          have hin : (readyKeys deps t remaining).Perm (remaining.filter (· ∈ readyKeys deps t remaining)) := by
            refine (List.perm_ext_iff_of_nodup hrnd (h2.filter _)).mpr fun k => ?_
            simp only [List.mem_filter, decide_eq_true_eq]
            exact ⟨fun hk => ⟨(mem_readyKeys.mp hk).1, hk⟩, fun hk => hk.2⟩
          refine (hin.append_right _).trans ?_
          have hsplit := List.filter_append_perm (fun k => decide (k ∈ readyKeys deps t remaining)) remaining
          simpa [List.contains_eq_mem] using hsplit
        have hall : ((t.map (·.1) ++ readyKeys deps t remaining) ++
            remaining.filter (!(readyKeys deps t remaining).contains ·)).Perm (t.map (·.1) ++ remaining) := by
          rw [List.append_assoc]
          exact hperm.append_left _
        have := ih h (foldl_place_layered hl hnew fun k hk => (mem_readyKeys.mp hk).2)
          (by rw [foldl_place_keys]; exact hall.nodup_iff.mpr hnd)
        rw [foldl_place_keys] at this
        exact ⟨this.1, this.2.trans hall⟩

theorem assign_spec {ks : List κ} {t : Table κ} (hks : ks.Nodup) (h : assign deps ks = some t) :
    Layered deps t ∧ (t.map (·.1)).Perm ks := by
  simpa using rounds_spec h ⟨by simp, by simp, by simp⟩ (by simpa using hks)

/-- In a layered table a key lies strictly above its dependencies. -/
theorem Layered.lt {t : Table κ} (h : Layered deps t) {k d : κ} {w v : Nat} (hk : t.lookup k = some w)
    (hd : d ∈ deps k) (hv : t.lookup d = some v) : v < w := by
  rw [h.layer k w hk]
  exact lt_layerOf hd hv

theorem rounds_isSome {fuel : Nat} {remaining : List κ} {t : Table κ} (rank : κ → Nat)
    (hf : remaining.length ≤ fuel)
    (hrank : ∀ k ∈ remaining, ∀ d ∈ deps k, (d ∈ remaining ∧ rank d < rank k) ∨ d ∈ t.map (·.1)) :
    (rounds deps fuel remaining t).isSome := by
  induction fuel generalizing remaining t with
  | zero =>
    have : remaining = [] := List.eq_nil_of_length_eq_zero (by omega)
    simp [rounds, this]
  | succ fuel ih =>
    rw [rounds]
    split
    · simp
    · rename_i hne
      -- The remaining key of least rank waits for nothing.
      obtain ⟨k, hk, hmin⟩ : ∃ k ∈ remaining, ∀ m ∈ remaining, rank k ≤ rank m := by
        obtain ⟨k, hk⟩ := List.exists_mem_of_ne_nil _ hne
        obtain ⟨m, hm, hle⟩ := Finset.exists_min_image remaining.toFinset rank ⟨k, by simpa using hk⟩
        exact ⟨m, by simpa using hm, fun x hx => hle x (by simpa using hx)⟩
      have hready : k ∈ readyKeys deps t remaining := by
        refine mem_readyKeys.mpr ⟨hk, fun d hd => ?_⟩
        rcases hrank k hk d hd with ⟨hd, hlt⟩ | hd
        · exact absurd (hmin d hd) (by omega)
        · exact lookup_isSome.mpr hd
      rw [if_neg (List.ne_nil_of_mem hready)]
      refine ih ?_ fun m hm d hd => ?_
      · have hlt : (remaining.filter (!(readyKeys deps t remaining).contains ·)).length < remaining.length :=
          List.length_filter_lt_length_iff_exists.mpr ⟨k, hk, by simpa using hready⟩
        omega
      · rw [foldl_place_keys]
        rcases hrank m (List.mem_filter.mp hm).1 d hd with ⟨hd, hlt⟩ | hd
        · by_cases hdr : d ∈ readyKeys deps t remaining
          · exact .inr (List.mem_append_right _ hdr)
          · exact .inl ⟨List.mem_filter.mpr ⟨hd, by simpa using hdr⟩, hlt⟩
        · exact .inr (List.mem_append_left _ hd)

theorem assign_isSome {ks : List κ} (rank : κ → Nat) (h : ∀ k ∈ ks, ∀ d ∈ deps k, d ∈ ks ∧ rank d < rank k) :
    (assign deps ks).isSome :=
  rounds_isSome rank (Nat.le_refl _) fun k hk d hd => .inl (h k hk d hd)

end DataNexus.Lib.Layers
