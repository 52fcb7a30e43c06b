/-
  DataNexus.Lib.LayerOrder — topological order and layers depend on the graph alone.

  - `Kahn.run_congr`: the emitted order does not depend on the order in which the keys are
    listed;
  - `Layers.isGreatest_layer`: a key's layer is the length of the longest chain of
    dependencies below it;
  - `Layers.assign_sorted`: layers are given in order, and within a layer the keys are.
-/

import DataNexus.Lib.Layers

namespace DataNexus.Lib

variable {κ : Type} [LinearOrder κ]

/-! ## Order of the input -/

namespace Kahn

theorem sorted_eq_of_perm {ks ks' : List κ} (h : ks.Perm ks') : sorted ks = sorted ks' := by
  refine List.Perm.eq_of_pairwise' (List.pairwise_insertionSort _ ks) (List.pairwise_insertionSort _ ks') ?_
  exact (sorted_perm ks).trans (h.trans (sorted_perm ks').symm)

variable {nodes nodes' : List (κ × List κ)}

theorem dependents_perm (h : nodes.Perm nodes') (k : κ) : (dependents nodes k).Perm (dependents nodes' k) :=
  h.flatMap_right _

theorem lookup_eq_of_perm (h : nodes.Perm nodes') (hkeys : (keys nodes).Nodup) (k : κ) :
    nodes.lookup k = nodes'.lookup k := by
  have hkeys' : (keys nodes').Nodup := (h.map _).nodup_iff.mp hkeys
  by_cases hk : k ∈ keys nodes
  · obtain ⟨n, hn, rfl⟩ := List.mem_map.mp hk
    rw [lookup_of_mem hkeys hn, lookup_of_mem hkeys' (h.subset hn)]
  · have hnone : ∀ ns : List (κ × List κ), k ∉ keys ns → ns.lookup k = none := by
      intro ns hns
      rw [List.lookup_eq_none_iff]
      intro n hn
      simp only [bne_iff_ne, ne_eq]
      intro e
      exact hns (List.mem_map.mpr ⟨n, hn, e.symm⟩)
    have hk' : k ∉ keys nodes' := by
      intro hk'
      exact hk ((h.map _).symm.subset hk')
    rw [hnone nodes hk, hnone nodes' hk']

theorem init_eq_of_perm (h : nodes.Perm nodes') (hkeys : (keys nodes).Nodup) : init nodes = init nodes' := by
  unfold init
  congr 1
  · funext k
    rw [lookup_eq_of_perm h hkeys]
  · exact sorted_eq_of_perm ((h.filter _).map _)

theorem loop_eq_of_perm (h : nodes.Perm nodes') (fuel : Nat) (s : State κ) : loop nodes fuel s = loop nodes' fuel s := by
  induction fuel generalizing s with
  | zero => rfl
  | succ fuel ih =>
    rw [loop, loop]
    split
    · rfl
    · rw [ih, emit, emit, sorted_eq_of_perm (dependents_perm h _)]

/-- Listing the keys in another order changes nothing. -/
theorem run_congr (h : nodes.Perm nodes') (hkeys : (keys nodes).Nodup) : run nodes = run nodes' := by
  rw [run, run, init_eq_of_perm h hkeys, loop_eq_of_perm h, h.length_eq]

end Kahn

/-! ## Layers -/

namespace Layers

open Kahn (sorted sorted_perm mem_sorted)

/-- A chain of `n` dependencies leads down from `k`. -/
inductive Descends (deps : κ → List κ) : κ → Nat → Prop where
  | zero (k : κ) : Descends deps k 0
  | succ {k d : κ} {n : Nat} : d ∈ deps k → Descends deps d n → Descends deps k (n + 1)

variable {deps : κ → List κ} {t : Table κ}

theorem exists_of_layerOf {ds : List κ} {w : Nat} (hne : ds ≠ []) (h : layerOf t ds = w + 1) :
    ∃ d ∈ ds, (t.lookup d).getD 0 = w := by
  rw [layerOf, if_neg hne, Nat.add_right_cancel_iff] at h
  have hmax : ∀ l : List Nat, l ≠ [] → l.foldr max 0 ∈ l := by
    intro l
    induction l with
    | nil => exact fun h => absurd rfl h
    | cons x l ih =>
      intro _
      rw [List.foldr_cons]
      by_cases hl : l = []
      · subst hl
        simp
      · obtain hle | hle := le_total x (l.foldr max 0)
        · rw [max_eq_right hle]
          exact List.mem_cons_of_mem _ (ih hl)
        · rw [max_eq_left hle]
          exact List.mem_cons_self
  have hmem := hmax (ds.map fun d => (t.lookup d).getD 0) (by simpa using hne)
  rw [h] at hmem
  obtain ⟨d, hd, e⟩ := List.mem_map.mp hmem
  exact ⟨d, hd, e⟩

/-- The layer of a key is the length of the longest chain below it. -/
theorem isGreatest_layer (h : Layered deps t) {k : κ} {w : Nat} (hk : t.lookup k = some w) :
    IsGreatest {n | Descends deps k n} w := by
  induction w using Nat.strong_induction_on generalizing k with
  | _ w ih =>
    have hmem : k ∈ t.map (·.1) := lookup_isSome.mp (by rw [hk]; rfl)
    refine ⟨?_, ?_⟩
    · show Descends deps k w
      cases w with
      | zero => exact .zero k
      | succ w =>
        have hlayer := h.layer k _ hk
        have hne : deps k ≠ [] := by
          intro e
          rw [e, layerOf, if_pos rfl] at hlayer
          cases hlayer
        obtain ⟨d, hd, hget⟩ := exists_of_layerOf hne hlayer.symm
        obtain ⟨v, hv⟩ := Option.isSome_iff_exists.mp (h.known k hmem d hd)
        rw [hv, Option.getD_some] at hget
        subst hget
        exact .succ hd (ih v (Nat.lt_succ_self v) hv).1
    · intro n hn
      cases hn with
      | zero => exact Nat.zero_le _
      | @succ _ d n hd hn =>
        obtain ⟨v, hv⟩ := Option.isSome_iff_exists.mp (h.known k hmem d hd)
        have hlt := h.lt hk hd hv
        have hle := (ih v hlt hv).2 hn
        omega

/-- The layers before this round are below `round`, and whatever remains has a dependency
    that the round before had not placed yet. -/
structure Staged (deps : κ → List κ) (round : Nat) (remaining : List κ) (t : Table κ) : Prop where
  below : ∀ e ∈ t, e.2 < round
  sorted : t.Pairwise fun a b => a.2 < b.2 ∨ (a.2 = b.2 ∧ a.1 < b.1)
  first : round = 0 → t = []
  late : ∀ last, round = last + 1 → ∀ k ∈ remaining, ∃ d ∈ deps k, ∀ v, t.lookup d = some v → v = last

theorem layerOf_eq {ds : List κ} {round : Nat} (hbelow : ∀ d ∈ ds, ∃ v, t.lookup d = some v ∧ v < round)
    (hlast : ∀ last, round = last + 1 → ∃ d ∈ ds, t.lookup d = some last) : layerOf t ds = round := by
  cases round with
  | zero =>
    have hnil : ds = [] := by
      refine List.eq_nil_iff_forall_not_mem.mpr fun d hd => ?_
      obtain ⟨v, -, hv⟩ := hbelow d hd
      cases hv
    rw [layerOf, if_pos hnil]
  | succ last =>
    obtain ⟨d, hd, hlookup⟩ := hlast last rfl
    have hge := lt_layerOf hd hlookup
    cases hw : layerOf t ds with
    | zero => omega
    | succ w =>
      obtain ⟨d', hd', hget⟩ := exists_of_layerOf (List.ne_nil_of_mem hd) hw
      obtain ⟨v, hv, hlt⟩ := hbelow d' hd'
      rw [hv, Option.getD_some] at hget
      omega

theorem foldl_place_eq {ks : List κ} {round : Nat} (hknown : ∀ k ∈ ks, ∀ d ∈ deps k, (t.lookup d).isSome)
    (hlayer : ∀ k ∈ ks, layerOf t (deps k) = round) :
    ks.foldl (place deps) t = t ++ ks.map fun k => (k, round) := by
  have hgen : ∀ (ks : List κ) (more : Table κ), (∀ k ∈ ks, ∀ d ∈ deps k, (t.lookup d).isSome) →
      (∀ k ∈ ks, layerOf t (deps k) = round) →
      ks.foldl (place deps) (t ++ more) = t ++ more ++ ks.map fun k => (k, round) := by
    intro ks
    induction ks with
    | nil =>
      intro more _ _
      simp
    | cons k ks ih =>
      intro more hknown hlayer
      have hk : place deps (t ++ more) k = t ++ (more ++ [(k, round)]) := by
        rw [place, layerOf_append (hknown k List.mem_cons_self), hlayer k List.mem_cons_self, List.append_assoc]
      rw [List.foldl_cons, hk, ih _ (fun m hm => hknown m (List.mem_cons_of_mem _ hm))
        fun m hm => hlayer m (List.mem_cons_of_mem _ hm)]
      simp
  simpa using hgen ks [] hknown hlayer

/-- A round keeps the stage: what it places has its own layer. -/
theorem Staged.next {round : Nat} {remaining : List κ} (h : Staged deps round remaining t) (hnd : remaining.Nodup)
    (hl : Layered deps t) :
    Staged deps (round + 1) (remaining.filter (!(readyKeys deps t remaining).contains ·))
      ((readyKeys deps t remaining).foldl (place deps) t) := by
  have hknown : ∀ k ∈ readyKeys deps t remaining, ∀ d ∈ deps k, (t.lookup d).isSome := fun k hk => (mem_readyKeys.mp hk).2
  have hlayer : ∀ k ∈ readyKeys deps t remaining, layerOf t (deps k) = round := by
    intro k hk
    refine layerOf_eq (fun d hd => ?_) fun last hlast => ?_
    · obtain ⟨v, hv⟩ := Option.isSome_iff_exists.mp (hknown k hk d hd)
      exact ⟨v, hv, h.below (d, v) ((lookup_eq_some hl.nodup).mp hv)⟩
    · obtain ⟨d, hd, hv⟩ := h.late last hlast k (mem_readyKeys.mp hk).1
      obtain ⟨v, hlookup⟩ := Option.isSome_iff_exists.mp (hknown k hk d hd)
      exact ⟨d, hd, hv v hlookup ▸ hlookup⟩
  have hplaced := foldl_place_eq hknown hlayer
  rw [hplaced]
  refine ⟨?_, ?_, nofun, ?_⟩
  · intro e he
    obtain he | he := List.mem_append.mp he
    · exact Nat.lt_succ_of_lt (h.below e he)
    · obtain ⟨k, -, rfl⟩ := List.mem_map.mp he
      exact Nat.lt_succ_self round
  · refine List.pairwise_append.mpr ⟨h.sorted, ?_, fun a ha b hb => ?_⟩
    · refine List.pairwise_map.mpr ?_
      have hready : (readyKeys deps t remaining).Pairwise (· < ·) := by
        refine List.Pairwise.imp₂ (fun a b hle hne => lt_of_le_of_ne hle hne)
          (List.pairwise_insertionSort (· ≤ ·) _) (readyKeys_nodup hnd)
      exact hready.imp fun hlt => .inr ⟨rfl, hlt⟩
    · obtain ⟨k, -, rfl⟩ := List.mem_map.mp hb
      exact .inl (h.below a ha)
  · intro last hlast k hk
    obtain ⟨hk, hunready⟩ := List.mem_filter.mp hk
    obtain rfl : round = last := Nat.succ.inj hlast
    have hwaits : ¬ ∀ d ∈ deps k, (t.lookup d).isSome := by
      intro hall
      have := mem_readyKeys.mpr ⟨hk, hall⟩
      simp [List.contains_eq_mem, this] at hunready
    push Not at hwaits
    obtain ⟨d, hd, hnone⟩ := hwaits
    refine ⟨d, hd, fun v hv => ?_⟩
    rw [lookup_append, Option.not_isSome_iff_eq_none.mp hnone, Option.none_or] at hv
    have hmem : (d, v) ∈ (readyKeys deps t remaining).map fun k => (k, round) := by
      refine (lookup_eq_some ?_).mp hv
      rw [List.map_map]
      simpa [Function.comp_def] using readyKeys_nodup hnd
    obtain ⟨_, -, e⟩ := List.mem_map.mp hmem
    exact (congrArg Prod.snd e).symm

theorem rounds_sorted {fuel round : Nat} {remaining : List κ} {t' : Table κ} (hrun : rounds deps fuel remaining t = some t')
    (h : Staged deps round remaining t) (hl : Layered deps t) (hnd : (t.map (·.1) ++ remaining).Nodup) :
    t'.Pairwise fun a b => a.2 < b.2 ∨ (a.2 = b.2 ∧ a.1 < b.1) := by
  induction fuel generalizing remaining t round with
  | zero =>
    rw [rounds] at hrun
    split at hrun
    · obtain rfl := Option.some.inj hrun
      exact h.sorted
    · cases hrun
  | succ fuel ih =>
    rw [rounds] at hrun
    split at hrun
    · obtain rfl := Option.some.inj hrun
      exact h.sorted
    · split at hrun
      · cases hrun
      · obtain ⟨h1, h2, hdis⟩ := List.nodup_append.mp hnd
        have hnew : (t.map (·.1) ++ readyKeys deps t remaining).Nodup :=
          List.nodup_append.mpr ⟨h1, readyKeys_nodup h2, fun a ha b hb => hdis a ha b (mem_readyKeys.mp hb).1⟩
        refine ih hrun (h.next h2 hl) (foldl_place_layered hl hnew fun k hk => (mem_readyKeys.mp hk).2) ?_
        rw [foldl_place_keys]
        refine List.nodup_append.mpr ⟨hnew, h2.filter _, fun a ha b hb => ?_⟩
        obtain ⟨hb, hunready⟩ := List.mem_filter.mp hb
        obtain ha | ha := List.mem_append.mp ha
        · exact hdis a ha b hb
        · intro e
          rw [e] at ha
          simp [List.contains_eq_mem, ha] at hunready

/-- The table lists the layers in order, and each layer's keys in order. -/
theorem assign_sorted {ks : List κ} (hks : ks.Nodup) (h : assign deps ks = some t) :
    t.Pairwise fun a b => a.2 < b.2 ∨ (a.2 = b.2 ∧ a.1 < b.1) := by
  have hstart : Staged deps 0 ks [] := ⟨nofun, .nil, fun _ => rfl, nofun⟩
  refine rounds_sorted h hstart ⟨.nil, nofun, nofun⟩ ?_
  simpa using hks

end Layers

end DataNexus.Lib
