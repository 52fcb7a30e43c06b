/-
  DataNexus.Lib.KahnStack — Kahn's algorithm with a stack of ready keys, and the walk that
  pushes only the keys it has not seen.

  Which ready key comes next makes no difference to `Kahn.Mid`, the invariant of the loop:
  `drain` pops the last one. On a graph with distinct keys and no dangling dependency it
  ends with nothing ready (`drain_drained`), and it has popped every key exactly where the
  graph has no cycle (`complete_iff`).
  `explore` marks exactly the keys reached from its start (`mem_explore`).
-/

import DataNexus.Lib.Kahn
import DataNexus.Lib.Worklist

namespace DataNexus.Lib

namespace Kahn

variable {κ : Type} [LinearOrder κ] {nodes : List (κ × List κ)}

/-- One dependency of `child` is met; a key with none left goes on the stack. -/
def push (s : State κ) (child : κ) : State κ :=
  let left := s.indegree child - 1
  { s with
    indegree := Function.update s.indegree child left
    ready := if left = 0 then s.ready ++ [child] else s.ready }

/-- Pop the last ready key. -/
def drain (adjacent : κ → List κ) : Nat → State κ → State κ
  | 0, s => s
  | fuel + 1, s =>
    match s.ready.getLast? with
    | none => s
    | some k =>
      drain adjacent fuel ((adjacent k).foldl push { s with ready := s.ready.dropLast, order := s.order ++ [k] })

/-- The order of the ready keys is no matter. -/
theorem Mid.perm {s s' : State κ} {due due' : List κ} (h : Mid nodes s due) (hindegree : s'.indegree = s.indegree)
    (horder : s'.order = s.order) (hready : s'.ready.Perm s.ready) (hdue : due'.Perm due) : Mid nodes s' due' where
  nodup := by
    rw [horder]
    exact (hready.append_left s.order).nodup_iff.mpr h.nodup
  sub k hk := by
    rw [horder] at hk
    exact h.sub k ((hready.append_left s.order).mem_iff.mp hk)
  deg n hn := by rw [hindegree, horder, hdue.count_eq, h.deg n hn]
  ready k hk := by rw [hready.mem_iff, hindegree, horder, h.ready k hk]
  settled k hk := by
    rw [hindegree]
    exact h.settled k (horder ▸ hk)
  closed pre k post e := h.closed pre k post (horder ▸ e)

theorem push_mid {s : State κ} {child : κ} {due : List κ} (hc : child ∈ keys nodes)
    (h : Mid nodes s (child :: due)) : Mid nodes (push s child) due := by
  refine (relax_mid hc h).perm rfl rfl ?_ (.refl _)
  simp only [push, relax]
  split
  · exact (sorted_perm _).symm
  · exact .refl _

theorem foldl_push_mid {due : List κ} {s : State κ} (hdue : ∀ k ∈ due, k ∈ keys nodes) (h : Mid nodes s due) :
    Mid nodes (due.foldl push s) [] := by
  induction due generalizing s with
  | nil => exact h
  | cons k due ih => exact ih (fun d hd => hdue d (by simp [hd])) (push_mid (hdue k (by simp)) h)

@[simp] theorem foldl_push_order (due : List κ) (s : State κ) : (due.foldl push s).order = s.order := by
  induction due generalizing s with
  | nil => rfl
  | cons k due ih =>
    rw [List.foldl_cons, ih]
    rfl

/-- Who waits for each key, in any order. -/
def Adjacent (nodes : List (κ × List κ)) (adjacent : κ → List κ) : Prop :=
  ∀ k ∈ keys nodes, (adjacent k).Perm (dependents nodes k)

variable {adjacent : κ → List κ}

/-- Popping a ready key, before what waits for it is told. -/
theorem pop_mid (hw : WellFormed nodes) {s : State κ} {k : κ} {rest : List κ} (h : Mid nodes s [])
    (hr : s.ready.Perm (k :: rest)) :
    Mid nodes { s with ready := rest, order := s.order ++ [k] } (dependents nodes k) := by
  have hmem : ∀ d, d ∈ s.ready ↔ d = k ∨ d ∈ rest := fun d => by rw [hr.mem_iff, List.mem_cons]
  have hk : k ∈ keys nodes := h.sub k (by simp [hmem])
  obtain ⟨hzero, hout⟩ := (h.ready k hk).mp (by simp [hmem])
  have hnd : (s.order ++ [k] ++ rest).Nodup := by
    simpa using (hr.append_left s.order).nodup_iff.mp h.nodup
  -- `k` is ready, so all it lists is out.
  have hkdeps : ∀ n ∈ nodes, n.1 = k → ∀ d ∈ n.2, d ∈ s.order := by
    rintro n hn rfl
    have hdeg := h.deg n hn
    rw [hzero] at hdeg
    exact unmet_eq_zero.mp (by simp at hdeg; omega)
  refine ⟨hnd, ?_, ?_, ?_, ?_, ?_⟩
  · intro d hd
    refine h.sub d ?_
    simpa [hmem, or_assoc] using hd
  · intro n hn
    have hdeg := h.deg n hn
    rw [List.count_nil, Nat.add_zero] at hdeg
    rw [count_dependents hw.nodup hn, ← unmet_emit hout]
    exact hdeg
  · intro d hd
    have hready := h.ready d hd
    by_cases e : d = k
    · subst e
      have hrest : d ∉ rest := by
        intro hm
        simp [List.nodup_append, hm] at hnd
      simp [hrest]
    · simp only [hmem, e, false_or] at hready
      simp [hready, e]
  · intro d hd
    rcases List.mem_append.mp hd with hd | hd
    · exact h.settled d hd
    · rw [List.mem_singleton] at hd
      exact hd ▸ hzero
  · intro pre d post e n hn hnd' x hx
    rcases List.append_eq_append_iff.mp e with ⟨t, rfl, ht⟩ | ⟨t, ht, hpost⟩
    · rcases List.cons_eq_append_iff.mp ht with ⟨rfl, ht⟩ | ⟨u, rfl, ht⟩
      · obtain ⟨rfl, -⟩ := List.cons.inj ht
        simpa using hkdeps n hn hnd' x hx
      · simp at ht
    · rcases List.cons_eq_append_iff.mp hpost with ⟨rfl, hk'⟩ | ⟨u, rfl, -⟩
      · obtain ⟨rfl, -⟩ := List.cons.inj hk'
        simpa [ht] using hkdeps n hn hnd' x hx
      · exact h.closed pre d u ht n hn hnd' x hx

omit [LinearOrder κ] in
theorem perm_of_getLast? {xs : List κ} {k : κ} (h : xs.getLast? = some k) : xs.Perm (k :: xs.dropLast) := by
  have hsplit : xs.dropLast ++ [k] = xs := List.dropLast_append_getLast? k h
  have hswap : (xs.dropLast ++ [k]).Perm (k :: xs.dropLast) := List.perm_append_singleton k xs.dropLast
  rwa [hsplit] at hswap

theorem drainStep_mid (hw : WellFormed nodes) (ha : Adjacent nodes adjacent) {s : State κ} {k : κ} (h : Mid nodes s [])
    (hr : s.ready.getLast? = some k) :
    Mid nodes ((adjacent k).foldl push { s with ready := s.ready.dropLast, order := s.order ++ [k] }) [] := by
  have hpop := pop_mid hw h (perm_of_getLast? hr)
  have hk : k ∈ keys nodes := h.sub k (List.mem_append_right _ (List.mem_of_getLast? hr))
  refine foldl_push_mid (fun d hd => ?_) (hpop.perm rfl rfl (.refl _) (ha k hk))
  obtain ⟨n, hn, rfl, -⟩ := mem_dependents.mp ((ha k hk).mem_iff.mp hd)
  exact List.mem_map.mpr ⟨n, hn, rfl⟩

theorem drain_mid (hw : WellFormed nodes) (ha : Adjacent nodes adjacent) {s : State κ} (h : Mid nodes s []) (fuel : Nat) :
    Mid nodes (drain adjacent fuel s) [] := by
  induction fuel generalizing s with
  | zero => exact h
  | succ fuel ih =>
    unfold drain
    split
    · exact h
    · rename_i k hr
      exact ih (drainStep_mid hw ha h hr)

/-- As many rounds as there are keys leave nothing ready. -/
theorem drain_drained (hw : WellFormed nodes) (ha : Adjacent nodes adjacent) {s : State κ} (h : Mid nodes s []) {fuel : Nat}
    (hf : nodes.length ≤ s.order.length + fuel) : (drain adjacent fuel s).ready = [] := by
  induction fuel generalizing s with
  | zero =>
    have hlength := length_le_of_mid h
    exact List.eq_nil_of_length_eq_zero (by rw [drain]; omega)
  | succ fuel ih =>
    unfold drain
    split
    · rename_i hnone
      exact List.getLast?_eq_none_iff.mp hnone
    · rename_i k hr
      refine ih (drainStep_mid hw ha h hr) ?_
      simp only [foldl_push_order, List.length_append, List.length_singleton]
      omega

/-- `d` is a dependency of `k`. -/
def DependsOn (nodes : List (κ × List κ)) (d k : κ) : Prop := ∃ n ∈ nodes, n.1 = k ∧ d ∈ n.2

/-- A drained graph is out in full exactly where it has no cycle. -/
theorem complete_iff (hw : WellFormed nodes) {s : State κ} (h : Mid nodes s []) (hdrained : s.ready = []) :
    s.order.length = nodes.length ↔ ∀ k, ¬ Relation.TransGen (DependsOn nodes) k k := by
  have hnodup : s.order.Nodup := h.nodup.of_append_left
  have hsub : s.order ⊆ keys nodes := fun k hk => h.sub k (List.mem_append_left _ hk)
  constructor
  · intro hlength k hcycle
    have hperm : s.order.Perm (keys nodes) :=
      (List.subperm_of_subset hnodup hsub).perm_of_length_le (by simp [keys, hlength])
    -- A dependency is out before what depends on it.
    have hbefore : ∀ a b, Relation.TransGen (DependsOn nodes) a b → s.order.idxOf a < s.order.idxOf b := by
      have hedge : ∀ a b, DependsOn nodes a b → s.order.idxOf a < s.order.idxOf b := by
        rintro a b ⟨n, hn, rfl, ha⟩
        have hmem : n.1 ∈ s.order := hperm.mem_iff.mpr (List.mem_map.mpr ⟨n, hn, rfl⟩)
        obtain ⟨pre, post, hsplit⟩ := List.append_of_mem hmem
        have hpre : a ∈ pre := h.closed pre n.1 post hsplit n hn rfl a ha
        have hnew : n.1 ∉ pre := by
          rw [hsplit] at hnodup
          exact fun hm => (List.nodup_append.mp hnodup).2.2 _ hm _ (by simp) rfl
        rw [hsplit, List.idxOf_append_of_mem hpre, List.idxOf_append_of_notMem hnew]
        have hlt := List.idxOf_lt_length_of_mem hpre
        omega
      intro a b hab
      induction hab with
      | single hab => exact hedge _ _ hab
      | tail _ hbc ih => exact ih.trans (hedge _ _ hbc)
    exact absurd (hbefore k k hcycle) (lt_irrefl _)
  · intro hacyclic
    suffices hall : keys nodes ⊆ s.order by
      have hle := (List.subperm_of_subset hnodup hsub).length_le
      have hge := (List.subperm_of_subset hw.nodup hall).length_le
      simp only [keys, List.length_map] at hle hge
      omega
    -- A key that is not out waits for another one: without a cycle this ends.
    have hwf : WellFounded fun a b : {k // k ∈ keys nodes} => Relation.TransGen (DependsOn nodes) a.1 b.1 := by
      have htrans : IsTrans {k // k ∈ keys nodes} fun a b => Relation.TransGen (DependsOn nodes) a.1 b.1 :=
        ⟨fun _ _ _ => Relation.TransGen.trans⟩
      have hirrefl : Std.Irrefl fun a b : {k // k ∈ keys nodes} => Relation.TransGen (DependsOn nodes) a.1 b.1 :=
        ⟨fun a => hacyclic a.1⟩
      exact Finite.wellFounded_of_trans_of_irrefl _
    suffices hout : ∀ k : {k // k ∈ keys nodes}, k.1 ∈ s.order from fun k hk => hout ⟨k, hk⟩
    intro k
    induction k using hwf.induction with
    | _ k ih =>
      obtain ⟨n, hn, hnk⟩ := List.mem_map.mp k.2
      by_contra hnot
      have hdeps : ∀ d ∈ n.2, d ∈ s.order := fun d hd => ih ⟨d, hw.known n hn d hd⟩ (.single ⟨n, hn, hnk, hd⟩)
      have hzero := h.deg n hn
      rw [unmet_eq_zero.mpr hdeps] at hzero
      have hready := (h.ready k.1 k.2).mpr ⟨by rw [← hnk]; simpa using hzero, hnot⟩
      simp [hdrained] at hready

end Kahn

namespace Worklist

variable {κ : Type} [DecidableEq κ] (next : κ → List κ) (arrange : List κ → List κ)

/-- Pop the last pending key, skip it if seen, else mark it and push what it points to and
    is not seen, in some arrangement; `none` where the rounds do not suffice. -/
def explore : Nat → List κ → List κ → Option (List κ)
  | fuel, pending, seen =>
    match pending.getLast?, fuel with
    | none, _ => some seen
    | some _, 0 => none
    | some k, fuel + 1 =>
      if k ∈ seen then explore fuel pending.dropLast seen
      else explore fuel (pending.dropLast ++ arrange ((next k).filter (· ∉ k :: seen))) (k :: seen)

variable {next arrange}

omit [DecidableEq κ] in
theorem mem_of_getLast? {pending : List κ} {k : κ} (h : pending.getLast? = some k) (d : κ) :
    d ∈ pending ↔ d = k ∨ d ∈ pending.dropLast := by
  have hsplit : pending.dropLast ++ [k] = pending := List.dropLast_append_getLast? k h
  rw [← hsplit]
  simp [or_comm]

omit [DecidableEq κ] in
theorem length_dropLast_of_getLast? {pending : List κ} {k : κ} (h : pending.getLast? = some k) :
    pending.length = pending.dropLast.length + 1 := by
  have hsplit : pending.dropLast ++ [k] = pending := List.dropLast_append_getLast? k h
  have hlength := congrArg List.length hsplit
  simpa using hlength.symm

theorem explore_nil (fuel : Nat) (seen : List κ) : explore next arrange fuel [] seen = some seen := by
  unfold explore
  rfl

theorem explore_step {fuel : Nat} {pending seen : List κ} {k : κ} (h : pending.getLast? = some k) :
    explore next arrange (fuel + 1) pending seen =
      if k ∈ seen then explore next arrange fuel pending.dropLast seen
      else explore next arrange fuel (pending.dropLast ++ arrange ((next k).filter (· ∉ k :: seen))) (k :: seen) := by
  conv_lhs => unfold explore
  simp only [h]

theorem explore_sound (harrange : ∀ xs, (arrange xs).Perm xs) {fuel : Nat} {pending seen marked : List κ} (h : explore next arrange fuel pending seen = some marked)
    {k : κ} (hk : k ∈ marked) : k ∈ seen ∨ ∃ p ∈ pending, Reaches next p k := by
  induction fuel generalizing pending seen with
  | zero =>
    unfold explore at h
    split at h
    · exact .inl (Option.some.inj h ▸ hk)
    · cases h
    · contradiction
  | succ fuel ih =>
    cases hlast : pending.getLast? with
    | none =>
      obtain rfl := List.getLast?_eq_none_iff.mp hlast
      rw [explore_nil] at h
      exact .inl (Option.some.inj h ▸ hk)
    | some p =>
      have hmem := mem_of_getLast? hlast
      rw [explore_step hlast] at h
      split at h
      · rcases ih h with hs | ⟨q, hq, hr⟩
        · exact .inl hs
        · exact .inr ⟨q, (hmem q).mpr (.inr hq), hr⟩
      · rcases ih h with hs | ⟨q, hq, hr⟩
        · rcases List.mem_cons.mp hs with rfl | hs
          · exact .inr ⟨k, (hmem k).mpr (.inl rfl), .refl⟩
          · exact .inl hs
        · rcases List.mem_append.mp hq with hq | hq
          · exact .inr ⟨q, (hmem q).mpr (.inr hq), hr⟩
          · exact .inr ⟨p, (hmem p).mpr (.inl rfl), .head (List.mem_filter.mp ((harrange _).mem_iff.mp hq)).1 hr⟩

/-- With enough fuel the walk ends, and the marked keys are closed. -/
theorem explore_closed (harrange : ∀ xs, (arrange xs).Perm xs) {all : List κ} (hall : all.Nodup) (hnext : ∀ k ∈ all, ∀ d ∈ next k, d ∈ all)
    {fuel : Nat} (pending seen : List κ) (hp : ∀ k ∈ pending, k ∈ all) (hf : cost next all pending seen ≤ fuel)
    (hclosed : ∀ k ∈ seen, ∀ d ∈ next k, d ∈ seen ∨ d ∈ pending) :
    ∃ marked, explore next arrange fuel pending seen = some marked ∧ (∀ k ∈ pending ++ seen, k ∈ marked) ∧
      ∀ k ∈ marked, ∀ d ∈ next k, d ∈ marked := by
  induction fuel generalizing pending seen with
  | zero =>
    obtain rfl : pending = [] := List.eq_nil_of_length_eq_zero (by simp only [cost] at hf; omega)
    exact ⟨seen, explore_nil 0 seen, fun k hk => hk, fun k hk d hd => (hclosed k hk d hd).resolve_right (by simp)⟩
  | succ fuel ih =>
    cases hlast : pending.getLast? with
    | none =>
      obtain rfl := List.getLast?_eq_none_iff.mp hlast
      exact ⟨seen, explore_nil _ seen, fun k hk => hk, fun k hk d hd => (hclosed k hk d hd).resolve_right (by simp)⟩
    | some p =>
      have hmem := mem_of_getLast? hlast
      have hlength := length_dropLast_of_getLast? hlast
      have hpall := hp p ((hmem p).mpr (.inl rfl))
      rw [explore_step hlast]
      split
      · rename_i hs
        obtain ⟨marked, hmarked, h1, h2⟩ := ih pending.dropLast seen (fun k hk => hp k ((hmem k).mpr (.inr hk)))
          (by simp only [cost] at hf ⊢; omega)
          (fun k hk d hd => (hclosed k hk d hd).elim .inl fun hd => by
            rcases (hmem d).mp hd with rfl | hd
            · exact .inl hs
            · exact .inr hd)
        refine ⟨marked, hmarked, fun k hk => h1 k ?_, h2⟩
        rcases List.mem_append.mp hk with hk | hk
        · rcases (hmem k).mp hk with rfl | hk
          · exact List.mem_append_right _ hs
          · exact List.mem_append_left _ hk
        · exact List.mem_append_right _ hk
      · rename_i hs
        have hedges : edges next (all.filter (· ∉ p :: seen)) + (next p).length = edges next (all.filter (· ∉ seen)) :=
          edges_filter_cons hall hpall hs
        have hpushed : (arrange ((next p).filter (· ∉ p :: seen))).length ≤ (next p).length := by
          rw [(harrange _).length_eq]
          exact List.length_filter_le _ _
        obtain ⟨marked, hmarked, h1, h2⟩ := ih (pending.dropLast ++ arrange ((next p).filter (· ∉ p :: seen))) (p :: seen)
          (fun k hk => by
            rcases List.mem_append.mp hk with hk | hk
            · exact hp k ((hmem k).mpr (.inr hk))
            · exact hnext p hpall k (List.mem_filter.mp ((harrange _).mem_iff.mp hk)).1)
          (by simp only [cost, List.length_append] at hf ⊢; omega)
          (fun k hk d hd => by
            by_cases hseen : d ∈ p :: seen
            · exact .inl hseen
            · rcases List.mem_cons.mp hk with rfl | hk
              · exact .inr (List.mem_append_right _ ((harrange _).mem_iff.mpr (List.mem_filter.mpr ⟨hd, by simpa using hseen⟩)))
              · rcases hclosed k hk d hd with hd | hd
                · exact .inl (List.mem_cons_of_mem _ hd)
                · rcases (hmem d).mp hd with rfl | hd
                  · exact .inl (by simp)
                  · exact .inr (List.mem_append_left _ hd))
        refine ⟨marked, hmarked, fun k hk => h1 k ?_, h2⟩
        rcases List.mem_append.mp hk with hk | hk
        · rcases (hmem k).mp hk with rfl | hk
          · simp
          · simp [hk]
        · simp [hk]

theorem mem_explore (harrange : ∀ xs, (arrange xs).Perm xs) {all : List κ} (hall : all.Nodup) (hnext : ∀ k ∈ all, ∀ d ∈ next k, d ∈ all) {start : κ}
    (hstart : start ∈ all) {fuel : Nat} (hfuel : 1 + edges next all ≤ fuel) :
    ∃ marked, explore next arrange fuel [start] [] = some marked ∧ ∀ k, k ∈ marked ↔ Reaches next start k := by
  have hf : cost next all [start] [] ≤ fuel := by simpa [cost] using hfuel
  obtain ⟨marked, hmarked, h1, h2⟩ := explore_closed harrange hall hnext [start] [] (by simpa using hstart) hf (by simp)
  refine ⟨marked, hmarked, fun k => ⟨fun hk => ?_, fun hk => ?_⟩⟩
  · rcases explore_sound harrange hmarked hk with hseen | ⟨p, hp, hr⟩
    · cases hseen
    · rwa [List.mem_singleton.mp hp] at hr
  · induction hk with
    | refl => exact h1 start (by simp)
    | tail _ hd ih => exact h2 _ ih _ hd

end Worklist

end DataNexus.Lib
