/-
  DataNexus.Lib.Worklist — the keys a graph walk reaches.

  `walk` pops a key, skips it if seen, else marks it and pushes what it points to. Each
  round pops one key and each key is expanded once, so the pending keys and the edges of
  the unseen keys bound the rounds (`cost`); with that much fuel the walk marks exactly
  the keys reachable from the start (`mem_reach`).
-/

import DataNexus.Lib.Outcome

namespace DataNexus.Lib.Worklist

variable {κ : Type} [DecidableEq κ] (next : κ → List κ)

/-- The pending keys, the top of the stack first, and the keys marked so far. -/
def walk : Nat → List κ → List κ → List κ
  | 0, _, seen => seen
  | _ + 1, [], seen => seen
  | fuel + 1, k :: pending, seen =>
    if k ∈ seen then walk fuel pending seen
    else walk fuel ((next k).reverse ++ pending) (k :: seen)

def edges (ks : List κ) : Nat := (ks.map fun k => (next k).length).sum

/-- Everything the walk marks from `start`, in a graph over the keys `all`. -/
def reach (all : List κ) (start : κ) : List κ := walk next (1 + edges next all) [start] []

def Reaches : κ → κ → Prop := Relation.ReflTransGen fun k d => d ∈ next k

def cost (all pending seen : List κ) : Nat := pending.length + edges next (all.filter (· ∉ seen))

variable {next}

theorem edges_filter_cons {all seen : List κ} {k : κ} (hall : all.Nodup) (hk : k ∈ all) (hs : k ∉ seen) :
    edges next (all.filter (· ∉ k :: seen)) + (next k).length = edges next (all.filter (· ∉ seen)) := by
  induction all with
  | nil => cases hk
  | cons a all ih =>
    rw [List.nodup_cons] at hall
    rcases List.mem_cons.mp hk with rfl | hk
    · -- Below its only occurrence, marking `k` filters nothing more.
      have hsame : all.filter (· ∉ k :: seen) = all.filter (· ∉ seen) := by
        refine List.filter_congr fun x hx => ?_
        have : x ≠ k := fun e => hall.1 (e ▸ hx)
        simp [this]
      rw [List.filter_cons_of_neg (by simp), List.filter_cons_of_pos (by simpa using hs), hsame]
      simp [edges]
      omega
    · have hne : a ≠ k := fun e => hall.1 (e ▸ hk)
      have := ih hall.2 hk
      by_cases ha : a ∈ seen
      · rwa [List.filter_cons_of_neg (by simp [ha]), List.filter_cons_of_neg (by simpa using ha)]
      · rw [List.filter_cons_of_pos (by simp [ha, hne]), List.filter_cons_of_pos (by simpa using ha)]
        simp only [edges, List.map_cons, List.sum_cons] at this ⊢
        omega

/-- What the walk marks was marked, or is reached from a pending key. -/
theorem walk_sound {fuel : Nat} {pending seen : List κ} {k : κ} (h : k ∈ walk next fuel pending seen) :
    k ∈ seen ∨ ∃ p ∈ pending, Reaches next p k := by
  induction fuel generalizing pending seen with
  | zero => exact .inl h
  | succ fuel ih =>
    cases pending with
    | nil => exact .inl h
    | cons p pending =>
      rw [walk] at h
      split at h
      · exact (ih h).imp id fun ⟨q, hq, hr⟩ => ⟨q, by simp [hq], hr⟩
      · rcases ih h with hs | ⟨q, hq, hr⟩
        · rcases List.mem_cons.mp hs with rfl | hs
          · exact .inr ⟨k, by simp, .refl⟩
          · exact .inl hs
        · rcases List.mem_append.mp hq with hq | hq
          · exact .inr ⟨p, by simp, .head (List.mem_reverse.mp hq) hr⟩
          · exact .inr ⟨q, by simp [hq], hr⟩

/-- With enough fuel the walk ends, and marks a set closed under `next` that holds
    everything pending. -/
theorem walk_closed {all : List κ} (hall : all.Nodup) (hnext : ∀ k ∈ all, ∀ d ∈ next k, d ∈ all)
    {fuel : Nat} (pending seen : List κ) (hp : ∀ k ∈ pending, k ∈ all) (hf : cost next all pending seen ≤ fuel)
    (hclosed : ∀ k ∈ seen, ∀ d ∈ next k, d ∈ seen ∨ d ∈ pending) :
    (∀ k ∈ pending ++ seen, k ∈ walk next fuel pending seen) ∧
      ∀ k ∈ walk next fuel pending seen, ∀ d ∈ next k, d ∈ walk next fuel pending seen := by
  induction fuel generalizing pending seen with
  | zero =>
    have : pending = [] := List.eq_nil_of_length_eq_zero (by simp only [cost] at hf; omega)
    subst this
    exact ⟨fun k hk => hk, fun k hk d hd => (hclosed k hk d hd).resolve_right (by simp)⟩
  | succ fuel ih =>
    cases pending with
    | nil => exact ⟨fun k hk => hk, fun k hk d hd => (hclosed k hk d hd).resolve_right (by simp)⟩
    | cons p pending =>
      rw [walk]
      split
      · rename_i hs
        obtain ⟨h1, h2⟩ := ih pending seen (fun k hk => hp k (by simp [hk]))
          (by simp only [cost, List.length_cons] at hf ⊢; omega)
          (fun k hk d hd => (hclosed k hk d hd).elim .inl fun hd => by
            rcases List.mem_cons.mp hd with rfl | hd
            · exact .inl hs
            · exact .inr hd)
        refine ⟨fun k hk => h1 k ?_, h2⟩
        rcases List.mem_append.mp hk with hk | hk
        · rcases List.mem_cons.mp hk with rfl | hk
          · exact List.mem_append_right _ hs
          · exact List.mem_append_left _ hk
        · exact List.mem_append_right _ hk
      · rename_i hs
        have hpall := hp p (by simp)
        have hedges : edges next (all.filter (· ∉ p :: seen)) + (next p).length = edges next (all.filter (· ∉ seen)) :=
          edges_filter_cons hall hpall hs
        obtain ⟨h1, h2⟩ := ih ((next p).reverse ++ pending) (p :: seen)
          (fun k hk => by
            rcases List.mem_append.mp hk with hk | hk
            · exact hnext p hpall k (List.mem_reverse.mp hk)
            · exact hp k (by simp [hk]))
          (by simp only [cost, List.length_cons, List.length_append, List.length_reverse] at hf ⊢; omega)
          (fun k hk d hd => by
            rcases List.mem_cons.mp hk with rfl | hk
            · exact .inr (List.mem_append_left _ (List.mem_reverse.mpr hd))
            · rcases hclosed k hk d hd with hd | hd
              · exact .inl (List.mem_cons_of_mem _ hd)
              · rcases List.mem_cons.mp hd with rfl | hd
                · exact .inl (by simp)
                · exact .inr (List.mem_append_right _ hd))
        refine ⟨fun k hk => h1 k ?_, h2⟩
        rcases List.mem_append.mp hk with hk | hk
        · rcases List.mem_cons.mp hk with rfl | hk
          · simp
          · simp [hk]
        · simp [hk]

theorem mem_reach {all : List κ} (hall : all.Nodup) (hnext : ∀ k ∈ all, ∀ d ∈ next k, d ∈ all) {start k : κ}
    (hstart : start ∈ all) : k ∈ reach next all start ↔ Reaches next start k := by
  constructor
  · intro h
    rcases walk_sound h with h | ⟨p, hp, hr⟩
    · cases h
    · rwa [List.mem_singleton.mp hp] at hr
  · intro h
    have hf : cost next all [start] [] ≤ 1 + edges next all := by simp [cost]
    obtain ⟨h1, h2⟩ := walk_closed hall hnext [start] [] (by simpa using hstart) hf (by simp)
    induction h with
    | refl => exact h1 start (by simp)
    | tail _ hd ih => exact h2 _ ih _ hd

omit [DecidableEq κ] in
theorem Reaches.mem {all : List κ} (hnext : ∀ k ∈ all, ∀ d ∈ next k, d ∈ all) {start k : κ}
    (hstart : start ∈ all) (h : Reaches next start k) : k ∈ all := by
  induction h with
  | refl => exact hstart
  | tail _ hd ih => exact hnext _ ih _ hd

end DataNexus.Lib.Worklist
