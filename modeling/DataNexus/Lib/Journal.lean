/-
  DataNexus.Lib.Journal — a log of state changes, one state machine per scope.

  An entry gives a scope's new state. `stateOf` is a scope's state after a log; a log is
  `Legal` if every entry is a transition from its scope's state before it. Then each
  scope's entries form a path from the initial state (`Legal.path`), and where a state has
  no successor a scope that is in one has entered exactly one such state, last
  (`Legal.settled`).
-/

import Mathlib

namespace DataNexus.Lib.Journal

structure Entry (κ S : Type) where
  scope : κ
  state : S
  deriving DecidableEq

variable {κ S : Type} [DecidableEq κ]

/-- The state of `k` after the log. -/
def stateOf (start : S) (log : List (Entry κ S)) (k : κ) : S :=
  log.foldl (fun state e => if e.scope = k then e.state else state) start

/-- The states `k` has entered, in order. -/
def history (log : List (Entry κ S)) (k : κ) : List S := (log.filter (·.scope = k)).map (·.state)

def Legal (next : S → S → Prop) (start : S) (log : List (Entry κ S)) : Prop :=
  ∀ pre e post, log = pre ++ e :: post → next (stateOf start pre e.scope) e.state

variable {next : S → S → Prop} {start : S} {log : List (Entry κ S)}

@[simp] theorem stateOf_nil (k : κ) : stateOf start ([] : List (Entry κ S)) k = start := rfl

theorem stateOf_append (e : Entry κ S) (k : κ) :
    stateOf start (log ++ [e]) k = if e.scope = k then e.state else stateOf start log k := by
  simp [stateOf, List.foldl_append]

@[simp] theorem stateOf_append_self (e : Entry κ S) : stateOf start (log ++ [e]) e.scope = e.state := by
  simp [stateOf_append]

theorem stateOf_append_of_ne {e : Entry κ S} {k : κ} (h : e.scope ≠ k) :
    stateOf start (log ++ [e]) k = stateOf start log k := by
  simp [stateOf_append, h]

theorem history_append (e : Entry κ S) (k : κ) :
    history (log ++ [e]) k = if e.scope = k then history log k ++ [e.state] else history log k := by
  by_cases h : e.scope = k <;> simp [history, h]

theorem legal_nil : Legal next start ([] : List (Entry κ S)) := by
  intro pre e post h
  simp at h

theorem legal_append {e : Entry κ S} (h : Legal next start log) (he : next (stateOf start log e.scope) e.state) :
    Legal next start (log ++ [e]) := by
  intro pre x post hsplit
  rcases List.eq_nil_or_concat post with rfl | ⟨post, y, rfl⟩
  · obtain ⟨rfl, hx⟩ := List.append_inj' hsplit rfl
    obtain rfl := List.singleton_inj.mp hx
    exact he
  · rw [List.concat_eq_append, ← List.cons_append, ← List.append_assoc] at hsplit
    obtain ⟨rfl, -⟩ := List.append_inj' hsplit rfl
    exact h pre x post rfl

theorem Legal.of_append {es : List (Entry κ S)} (h : Legal next start (log ++ es)) : Legal next start log := by
  intro pre e post hsplit
  exact h pre e (post ++ es) (by simp [hsplit])

theorem getLastD_history (k : κ) : (start :: history log k).getLast (by simp) = stateOf start log k := by
  induction log using List.reverseRecOn with
  | nil => rfl
  | append_singleton log e ih =>
    by_cases h : e.scope = k
    · simp [history_append, stateOf_append, h]
    · simpa [history_append, stateOf_append, h] using ih

/-- The states of a scope form a path from the initial state. -/
theorem Legal.path (h : Legal next start log) (k : κ) : List.IsChain next (start :: history log k) := by
  induction log using List.reverseRecOn with
  | nil => simp [history]
  | append_singleton log e ih =>
    have ih := ih h.of_append
    by_cases hk : e.scope = k
    · have hlast : next (stateOf start log k) e.state := hk ▸ h log e [] rfl
      rw [history_append, if_pos hk, ← List.cons_append, List.isChain_append]
      refine ⟨ih, by simp, fun x hx y hy => ?_⟩
      obtain rfl : e.state = y := by simpa using hy
      have : x = stateOf start log k := by
        rw [← getLastD_history k]
        exact (List.getLast_of_mem_getLast? hx).symm
      rwa [this]
    · rwa [history_append, if_neg hk]

/-- A scope in a state without successors entered it last, and entered no other one. -/
theorem Legal.settled (h : Legal next start log) (final : S → Prop) (hfinal : ∀ s t, final s → ¬ next s t)
    {k : κ} (hk : final (stateOf start log k)) (hstart : ¬ final start) :
    ∃ pre, history log k = pre ++ [stateOf start log k] ∧ ∀ s ∈ pre, ¬ final s := by
  induction log using List.reverseRecOn with
  | nil => exact absurd hk hstart
  | append_singleton log e ih =>
    by_cases he : e.scope = k
    · refine ⟨history log k, by simp [history_append, stateOf_append, he], fun s hs hf => ?_⟩
      -- A final state before the last entry would have a successor.
      have hopen : ¬ final (stateOf start log k) := fun hf => hfinal _ _ hf (he ▸ h log e [] rfl)
      have hchain := h.of_append.path k
      obtain ⟨a, b, hab⟩ := List.append_of_mem hs
      rw [hab] at hchain
      cases b with
      | nil =>
        have : stateOf start log k = s := by
          rw [← getLastD_history k]
          simp [hab]
        exact hopen (this ▸ hf)
      | cons t b => exact hfinal s t hf (List.isChain_cons_append_cons_cons.mp hchain).2.1
    · rw [stateOf_append_of_ne he] at hk ⊢
      rw [history_append, if_neg he]
      exact ih h.of_append hk

end DataNexus.Lib.Journal
