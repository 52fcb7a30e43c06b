/-
  DataNexus.Lib.Dataflow — what an acyclic graph of operators computes.

  A dataflow names its nodes by keys; a node lists the keys it reads, in order, and maps
  their values to its own. `eval` follows the dependencies with fuel; `EvalsTo` is "with
  enough fuel", which is a partial function of the key (`EvalsTo.unique`). `transfer`
  carries a value from one graph to another that has the same nodes below the key:
  it is what makes adding, dropping and relabelling nodes sound.
-/

import DataNexus.Lib.Outcome

namespace DataNexus.Lib

structure Dataflow (κ N T : Type) where
  node : κ → Option N
  deps : N → List κ
  sem : N → List T → Option T

namespace Dataflow

variable {κ N M T : Type} (G : Dataflow κ N T)

def eval : Nat → κ → Option T
  | 0, _ => none
  | fuel + 1, k => (G.node k).bind fun n => ((G.deps n).mapM (eval fuel)).bind (G.sem n)

/-- The key's value, given enough fuel. -/
def EvalsTo (k : κ) (t : T) : Prop := ∃ fuel, G.eval fuel k = some t

variable {G}

theorem eval_succ_eq_some {fuel : Nat} {k : κ} {t : T} :
    G.eval (fuel + 1) k = some t ↔ ∃ n ts, G.node k = some n ∧
      List.Forall₂ (fun d v => G.eval fuel d = some v) (G.deps n) ts ∧ G.sem n ts = some t := by
  simp only [eval, Option.bind_eq_some_iff, option_mapM_eq_some]
  exact ⟨fun ⟨n, hn, ts, h, ht⟩ => ⟨n, ts, hn, h, ht⟩, fun ⟨n, ts, hn, h, ht⟩ => ⟨n, hn, ts, h, ht⟩⟩

theorem eval_mono {fuel more : Nat} (hle : fuel ≤ more) {k : κ} {t : T} (h : G.eval fuel k = some t) :
    G.eval more k = some t := by
  induction fuel generalizing more k t with
  | zero => simp [eval] at h
  | succ fuel ih =>
    obtain ⟨more, rfl⟩ : ∃ m, more = m + 1 := ⟨more - 1, by omega⟩
    obtain ⟨n, ts, hn, hts, ht⟩ := eval_succ_eq_some.mp h
    exact eval_succ_eq_some.mpr ⟨n, ts, hn, hts.imp fun d v hd => ih (by omega) hd, ht⟩

theorem EvalsTo.unique {k : κ} {t t' : T} (h : G.EvalsTo k t) (h' : G.EvalsTo k t') : t = t' := by
  obtain ⟨f, hf⟩ := h
  obtain ⟨f', hf'⟩ := h'
  have h1 := eval_mono (Nat.le_max_left f f') hf
  have h2 := eval_mono (Nat.le_max_right f f') hf'
  exact Option.some.inj (h1.symm.trans h2)

/-- One fuel serves a whole list of keys. -/
theorem common_fuel {ks : List κ} {ts : List T} (h : List.Forall₂ G.EvalsTo ks ts) :
    ∃ fuel, List.Forall₂ (fun k t => G.eval fuel k = some t) ks ts := by
  induction h with
  | nil => exact ⟨0, .nil⟩
  | cons hk _ ih =>
    obtain ⟨f, hf⟩ := hk
    obtain ⟨g, hg⟩ := ih
    refine ⟨max f g, .cons (eval_mono (Nat.le_max_left f g) hf) (hg.imp fun _ _ h => ?_)⟩
    exact eval_mono (Nat.le_max_right f g) h

theorem EvalsTo.intro {k : κ} {n : N} {t : T} (ts : List T) (hn : G.node k = some n)
    (hts : List.Forall₂ G.EvalsTo (G.deps n) ts) (ht : G.sem n ts = some t) : G.EvalsTo k t := by
  obtain ⟨fuel, h⟩ := common_fuel hts
  exact ⟨fuel + 1, eval_succ_eq_some.mpr ⟨n, ts, hn, h, ht⟩⟩

/-- Keys with equal values in two graphs, one by one, have equal lists of values. -/
theorem common_values {κ' : Type} {H : Dataflow κ' M T} (rename : κ → κ') {ks : List κ}
    (h : ∀ k ∈ ks, ∃ t, G.EvalsTo k t ∧ H.EvalsTo (rename k) t) :
    ∃ ts, List.Forall₂ G.EvalsTo ks ts ∧ List.Forall₂ H.EvalsTo (ks.map rename) ts := by
  induction ks with
  | nil => exact ⟨[], .nil, .nil⟩
  | cons k ks ih =>
    obtain ⟨t, hg, hh⟩ := h k (by simp)
    obtain ⟨ts, hgs, hhs⟩ := ih fun j hj => h j (by simp [hj])
    exact ⟨t :: ts, .cons hg hgs, .cons hh hhs⟩

/-- A value is kept by any graph with the same nodes, up to relabelling, on a set of keys
    closed under dependencies. -/
theorem EvalsTo.transfer {H : Dataflow κ M T} (S : κ → Prop)
    (closed : ∀ k n, S k → G.node k = some n → ∀ d ∈ G.deps n, S d)
    (agree : ∀ k n, S k → G.node k = some n →
      ∃ m, H.node k = some m ∧ H.deps m = G.deps n ∧ H.sem m = G.sem n)
    {k : κ} {t : T} (hk : S k) (h : G.EvalsTo k t) : H.EvalsTo k t := by
  obtain ⟨fuel, h⟩ := h
  refine ⟨fuel, ?_⟩
  induction fuel generalizing k t with
  | zero => simp [eval] at h
  | succ fuel ih =>
    obtain ⟨n, ts, hn, hts, ht⟩ := eval_succ_eq_some.mp h
    obtain ⟨m, hm, hdeps, hsem⟩ := agree k n hk hn
    refine eval_succ_eq_some.mpr ⟨m, ts, hm, ?_, by rw [hsem]; exact ht⟩
    rw [hdeps]
    have hS := closed k n hk hn
    generalize G.deps n = ds at hts hS ⊢
    clear hn hdeps ht
    induction hts with
    | nil => exact .nil
    | cons hd _ ihts =>
      exact .cons (ih (hS _ (by simp)) hd) (ihts (fun d hd => hS d (by simp [hd])))

end Dataflow

end DataNexus.Lib
