/-
  DataNexus.Lib.Kahn — topological order by counting unmet dependencies (Kahn's
  algorithm with a sorted ready list).

  A graph is a list of keys with their dependency lists; a dependency may be listed more
  than once and is then counted and discharged as often. `run` emits a key once all its
  dependencies are out, the least ready key first. On a graph with distinct keys and no
  dangling dependency:
  - `run_closed`: every key comes after all its dependencies;
  - `run_nodup`, `run_subset`: no key twice, no foreign key;
  - `run_complete`: if the dependencies descend in some rank, every key is emitted.
-/

import DataNexus.Lib.Outcome

namespace DataNexus.Lib.Kahn

variable {κ : Type} [LinearOrder κ]

def sorted (ks : List κ) : List κ := ks.insertionSort (· ≤ ·)

theorem sorted_perm (ks : List κ) : (sorted ks).Perm ks := List.perm_insertionSort _ ks

@[simp] theorem mem_sorted {k : κ} {ks : List κ} : k ∈ sorted ks ↔ k ∈ ks := (sorted_perm ks).mem_iff

structure State (κ : Type) where
  indegree : κ → Int
  ready : List κ
  order : List κ

variable (nodes : List (κ × List κ))

def keys : List κ := nodes.map (·.1)

/-- Who waits for `k`, once for every time it lists `k`. -/
def dependents (k : κ) : List κ := nodes.flatMap fun n => (n.2.filter (· = k)).map fun _ => n.1

def init : State κ where
  indegree k := (nodes.lookup k).elim 0 fun ds => ds.length
  ready := sorted ((nodes.filter (·.2.length = 0)).map (·.1))
  order := []

/-- One dependency of `child` is met. -/
def relax (s : State κ) (child : κ) : State κ :=
  let left := s.indegree child - 1
  { s with
    indegree := Function.update s.indegree child left
    ready := if left = 0 then sorted (s.ready ++ [child]) else s.ready }

/-- Emit the least ready key. -/
def emit (s : State κ) (k : κ) (rest : List κ) : State κ :=
  (sorted (dependents nodes k)).foldl relax { s with ready := rest, order := s.order ++ [k] }

def loop : Nat → State κ → State κ
  | 0, s => s
  | fuel + 1, s =>
    match s.ready with
    | [] => s
    | k :: rest => loop fuel (emit nodes s k rest)

def run : List κ := (loop nodes nodes.length (init nodes)).order

/-! ## The invariant of the loop -/

/-- How many of the listed dependencies are not out yet. -/
def unmet (order ds : List κ) : Nat := (ds.filter (· ∉ order)).length

/-- `due` are the dependencies met by the last emitted key and not yet counted. -/
structure Mid (s : State κ) (due : List κ) : Prop where
  nodup : (s.order ++ s.ready).Nodup
  sub : ∀ k ∈ s.order ++ s.ready, k ∈ keys nodes
  deg : ∀ n ∈ nodes, s.indegree n.1 = (unmet s.order n.2 + due.count n.1 : Nat)
  ready : ∀ k ∈ keys nodes, k ∈ s.ready ↔ s.indegree k = 0 ∧ k ∉ s.order
  settled : ∀ k ∈ s.order, s.indegree k = 0
  closed : ∀ pre k post, s.order = pre ++ k :: post → ∀ n ∈ nodes, n.1 = k → ∀ d ∈ n.2, d ∈ pre

variable {nodes}

@[simp] theorem relax_order (s : State κ) (child : κ) : (relax s child).order = s.order := rfl

theorem relax_mid {s : State κ} {child : κ} {due : List κ} (hc : child ∈ keys nodes)
    (h : Mid nodes s (child :: due)) : Mid nodes (relax s child) due := by
  obtain ⟨n, hn, rfl⟩ := List.mem_map.mp hc
  -- `n` still waits for the emitted key, so it is neither ready nor out.
  have hdeg := h.deg n hn
  rw [List.count_cons_self] at hdeg
  have hpos : s.indegree n.1 ≠ 0 := by omega
  have hout : n.1 ∉ s.order := fun hm => hpos (h.settled _ hm)
  have hunready : n.1 ∉ s.ready := fun hm => hpos ((h.ready _ hc).mp hm).1
  have hmem : ∀ k, k ∈ (relax s n.1).ready ↔ k ∈ s.ready ∨ (s.indegree n.1 = 1 ∧ k = n.1) := by
    intro k
    simp only [relax]
    split
    · have : s.indegree n.1 = 1 := by omega
      simp [this]
    · have : s.indegree n.1 ≠ 1 := by omega
      simp [this]
  refine ⟨?_, ?_, ?_, ?_, ?_, h.closed⟩
  · have hperm : ((relax s n.1).order ++ (relax s n.1).ready).Perm (s.order ++ s.ready) ∨
        ((relax s n.1).order ++ (relax s n.1).ready).Perm ((s.order ++ s.ready) ++ [n.1]) := by
      simp only [relax]
      split
      · right
        rw [List.append_assoc]
        exact (sorted_perm _).append_left _
      · exact .inl (.refl _)
    rcases hperm with hp | hp
    · exact hp.nodup_iff.mpr h.nodup
    · refine hp.nodup_iff.mpr (List.Nodup.append h.nodup (by simp) ?_)
      simpa using ⟨hout, hunready⟩
  · intro k hk
    rcases List.mem_append.mp hk with hk | hk
    · exact h.sub k (List.mem_append_left _ hk)
    · rcases (hmem k).mp hk with hk | ⟨-, rfl⟩
      · exact h.sub k (List.mem_append_right _ hk)
      · exact hc
  · intro m hm
    have hdm := h.deg m hm
    by_cases e : m.1 = n.1
    · rw [e, List.count_cons_self] at hdm
      simp only [relax, e, Function.update_self]
      omega
    · rw [List.count_cons_of_ne (Ne.symm e)] at hdm
      simpa [relax, Function.update_of_ne e] using hdm
  · intro k hk
    rw [hmem]
    by_cases e : k = n.1
    · subst e
      simp only [relax, Function.update_self, hunready, hout, false_or, not_false_eq_true, and_true]
      omega
    · simp [relax, h.ready k hk, e]
  · intro k hk
    have e : k ≠ n.1 := fun e => hout (e ▸ hk)
    simpa [relax, Function.update_of_ne e] using h.settled k hk

theorem foldl_relax_mid {due : List κ} {s : State κ} (hdue : ∀ k ∈ due, k ∈ keys nodes) (h : Mid nodes s due) :
    Mid nodes (due.foldl relax s) [] := by
  induction due generalizing s with
  | nil => exact h
  | cons k due ih =>
    exact ih (fun d hd => hdue d (by simp [hd])) (relax_mid (hdue k (by simp)) h)

@[simp] theorem foldl_relax_order (due : List κ) (s : State κ) : (due.foldl relax s).order = s.order := by
  induction due generalizing s with
  | nil => rfl
  | cons k due ih => rw [List.foldl_cons, ih]; rfl

theorem mem_dependents {k m : κ} : m ∈ dependents nodes k ↔ ∃ n ∈ nodes, n.1 = m ∧ k ∈ n.2 := by
  simp only [dependents, List.mem_flatMap, List.mem_map, List.mem_filter, decide_eq_true_eq]
  constructor
  · rintro ⟨n, hn, d, ⟨hd, rfl⟩, rfl⟩
    exact ⟨n, hn, rfl, hd⟩
  · rintro ⟨n, hn, rfl, hk⟩
    exact ⟨n, hn, k, ⟨hk, rfl⟩, rfl⟩

theorem count_dependents (hkeys : (keys nodes).Nodup) {n : κ × List κ} (hn : n ∈ nodes) (k : κ) :
    (dependents nodes k).count n.1 = n.2.count k := by
  have hother : ∀ rest : List (κ × List κ), n.1 ∉ keys rest → (dependents rest k).count n.1 = 0 := by
    intro rest hrest
    refine List.count_eq_zero.mpr fun hm => hrest ?_
    obtain ⟨m, hm, e, -⟩ := mem_dependents.mp hm
    exact List.mem_map.mpr ⟨m, hm, e⟩
  induction nodes with
  | nil => cases hn
  | cons m rest ih =>
    have hcons : dependents (m :: rest) k = ((m.2.filter (· = k)).map fun _ => m.1) ++ dependents rest k := rfl
    rw [keys, List.map_cons, List.nodup_cons] at hkeys
    rw [hcons, List.count_append]
    rcases List.mem_cons.mp hn with rfl | hn
    · rw [hother rest hkeys.1]
      rw [List.map_const', List.count_replicate_self, List.count, List.countP_eq_length_filter, Nat.add_zero]
      congr 2
    · rw [ih hkeys.2 hn, List.map_const', List.count_replicate, if_neg, Nat.zero_add]
      simpa using fun e : m.1 = n.1 => hkeys.1 (e ▸ List.mem_map.mpr ⟨n, hn, rfl⟩)

/-- Emitting a dependency takes it off every count that holds it. -/
theorem unmet_emit {order ds : List κ} {k : κ} (hk : k ∉ order) :
    unmet order ds = unmet (order ++ [k]) ds + ds.count k := by
  unfold unmet
  induction ds with
  | nil => simp
  | cons d ds ih =>
    by_cases e : d = k
    · subst e
      rw [List.filter_cons_of_pos (by simpa using hk), List.filter_cons_of_neg (by simp), List.count_cons_self]
      simp only [List.length_cons]
      omega
    · rw [List.count_cons_of_ne e]
      by_cases hd : d ∈ order
      · rw [List.filter_cons_of_neg (by simpa using hd), List.filter_cons_of_neg (by simp [hd]), ih]
      · rw [List.filter_cons_of_pos (by simpa using hd), List.filter_cons_of_pos (by simp [hd, e])]
        simp only [List.length_cons]
        omega

theorem unmet_eq_zero {order ds : List κ} : unmet order ds = 0 ↔ ∀ d ∈ ds, d ∈ order := by
  simp [unmet, List.length_eq_zero_iff, List.filter_eq_nil_iff]

/-- A graph whose keys are distinct and whose dependencies are all keys. -/
structure WellFormed (nodes : List (κ × List κ)) : Prop where
  nodup : (keys nodes).Nodup
  known : ∀ n ∈ nodes, ∀ d ∈ n.2, d ∈ keys nodes

theorem emit_mid (hw : WellFormed nodes) {s : State κ} {k : κ} {rest : List κ} (h : Mid nodes s [])
    (hr : s.ready = k :: rest) : Mid nodes (emit nodes s k rest) [] := by
  have hk : k ∈ keys nodes := h.sub k (by simp [hr])
  obtain ⟨hzero, hout⟩ := (h.ready k hk).mp (by simp [hr])
  have hnd : (s.order ++ [k] ++ rest).Nodup := by simpa [hr] using h.nodup
  -- `k` is ready, so all it lists is out.
  have hkdeps : ∀ n ∈ nodes, n.1 = k → ∀ d ∈ n.2, d ∈ s.order := by
    rintro n hn rfl
    have := h.deg n hn
    rw [hzero] at this
    exact unmet_eq_zero.mp (by simp at this; omega)
  refine foldl_relax_mid (fun d hd => ?_) ⟨hnd, ?_, ?_, ?_, ?_, ?_⟩
  · obtain ⟨n, hn, rfl, -⟩ := mem_dependents.mp (mem_sorted.mp hd)
    exact List.mem_map.mpr ⟨n, hn, rfl⟩
  · intro d hd
    refine h.sub d ?_
    simpa [hr, or_assoc] using hd
  · intro n hn
    have := h.deg n hn
    rw [List.count_nil, Nat.add_zero] at this
    rw [(sorted_perm _).count_eq, count_dependents hw.nodup hn, ← unmet_emit hout]
    exact this
  · intro d hd
    have := h.ready d hd
    by_cases e : d = k
    · subst e
      have : d ∉ rest := by
        intro hm
        simp [List.nodup_append, hm] at hnd
      simp [this]
    · simp only [hr, List.mem_cons, e, false_or] at this
      simp [this, e]
  · intro d hd
    rcases List.mem_append.mp hd with hd | hd
    · exact h.settled d hd
    · rw [List.mem_singleton] at hd
      exact hd ▸ hzero
  · intro pre d post e n hn hnd' x hx
    rcases List.append_eq_append_iff.mp e with ⟨t, rfl, ht⟩ | ⟨t, ht, hpost⟩
    · rcases List.cons_eq_append_iff.mp ht with ⟨rfl, ht⟩ | ⟨u, rfl, ht⟩
      · obtain ⟨rfl, -⟩ := List.cons.inj ht
        simpa using hkdeps n hn hnd' x hx
      · simp at ht
    · rcases List.cons_eq_append_iff.mp hpost with ⟨rfl, hk'⟩ | ⟨u, rfl, -⟩
      · obtain ⟨rfl, -⟩ := List.cons.inj hk'
        simpa [ht] using hkdeps n hn hnd' x hx
      · exact h.closed pre d u ht n hn hnd' x hx

theorem lookup_of_mem (hkeys : (keys nodes).Nodup) {n : κ × List κ} (hn : n ∈ nodes) :
    nodes.lookup n.1 = some n.2 := by
  induction nodes with
  | nil => cases hn
  | cons m rest ih =>
    rw [keys, List.map_cons, List.nodup_cons] at hkeys
    rcases List.mem_cons.mp hn with rfl | hn
    · simp [List.lookup]
    · have hne : n.1 ≠ m.1 := fun e => hkeys.1 (e ▸ List.mem_map.mpr ⟨n, hn, rfl⟩)
      rw [List.lookup, beq_false_of_ne hne]
      exact ih hkeys.2 hn

theorem init_mid (hw : WellFormed nodes) : Mid nodes (init nodes) [] := by
  have hdeg : ∀ n ∈ nodes, (init nodes).indegree n.1 = (n.2.length : Nat) := by
    intro n hn
    simp [init, lookup_of_mem hw.nodup hn]
  have hready : ∀ n ∈ nodes, n.1 ∈ (init nodes).ready ↔ n.2.length = 0 := by
    intro n hn
    simp only [init, mem_sorted, List.mem_map, List.mem_filter, decide_eq_true_eq]
    refine ⟨fun ⟨m, ⟨hm, h0⟩, e⟩ => ?_, fun h => ⟨n, ⟨hn, h⟩, rfl⟩⟩
    rwa [List.inj_on_of_nodup_map hw.nodup hm hn e] at h0
  refine ⟨?_, ?_, ?_, ?_, ?_, ?_⟩
  · refine (sorted_perm _).nodup_iff.mpr ?_
    exact (List.Sublist.map _ List.filter_sublist).nodup hw.nodup
  · intro k hk
    obtain ⟨n, hn, rfl⟩ := List.mem_map.mp (mem_sorted.mp hk)
    exact List.mem_map.mpr ⟨n, (List.mem_filter.mp hn).1, rfl⟩
  · intro n hn
    rw [hdeg n hn]
    simp [init, unmet]
  · intro k hk
    obtain ⟨n, hn, rfl⟩ := List.mem_map.mp hk
    rw [hready n hn, hdeg n hn]
    simp [init]
  · intro k hk
    simp [init] at hk
  · intro pre k post e
    simp [init] at e

theorem loop_mid (hw : WellFormed nodes) {s : State κ} (h : Mid nodes s []) (fuel : Nat) :
    Mid nodes (loop nodes fuel s) [] := by
  induction fuel generalizing s with
  | zero => exact h
  | succ fuel ih =>
    unfold loop
    split
    · exact h
    · rename_i k rest hr
      exact ih (emit_mid hw h hr)

theorem length_le_of_mid {s : State κ} (h : Mid nodes s []) : s.order.length + s.ready.length ≤ nodes.length := by
  have := (List.subperm_of_subset h.nodup h.sub).length_le
  simpa [keys] using this

/-- As many rounds as there are keys leave nothing ready. -/
theorem loop_drained (hw : WellFormed nodes) {s : State κ} (h : Mid nodes s []) {fuel : Nat}
    (hf : nodes.length ≤ s.order.length + fuel) : (loop nodes fuel s).ready = [] := by
  induction fuel generalizing s with
  | zero =>
    have := length_le_of_mid h
    exact List.eq_nil_of_length_eq_zero (by rw [loop]; omega)
  | succ fuel ih =>
    unfold loop
    split
    · assumption
    · rename_i k rest hr
      refine ih (emit_mid hw h hr) ?_
      simp only [emit, foldl_relax_order, List.length_append, List.length_singleton]
      omega

/-! ## What `run` returns -/

theorem run_mid (hw : WellFormed nodes) : Mid nodes (loop nodes nodes.length (init nodes)) [] :=
  loop_mid hw (init_mid hw) _

theorem run_nodup (hw : WellFormed nodes) : (run nodes).Nodup :=
  List.Nodup.of_append_left (run_mid hw).nodup

theorem run_subset (hw : WellFormed nodes) : run nodes ⊆ keys nodes :=
  fun k hk => (run_mid hw).sub k (List.mem_append_left _ hk)

theorem run_closed (hw : WellFormed nodes) {pre post : List κ} {n : κ × List κ}
    (h : run nodes = pre ++ n.1 :: post) (hn : n ∈ nodes) : n.2 ⊆ pre :=
  fun d hd => (run_mid hw).closed pre n.1 post h n hn rfl d hd

theorem run_complete (hw : WellFormed nodes) (rank : κ → Nat)
    (hrank : ∀ n ∈ nodes, ∀ d ∈ n.2, rank d < rank n.1) : keys nodes ⊆ run nodes := by
  intro k hk
  induction hr : rank k using Nat.strong_induction_on generalizing k with
  | _ r ih =>
    obtain ⟨n, hn, rfl⟩ := List.mem_map.mp hk
    have hm := run_mid hw
    have hdrained : (loop nodes nodes.length (init nodes)).ready = [] :=
      loop_drained hw (init_mid hw) (by simp [init])
    by_contra hout
    -- Everything below `n` is out, so `n` would be ready; but nothing is.
    have hdeps : ∀ d ∈ n.2, d ∈ run nodes := fun d hd =>
      ih (rank d) (hr ▸ hrank n hn d hd) (hw.known n hn d hd) rfl
    have hzero := hm.deg n hn
    rw [show unmet (loop nodes nodes.length (init nodes)).order n.2 = 0 from unmet_eq_zero.mpr hdeps] at hzero
    have := (hm.ready n.1 hk).mpr ⟨by simpa using hzero, hout⟩
    simp [hdrained] at this

theorem run_perm (hw : WellFormed nodes) (h : (run nodes).length = nodes.length) : (run nodes).Perm (keys nodes) :=
  (List.subperm_of_subset (run_nodup hw) (run_subset hw)).perm_of_length_le (by simp [keys, h])

end DataNexus.Lib.Kahn
