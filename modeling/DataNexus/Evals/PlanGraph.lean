/-
  DataNexus.Evals.PlanGraph — what the loops of `validate_plan` compute from a graph.

  `Linked`: the tables hold exactly the pairs gone through so far. Every lookup is of a
  known node, so none fails (`link_ok`, `drain_ok`, `connected_ok`); the nodes that are
  popped are all of them where there is no cycle, the ones connected to the first are
  those that the edges, read both ways, lead to.
-/

import DataNexus.Evals.PlanIntegrity

namespace DataNexus.Evals

open Lib

/-! ## Tables -/

theorem mem_entries {β : Type} {d : Dict String β} {k : String} {b : β} : (k, b) ∈ d.entries ↔ d.get? k = some b := by
  refine ⟨Dict.get?_of_mem_entries, fun h => ?_⟩
  obtain ⟨entries, hnodup⟩ := d
  replace h : entries.lookup k = some b := h
  show (k, b) ∈ entries
  clear hnodup
  induction entries with
  | nil => cases h
  | cons e entries ih =>
    obtain ⟨key, x⟩ := e
    by_cases hk : k = key
    · subst hk
      rw [List.lookup_cons_self] at h
      simp [Option.some.inj h]
    · rw [List.lookup_cons, beq_false_of_ne hk] at h
      exact List.mem_cons_of_mem _ (ih h)

theorem get?_foldl_set {β : Type} (ids : List String) (value : β) (d : Dict String β) (k : String) :
    (ids.foldl (·.set · value) d).get? k = if k ∈ ids then some value else d.get? k := by
  induction ids generalizing d with
  | nil => simp
  | cons id ids ih =>
    rw [List.foldl_cons, ih, Dict.get?_set]
    by_cases hk : k = id
    · simp [hk]
    · simp [hk]

theorem get?_table {β : Type} (ids : List String) (value : β) (k : String) :
    (table ids value).get? k = if k ∈ ids then some value else none := by
  rw [table, get?_foldl_set]
  rfl

/-! ## Linking -/

/-- The tables hold the pairs of a dependency and a node. -/
structure Linked (ids : List String) (pairs : List (String × String)) (links : Links) : Prop where
  edges : ∀ p, p ∈ links.dependencyEdges ↔ p ∈ pairs
  adjacency : ∀ d ∈ ids, ∃ xs, links.adjacency.get? d = some xs ∧ xs.Nodup ∧ ∀ k, k ∈ xs ↔ (d, k) ∈ pairs
  undirected : ∀ a ∈ ids, ∃ xs, links.undirected.get? a = some xs ∧ xs.Nodup ∧
    ∀ b, b ∈ xs ↔ (a, b) ∈ pairs ∨ (b, a) ∈ pairs
  indegree : ∀ k, links.indegree.get? k =
    if k ∈ ids then some ((pairs.filter (·.2 = k)).length : Int) else none
  outside : ∀ a, a ∉ ids → links.undirected.get? a = none

variable {ids : List String} {order : SetOrder}

theorem linked_empty {start : List String} (h : start.Perm ids) : Linked ids [] (emptyLinks start) where
  edges p := .rfl
  adjacency d hd := ⟨[], by rw [emptyLinks, get?_table, if_pos (h.mem_iff.mpr hd)], .nil, by simp⟩
  undirected a ha := ⟨[], by rw [emptyLinks, get?_table, if_pos (h.mem_iff.mpr ha)], .nil, by simp⟩
  indegree k := by simp [emptyLinks, get?_table, h.mem_iff]
  outside a ha := by rw [emptyLinks, get?_table, if_neg (mt h.mem_iff.mp ha)]

theorem addTo_ok {d : Dict String (List String)} {key value : String} {xs : List String} (h : d.get? key = some xs) :
    addTo d key value = .ok (d.set key (if value ∈ xs then xs else xs ++ [value])) := by
  simp [addTo, getItem, h, bind, Except.bind, pure, Except.pure]

/-- A set with one more member. -/
theorem nodup_added {xs : List String} {value : String} (h : xs.Nodup) :
    (if value ∈ xs then xs else xs ++ [value]).Nodup := by
  split
  · exact h
  · rename_i hnew
    simpa using List.Nodup.concat hnew h

theorem mem_added {xs : List String} {value b : String} :
    (b ∈ if value ∈ xs then xs else xs ++ [value]) ↔ b ∈ xs ∨ b = value := by
  split
  · rename_i hmem
    constructor
    · exact .inl
    · rintro (h | rfl)
      · exact h
      · exact hmem
  · simp

theorem linkDependency_ok {pairs : List (String × String)} {links : Links} (h : Linked ids pairs links) {d k : String}
    (hd : d ∈ ids) (hk : k ∈ ids) (hnew : (d, k) ∉ pairs) :
    ∃ links', linkDependency k links d = .ok links' ∧ Linked ids (pairs ++ [(d, k)]) links' := by
  obtain ⟨ns, hns, hnsNodup, hnsMem⟩ := h.undirected d hd
  obtain ⟨downstream, hdownstream, hdownstreamNodup, hdownstreamMem⟩ := h.adjacency d hd
  have hindegree : links.indegree.get? k = some ((pairs.filter (·.2 = k)).length : Int) := by
    rw [h.indegree k, if_pos hk]
  have hfresh : k ∉ downstream := fun hm => hnew ((hdownstreamMem k).mp hm)
  let undirected := links.undirected.set d (if k ∈ ns then ns else ns ++ [k])
  have hfirst : addTo links.undirected d k = .ok undirected := addTo_ok hns
  -- The node's own set, after it was added to its dependency's.
  obtain ⟨ms, hms, hmsNodup, hmsMem⟩ : ∃ ms, undirected.get? k = some ms ∧ ms.Nodup ∧
      ∀ b, b ∈ ms ↔ (k, b) ∈ pairs ∨ (b, k) ∈ pairs ∨ (d = k ∧ b = k) := by
    by_cases hself : k = d
    · subst hself
      refine ⟨_, Dict.get?_set_self _ _ _, nodup_added hnsNodup, fun b => ?_⟩
      rw [mem_added, hnsMem]
      tauto
    · obtain ⟨ms, hms, hmsNodup, hmsMem⟩ := h.undirected k hk
      refine ⟨ms, (Dict.get?_set_ne _ _ hself).trans hms, hmsNodup, fun b => ?_⟩
      rw [hmsMem]
      have : d ≠ k := Ne.symm hself
      tauto
  have hsecond : addTo undirected k d = .ok (undirected.set k (if d ∈ ms then ms else ms ++ [d])) := addTo_ok hms
  refine ⟨⟨(d, k) :: links.dependencyEdges, links.adjacency.set d (downstream ++ [k]),
    undirected.set k (if d ∈ ms then ms else ms ++ [d]), links.indegree.set k ((pairs.filter (·.2 = k)).length + 1)⟩, ?_, ?_⟩
  · simp [linkDependency, hfirst, hsecond, getItem, hdownstream, hindegree, hfresh, bind, Except.bind, pure, Except.pure]
  · refine ⟨?_, ?_, ?_, ?_, ?_⟩
    · intro p
      simp [h.edges p, or_comm]
    · intro e he
      by_cases hed : e = d
      · subst hed
        refine ⟨_, Dict.get?_set_self _ _ _, by simpa using List.Nodup.concat hfresh hdownstreamNodup, fun b => ?_⟩
        simp [hdownstreamMem]
      · obtain ⟨xs, hxs, hxsNodup, hxsMem⟩ := h.adjacency e he
        refine ⟨xs, (Dict.get?_set_ne _ _ hed).trans hxs, hxsNodup, fun b => ?_⟩
        simp [hxsMem, hed]
    · intro a ha
      by_cases hak : a = k
      · subst hak
        refine ⟨_, Dict.get?_set_self _ _ _, nodup_added hmsNodup, fun b => ?_⟩
        rw [mem_added, hmsMem]
        simp only [List.mem_append, List.mem_singleton, Prod.mk.injEq]
        tauto
      · by_cases had : a = d
        · subst had
          refine ⟨_, (Dict.get?_set_ne _ _ hak).trans (Dict.get?_set_self _ _ _), nodup_added hnsNodup, fun b => ?_⟩
          rw [mem_added, hnsMem]
          simp only [List.mem_append, List.mem_singleton, Prod.mk.injEq]
          tauto
        · obtain ⟨xs, hxs, hxsNodup, hxsMem⟩ := h.undirected a ha
          refine ⟨xs, (Dict.get?_set_ne _ _ hak).trans ((Dict.get?_set_ne _ _ had).trans hxs), hxsNodup, fun b => ?_⟩
          simp [hxsMem, had, hak]
    · intro e
      show (links.indegree.set k _).get? e = _
      rw [Dict.get?_set]
      by_cases hek : e = k
      · subst hek
        simp [hk, List.filter_append]
      · have hke : k ≠ e := Ne.symm hek
        simp [hek, hke, h.indegree e, List.filter_append]
    · intro a ha
      have hak : a ≠ k := fun he => ha (he ▸ hk)
      have had : a ≠ d := fun he => ha (he ▸ hd)
      exact (Dict.get?_set_ne _ _ hak).trans ((Dict.get?_set_ne _ _ had).trans (h.outside a ha))

theorem foldlM_linkDependency_ok {k : String} (hk : k ∈ ids) {ds : List String} (hds : ∀ d ∈ ds, d ∈ ids) (hnodup : ds.Nodup)
    {pairs : List (String × String)} {links : Links} (h : Linked ids pairs links) (hnew : ∀ d ∈ ds, (d, k) ∉ pairs) :
    ∃ links', ds.foldlM (linkDependency k) links = .ok links' ∧ Linked ids (pairs ++ ds.map (·, k)) links' := by
  induction ds generalizing pairs links with
  | nil => exact ⟨links, rfl, by simpa using h⟩
  | cons d ds ih =>
    rw [List.nodup_cons] at hnodup
    obtain ⟨links₁, hlink, h₁⟩ := linkDependency_ok h (hds d (by simp)) hk (hnew d (by simp))
    obtain ⟨links₂, hrest, h₂⟩ := ih (fun e he => hds e (by simp [he])) hnodup.2 h₁ (by
      intro e he hmem
      rcases List.mem_append.mp hmem with hmem | hmem
      · exact hnew e (by simp [he]) hmem
      · have heq : e = d := by simpa using hmem
        exact hnodup.1 (heq ▸ he))
    refine ⟨links₂, ?_, by simpa using h₂⟩
    rw [List.foldlM_cons, hlink]
    exact hrest

/-- The known dependencies of an entry, with its node. -/
def pairsOf (order : SetOrder) (ids : List String) (entry : String × Sanitized) : List (String × String) :=
  (order.list (entry.2.dependsOn.filter (· ∈ ids))).map (·, entry.1)

theorem mem_pairsOf {entry : String × Sanitized} {d k : String} :
    (d, k) ∈ pairsOf order ids entry ↔ entry.1 = k ∧ d ∈ entry.2.dependsOn ∧ d ∈ ids := by
  simp only [pairsOf, List.mem_map, (order.perm _).mem_iff, List.mem_filter, decide_eq_true_eq, Prod.mk.injEq]
  constructor
  · rintro ⟨e, ⟨hdepends, hids⟩, rfl, hk⟩
    exact ⟨hk, hdepends, hids⟩
  · rintro ⟨hk, hdepends, hids⟩
    exact ⟨d, ⟨hdepends, hids⟩, rfl, hk⟩

variable (order) in
theorem foldlM_linkNode_ok {entries : List (String × Sanitized)} (hkeys : (entries.map (·.1)).Nodup)
    (hsets : ∀ e ∈ entries, e.2.dependsOn.Nodup) (hlinks : ∀ e ∈ entries, e.1 ∈ ids ∨ ∀ d ∈ e.2.dependsOn, d ∉ ids)
    {pairs : List (String × String)} {links : Links} (h : Linked ids pairs links)
    (hnew : ∀ e ∈ entries, ∀ d, (d, e.1) ∉ pairs) :
    ∃ links', entries.foldlM (linkNode order ids) links = .ok links' ∧
      Linked ids (pairs ++ entries.flatMap (pairsOf order ids)) links' := by
  induction entries generalizing pairs links with
  | nil => exact ⟨links, rfl, by simpa using h⟩
  | cons e entries ih =>
    rw [List.map_cons, List.nodup_cons] at hkeys
    have hnodup : (order.list (e.2.dependsOn.filter (· ∈ ids))).Nodup :=
      (order.perm _).nodup_iff.mpr ((hsets e (by simp)).filter _)
    obtain ⟨links₁, hlink, h₁⟩ : ∃ links', linkNode order ids links e = .ok links' ∧
        Linked ids (pairs ++ pairsOf order ids e) links' := by
      rcases hlinks e (by simp) with hknown | hnone
      · refine foldlM_linkDependency_ok hknown (fun d hd => ?_) hnodup h fun d _ => hnew e (by simp) d
        simpa using (List.mem_filter.mp ((order.perm _).mem_iff.mp hd)).2
      · have hempty : e.2.dependsOn.filter (· ∈ ids) = [] := by
          rw [List.filter_eq_nil_iff]
          simpa using hnone
        have hlist : order.list ([] : List String) = [] := (order.perm []).eq_nil
        refine ⟨links, ?_, ?_⟩
        · rw [linkNode, hempty, hlist]
          rfl
        · simpa [pairsOf, hempty, hlist] using h
    obtain ⟨links₂, hrest, h₂⟩ := ih hkeys.2 (fun f hf => hsets f (by simp [hf])) (fun f hf => hlinks f (by simp [hf])) h₁ (by
      intro f hf d hmem
      rcases List.mem_append.mp hmem with hmem | hmem
      · exact hnew f (by simp [hf]) d hmem
      · have heq := (mem_pairsOf.mp hmem).1
        exact hkeys.1 (heq ▸ List.mem_map_of_mem hf))
    refine ⟨links₂, ?_, by simpa using h₂⟩
    rw [List.foldlM_cons, hlink]
    exact hrest

variable (order) in
/-- No lookup of the loop over the nodes fails, of tables that have every node that
    depends on a known one. -/
theorem link_ok {data : Dict String Sanitized} (hsets : ∀ k e, data.get? k = some e → e.dependsOn.Nodup)
    (hlinks : ∀ k e, data.get? k = some e → k ∈ ids ∨ ∀ d ∈ e.dependsOn, d ∉ ids) :
    ∃ links, data.entries.foldlM (linkNode order ids) (emptyLinks (order.list ids)) = .ok links ∧
      Linked ids (data.entries.flatMap (pairsOf order ids)) links := by
  have hget : ∀ e ∈ data.entries, data.get? e.1 = some e.2 := fun e he => Dict.get?_of_mem_entries he
  obtain ⟨links, hlink, h⟩ := foldlM_linkNode_ok order data.nodup (fun e he => hsets _ _ (hget e he))
    (fun e he => hlinks _ _ (hget e he)) (linked_empty (order.perm ids)) (by simp)
  exact ⟨links, hlink, by simpa using h⟩

theorem mem_pairs {data : Dict String Sanitized} {d k : String} :
    (d, k) ∈ data.entries.flatMap (pairsOf order ids) ↔ ∃ e, data.get? k = some e ∧ d ∈ e.dependsOn ∧ d ∈ ids := by
  rw [List.mem_flatMap]
  constructor
  · rintro ⟨e, he, hmem⟩
    obtain ⟨rfl, hdepends, hids⟩ := mem_pairsOf.mp hmem
    exact ⟨e.2, Dict.get?_of_mem_entries he, hdepends, hids⟩
  · rintro ⟨e, he, hdepends, hids⟩
    exact ⟨(k, e), mem_entries.mpr he, mem_pairsOf.mpr ⟨rfl, hdepends, hids⟩⟩

theorem nodup_pairs {data : Dict String Sanitized} (hsets : ∀ k e, data.get? k = some e → e.dependsOn.Nodup) :
    (data.entries.flatMap (pairsOf order ids)).Nodup := by
  rw [List.nodup_flatMap]
  constructor
  · intro e he
    have hset := hsets _ _ (Dict.get?_of_mem_entries he)
    refine List.Nodup.map (fun a b hab => (Prod.mk.inj hab).1) ?_
    exact (order.perm _).nodup_iff.mpr (hset.filter _)
  · have hkeys : data.entries.Pairwise fun a b => a.1 ≠ b.1 := List.pairwise_map.mp data.nodup
    refine hkeys.imp fun hne => ?_
    rintro ⟨d, k⟩ ha hb
    exact hne ((mem_pairsOf.mp ha).1.trans (mem_pairsOf.mp hb).1.symm)

/-! ## Cycles -/

/-- The graph of the pairs, each node with its dependencies. -/
def graphOf (ids : List String) (pairs : List (String × String)) : List (String × List String) :=
  ids.map fun k => (k, (pairs.filter (·.2 = k)).map (·.1))

theorem keys_graphOf (ids : List String) (pairs : List (String × String)) : Kahn.keys (graphOf ids pairs) = ids := by
  simp [Kahn.keys, graphOf, Function.comp_def]

theorem dependsOn_graphOf {pairs : List (String × String)} {d k : String} :
    Kahn.DependsOn (graphOf ids pairs) d k ↔ k ∈ ids ∧ (d, k) ∈ pairs := by
  simp only [Kahn.DependsOn, graphOf, List.mem_map]
  constructor
  · rintro ⟨_, ⟨k, hk, rfl⟩, rfl, hd⟩
    obtain ⟨⟨e, j⟩, hmem, rfl⟩ := List.mem_map.mp hd
    obtain ⟨hpair, hj⟩ := List.mem_filter.mp hmem
    obtain rfl : j = k := by simpa using hj
    exact ⟨hk, hpair⟩
  · rintro ⟨hk, hpair⟩
    exact ⟨_, ⟨k, hk, rfl⟩, rfl, List.mem_map.mpr ⟨(d, k), List.mem_filter.mpr ⟨hpair, by simp⟩, rfl⟩⟩

section

variable {pairs : List (String × String)} {links : Links}

theorem wellFormed_graphOf (hids : ids.Nodup) (hknown : ∀ d k, (d, k) ∈ pairs → d ∈ ids) :
    Kahn.WellFormed (graphOf ids pairs) where
  nodup := by rwa [keys_graphOf]
  known := by
    intro n hn d hd
    rw [keys_graphOf]
    obtain ⟨-, hpair⟩ := dependsOn_graphOf.mp ⟨n, hn, rfl, hd⟩
    exact hknown d n.1 hpair

/-- What `adjacency[id]` is gone through in. -/
def adjacent (order : SetOrder) (links : Links) (id : String) : List String :=
  order.list ((links.adjacency.get? id).getD [])

theorem adjacent_graphOf (hids : ids.Nodup) (hpairs : pairs.Nodup) (hnodes : ∀ d k, (d, k) ∈ pairs → k ∈ ids)
    (h : Linked ids pairs links) : Kahn.Adjacent (graphOf ids pairs) (adjacent order links) := by
  intro d hd
  rw [keys_graphOf] at hd
  obtain ⟨xs, hxs, hxsNodup, hxsMem⟩ := h.adjacency d hd
  have hself : (adjacent order links d).Perm xs := by
    rw [adjacent, hxs]
    exact order.perm xs
  have hdependents : (Kahn.dependents (graphOf ids pairs) d).Nodup := by
    rw [Kahn.dependents, List.nodup_flatMap]
    constructor
    · intro n hn
      obtain ⟨k, -, rfl⟩ := List.mem_map.mp hn
      have hone : (((pairs.filter (·.2 = k)).map (·.1)).filter (· = d)).length ≤ 1 := by
        have hfirst : ((pairs.filter (·.2 = k)).map (·.1)).Nodup := by
          refine List.Nodup.map_on ?_ (hpairs.filter _)
          rintro ⟨a, i⟩ ha ⟨b, j⟩ hb hab
          have hi : i = k := by simpa using (List.mem_filter.mp ha).2
          have hj : j = k := by simpa using (List.mem_filter.mp hb).2
          simp_all
        have hcount := List.nodup_iff_count_le_one.mp hfirst d
        rwa [List.count, List.countP_eq_length_filter] at hcount
      rw [List.map_const', List.nodup_replicate]
      exact hone
    · have hkeys : (graphOf ids pairs).Pairwise fun a b => a.1 ≠ b.1 := by
        rw [graphOf, List.pairwise_map]
        exact hids
      refine hkeys.imp fun hne => ?_
      intro k ha hb
      obtain ⟨-, -, rfl⟩ := List.mem_map.mp ha
      obtain ⟨-, -, hb⟩ := List.mem_map.mp hb
      exact hne hb.symm
  refine hself.trans ((List.perm_ext_iff_of_nodup hxsNodup hdependents).mpr fun k => ?_)
  rw [hxsMem, Kahn.mem_dependents]
  constructor
  · intro hpair
    exact dependsOn_graphOf.mpr ⟨hnodes d k hpair, hpair⟩
  · intro hdepends
    exact (dependsOn_graphOf.mp hdepends).2

/-- The loop over the ready nodes and the library's. -/
structure Simulates (ids : List String) (s : Draining) (t : Kahn.State String) : Prop where
  indegree : ∀ k ∈ ids, s.indegree.get? k = some (t.indegree k)
  ready : s.ready = t.ready
  visited : s.visited = t.order.length

theorem meet_ok {s : Draining} {t : Kahn.State String} (h : Simulates ids s t) {k : String} (hk : k ∈ ids) :
    ∃ s', meet s k = .ok s' ∧ Simulates ids s' (Kahn.push t k) := by
  have hget := h.indegree k hk
  refine ⟨⟨s.indegree.set k (t.indegree k - 1), if t.indegree k - 1 = 0 then s.ready ++ [k] else s.ready, s.visited⟩, ?_, ?_⟩
  · simp [meet, getItem, hget, bind, Except.bind, pure, Except.pure]
  · refine ⟨fun j hj => ?_, ?_, h.visited⟩
    · show (s.indegree.set k _).get? j = some (Function.update t.indegree k _ j)
      rw [Dict.get?_set]
      by_cases hjk : j = k
      · simp [hjk]
      · simp [hjk, h.indegree j hj]
    · simp [Kahn.push, h.ready]

theorem foldlM_meet_ok {ks : List String} (hks : ∀ k ∈ ks, k ∈ ids) {s : Draining} {t : Kahn.State String}
    (h : Simulates ids s t) : ∃ s', ks.foldlM meet s = .ok s' ∧ Simulates ids s' (ks.foldl Kahn.push t) := by
  induction ks generalizing s t with
  | nil => exact ⟨s, rfl, h⟩
  | cons k ks ih =>
    obtain ⟨s₁, hmeet, h₁⟩ := meet_ok h (hks k (by simp))
    obtain ⟨s₂, hrest, h₂⟩ := ih (fun j hj => hks j (by simp [hj])) h₁
    refine ⟨s₂, ?_, h₂⟩
    rw [List.foldlM_cons, hmeet]
    exact hrest

theorem drain_simulates (hids : ids.Nodup) (hpairs : pairs.Nodup) (hknown : ∀ d k, (d, k) ∈ pairs → d ∈ ids)
    (hnodes : ∀ d k, (d, k) ∈ pairs → k ∈ ids) (hlinked : Linked ids pairs links) {fuel : Nat} {s : Draining}
    {t : Kahn.State String} (h : Simulates ids s t) (hmid : Kahn.Mid (graphOf ids pairs) t [])
    (hdrained : (Kahn.drain (adjacent order links) fuel t).ready = []) :
    ∃ s', drain order links.adjacency fuel s = .ok s' ∧
      s'.visited = (Kahn.drain (adjacent order links) fuel t).order.length := by
  have hwell := wellFormed_graphOf hids hknown
  have hadjacent : Kahn.Adjacent (graphOf ids pairs) (adjacent order links) := adjacent_graphOf hids hpairs hnodes hlinked
  induction fuel generalizing s t with
  | zero =>
    have hready : s.ready.getLast? = none := by
      rw [h.ready, show t.ready = [] from hdrained]
      rfl
    refine ⟨s, ?_, h.visited⟩
    unfold drain
    simp only [hready]
  | succ fuel ih =>
    unfold drain
    cases hlast : t.ready.getLast? with
    | none =>
      refine ⟨s, by simp only [h.ready, hlast], ?_⟩
      rw [h.visited, Kahn.drain, hlast]
    | some id =>
      have hid : id ∈ ids := by
        have hmem := hmid.sub id (List.mem_append_right _ (List.mem_of_getLast? hlast))
        rwa [keys_graphOf] at hmem
      obtain ⟨xs, hxs, -, hxsMem⟩ := hlinked.adjacency id hid
      have hlist : adjacent order links id = order.list xs := by rw [adjacent, hxs, Option.getD_some]
      have hnext : ∀ k ∈ order.list xs, k ∈ ids :=
        fun k hk => hnodes id k ((hxsMem k).mp ((order.perm xs).mem_iff.mp hk))
      have hpop : Simulates ids { s with ready := s.ready.dropLast, visited := s.visited + 1 }
          { t with ready := t.ready.dropLast, order := t.order ++ [id] } :=
        ⟨h.indegree, by rw [h.ready], by simp [h.visited]⟩
      obtain ⟨s₁, hmeet, h₁⟩ := foldlM_meet_ok hnext hpop
      have hstep := Kahn.drainStep_mid hwell hadjacent hmid hlast
      rw [hlist] at hstep
      rw [Kahn.drain, hlast] at hdrained
      simp only [hlist] at hdrained
      obtain ⟨s₂, hrest, hvisited⟩ := ih h₁ hstep hdrained
      refine ⟨s₂, ?_, ?_⟩
      · simp only [h.ready, hlast, getItem, hxs]
        rw [h.ready] at hmeet
        simp only [bind, Except.bind, hmeet]
        exact hrest
      · rw [hvisited, Kahn.drain, hlast]
        simp only [hlist]

variable (order) in
/-- The loop over the ready nodes ends without a failure, and has visited as many nodes as
    there are exactly where there is no cycle. -/
theorem drain_ok (hids : ids.Nodup) (hpairs : pairs.Nodup) (hknown : ∀ d k, (d, k) ∈ pairs → d ∈ ids)
    (hnodes : ∀ d k, (d, k) ∈ pairs → k ∈ ids) (hlinked : Linked ids pairs links) :
    ∃ s, drain order links.adjacency ids.length
        ⟨links.indegree, (links.indegree.entries.filter (·.2 = 0)).map (·.1), 0⟩ = .ok s ∧
      (s.visited = ids.length ↔ ∀ k, ¬ Relation.TransGen (fun d k => (d, k) ∈ pairs) k k) := by
  have hwell := wellFormed_graphOf hids hknown
  have hadjacent : Kahn.Adjacent (graphOf ids pairs) (adjacent order links) := adjacent_graphOf hids hpairs hnodes hlinked
  have hinit := Kahn.init_mid hwell
  have hdegree : ∀ k ∈ ids, (Kahn.init (graphOf ids pairs)).indegree k = ((pairs.filter (·.2 = k)).length : Int) := by
    intro k hk
    have hnode : (k, (pairs.filter (·.2 = k)).map (·.1)) ∈ graphOf ids pairs := List.mem_map.mpr ⟨k, hk, rfl⟩
    have hlookup := Kahn.lookup_of_mem hwell.nodup hnode
    simp only at hlookup
    simp [Kahn.init, hlookup]
  -- The nodes that wait for none, in whatever order the table has them.
  let ready := (links.indegree.entries.filter (·.2 = 0)).map (·.1)
  have hready : ready.Perm (Kahn.init (graphOf ids pairs)).ready := by
    refine (List.perm_ext_iff_of_nodup ?_ hinit.nodup.of_append_right).mpr fun k => ?_
    · exact (List.filter_sublist.map Prod.fst).nodup links.indegree.nodup
    · have hmem : k ∈ ready ↔ k ∈ ids ∧ (pairs.filter (·.2 = k)).length = 0 := by
        simp only [ready, List.mem_map, List.mem_filter, decide_eq_true_eq]
        constructor
        · rintro ⟨⟨k, degree⟩, ⟨hentry, rfl⟩, rfl⟩
          have hget := Dict.get?_of_mem_entries hentry
          rw [hlinked.indegree k] at hget
          split at hget
          · rename_i hk
            exact ⟨hk, by exact_mod_cast Option.some.inj hget⟩
          · cases hget
        · rintro ⟨hk, hzero⟩
          refine ⟨(k, 0), ⟨mem_entries.mpr ?_, rfl⟩, rfl⟩
          rw [hlinked.indegree k, if_pos hk, hzero]
          rfl
      rw [hmem]
      constructor
      · rintro ⟨hk, hzero⟩
        refine (hinit.ready k (by rwa [keys_graphOf])).mpr ⟨?_, by simp [Kahn.init]⟩
        rw [hdegree k hk, hzero]
        rfl
      · intro hmem'
        have hk : k ∈ Kahn.keys (graphOf ids pairs) := hinit.sub k (List.mem_append_right _ hmem')
        obtain ⟨hzero, -⟩ := (hinit.ready k hk).mp hmem'
        rw [keys_graphOf] at hk
        rw [hdegree k hk] at hzero
        exact ⟨hk, by exact_mod_cast hzero⟩
  let start : Kahn.State String := ⟨(Kahn.init (graphOf ids pairs)).indegree, ready, []⟩
  have hstart : Kahn.Mid (graphOf ids pairs) start [] := hinit.perm rfl rfl hready (.refl _)
  have hlength : (graphOf ids pairs).length = ids.length := by simp [graphOf]
  have hdrained : (Kahn.drain (adjacent order links) ids.length start).ready = [] :=
    Kahn.drain_drained hwell hadjacent hstart (by simp [hlength])
  have hsimulates : Simulates ids ⟨links.indegree, ready, 0⟩ start :=
    ⟨fun k hk => by rw [hlinked.indegree k, if_pos hk, hdegree k hk], rfl, rfl⟩
  obtain ⟨s, hs, hvisited⟩ := drain_simulates hids hpairs hknown hnodes hlinked hsimulates hstart hdrained
  refine ⟨s, hs, ?_⟩
  have hcomplete := Kahn.complete_iff hwell (Kahn.drain_mid hwell hadjacent hstart ids.length) hdrained
  rw [hlength] at hcomplete
  rw [hvisited, hcomplete]
  have hsame : Kahn.DependsOn (graphOf ids pairs) = fun d k => (d, k) ∈ pairs := by
    funext d k
    exact propext (dependsOn_graphOf.trans ⟨fun h => h.2, fun h => ⟨hnodes d k h, h⟩⟩)
  rw [hsame]

/-! ## Connection -/

/-- Two nodes with an edge between them, either way. -/
def Joined (pairs : List (String × String)) (a b : String) : Prop := (a, b) ∈ pairs ∨ (b, a) ∈ pairs

theorem connect_eq {undirected : Dict String (List String)} {next : String → List String}
    (hget : ∀ a ∈ ids, undirected.get? a = some (next a)) (hnext : ∀ a ∈ ids, ∀ b ∈ next a, b ∈ ids) {fuel : Nat}
    {pending seen : List String} (hpending : ∀ a ∈ pending, a ∈ ids) :
    connect order undirected fuel pending seen =
      (Worklist.explore next order.list fuel pending seen).elim (.error .unfinished) .ok := by
  induction fuel generalizing pending seen with
  | zero =>
    unfold connect Worklist.explore
    cases pending.getLast? <;> rfl
  | succ fuel ih =>
    unfold connect
    cases hlast : pending.getLast? with
    | none =>
      obtain rfl := List.getLast?_eq_none_iff.mp hlast
      rw [Worklist.explore_nil]
      rfl
    | some a =>
      have hmem := Worklist.mem_of_getLast? hlast
      have ha : a ∈ ids := hpending a ((hmem a).mpr (.inl rfl))
      have hrest : ∀ b ∈ pending.dropLast, b ∈ ids := fun b hb => hpending b ((hmem b).mpr (.inr hb))
      rw [Worklist.explore_step hlast]
      by_cases hseen : a ∈ seen
      · simp only [if_pos hseen]
        exact ih hrest
      · simp only [if_neg hseen, getItem, hget a ha, bind, Except.bind]
        refine ih fun b hb => ?_
        rcases List.mem_append.mp hb with hb | hb
        · exact hrest b hb
        · exact hnext a ha b (List.mem_filter.mp ((order.perm _).mem_iff.mp hb)).1

variable (order) in
/-- The walk over the edges ends without a failure, and has come to every node exactly
    where the nodes are connected. -/
theorem connected_ok (hids : ids.Nodup) (hknown : ∀ d k, (d, k) ∈ pairs → d ∈ ids)
    (hnodes : ∀ d k, (d, k) ∈ pairs → k ∈ ids) (hlinked : Linked ids pairs links) :
    ∃ reached, connected order ids links.undirected = .ok reached ∧
      ((reached.any fun reached => reached.toFinset != ids.toFinset) = false ↔
        ∀ a ∈ ids, ∀ b ∈ ids, Relation.ReflTransGen (Joined pairs) a b) := by
  have hperm := order.perm ids
  unfold connected
  cases hlist : order.list ids with
  | nil =>
    rw [hlist] at hperm
    obtain rfl := hperm.symm.eq_nil
    exact ⟨none, rfl, by simp⟩
  | cons start rest =>
    rw [hlist] at hperm
    have hstart : start ∈ ids := hperm.mem_iff.mp (by simp)
    let next : String → List String := fun a => (links.undirected.get? a).getD []
    have hget : ∀ a ∈ ids, links.undirected.get? a = some (next a) := by
      intro a ha
      obtain ⟨xs, hxs, -⟩ := hlinked.undirected a ha
      simp [next, hxs]
    have hjoined : ∀ a ∈ ids, ∀ b, b ∈ next a ↔ Joined pairs a b := by
      intro a ha b
      obtain ⟨xs, hxs, -, hxsMem⟩ := hlinked.undirected a ha
      simp only [next, hxs, Option.getD_some]
      exact hxsMem b
    have hinside : ∀ a b, Joined pairs a b → b ∈ ids := by
      rintro a b (h | h)
      · exact hnodes a b h
      · exact hknown b a h
    have hnext : ∀ a ∈ ids, ∀ b ∈ next a, b ∈ ids := fun a ha b hb => hinside a b ((hjoined a ha b).mp hb)
    have hfuel : 1 + Worklist.edges next ids ≤ 1 + ids.length * ids.length := by
      have hbound : Worklist.edges next ids ≤ (ids.map fun a => (next a).length).length * ids.length := by
        refine List.sum_le_card_nsmul _ _ fun n hn => ?_
        obtain ⟨a, ha, rfl⟩ := List.mem_map.mp hn
        obtain ⟨xs, hxs, hxsNodup, -⟩ := hlinked.undirected a ha
        have heq : next a = xs := by simp [next, hxs]
        exact heq ▸ (List.subperm_of_subset hxsNodup (heq ▸ hnext a ha)).length_le
      rw [List.length_map] at hbound
      omega
    obtain ⟨marked, hmarked, hmem⟩ := Worklist.mem_explore order.perm hids hnext hstart hfuel
    refine ⟨some marked, ?_, ?_⟩
    · show some <$> connect order links.undirected _ [start] [] = _
      rw [connect_eq hget hnext (by simpa using hstart), hmarked]
      rfl
    · have hreaches : ∀ k, Worklist.Reaches next start k ↔ Relation.ReflTransGen (Joined pairs) start k := by
        intro k
        constructor
        · intro h
          suffices hboth : k ∈ ids ∧ Relation.ReflTransGen (Joined pairs) start k from hboth.2
          induction h with
          | refl => exact ⟨hstart, .refl⟩
          | tail _ hstep ih => exact ⟨hnext _ ih.1 _ hstep, ih.2.tail ((hjoined _ ih.1 _).mp hstep)⟩
        · intro h
          suffices hboth : k ∈ ids ∧ Worklist.Reaches next start k from hboth.2
          induction h with
          | refl => exact ⟨hstart, .refl⟩
          | tail _ hstep ih => exact ⟨hinside _ _ hstep, ih.2.tail ((hjoined _ ih.1 _).mpr hstep)⟩
      have hsymm : ∀ a b, Relation.ReflTransGen (Joined pairs) a b → Relation.ReflTransGen (Joined pairs) b a := by
        intro a b h
        induction h with
        | refl => exact .refl
        | tail _ hstep ih => exact ih.head (Or.symm hstep)
      simp only [Option.any_some, bne_eq_false_iff_eq]
      constructor
      · intro heq a ha b hb
        have hfrom : ∀ c ∈ ids, Relation.ReflTransGen (Joined pairs) start c := by
          intro c hc
          have hc' : c ∈ marked.toFinset := by
            rw [heq]
            exact List.mem_toFinset.mpr hc
          exact (hreaches c).mp ((hmem c).mp (List.mem_toFinset.mp hc'))
        exact (hsymm _ _ (hfrom a ha)).trans (hfrom b hb)
      · intro hall
        ext c
        rw [List.mem_toFinset, List.mem_toFinset, hmem, hreaches]
        constructor
        · intro h
          induction h with
          | refl => exact hstart
          | tail _ hstep _ => exact hinside _ _ hstep
        · exact hall start hstart c

end

end DataNexus.Evals
