/-
  DataNexus.Runtime.PlanOrder — the plan does not depend on the order of the graph's nodes.

  The planner reads the node list only through `topological_order`, which takes ready
  nodes by id: two lists of the same nodes give the same order or the same failure
  (`topologicalOrder_congr`), hence the same plan. The waves of a plan are the lengths of
  the longest dependency paths, and its nodes are ordered by wave and id
  (`assignWaves_sorted`).
-/

import DataNexus.Lib.LayerOrder
import DataNexus.Runtime.PlanMeaning

namespace DataNexus.Runtime

open Lib

/-! ## The order of the nodes -/

theorem find?_eq_of_perm {nodes nodes' : List LogicalNode} (h : nodes.Perm nodes') (hnd : (nodes.map (·.id)).Nodup)
    (id : String) : nodes.find? (·.id == id) = nodes'.find? (·.id == id) := by
  have hnd' : (nodes'.map (·.id)).Nodup := (h.map _).nodup_iff.mp hnd
  cases hfind : nodes.find? (·.id == id) with
  | none =>
    symm
    rw [List.find?_eq_none] at hfind ⊢
    intro node hnode
    exact hfind node (h.symm.subset hnode)
  | some node =>
    obtain ⟨hmem, rfl⟩ := key_of_find? (fun n : LogicalNode => n.id) hfind
    exact (find?_key_of_mem (fun n : LogicalNode => n.id) hnd' (h.subset hmem)).symm

theorem topologicalOrder_congr {nodes nodes' : List LogicalNode} (h : nodes.Perm nodes') :
    topologicalOrder nodes = topologicalOrder nodes' := by
  have hids : (nodes.map (·.id)).Perm (nodes'.map (·.id)) := h.map _
  have hdup : ((nodes.map (·.id)).dedup.length != (nodes.map (·.id)).length) =
      ((nodes'.map (·.id)).dedup.length != (nodes'.map (·.id)).length) := by
    rw [hids.dedup.length_eq, hids.length_eq]
  have hunknown : Kahn.sorted ((nodes.flatMap (·.dependencies)).filter (· ∉ nodes.map (·.id))).dedup =
      Kahn.sorted ((nodes'.flatMap (·.dependencies)).filter (· ∉ nodes'.map (·.id))).dedup := by
    refine Kahn.sorted_eq_of_perm (List.Perm.dedup ?_)
    have hsame : (nodes.flatMap (·.dependencies)).filter (· ∉ nodes.map (·.id)) =
        (nodes.flatMap (·.dependencies)).filter (· ∉ nodes'.map (·.id)) := by
      refine List.filter_congr fun d _ => ?_
      simp only [hids.mem_iff]
    rw [hsame]
    exact (h.flatMap_right _).filter _
  unfold topologicalOrder
  simp only [hdup, hunknown]
  cases hnd : ((nodes'.map (·.id)).dedup.length != (nodes'.map (·.id)).length) with
  | true => rfl
  | false =>
    have hnodup : (nodes.map (·.id)).Nodup := hids.nodup_iff.mpr (dedup_length_bne.mp hnd)
    have hkeys : (Kahn.keys (nodes.map fun node => (node.id, node.dependencies))).Nodup := by
      simpa [Kahn.keys, Function.comp_def] using hnodup
    have hrun : Kahn.run (nodes.map fun node => (node.id, node.dependencies)) =
        Kahn.run (nodes'.map fun node => (node.id, node.dependencies)) := Kahn.run_congr (h.map _) hkeys
    have hfind : (fun id => nodes.find? (·.id == id)) = fun id => nodes'.find? (·.id == id) :=
      funext fun id => find?_eq_of_perm h hnodup id
    rw [hrun, h.length_eq, hfind]

/-! ## Waves -/

namespace CapabilityPlanner

theorem map_filterMap_wave {nodes : List PhysicalNode} {waves : List (String × Nat)}
    (hfound : ∀ k ∈ waves.map (·.1), ∃ node, findNode nodes k = some node) :
    (waves.filterMap fun (id, wave) => (findNode nodes id).map fun node => { node with wave := wave }).map
      (fun node => (node.id, node.wave)) = waves := by
  induction waves with
  | nil => rfl
  | cons kw waves ih =>
    obtain ⟨node, hn⟩ := hfound kw.1 (by simp)
    rw [List.filterMap_cons]
    simp only [hn, Option.map_some, List.map_cons, (key_of_find? (fun n : PhysicalNode => n.id) hn).2]
    exact congrArg (kw :: ·) (ih fun k hk => hfound k (by simp [hk]))

theorem dependenciesOf_planned {nodes planned : List PhysicalNode} (hnd : (nodes.map (·.id)).Nodup)
    (hperm : (planned.map (·.id)).Perm (nodes.map (·.id)))
    (hsame : ∀ node ∈ planned, ∃ origin ∈ nodes, node = { origin with wave := node.wave }) :
    dependenciesOf planned = dependenciesOf nodes := by
  funext id
  by_cases hid : id ∈ planned.map (·.id)
  · obtain ⟨node, hnode, rfl⟩ := List.mem_map.mp hid
    obtain ⟨origin, horigin, e⟩ := hsame node hnode
    have hidentity : node.id = origin.id := by rw [e]
    have hdependencies : node.dependencies = origin.dependencies := by rw [e]
    rw [dependenciesOf_eq (hperm.nodup_iff.mpr hnd) hnode, hidentity, dependenciesOf_eq hnd horigin, hdependencies]
  · have hnone : ∀ ns : List PhysicalNode, id ∉ ns.map (·.id) → findNode ns id = none := by
      intro ns hns
      refine List.find?_eq_none.mpr fun node hnode => ?_
      simp only [beq_iff_eq]
      intro e
      exact hns (List.mem_map.mpr ⟨node, hnode, e⟩)
    have hid' : id ∉ nodes.map (·.id) := by
      intro hid'
      exact hid (hperm.mem_iff.mpr hid')
    rw [dependenciesOf, dependenciesOf, hnone planned hid, hnone nodes hid']

theorem assignWaves_sorted {nodes planned : List PhysicalNode} (hnd : (nodes.map (·.id)).Nodup)
    (h : assignWaves nodes = .ok planned) :
    (∀ node ∈ planned, IsGreatest {n | Layers.Descends (dependenciesOf planned) node.id n} node.wave) ∧
    planned.Pairwise fun a b => a.wave < b.wave ∨ (a.wave = b.wave ∧ a.id < b.id) := by
  obtain ⟨hperm, hsame, -⟩ := assignWaves_eq_ok hnd h
  rw [dependenciesOf_planned hnd hperm hsame]
  unfold assignWaves at h
  split at h
  · cases h
  rename_i waves hw
  obtain rfl := Except.ok.inj h
  obtain ⟨hl, hwperm⟩ := Layers.assign_spec hnd hw
  have hmap := map_filterMap_wave fun k hk => findNode_isSome (hwperm.subset hk)
  refine ⟨fun node hnode => ?_, ?_⟩
  · have hmem : (node.id, node.wave) ∈ waves := by
      rw [← hmap]
      exact List.mem_map.mpr ⟨node, hnode, rfl⟩
    exact Layers.isGreatest_layer hl ((Layers.lookup_eq_some hl.nodup).mpr hmem)
  · have hsorted := Layers.assign_sorted hnd hw
    rw [← hmap] at hsorted
    exact List.pairwise_map.mp hsorted

variable {lib : ScalarParsers}

theorem prepare_congr (planner : CapabilityPlanner) {graph graph' : ValidatedLogicalGraph lib}
    (hversion : graph'.version = graph.version) (hperm : graph'.nodes.Perm graph.nodes) :
    planner.prepare lib graph' = planner.prepare lib graph := by
  rw [prepare, prepare, topologicalOrder_congr hperm, hversion]

/-- Permuting the nodes changes neither the plan nor the failure; a plan's waves are the
    lengths of its longest dependency paths, and its nodes are ordered by wave and id. -/
theorem plan_order_independent (planner : CapabilityPlanner) (graph graph' : ValidatedLogicalGraph lib)
    (hversion : graph'.version = graph.version) (hid : graph'.id = graph.id)
    (houtput : graph'.outputNodeId = graph.outputNodeId) (hperm : graph'.nodes.Perm graph.nodes) :
    planner.plan lib graph' = planner.plan lib graph ∧
    ∀ plan, planner.plan lib graph = .ok plan →
      (∀ node ∈ plan.nodes, IsGreatest {n | Layers.Descends (dependenciesOf plan.nodes) node.id n} node.wave) ∧
      plan.nodes.Pairwise fun a b => a.wave < b.wave ∨ (a.wave = b.wave ∧ a.id < b.id) := by
  refine ⟨?_, fun result h => ?_⟩
  · rw [plan, plan, prepare_congr planner hversion hperm, hversion, hid, houtput]
  · obtain ⟨bound, planned, outputId, hb, hl, rfl, -⟩ := plan_eq_ok h
    obtain ⟨st, hst, -, hwaves⟩ := layout_eq_ok hl
    have hp := prepare_spec hb
    have hnd : (st.physical.map (·.id)).Nodup :=
      (built_of_foldlM hp.closed hst).1.ids ▸ hp.nodup.map physicalId_injective
    exact assignWaves_sorted ((List.Sublist.map _ List.filter_sublist).nodup hnd) hwaves

def reversedPrefixGraph (lib : ScalarParsers) : ValidatedLogicalGraph lib where
  version := .v0
  id := "shared"
  nodes := (sharedPrefixGraph lib).nodes.reverse
  outputNodeId := "both"
  v0Boundary := fun h node hnode => (sharedPrefixGraph lib).v0Boundary h node (List.mem_reverse.mp hnode)
  v1Boundary := nofun

theorem reversedPrefix_same_plan :
    salesPlanner.plan noParsers (reversedPrefixGraph noParsers) = salesPlanner.plan noParsers (sharedPrefixGraph noParsers) ∧
    salesPlanner.plan noParsers (sharedPrefixGraph noParsers) = .ok sharedPrefixPlan :=
  ⟨(plan_order_independent salesPlanner (sharedPrefixGraph noParsers) (reversedPrefixGraph noParsers) rfl rfl rfl
    (List.reverse_perm _)).1, rfl⟩

end CapabilityPlanner

end DataNexus.Runtime
