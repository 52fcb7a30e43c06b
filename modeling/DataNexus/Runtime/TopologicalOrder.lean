/-
  DataNexus.Runtime.TopologicalOrder — what `topological_order` returns or raises
  (`query-runtime/src/query_runtime/planner.py`).

  The function raises for repeated ids, else for dependencies that are no node, else for a
  cycle, and otherwise returns the order in which every node is the one with the least id among
  the nodes whose dependencies are all out. No other order of the nodes that puts dependencies
  first has ids that come before its ids. A dependency that a node lists twice is counted twice
  and met twice (`Kahn.Mid`). The four outcomes exclude one another and there is no fifth
  (`topological_order`).
-/

import DataNexus.Lib.KahnLeast
import DataNexus.Runtime.PlannerSpec

namespace DataNexus.Runtime

open DataNexus.Lib

/-- The node with the first id lists the second. -/
def DependsOn (nodes : List LogicalNode) (id dependency : String) : Prop :=
  ∃ node ∈ nodes, node.id = id ∧ dependency ∈ node.dependencies

def HasCycle (nodes : List LogicalNode) : Prop := ∃ id, Relation.TransGen (DependsOn nodes) id id

/-- The dependencies that are no node. -/
def missingDependencies (nodes : List LogicalNode) : List String :=
  Kahn.sorted ((nodes.flatMap (·.dependencies)).filter (· ∉ nodes.map (·.id))).dedup

theorem mem_missingDependencies {nodes : List LogicalNode} {d : String} :
    d ∈ missingDependencies nodes ↔ d ∉ nodes.map (·.id) ∧ ∃ node ∈ nodes, d ∈ node.dependencies := by
  simp only [missingDependencies, Kahn.mem_sorted, List.mem_dedup, List.mem_filter, List.mem_flatMap,
    decide_eq_true_eq]
  exact and_comm

def duplicateNode : PlannerError := planFailure "PLAN_DUPLICATE_NODE" "Logical graph contains duplicate node IDs"

def missingDependency (names : List String) : PlannerError :=
  planFailure "PLAN_MISSING_DEPENDENCY" "Logical graph references missing dependencies" [("dependencies", .names names)]

def dependencyCycle : PlannerError := planFailure "PLAN_CYCLE" "Logical graph contains a dependency cycle"

/-- In every turn the node with the least id among those whose dependencies are out. -/
def LeastInTurn (nodes ordered : List LogicalNode) : Prop :=
  ∀ pre node post, ordered = pre ++ node :: post →
    ∀ other ∈ nodes, other.id ∉ pre.map (·.id) → other.dependencies ⊆ pre.map (·.id) → node.id ≤ other.id

/-- No other such order has ids that come before. -/
def FirstOfAll (nodes ordered : List LogicalNode) : Prop :=
  ∀ other, Ordered nodes other →
    other = ordered ∨ List.Lex (· < ·) (ordered.map (·.id)) (other.map (·.id))

/-! ## The graph of ids -/

/-- The ids with what they list, as the loop takes them. -/
def dependencyGraph (nodes : List LogicalNode) : List (String × List String) :=
  nodes.map fun node => (node.id, node.dependencies)

theorem keys_dependencyGraph (nodes : List LogicalNode) : Kahn.keys (dependencyGraph nodes) = nodes.map (·.id) := by
  simp [Kahn.keys, dependencyGraph, Function.comp_def]

theorem wellFormed_dependencyGraph {nodes : List LogicalNode} (hnodup : (nodes.map (·.id)).Nodup)
    (hmissing : missingDependencies nodes = []) : Kahn.WellFormed (dependencyGraph nodes) := by
  refine ⟨by rwa [keys_dependencyGraph], ?_⟩
  intro n hn d hd
  obtain ⟨node, hnode, rfl⟩ := List.mem_map.mp hn
  rw [keys_dependencyGraph]
  by_contra hout
  have hmem : d ∈ missingDependencies nodes := mem_missingDependencies.mpr ⟨hout, node, hnode, hd⟩
  rw [hmissing] at hmem
  cases hmem

theorem lists_dependencyGraph (nodes : List LogicalNode) : Kahn.Lists (dependencyGraph nodes) = DependsOn nodes := by
  funext id d
  refine propext ⟨?_, ?_⟩
  · rintro ⟨n, hn, rfl, hd⟩
    obtain ⟨node, hnode, rfl⟩ := List.mem_map.mp hn
    exact ⟨node, hnode, rfl, hd⟩
  · rintro ⟨node, hnode, rfl, hd⟩
    exact ⟨(node.id, node.dependencies), List.mem_map.mpr ⟨node, hnode, rfl⟩, rfl, hd⟩

/-- A split of the ids is a split of the nodes. -/
theorem split_of_map {ordered : List LogicalNode} {pre post : List String} {id : String}
    (h : ordered.map (·.id) = pre ++ id :: post) :
    ∃ pre' node post', ordered = pre' ++ node :: post' ∧ pre'.map (·.id) = pre ∧ node.id = id ∧
      post'.map (·.id) = post := by
  obtain ⟨pre', rest, rfl, rfl, hrest⟩ := List.map_eq_append_iff.mp h
  obtain ⟨node, post', rfl, rfl, rfl⟩ := List.map_eq_cons_iff.mp hrest
  exact ⟨pre', node, post', rfl, rfl, rfl, rfl⟩

theorem closed_ids {nodes ordered : List LogicalNode} (hnodup : (nodes.map (·.id)).Nodup)
    (h : Ordered nodes ordered) : Kahn.Closed (dependencyGraph nodes) (ordered.map (·.id)) := by
  intro pre id post hsplit n hn hid
  obtain ⟨pre', node, post', rfl, rfl, rfl, rfl⟩ := split_of_map hsplit
  obtain ⟨node', hnode', rfl⟩ := List.mem_map.mp hn
  have hmem : node ∈ nodes := h.perm.subset (by simp)
  obtain rfl : node' = node := List.inj_on_of_nodup_map hnodup hnode' hmem hid
  exact h.closed pre' node' post' rfl

/-- Two orders of the same nodes with the same ids are one. -/
theorem eq_of_ids {nodes ordered other : List LogicalNode} (hnodup : (nodes.map (·.id)).Nodup)
    (hordered : ordered ⊆ nodes) (hother : other ⊆ nodes) (h : ordered.map (·.id) = other.map (·.id)) :
    other = ordered := by
  induction ordered generalizing other with
  | nil => exact List.map_eq_nil_iff.mp h.symm
  | cons node ordered ih =>
    cases other with
    | nil => cases h
    | cons node' other =>
      rw [List.map_cons, List.map_cons] at h
      obtain ⟨hid, hrest⟩ := List.cons.inj h
      obtain rfl : node = node' := List.inj_on_of_nodup_map hnodup (hordered (by simp)) (hother (by simp)) hid
      rw [ih (List.subset_of_cons_subset hordered) (List.subset_of_cons_subset hother) hrest]

/-! ## The four outcomes -/

/-- The checks of the function one after the other. -/
theorem topologicalOrder_eq (nodes : List LogicalNode) :
    topologicalOrder nodes =
      if ¬ (nodes.map (·.id)).Nodup then .error duplicateNode
      else if missingDependencies nodes ≠ [] then .error (missingDependency (missingDependencies nodes))
      else if (Kahn.run (dependencyGraph nodes)).length ≠ nodes.length then .error dependencyCycle
      else .ok ((Kahn.run (dependencyGraph nodes)).filterMap fun id => nodes.find? (·.id == id)) := by
  simp only [topologicalOrder]
  by_cases hnodup : (nodes.map (·.id)).Nodup
  · have hdup : ((nodes.map (·.id)).dedup.length != (nodes.map (·.id)).length) = false := dedup_length_bne.mpr hnodup
    rw [if_neg (not_not.mpr hnodup), hdup, refuseIf]
    by_cases hmissing : missingDependencies nodes = []
    · have hempty : (!(missingDependencies nodes).isEmpty) = false := by simp [hmissing]
      rw [if_neg (not_not.mpr hmissing), ← missingDependencies, hempty, refuseIf]
      by_cases hlength : (Kahn.run (dependencyGraph nodes)).length = nodes.length
      · have hcomplete : ((Kahn.run (dependencyGraph nodes)).length != nodes.length) = false := by simp [hlength]
        rw [if_neg (not_not.mpr hlength), ← dependencyGraph, hcomplete]
        rfl
      · have hcomplete : ((Kahn.run (dependencyGraph nodes)).length != nodes.length) = true := by simp [hlength]
        rw [if_pos hlength, ← dependencyGraph, hcomplete]
        rfl
    · have hempty : (!(missingDependencies nodes).isEmpty) = true := by simp [hmissing]
      rw [if_pos hmissing, ← missingDependencies, hempty]
      rfl
  · have hdup : ((nodes.map (·.id)).dedup.length != (nodes.map (·.id)).length) = true := by
      by_contra h
      exact hnodup (dedup_length_bne.mp (by simpa using h))
    rw [if_pos hnodup, hdup]
    rfl

/-- Where there is no cycle, what is returned is the first of all orders. -/
theorem returned_order {nodes : List LogicalNode} (hnodup : (nodes.map (·.id)).Nodup)
    (hmissing : missingDependencies nodes = [])
    (hlength : (Kahn.run (dependencyGraph nodes)).length = nodes.length) {ordered : List LogicalNode}
    (h : topologicalOrder nodes = .ok ordered) :
    Ordered nodes ordered ∧ LeastInTurn nodes ordered ∧ FirstOfAll nodes ordered := by
  have hw := wellFormed_dependencyGraph hnodup hmissing
  have hordered := topologicalOrder_spec h
  have hperm : (Kahn.run (dependencyGraph nodes)).Perm (Kahn.keys (dependencyGraph nodes)) :=
    Kahn.run_perm hw (by simpa [dependencyGraph] using hlength)
  have hids : ordered.map (·.id) = Kahn.run (dependencyGraph nodes) := by
    rw [topologicalOrder_eq, if_neg (not_not.mpr hnodup), if_neg (not_not.mpr hmissing),
      if_neg (not_not.mpr hlength)] at h
    cases h
    exact map_filterMap_find? (fun n : LogicalNode => n.id) (by
      rw [← keys_dependencyGraph]
      exact hperm.subset)
  have hleast := Kahn.run_least hw
  rw [← hids] at hleast hperm
  refine ⟨hordered, ?_, ?_⟩
  · rintro pre node post rfl other hother hout hdeps
    rw [List.map_append, List.map_cons] at hleast
    exact hleast (pre.map (·.id)) node.id (post.map (·.id)) rfl (other.id, other.dependencies)
      (List.mem_map.mpr ⟨other, hother, rfl⟩) hout hdeps
  · intro other hother
    have hotherPerm : (other.map (·.id)).Perm (Kahn.keys (dependencyGraph nodes)) := by
      rw [keys_dependencyGraph]
      exact hother.perm.map _
    rcases Kahn.lex_of_least hleast (closed_ids hnodup hother) hw.nodup hperm hotherPerm with heq | hlex
    · exact .inl (eq_of_ids hnodup hordered.perm.subset hother.perm.subset heq)
    · exact .inr hlex

/-- `topological_order` raises for repeated ids, else for missing dependencies, else for a cycle,
    and otherwise returns the first of all orders with dependencies first. -/
theorem topological_order (nodes : List LogicalNode) :
    (¬ (nodes.map (·.id)).Nodup ∧ topologicalOrder nodes = .error duplicateNode) ∨
    ((nodes.map (·.id)).Nodup ∧ (∃ node ∈ nodes, ∃ d ∈ node.dependencies, d ∉ nodes.map (·.id)) ∧
      topologicalOrder nodes = .error (missingDependency (missingDependencies nodes))) ∨
    ((nodes.map (·.id)).Nodup ∧ (∀ node ∈ nodes, ∀ d ∈ node.dependencies, d ∈ nodes.map (·.id)) ∧ HasCycle nodes ∧
      topologicalOrder nodes = .error dependencyCycle) ∨
    ((nodes.map (·.id)).Nodup ∧ (∀ node ∈ nodes, ∀ d ∈ node.dependencies, d ∈ nodes.map (·.id)) ∧ ¬ HasCycle nodes ∧
      ∃ ordered, topologicalOrder nodes = .ok ordered ∧ Ordered nodes ordered ∧ LeastInTurn nodes ordered ∧
        FirstOfAll nodes ordered) := by
  by_cases hnodup : (nodes.map (·.id)).Nodup
  · by_cases hmissing : missingDependencies nodes = []
    · have hknown : ∀ node ∈ nodes, ∀ d ∈ node.dependencies, d ∈ nodes.map (·.id) := by
        intro node hnode d hd
        by_contra hout
        have hmem : d ∈ missingDependencies nodes := mem_missingDependencies.mpr ⟨hout, node, hnode, hd⟩
        rw [hmissing] at hmem
        cases hmem
      have hstuck := Kahn.run_incomplete_iff (wellFormed_dependencyGraph hnodup hmissing)
      rw [lists_dependencyGraph, dependencyGraph, List.length_map, ← dependencyGraph] at hstuck
      by_cases hlength : (Kahn.run (dependencyGraph nodes)).length = nodes.length
      · have hok := topologicalOrder_eq nodes
        rw [if_neg (not_not.mpr hnodup), if_neg (not_not.mpr hmissing), if_neg (not_not.mpr hlength)] at hok
        have hnone : ¬ HasCycle nodes := fun hcycle => hstuck.mpr hcycle hlength
        exact .inr (.inr (.inr ⟨hnodup, hknown, hnone, _, hok, returned_order hnodup hmissing hlength hok⟩))
      · have herror := topologicalOrder_eq nodes
        rw [if_neg (not_not.mpr hnodup), if_neg (not_not.mpr hmissing), if_pos hlength] at herror
        exact .inr (.inr (.inl ⟨hnodup, hknown, hstuck.mp hlength, herror⟩))
    · obtain ⟨d, hd⟩ := List.exists_mem_of_ne_nil _ hmissing
      obtain ⟨hout, node, hnode, hlisted⟩ := mem_missingDependencies.mp hd
      have herror := topologicalOrder_eq nodes
      rw [if_neg (not_not.mpr hnodup), if_pos hmissing] at herror
      exact .inr (.inl ⟨hnodup, ⟨node, hnode, d, hlisted, hout⟩, herror⟩)
  · have herror := topologicalOrder_eq nodes
    rw [if_pos hnodup] at herror
    exact .inl ⟨hnodup, herror⟩

end DataNexus.Runtime
