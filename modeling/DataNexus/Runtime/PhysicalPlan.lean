/-
  DataNexus.Runtime.PhysicalPlan — what the coordinator accepts
  (`validate_physical_plan` in `query_runtime/coordinator.py`).

  The validator walks the nodes once, then looks for nodes the output does not need and
  for a cycle. `validatePhysicalPlan_eq_ok` says what an accepted plan is; the cycle check
  never refuses one by itself, since the waves already descend along the dependencies.
-/

import DataNexus.Runtime.PlannerSpec

namespace DataNexus.Runtime

open Lib

variable (lib : ScalarParsers)

def validateNodeOperations (plan : PhysicalPlan) (node : PhysicalNode) : Except PlannerError Unit :=
  if plan.version = .v1 ∨ node.operator.any (·.isV1) = true then
    forM node.operations fun operation =>
      match validateOperatorV1 lib operation with
      | .ok () => .ok ()
      | .error _ => .error (planFailure "PLAN_OPERATOR_INVALID" "Invalid v1 operator form or value")
  else .ok ()

/-- A fragment takes no input, an operator as many as its kind needs. -/
def validateNodeInputs (node : PhysicalNode) : Except PlannerError Unit :=
  match node.payload with
  | .sourceFragment _ =>
    refuseIf (!node.dependencies.isEmpty) (planFailure "PLAN_SOURCE_FRAGMENT_INPUT"
      s!"Source fragment node '{node.id}' cannot accept physical inputs"
      [("node_id", .text node.id), ("actual_inputs", .count node.dependencies.length)])
  | .operator _ =>
    refuseIf (node.dependencies.length != node.operation.inputCount) (planFailure "PLAN_OPERATOR_INPUT_COUNT"
      s!"Operator node '{node.id}' requires {node.operation.inputCount} input(s)"
      [("node_id", .text node.id), ("operation", .text node.operation.text),
        ("required_inputs", .count node.operation.inputCount), ("actual_inputs", .count node.dependencies.length)])

def validateDependency (nodes : List PhysicalNode) (node : PhysicalNode) (dependency : String) :
    Except PlannerError Unit :=
  match findNode nodes dependency with
  | none => .error (planFailure "PLAN_MISSING_DEPENDENCY"
      s!"Node '{node.id}' references missing dependency '{dependency}'")
  | some below => refuseIf (node.wave ≤ below.wave)
      (planFailure "PLAN_WAVE_INVALID" "Dependency waves must precede dependent node waves")

def validatePlanNode (plan : PhysicalPlan) (node : PhysicalNode) : Except PlannerError Unit := do
  validateNodeOperations lib plan node
  refuseIf node.operation.isBlocked
    (planFailure "OPERATOR_UNSUPPORTED" (node.operation.text ++ " requires a governed backend"))
  validateNodeInputs node
  forM node.dependencies (validateDependency plan.nodes node)

def validatePhysicalPlan (plan : PhysicalPlan) : Except PlannerError Unit := do
  let ids := plan.nodes.map (·.id)
  refuseIf (ids.dedup.length != ids.length)
    (planFailure "PLAN_DUPLICATE_NODE" "Physical plan contains duplicate IDs")
  refuseIf (!ids.contains plan.outputNodeId)
    (planFailure "PLAN_OUTPUT_MISSING" "Physical plan output node does not exist")
  forM plan.nodes (validatePlanNode lib plan)
  let reached := Worklist.reach (dependenciesOf plan.nodes) ids plan.outputNodeId
  let unreachable := Kahn.sorted (ids.filter (· ∉ reached))
  refuseIf (!unreachable.isEmpty)
    (planFailure "PLAN_UNREACHABLE_NODE" "Physical plan contains nodes outside the output dependency closure"
      [("nodes", .names unreachable)])
  let visited := Kahn.run (plan.nodes.map fun node => (node.id, node.dependencies))
  refuseIf (visited.length != plan.nodes.length)
    (planFailure "PLAN_CYCLE" "Physical plan contains a dependency cycle")

/-! ## What is accepted -/

structure AcceptedNode (plan : PhysicalPlan) (node : PhysicalNode) : Prop where
  operations : plan.version = .v1 ∨ node.operator.any (·.isV1) = true →
    ∀ operation ∈ node.operations, validateOperatorV1 lib operation = .ok ()
  supported : node.operation.isBlocked = false
  inputs : match node.payload with
    | .sourceFragment _ => node.dependencies = []
    | .operator _ => node.dependencies.length = node.operation.inputCount
  waves : ∀ d ∈ node.dependencies, ∃ below ∈ plan.nodes, below.id = d ∧ below.wave < node.wave

structure Accepted (plan : PhysicalPlan) : Prop where
  nodup : (plan.nodes.map (·.id)).Nodup
  output : plan.outputNodeId ∈ plan.nodes.map (·.id)
  nodes : ∀ node ∈ plan.nodes, AcceptedNode lib plan node
  needed : ∀ node ∈ plan.nodes, Worklist.Reaches (dependenciesOf plan.nodes) plan.outputNodeId node.id

variable {lib}

theorem validateNodeOperations_eq_ok {plan : PhysicalPlan} {node : PhysicalNode} :
    validateNodeOperations lib plan node = .ok () ↔
      (plan.version = .v1 ∨ node.operator.any (·.isV1) = true →
        ∀ operation ∈ node.operations, validateOperatorV1 lib operation = .ok ()) := by
  unfold validateNodeOperations
  split
  · rename_i h
    simp only [h, forM_eq_ok, forall_const]
    refine forall₂_congr fun operation _ => ?_
    split <;> simp_all
  · rename_i h
    simp [h]

theorem validateNodeInputs_eq_ok {node : PhysicalNode} :
    validateNodeInputs node = .ok () ↔ match node.payload with
      | .sourceFragment _ => node.dependencies = []
      | .operator _ => node.dependencies.length = node.operation.inputCount := by
  unfold validateNodeInputs
  split <;> simp [refuseIf_eq_ok, List.isEmpty_iff]

theorem validateDependency_eq_ok {nodes : List PhysicalNode} (hnd : (nodes.map (·.id)).Nodup) {node : PhysicalNode}
    {d : String} :
    validateDependency nodes node d = .ok () ↔ ∃ below ∈ nodes, below.id = d ∧ below.wave < node.wave := by
  unfold validateDependency
  split
  · rename_i h
    simp only [reduceCtorEq, false_iff, not_exists]
    rintro below ⟨hb, rfl, -⟩
    cases h.symm.trans (find?_key_of_mem (fun n : PhysicalNode => n.id) hnd hb)
  · rename_i below h
    obtain ⟨hb, rfl⟩ := key_of_find? (fun n : PhysicalNode => n.id) h
    simp only [refuseIf_eq_ok, decide_eq_false_iff_not, not_le]
    refine ⟨fun hw => ⟨below, hb, rfl, hw⟩, fun hex => ?_⟩
    obtain ⟨other, ho, hid, hw⟩ := hex
    have := find?_key_of_mem (fun n : PhysicalNode => n.id) hnd ho
    rw [hid] at this
    exact Option.some.inj (h.symm.trans this) ▸ hw

theorem validatePlanNode_eq_ok {plan : PhysicalPlan} (hnd : (plan.nodes.map (·.id)).Nodup) {node : PhysicalNode} :
    validatePlanNode lib plan node = .ok () ↔ AcceptedNode lib plan node := by
  simp only [validatePlanNode, bind_eq_ok, forM_eq_ok]
  constructor
  · rintro ⟨_, ho, _, hs, _, hi, hd⟩
    exact ⟨validateNodeOperations_eq_ok.mp ho, refuseIf_eq_ok.mp hs, validateNodeInputs_eq_ok.mp hi,
      fun d hm => (validateDependency_eq_ok hnd).mp (hd d hm)⟩
  · rintro ⟨ho, hs, hi, hw⟩
    exact ⟨(), validateNodeOperations_eq_ok.mpr ho, (), refuseIf_eq_ok.mpr hs, (),
      validateNodeInputs_eq_ok.mpr hi,
      fun d hm => (validateDependency_eq_ok hnd).mpr (hw d hm)⟩

/-- Waves that descend along the dependencies leave no cycle. -/
theorem kahn_length {plan : PhysicalPlan} (hnd : (plan.nodes.map (·.id)).Nodup)
    (hw : ∀ node ∈ plan.nodes, ∀ d ∈ node.dependencies, ∃ below ∈ plan.nodes, below.id = d ∧ below.wave < node.wave) :
    (Kahn.run (plan.nodes.map fun node => (node.id, node.dependencies))).length = plan.nodes.length := by
  have hkeys : Kahn.keys (plan.nodes.map fun node => (node.id, node.dependencies)) = plan.nodes.map (·.id) := by
    simp [Kahn.keys, Function.comp_def]
  let rank (id : String) : Nat := (findNode plan.nodes id).elim 0 (·.wave)
  have hrank : ∀ node ∈ plan.nodes, rank node.id = node.wave := fun node hn => by
    simp [rank, findNode, find?_key_of_mem (fun n : PhysicalNode => n.id) hnd hn]
  have hwf : Kahn.WellFormed (plan.nodes.map fun node => (node.id, node.dependencies)) := by
    refine ⟨hkeys ▸ hnd, fun n hn d hd => ?_⟩
    obtain ⟨node, hnode, rfl⟩ := List.mem_map.mp hn
    obtain ⟨below, hb, rfl, -⟩ := hw node hnode d hd
    exact hkeys ▸ List.mem_map.mpr ⟨below, hb, rfl⟩
  have hall := Kahn.run_complete hwf rank fun n hn d hd => by
    obtain ⟨node, hnode, rfl⟩ := List.mem_map.mp hn
    obtain ⟨below, hb, rfl, hlt⟩ := hw node hnode d hd
    rwa [hrank below hb, hrank node hnode]
  have hperm := (List.subperm_of_subset (Kahn.run_nodup hwf) (Kahn.run_subset hwf)).antisymm
    (List.subperm_of_subset (hkeys ▸ hnd) hall)
  rw [hperm.length_eq, hkeys, List.length_map]

theorem validatePhysicalPlan_eq_ok {plan : PhysicalPlan} :
    validatePhysicalPlan lib plan = .ok () ↔ Accepted lib plan := by
  have hnext (hnodes : ∀ node ∈ plan.nodes, AcceptedNode lib plan node) (hnd : (plan.nodes.map (·.id)).Nodup) :
      ∀ k ∈ plan.nodes.map (·.id), ∀ d ∈ dependenciesOf plan.nodes k, d ∈ plan.nodes.map (·.id) := by
    intro k hk d hd
    obtain ⟨node, hn, rfl⟩ := List.mem_map.mp hk
    obtain ⟨below, hb, rfl, -⟩ := (hnodes node hn).waves d (CapabilityPlanner.dependenciesOf_eq hnd hn ▸ hd)
    exact List.mem_map.mpr ⟨below, hb, rfl⟩
  simp only [validatePhysicalPlan, bind_eq_ok, refuseIf_eq_ok, forM_eq_ok, dedup_length_bne]
  constructor
  · rintro ⟨_, hnd, _, hout, _, hnodes, _, hreach, -⟩
    have hnodes : ∀ node ∈ plan.nodes, AcceptedNode lib plan node := fun node hn =>
      (validatePlanNode_eq_ok hnd).mp (hnodes node hn)
    have hout : plan.outputNodeId ∈ plan.nodes.map (·.id) := by simpa using hout
    refine ⟨hnd, hout, hnodes, fun node hn => ?_⟩
    have hid : node.id ∈ plan.nodes.map (·.id) := List.mem_map.mpr ⟨node, hn, rfl⟩
    rw [← Worklist.mem_reach hnd (hnext hnodes hnd) hout]
    by_contra hno
    have : node.id ∈ Kahn.sorted ((plan.nodes.map (·.id)).filter
        (· ∉ Worklist.reach (dependenciesOf plan.nodes) (plan.nodes.map (·.id)) plan.outputNodeId)) := by
      rw [Kahn.mem_sorted, List.mem_filter]
      exact ⟨hid, by simpa using hno⟩
    exact List.ne_nil_of_mem this (List.isEmpty_iff.mp (by simpa only [Bool.not_eq_false'] using hreach))
  · rintro ⟨hnd, hout, hnodes, hneed⟩
    refine ⟨(), hnd, (), by simpa using hout, (), fun node hn => (validatePlanNode_eq_ok hnd).mpr (hnodes node hn), (),
      ?_, by simp [kahn_length hnd fun node hn => (hnodes node hn).waves]⟩
    rw [Bool.not_eq_false', List.isEmpty_iff, ← List.length_eq_zero_iff, (Kahn.sorted_perm _).length_eq,
      List.length_eq_zero_iff, List.filter_eq_nil_iff]
    intro id hid
    obtain ⟨node, hn, rfl⟩ := List.mem_map.mp hid
    simpa using (Worklist.mem_reach hnd (hnext hnodes hnd) hout).mpr (hneed node hn)

end DataNexus.Runtime
