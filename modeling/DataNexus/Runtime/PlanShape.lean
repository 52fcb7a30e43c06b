/-
  DataNexus.Runtime.PlanShape — the physical node of each logical node.

  A fragment is a chain of logical nodes on one source: the first has no dependency and
  each next one depends on the one before it alone (`Chain`). Fusing copies the chain, so
  a prefix may be part of several fragments. Every physical node is such a fragment or
  one local operator over its dependencies (`Built`), and the planning loop builds one
  per logical node (`built_of_foldlM`). The planned nodes are the ones the output reaches
  (`planned_spec`).
-/

import DataNexus.Runtime.PlannerSpec

namespace DataNexus.Runtime

open Lib

namespace CapabilityPlanner

/-- A logical node with the columns its concepts are bound to. -/
abbrev BoundNode := LogicalNode × List BoundColumn

/-- The operations of a fragment on the source `aliasName` that ends in a node. -/
inductive Chain (planner : CapabilityPlanner) (done : List BoundNode) (aliasName : String) :
    BoundNode → List String → List OperatorSpec → Prop
  | opens {item : BoundNode} {operation : OperatorSpec} {source : BoundSource} : item ∈ done →
      applyBindings item.1.operation item.2 = .ok operation → planner.pushdown item.1 operation [] none = true →
      planner.source item.1 = some source → source.aliasName = aliasName → item.1.dependencies = [] →
      Chain planner done aliasName item [item.1.id] [operation]
  | fuses {last item : BoundNode} {ids : List String} {operations : List OperatorSpec} {operation : OperatorSpec}
      {source : BoundSource} : Chain planner done aliasName last ids operations → item ∈ done →
      applyBindings item.1.operation item.2 = .ok operation → planner.candidatePushdown item.1 operation = true →
      planner.source item.1 = some source → source.aliasName = aliasName →
      dependencyIds item.1.dependencies = [physicalId last.1.id] →
      Chain planner done aliasName item (ids ++ [item.1.id]) (operations ++ [operation])

theorem Chain.mono {planner : CapabilityPlanner} {done more : List BoundNode} (hsub : done ⊆ more) {aliasName : String}
    {item : BoundNode} {ids : List String} {operations : List OperatorSpec}
    (h : Chain planner done aliasName item ids operations) : Chain planner more aliasName item ids operations := by
  induction h with
  | opens hi ho hc hs ha hd => exact .opens (hsub hi) ho hc hs ha hd
  | fuses _ hi ho hc hs ha hd ih => exact .fuses ih (hsub hi) ho hc hs ha hd

theorem Chain.bound {planner : CapabilityPlanner} {done : List BoundNode} {aliasName : String} {item : BoundNode}
    {ids : List String} {operations : List OperatorSpec} (h : Chain planner done aliasName item ids operations) :
    ∃ operation, applyBindings item.1.operation item.2 = .ok operation := by
  cases h with
  | opens _ ho => exact ⟨_, ho⟩
  | fuses _ _ ho => exact ⟨_, ho⟩

theorem Chain.root {planner : CapabilityPlanner} {done : List BoundNode} {aliasName : String} {item : BoundNode}
    {ids : List String} {operations : List OperatorSpec} (h : Chain planner done aliasName item ids operations)
    (hnil : item.1.dependencies = []) :
    ∃ operation source, applyBindings item.1.operation item.2 = .ok operation ∧
      planner.pushdown item.1 operation [] none = true ∧ planner.source item.1 = some source := by
  cases h with
  | opens _ ho hp hs => exact ⟨_, _, ho, hp, hs⟩
  | fuses _ _ _ _ _ _ hd =>
    rw [hnil] at hd
    cases hd

/-- A local operator over the node's dependencies, or a fragment that ends in the node. -/
inductive Shape (planner : CapabilityPlanner) (done : List BoundNode) (item : BoundNode) (node : PhysicalNode) : Prop
  | operator {operation : OperatorSpec} : applyBindings item.1.operation item.2 = .ok operation →
      item.1.dependencies ≠ [] → node.dependencies = dependencyIds item.1.dependencies →
      node.logicalNodeIds = [item.1.id] → node.payload = .operator operation → Shape planner done item node
  | fragment {fragment : SourceFragment} : node.payload = .sourceFragment fragment → node.dependencies = [] →
      Chain planner done fragment.source.aliasName item node.logicalNodeIds fragment.operations →
      Shape planner done item node

structure Built (planner : CapabilityPlanner) (done : List BoundNode) (item : BoundNode) (node : PhysicalNode) :
    Prop where
  mem : item ∈ done
  id : node.id = physicalId item.1.id
  valid : node.validatePayload = .ok ()
  names : node.logicalOperations.map (·.logicalNodeId) = node.logicalNodeIds
  refs : node.logicalOperations.map (·.operation) = node.operations.map (·.kind)
  shape : Shape planner done item node

theorem Built.mono {planner : CapabilityPlanner} {done more : List BoundNode} (hsub : done ⊆ more) {item : BoundNode}
    {node : PhysicalNode} (h : Built planner done item node) : Built planner more item node := by
  refine ⟨hsub h.mem, h.id, h.valid, h.names, h.refs, ?_⟩
  rcases h.shape with ⟨ho, hne, hd, hl, hp⟩ | ⟨hp, hd, hc⟩
  · exact .operator ho hne hd hl hp
  · exact .fragment hp hd (hc.mono hsub)

variable {lib : ScalarParsers} {planner : CapabilityPlanner}

theorem physicalNode_valid {st : PlanState} {logical : LogicalNode} {bound : List BoundColumn} {node : PhysicalNode}
    (h : planner.physicalNode st logical bound = .ok node) : node.validatePayload = .ok () := by
  simp only [physicalNode, bind_eq_ok] at h
  obtain ⟨operation, -, ids, -, h⟩ := h
  split at h
  · split at h
    · cases h
    · obtain ⟨hv, rfl⟩ := constructed_eq_ok.mp h
      exact hv
  · simp only [bind_eq_ok, constructed_eq_ok] at h
    obtain ⟨_, -, hv, rfl⟩ := h
    exact hv

theorem pushdown_eq_true {logical : LogicalNode} {operation : OperatorSpec} {ids : List String}
    {fused : Option (PhysicalNode × SourceFragment)} (h : planner.pushdown logical operation ids fused = true) :
    planner.candidatePushdown logical operation = true ∧ (ids = [] ∨ fused.isSome = true) := by
  simp only [pushdown, Bool.and_eq_true, Bool.or_eq_true, List.isEmpty_iff] at h
  exact h.1

theorem sourceFragment_eq_some {node : PhysicalNode} {fragment : SourceFragment} :
    node.sourceFragment = some fragment ↔ node.payload = .sourceFragment fragment := by
  unfold PhysicalNode.sourceFragment
  split <;> simp_all

theorem mem_right_of_forall₂ {α β : Type} {R : α → β → Prop} {xs : List α} {ys : List β} (h : List.Forall₂ R xs ys)
    {y : β} (hy : y ∈ ys) : ∃ x ∈ xs, R x y := by
  induction h with
  | nil => cases hy
  | cons hx _ ih =>
    rcases List.mem_cons.mp hy with rfl | hy
    · exact ⟨_, List.mem_cons_self .., hx⟩
    · obtain ⟨x, hm, hr⟩ := ih hy
      exact ⟨x, List.mem_cons_of_mem _ hm, hr⟩

theorem mem_left_of_forall₂ {α β : Type} {R : α → β → Prop} {xs : List α} {ys : List β} (h : List.Forall₂ R xs ys)
    {x : α} (hx : x ∈ xs) : ∃ y ∈ ys, R x y := by
  obtain ⟨y, hy, hr⟩ := mem_right_of_forall₂ (R := fun y x => R x y) h.flip hx
  exact ⟨y, hy, hr⟩

/-- One iteration builds the node's physical node. -/
theorem built_of_physicalNode {done : List BoundNode} {st : PlanState} {item : BoundNode} {node : PhysicalNode}
    (hm : Mapped done st) (hb : List.Forall₂ (Built planner done) done st.physical)
    (hd : item.1.dependencies ⊆ done.map (·.1.id)) (h : planner.physicalNode st item.1 item.2 = .ok node) :
    Built planner (done ++ [item]) item node := by
  have hitem : item ∈ done ++ [item] := by simp
  obtain ⟨operation, ids, ho, hi, hcase⟩ := physicalNode_cases h
  obtain rfl := Except.ok.inj ((mappedDependencies_of_mapped hm hd).symm.trans hi)
  have hvalid := physicalNode_valid h
  rcases hcase with ⟨source, hs, hp, rfl⟩ | ⟨hne, -, rfl⟩
  · obtain ⟨hc, hroot⟩ := pushdown_eq_true hp
    cases hf : planner.fusible st.physical item.1 (dependencyIds item.1.dependencies) with
    | none =>
      have hnil : item.1.dependencies = [] := by simpa [hf, dependencyIds_eq_nil] using hroot
      rw [hf] at hvalid hp
      rw [hnil] at hp
      exact ⟨hitem, rfl, hvalid, rfl, rfl,
        .fragment rfl (by simp [fragmentNode, hnil, dependencyIds]) (.opens hitem ho hp hs rfl hnil)⟩
    | some pair =>
      obtain ⟨below, fragment⟩ := pair
      obtain ⟨dependency, source', hids, hfind, hfrag, hs', ha⟩ := fusible_eq_some.mp hf
      obtain rfl := Option.some.inj (hs'.symm.trans hs)
      obtain ⟨hbelow, hid⟩ := key_of_find? (fun n : PhysicalNode => n.id) hfind
      obtain ⟨last, -, hlast⟩ := mem_right_of_forall₂ hb hbelow
      rw [hf] at hvalid
      have hpay := sourceFragment_eq_some.mp hfrag
      rcases hlast.shape with ⟨-, -, -, -, hpay'⟩ | ⟨hpay', hnil, hchain⟩
      · cases hpay'.symm.trans hpay
      · obtain rfl := NodePayload.sourceFragment.inj (hpay'.symm.trans hpay)
        refine ⟨hitem, rfl, hvalid, by simp [fragmentNode, hlast.names], ?_, .fragment rfl hnil ?_⟩
        · have := hlast.refs
          simp only [PhysicalNode.operations, hpay] at this
          simp [fragmentNode, PhysicalNode.operations, this]
        · exact .fuses (ha ▸ hchain.mono (List.subset_append_left ..)) hitem ho hc hs rfl
            (by rw [hids, ← hlast.id, hid])
  · exact ⟨hitem, rfl, hvalid, rfl, rfl, .operator ho (fun e => hne (by simp [e, dependencyIds])) rfl rfl rfl⟩

theorem built_of_foldlM {bound : List BoundNode} {st : PlanState}
    (hclosed : ∀ pre item post, bound = pre ++ item :: post → item.1.dependencies ⊆ pre.map (·.1.id))
    (h : bound.foldlM planner.planNode ⟨[], []⟩ = .ok st) :
    Mapped bound st ∧ List.Forall₂ (Built planner bound) bound st.physical := by
  refine foldlM_invariant h (P := fun done st => Mapped done st ∧ List.Forall₂ (Built planner done) done st.physical)
    ⟨⟨rfl, rfl⟩, .nil⟩ ?_
  rintro done item rest st st' hsplit ⟨hm, hb⟩ hstep
  refine ⟨planNode_mapped hm hstep, ?_⟩
  obtain ⟨node, hn, rfl⟩ := planNode_eq_ok hstep
  exact List.rel_append (hb.imp fun _ _ hx => hx.mono (List.subset_append_left ..))
    (.cons (built_of_physicalNode hm hb (hclosed _ _ _ hsplit) hn) .nil)

/-! ## The laid out plan -/

/-- The planned nodes with the physical nodes they come from. -/
structure Laid (planner : CapabilityPlanner) (bound : List BoundNode) (physical : List PhysicalNode)
    (outputNodeId : String) (planned : List PhysicalNode) : Prop where
  built : List.Forall₂ (Built planner bound) bound physical
  nodup : (physical.map (·.id)).Nodup
  output : outputNodeId ∈ bound.map (·.1.id)
  planned : Planned physical (physicalId outputNodeId) planned

theorem Prepared.closed {graph : ValidatedLogicalGraph lib} {bound : List BoundNode}
    (hp : Prepared planner graph bound) (pre : List BoundNode) (item : BoundNode) (post : List BoundNode)
    (e : bound = pre ++ item :: post) : item.1.dependencies ⊆ pre.map (·.1.id) := by
  have := hp.ordered.closed (pre.map (·.1)) item.1 (post.map (·.1)) (by simp [e])
  simpa [Function.comp_def] using this

theorem Prepared.nodup {graph : ValidatedLogicalGraph lib} {bound : List BoundNode}
    (hp : Prepared planner graph bound) : (bound.map (·.1.id)).Nodup := by
  have := (hp.ordered.perm.map (·.id)).nodup_iff.mpr hp.ordered.nodup
  simpa [Function.comp_def] using this

theorem Prepared.dependency_mem {graph : ValidatedLogicalGraph lib} {bound : List BoundNode}
    (hp : Prepared planner graph bound) {item : BoundNode} (hi : item ∈ bound) {d : String}
    (hd : d ∈ item.1.dependencies) : d ∈ bound.map (·.1.id) := by
  obtain ⟨pre, post, e⟩ := List.append_of_mem hi
  rw [e, List.map_append]
  exact List.mem_append_left _ (hp.closed pre item post e hd)

theorem Shape.dependencies_subset {done : List BoundNode} {item : BoundNode} {node : PhysicalNode}
    (h : Shape planner done item node) : node.dependencies ⊆ dependencyIds item.1.dependencies := by
  rcases h with ⟨-, -, hd, -, -⟩ | ⟨-, hd, -⟩
  · exact hd ▸ fun _ h => h
  · simp [hd]

theorem closed_of_built {graph : ValidatedLogicalGraph lib} {bound : List BoundNode} {st : PlanState}
    (hp : Prepared planner graph bound) (hm : Mapped bound st)
    (hb : List.Forall₂ (Built planner bound) bound st.physical) : Closed st.physical := by
  intro node hn d hd
  obtain ⟨item, hi, hbuilt⟩ := mem_right_of_forall₂ hb hn
  obtain ⟨k, hk, rfl⟩ := mem_dependencyIds.mp (hbuilt.shape.dependencies_subset hd)
  rw [hm.ids]
  exact List.mem_map.mpr ⟨k, hp.dependency_mem hi hk, rfl⟩

theorem layout_spec {graph : ValidatedLogicalGraph lib} {bound : List BoundNode} {planned : List PhysicalNode}
    {outputId : String} (hp : Prepared planner graph bound)
    (h : planner.layout graph.outputNodeId bound = .ok (planned, outputId)) :
    outputId = physicalId graph.outputNodeId ∧ ∃ physical, Laid planner bound physical graph.outputNodeId planned := by
  obtain ⟨st, hst, hout, hw⟩ := layout_eq_ok h
  obtain ⟨hm, hb⟩ := built_of_foldlM hp.closed hst
  have hnd : (st.physical.map (·.id)).Nodup := hm.ids ▸ hp.nodup.map physicalId_injective
  rw [hm.mapping, lookup_map_pair] at hout
  split at hout
  · rename_i hmem
    obtain rfl := Option.some.inj hout
    refine ⟨rfl, st.physical, hb, hnd, hmem, planned_of_assignWaves hnd (closed_of_built hp hm hb) ?_ hw⟩
    exact hm.ids ▸ List.mem_map.mpr ⟨_, hmem, rfl⟩
  · cases hout

end CapabilityPlanner

end DataNexus.Runtime
