/-
  DataNexus.Runtime.PlanExecutable — is what the planner returns what the coordinator runs?

  Not always. The planner keeps each dependency of a node once (`dict.fromkeys`), so a node
  that lists one twice (UNION_ALL of a node with itself) reaches the coordinator with too
  few inputs. And it validates a v1 operator before its columns are bound, the plan after:
  two concepts bound to one column make a valid operator invalid, and the model's own
  `ValidationError` leaves `plan`. `executable_iff`: these are the only two ways. A graph
  the planner does not refuse is executable exactly when every node the output needs
  lists distinct dependencies and stays a valid operator once bound.
-/

import DataNexus.Runtime.PhysicalPlan
import DataNexus.Runtime.PlanMeaning
import DataNexus.Runtime.PlanRefusal

namespace DataNexus.Runtime

open Lib

namespace CapabilityPlanner

variable {lib : ScalarParsers} {planner : CapabilityPlanner}

/-- The planner failed on its own terms, or returned a plan the coordinator accepts. -/
def Executable (lib : ScalarParsers) : Except PlannerError PhysicalPlan → Prop
  | .ok plan => validatePhysicalPlan lib plan = .ok ()
  | .error e => e.IsFailure

def logicalDependencies (nodes : List LogicalNode) (id : String) : List String :=
  (nodes.find? (·.id == id)).elim [] (·.dependencies)

/-- The output depends on the node. -/
def Needed (graph : ValidatedLogicalGraph lib) (id : String) : Prop :=
  Worklist.Reaches (logicalDependencies graph.nodes) graph.outputNodeId id

theorem Prepared.dependencies {graph : ValidatedLogicalGraph lib} {bound : List BoundNode}
    (hp : Prepared planner graph bound) {item : BoundNode} (hi : item ∈ bound) :
    logicalDependencies graph.nodes item.1.id = item.1.dependencies := by
  rw [logicalDependencies, hp.find hi]
  rfl

/-! ## The nodes of a fragment -/

theorem Chain.last_mem {done : List BoundNode} {aliasName : String} {item : BoundNode} {ids : List String}
    {operations : List OperatorSpec} (h : Chain planner done aliasName item ids operations) : item.1.id ∈ ids := by
  cases h <;> simp

/-- Each node of a chain: its operation is one of the chain's, what it depends on is in the
    chain, and the chain's end depends on it. -/
theorem Chain.member {graph : ValidatedLogicalGraph lib} {bound : List BoundNode} (hp : Prepared planner graph bound)
    {aliasName : String} {item : BoundNode} {ids : List String} {operations : List OperatorSpec}
    (h : Chain planner bound aliasName item ids operations) : ∀ id ∈ ids, ∃ member ∈ bound, member.1.id = id ∧
      (∃ operation ∈ operations, applyBindings member.1.operation member.2 = .ok operation ∧
        planner.candidatePushdown member.1 operation = true) ∧ member.1.dependencies ⊆ ids ∧
      Worklist.Reaches (logicalDependencies graph.nodes) item.1.id id := by
  induction h with
  | @opens item operation source hi ho hc hs ha hd =>
    intro id hid
    obtain rfl := List.mem_singleton.mp hid
    exact ⟨item, hi, rfl, ⟨operation, by simp, ho, (pushdown_eq_true hc).1⟩, by simp [hd], .refl⟩
  | @fuses last item ids operations operation source hchain hi ho hc hs ha hd ih =>
    have hdeps : ∀ d ∈ item.1.dependencies, d = last.1.id := fun d hm => by
      have := mem_dependencyIds.mpr ⟨d, hm, rfl⟩
      rw [hd, List.mem_singleton] at this
      exact physicalId_injective this
    intro id hid
    rcases List.mem_append.mp hid with hid | hid
    · obtain ⟨member, hm, rfl, ⟨op, hop, hb⟩, hsub, hr⟩ := ih id hid
      refine ⟨member, hm, rfl, ⟨op, List.mem_append_left _ hop, hb⟩, List.Subset.trans hsub (List.subset_append_left ..), ?_⟩
      refine .head ?_ hr
      have hne : last.1.id ∈ item.1.dependencies := by
        obtain ⟨d, hdm, he⟩ := mem_dependencyIds.mp (hd ▸ List.mem_singleton.mpr rfl :
          physicalId last.1.id ∈ dependencyIds item.1.dependencies)
        exact physicalId_injective he ▸ hdm
      rwa [hp.dependencies hi]
    · obtain rfl := List.mem_singleton.mp hid
      refine ⟨item, hi, rfl, ⟨operation, by simp, ho, hc⟩, fun d hm => ?_, .refl⟩
      exact List.mem_append_left _ (hdeps d hm ▸ hchain.last_mem)

theorem Chain.operation_mem {bound : List BoundNode} {aliasName : String} {item : BoundNode} {ids : List String}
    {operations : List OperatorSpec} (h : Chain planner bound aliasName item ids operations) :
    ∀ operation ∈ operations, ∃ member ∈ bound, member.1.id ∈ ids ∧
      applyBindings member.1.operation member.2 = .ok operation := by
  induction h with
  | opens hi ho =>
    intro op hop
    obtain rfl := List.mem_singleton.mp hop
    exact ⟨_, hi, by simp, ho⟩
  | fuses _ hi ho _ _ _ _ ih =>
    intro op hop
    rcases List.mem_append.mp hop with hop | hop
    · obtain ⟨member, hm, hid, hb⟩ := ih op hop
      exact ⟨member, hm, List.mem_append_left _ hid, hb⟩
    · obtain rfl := List.mem_singleton.mp hop
      exact ⟨_, hi, by simp, ho⟩

/-! ## The nodes of a physical node -/

section Built

variable {graph : ValidatedLogicalGraph lib} {bound : List BoundNode} {item : BoundNode} {node : PhysicalNode}

theorem Built.last_mem (h : Built planner bound item node) : item.1.id ∈ node.logicalNodeIds := by
  rcases h.shape with ⟨-, -, -, hl, -⟩ | ⟨-, -, hc⟩
  · simp [hl]
  · exact hc.last_mem

theorem Built.operation_mem (h : Built planner bound item node) :
    ∀ operation ∈ node.operations, ∃ member ∈ bound, member.1.id ∈ node.logicalNodeIds ∧
      applyBindings member.1.operation member.2 = .ok operation := by
  rcases h.shape with ⟨ho, -, -, hl, hp⟩ | ⟨hp, -, hc⟩
  · intro op hop
    obtain rfl : op = _ := by simpa [PhysicalNode.operations, hp] using hop
    exact ⟨item, h.mem, by simp [hl], ho⟩
  · intro op hop
    exact hc.operation_mem op (by simpa [PhysicalNode.operations, hp] using hop)

theorem Built.member (hp : Prepared planner graph bound) (h : Built planner bound item node) :
    ∀ id ∈ node.logicalNodeIds, ∃ member ∈ bound, member.1.id = id ∧
      (∃ operation ∈ node.operations, applyBindings member.1.operation member.2 = .ok operation) ∧
      Worklist.Reaches (logicalDependencies graph.nodes) item.1.id id := by
  rcases h.shape with ⟨ho, -, -, hl, hpay⟩ | ⟨hpay, -, hc⟩
  · intro id hid
    obtain rfl : id = item.1.id := by simpa [hl] using hid
    exact ⟨item, h.mem, rfl, ⟨_, by simp [PhysicalNode.operations, hpay], ho⟩, .refl⟩
  · intro id hid
    obtain ⟨member, hm, he, ⟨op, hop, hb, -⟩, -, hr⟩ := hc.member hp id hid
    exact ⟨member, hm, he, ⟨op, by simpa [PhysicalNode.operations, hpay] using hop, hb⟩, hr⟩

theorem Built.withWave (h : Built planner bound item node) (wave : Nat) :
    Built planner bound item { node with wave := wave } := by
  refine ⟨h.mem, h.id, h.valid, h.names, h.refs, ?_⟩
  rcases h.shape with ⟨ho, hne, hd, hl, hp⟩ | ⟨hp, hd, hc⟩
  · exact .operator ho hne hd hl hp
  · exact .fragment hp hd hc

end Built

/-! ## The planned nodes cover what the output needs -/

section Laid

variable {graph : ValidatedLogicalGraph lib} {bound : List BoundNode} {physical planned : List PhysicalNode}

theorem Laid.built_planned (hl : Laid planner bound physical graph.outputNodeId planned) {node : PhysicalNode}
    (hn : node ∈ planned) : ∃ item ∈ bound, Built planner bound item node := by
  obtain ⟨origin, ho, e⟩ := hl.planned.same node hn
  obtain ⟨item, hi, hb⟩ := mem_right_of_forall₂ hl.built ho
  exact ⟨item, hi, e ▸ hb.withWave node.wave⟩

theorem Laid.dependenciesOf_planned (hl : Laid planner bound physical graph.outputNodeId planned)
    {node : PhysicalNode} (hn : node ∈ planned) : dependenciesOf physical node.id = node.dependencies := by
  obtain ⟨origin, ho, e⟩ := hl.planned.same node hn
  have hd := dependenciesOf_eq hl.nodup ho
  rw [e]
  exact hd

theorem Laid.covers (hp : Prepared planner graph bound) (hl : Laid planner bound physical graph.outputNodeId planned)
    {id : String} (h : Needed graph id) : ∃ node ∈ planned, id ∈ node.logicalNodeIds := by
  -- The planned node a logical node ends is found by its physical id.
  have hfind : ∀ d, physicalId d ∈ planned.map (·.id) → ∃ node ∈ planned, d ∈ node.logicalNodeIds := by
    intro d hd
    obtain ⟨node, hn, hid⟩ := List.mem_map.mp hd
    obtain ⟨item, -, hb⟩ := hl.built_planned hn
    obtain rfl := physicalId_injective (hid.symm.trans hb.id)
    exact ⟨node, hn, hb.last_mem⟩
  induction h with
  | refl => exact hfind _ ((hl.planned.mem _).mpr .refl)
  | @tail k d _ hd ih =>
    obtain ⟨node, hn, hk⟩ := ih
    obtain ⟨item, hi, hb⟩ := hl.built_planned hn
    obtain ⟨member, hm, rfl, -, -⟩ := hb.member hp k hk
    rw [hp.dependencies hm] at hd
    rcases hb.shape with ⟨-, -, hdeps, hids, -⟩ | ⟨-, -, hchain⟩
    · have hsame : member.1.id = item.1.id := by simpa [hids] using hk
      have hmi : member.1.dependencies = item.1.dependencies := by
        rw [← hp.dependencies hm, hsame, hp.dependencies hi]
      refine hfind d ((hl.planned.mem _).mpr (((hl.planned.mem node.id).mp (List.mem_map.mpr ⟨node, hn, rfl⟩)).tail ?_))
      rw [hl.dependenciesOf_planned hn, hdeps]
      exact mem_dependencyIds.mpr ⟨d, hmi ▸ hd, rfl⟩
    · obtain ⟨other, ho, he, -, hsub, -⟩ := hchain.member hp member.1.id hk
      have hmo : member.1.dependencies = other.1.dependencies := by
        rw [← hp.dependencies hm, ← he, hp.dependencies ho]
      exact ⟨node, hn, hsub (hmo ▸ hd)⟩

theorem Laid.needed (hp : Prepared planner graph bound) (hl : Laid planner bound physical graph.outputNodeId planned)
    {node : PhysicalNode} (hn : node ∈ planned) {id : String} (hid : id ∈ node.logicalNodeIds) : Needed graph id := by
  have hreach : ∀ k, Worklist.Reaches (dependenciesOf physical) (physicalId graph.outputNodeId) k →
      ∀ item ∈ bound, physicalId item.1.id = k → Needed graph item.1.id := by
    intro k hk
    induction hk with
    | refl =>
      intro item _ he
      exact physicalId_injective he ▸ .refl
    | @tail k d hk hd ih =>
      intro item hi he
      have hkp := (hl.planned.mem k).mpr hk
      obtain ⟨above, ha, rfl⟩ := List.mem_map.mp hkp
      obtain ⟨parent, hparent, hb⟩ := hl.built_planned ha
      rw [hl.dependenciesOf_planned ha] at hd
      obtain ⟨j, hj, hje⟩ := mem_dependencyIds.mp (hb.shape.dependencies_subset hd)
      obtain rfl := physicalId_injective (hje.trans he.symm)
      exact (ih parent hparent hb.id.symm).tail (by rwa [hp.dependencies hparent])
  obtain ⟨item, hi, hb⟩ := hl.built_planned hn
  obtain ⟨member, -, rfl, -, hr⟩ := hb.member hp id hid
  exact (hreach node.id ((hl.planned.mem _).mp (List.mem_map.mpr ⟨node, hn, rfl⟩)) item hi hb.id.symm).trans hr

/-! ## Constructing and accepting the plan -/

/-- The operators of the needed nodes stay valid once bound. -/
def StaysValid (planner : CapabilityPlanner) (graph : ValidatedLogicalGraph lib) (node : LogicalNode) : Prop :=
  graph.version = .v1 → ∀ operation, planner.boundOperation node = some operation →
    validateOperatorV1 lib operation = .ok ()

theorem Prepared.member_of_needed (hp : Prepared planner graph bound)
    (hl : Laid planner bound physical graph.outputNodeId planned) {node : LogicalNode} (hnode : node ∈ graph.nodes)
    (h : Needed graph node.id) : ∃ item ∈ bound, item.1 = node ∧ ∃ kept ∈ planned, node.id ∈ kept.logicalNodeIds := by
  obtain ⟨item, hi, he⟩ := List.mem_map.mp (hp.ordered.perm.mem_iff.mpr hnode)
  exact ⟨item, hi, he, hl.covers hp h⟩

theorem Laid.operations_valid (hp : Prepared planner graph bound)
    (hl : Laid planner bound physical graph.outputNodeId planned) :
    (∀ node ∈ planned, graph.version = .v1 → ∀ operation ∈ node.operations,
      validateOperatorV1 lib operation = .ok ()) ↔
      ∀ node ∈ graph.nodes, Needed graph node.id → StaysValid planner graph node := by
  constructor
  · intro h node hnode hneed hv operation ho
    obtain ⟨item, hi, rfl, kept, hkept, hid⟩ := hp.member_of_needed hl hnode hneed
    obtain ⟨last, hlast, hb⟩ := hl.built_planned hkept
    obtain ⟨member, hm, he, ⟨op, hop, hbind⟩, -⟩ := hb.member hp item.1.id hid
    have hsame : member.1 = item.1 := by
      have h1 := hp.find hm
      rw [he] at h1
      exact Option.some.inj (h1.symm.trans (hp.find hi))
    have := boundOperation_eq (hp.bound member hm) hbind
    rw [hsame, ho] at this
    exact Option.some.inj this ▸ h kept hkept hv op hop
  · intro h node hn hv operation ho
    obtain ⟨item, hi, hb⟩ := hl.built_planned hn
    obtain ⟨member, hm, hid, hbind⟩ := hb.operation_mem operation ho
    exact h member.1 (hp.ordered.perm.subset (List.mem_map.mpr ⟨member, hm, rfl⟩)) (hl.needed hp hn hid) hv operation
      (boundOperation_eq (hp.bound member hm) hbind)

theorem Built.operation_kind {item : BoundNode} {node : PhysicalNode} (h : Built planner bound item node) :
    ∃ operation ∈ node.operations, node.operation = operation.kind := by
  have hv := h.valid
  simp only [PhysicalNode.validatePayload, bind_eq_ok] at hv
  obtain ⟨_, -, _, -, _, -, hv⟩ := hv
  split at hv
  · cases hv
  · rename_i last hlast
    exact ⟨last, List.mem_of_getLast? hlast, by simpa using hv⟩

/-- The constructor only refuses a v1 plan with an invalid operator. -/
theorem Laid.versionBoundary (hp : Prepared planner graph bound)
    (hl : Laid planner bound physical graph.outputNodeId planned) (id outputId : String) :
    (PhysicalPlan.versionBoundary lib ⟨graph.version, id, planned, outputId⟩ = .ok ()) ↔
      ∀ node ∈ planned, graph.version = .v1 → ∀ operation ∈ node.operations,
        validateOperatorV1 lib operation = .ok () := by
  unfold PhysicalPlan.versionBoundary
  split
  · rename_i hv
    simp only at hv
    simp only [hv, reduceCtorEq, false_implies, implies_true, iff_true, refuseIf_eq_ok]
    -- A v0 graph holds v0 specs only, and binding keeps them so.
    have hlegacy : ∀ node ∈ planned, ∀ operation ∈ node.operations,
        operation.isV1 = false ∧ operation.kind.isV0 = true := by
      intro node hn operation ho
      obtain ⟨item, hi, hb⟩ := hl.built_planned hn
      obtain ⟨member, hm, -, hbind⟩ := hb.operation_mem operation ho
      have hv1 : operation.isV1 = false := by
        rw [(applyBindings_kind hbind).2]
        exact graph.v0Boundary hv member.1 (hp.ordered.perm.subset (List.mem_map.mpr ⟨member, hm, rfl⟩))
      exact ⟨hv1, operation.legacyOperator (by simpa [OperatorSpec.isV1] using hv1)⟩
    rw [List.any_eq_false]
    intro node hn
    obtain ⟨item, hi, hb⟩ := hl.built_planned hn
    simp only [Bool.or_eq_true, not_or, Bool.not_eq_true, Bool.not_eq_false', List.any_eq_false]
    refine ⟨⟨?_, ?_⟩, fun ref href => ?_⟩
    · unfold PhysicalNode.operator
      split
      · rfl
      · rename_i operation hpay
        simpa using (hlegacy node hn operation (by simp [PhysicalNode.operations, hpay])).1
    · obtain ⟨operation, ho, hk⟩ := hb.operation_kind
      rw [hk]
      exact (hlegacy node hn operation ho).2
    · have : ref.operation ∈ node.operations.map (·.kind) := hb.refs ▸ List.mem_map.mpr ⟨ref, href, rfl⟩
      obtain ⟨operation, ho, he⟩ := List.mem_map.mp this
      rw [← he]
      simpa using (hlegacy node hn operation ho).2
  · rename_i hv
    simp only at hv
    simp [hv]

/-- What a source runs takes one input: a join or a set operator is always local. -/
theorem inputCount_of_candidate {logical : LogicalNode} {columns : List BoundColumn} {operation : OperatorSpec}
    (hb : applyBindings logical.operation columns = .ok operation)
    (hc : planner.candidatePushdown logical operation = true) : logical.operation.kind.inputCount = 1 := by
  obtain ⟨hk, -⟩ := applyBindings_kind hb
  simp only [candidatePushdown, Bool.and_eq_true, Bool.not_eq_true', Option.any_eq_true] at hc
  obtain ⟨⟨-, hv1⟩, capability, -, hs⟩ := hc
  have hv0 : logical.operation.kind.isV0 = true := hk ▸ operation.legacyOperator (by simpa [OperatorSpec.isV1] using hv1)
  have hjoin : logical.operation.kind ≠ .join := by
    simp only [supports, Bool.and_eq_true, bne_iff_ne] at hs
    exact hs.1.1.1.1.1.1
  revert hv0 hjoin
  cases logical.operation.kind <;> simp [OperatorKind.isV0, OperatorKind.inputCount, OperatorKind.isSetOperator]

theorem dependencyIds_length {dependencies : List String} :
    (dependencyIds dependencies).length = dependencies.length ↔ dependencies.Nodup := by
  refine ⟨fun h => ?_, fun h => by rw [dependencyIds_of_nodup h, List.length_map]⟩
  have hnd : ((dependencies.map physicalId).reverse).Nodup := by
    have := (List.dedup_sublist (dependencies.map physicalId).reverse).eq_of_length (by simpa [dependencyIds] using h)
    exact this ▸ List.nodup_dedup _
  exact List.Nodup.of_map _ (List.nodup_reverse.mp hnd)

/-- The nodes of a planned node list their dependencies distinctly, unless it is a local
    operator that lost one. -/
theorem Laid.inputs (hp : Prepared planner graph bound) (hl : Laid planner bound physical graph.outputNodeId planned)
    (harity : ∀ node ∈ graph.nodes, node.dependencies ≠ [] →
      node.dependencies.length = node.operation.kind.inputCount) {node : PhysicalNode} (hn : node ∈ planned) :
    (match node.payload with
      | .sourceFragment _ => node.dependencies = []
      | .operator _ => node.dependencies.length = node.operation.inputCount) ↔
      ∀ item ∈ bound, item.1.id ∈ node.logicalNodeIds → item.1.dependencies.Nodup := by
  obtain ⟨last, hlast, hb⟩ := hl.built_planned hn
  have hnode : ∀ item ∈ bound, item.1 ∈ graph.nodes := fun item hi =>
    hp.ordered.perm.subset (List.mem_map.mpr ⟨item, hi, rfl⟩)
  rcases hb.shape with @⟨operation, ho, hne, hd, hids, hpay⟩ | ⟨hpay, hd, hchain⟩
  · have hkind : node.operation.inputCount = last.1.dependencies.length := by
      obtain ⟨op, hop, hk⟩ := hb.operation_kind
      obtain rfl : op = operation := by simpa [PhysicalNode.operations, hpay] using hop
      rw [hk, (applyBindings_kind ho).1, harity last.1 (hnode last hlast) hne]
    simp only [hpay, hd, hkind, dependencyIds_length, hids, List.mem_singleton]
    refine ⟨fun h item hi he => ?_, fun h => h last hlast rfl⟩
    rw [← hp.dependencies hi, he, hp.dependencies hlast]
    exact h
  · simp only [hpay, hd, true_iff]
    intro item hi hid
    obtain ⟨member, hm, he, ⟨op, -, hbind, hc⟩, -, -⟩ := hchain.member hp item.1.id hid
    rw [← hp.dependencies hi, ← he, hp.dependencies hm]
    by_cases hnil : member.1.dependencies = []
    · simp [hnil]
    · have := harity member.1 (hnode member hm) hnil
      rw [inputCount_of_candidate hbind hc] at this
      obtain ⟨d, hd⟩ := List.length_eq_one_iff.mp this
      simp [hd]

theorem Laid.reaches_planned (hl : Laid planner bound physical graph.outputNodeId planned) {id : String}
    (h : Worklist.Reaches (dependenciesOf physical) (physicalId graph.outputNodeId) id) :
    Worklist.Reaches (dependenciesOf planned) (physicalId graph.outputNodeId) id := by
  induction h with
  | refl => exact .refl
  | @tail k d hk hd ih =>
    refine ih.tail ?_
    obtain ⟨node, hn, rfl⟩ := List.mem_map.mp ((hl.planned.mem k).mpr hk)
    rwa [dependenciesOf_eq hl.planned.nodup hn, ← hl.dependenciesOf_planned hn]

/-- A constructed plan is accepted when no needed node lost a dependency. -/
theorem Laid.accepted (hp : Prepared planner graph bound)
    (hl : Laid planner bound physical graph.outputNodeId planned)
    (harity : ∀ node ∈ graph.nodes, node.dependencies ≠ [] →
      node.dependencies.length = node.operation.kind.inputCount) (id : String)
    (hv : PhysicalPlan.versionBoundary lib ⟨graph.version, id, planned, physicalId graph.outputNodeId⟩ = .ok ()) :
    Accepted lib ⟨graph.version, id, planned, physicalId graph.outputNodeId⟩ ↔
      ∀ node ∈ graph.nodes, Needed graph node.id → node.dependencies.Nodup := by
  constructor
  · intro h node hnode hneed
    obtain ⟨item, hi, rfl, kept, hkept, hid⟩ := hp.member_of_needed hl hnode hneed
    exact (hl.inputs hp harity hkept).mp (h.nodes kept hkept).inputs item hi hid
  · intro h
    have hin : ∀ node ∈ planned, node.id ∈ planned.map (·.id) := fun node hn => List.mem_map.mpr ⟨node, hn, rfl⟩
    refine ⟨hl.planned.nodup, (hl.planned.mem _).mpr .refl, fun node hn => ⟨?_, ?_, ?_, hl.planned.waves node hn⟩,
      fun node hn => hl.reaches_planned ((hl.planned.mem _).mp (hin node hn))⟩
    · rintro (hv1 | hv1)
      · exact (hl.versionBoundary hp id _).mp hv node hn hv1
      · -- A v1 operator in a v0 plan would not have been constructed.
        cases hver : graph.version with
        | v1 => exact (hl.versionBoundary hp id _).mp hv node hn hver
        | v0 =>
          simp only [PhysicalPlan.versionBoundary, hver, refuseIf_eq_ok, List.any_eq_false] at hv
          have := hv node hn
          simp [hv1] at this
    · obtain ⟨item, hi, hb⟩ := hl.built_planned hn
      obtain ⟨operation, ho, hk⟩ := hb.operation_kind
      obtain ⟨member, hm, -, hbind⟩ := hb.operation_mem operation ho
      have hcheck := hp.checked member hm
      rw [hk, (applyBindings_kind hbind).1]
      exact checkNode_supported hcheck
    · refine (hl.inputs hp harity hn).mpr fun item hi hid => ?_
      exact h item.1 (hp.ordered.perm.subset (List.mem_map.mpr ⟨item, hi, rfl⟩)) (hl.needed hp hn hid)

end Laid

/-- A graph whose nodes list as many dependencies as their kinds need: planning it ends in
    a failure of the planner's own or in a plan the coordinator accepts, exactly when it is
    refused or every needed node lists distinct dependencies and stays valid once bound. -/
theorem executable_iff (planner : CapabilityPlanner) (graph : ValidatedLogicalGraph lib)
    (harity : ∀ node ∈ graph.nodes, node.dependencies ≠ [] →
      node.dependencies.length = node.operation.kind.inputCount) :
    Executable lib (planner.plan lib graph) ↔ Refused planner graph ∨
      ∀ node ∈ graph.nodes, Needed graph node.id → node.dependencies.Nodup ∧ StaysValid planner graph node := by
  cases hb : planner.prepare lib graph with
  | error e =>
    obtain ⟨hf, hr⟩ := prepare_refused hb
    have hplan : planner.plan lib graph = .error e := by simp [plan, hb]
    rw [hplan]
    exact ⟨fun _ => .inl hr, fun _ => hf⟩
  | ok bound =>
    have hp := prepare_spec hb
    cases hlay : planner.layout graph.outputNodeId bound with
    | error e =>
      obtain ⟨hf, hr⟩ := layout_refused hp hlay
      have hplan : planner.plan lib graph = .error e := by simp [plan, hb, hlay]
      rw [hplan]
      exact ⟨fun _ => .inl hr, fun _ => hf⟩
    | ok out =>
      obtain ⟨planned, outputId⟩ := out
      obtain ⟨rfl, physical, hl⟩ := layout_spec hp hlay
      have hplan : planner.plan lib graph =
          constructed (PhysicalPlan.versionBoundary lib
            ⟨graph.version, physicalId graph.id, planned, physicalId graph.outputNodeId⟩)
            ⟨graph.version, physicalId graph.id, planned, physicalId graph.outputNodeId⟩ := by
        rw [plan, hb]
        change (planner.layout graph.outputNodeId bound >>= _) = _
        rw [hlay]
        rfl
      rw [hplan]
      simp only [not_refused_of_layout hb hl, false_or, forall_and]
      rw [← hl.operations_valid hp, ← hl.versionBoundary hp (physicalId graph.id) (physicalId graph.outputNodeId)]
      cases hv : PhysicalPlan.versionBoundary lib
          ⟨graph.version, physicalId graph.id, planned, physicalId graph.outputNodeId⟩ with
      | error message => simp [constructed, Executable, PlannerError.IsFailure]
      | ok u =>
        simp only [constructed, Executable, validatePhysicalPlan_eq_ok, and_true]
        exact hl.accepted hp harity (physicalId graph.id) hv

theorem sharedPrefix_executable :
    Executable noParsers (salesPlanner.plan noParsers (sharedPrefixGraph noParsers)) := by
  refine (executable_iff salesPlanner (sharedPrefixGraph noParsers) (by decide)).mpr (.inr fun node hn _ => ⟨?_, nofun⟩)
  have hnodup : ∀ node ∈ (sharedPrefixGraph noParsers).nodes, node.dependencies.Nodup := by decide
  exact hnodup node hn

/-! ## A union of a node with itself -/

def selfUnionGraph : ValidatedLogicalGraph noParsers where
  version := .v1
  id := "twice"
  nodes := [
    { id := "read", operation := { bareSelect with columns := ["amount"] }, sourceAlias := some "sales" },
    { id := "twice", operation := { kind := .unionAll, v1 := some {}, legacyOperator := nofun },
      dependencies := ["read", "read"] }]
  outputNodeId := "twice"
  v0Boundary := nofun
  v1Boundary := fun _ => by decide

/-- The planner returns a plan in which the union has one input; the coordinator asks for two. -/
theorem selfUnion_not_executable :
    (∀ node ∈ selfUnionGraph.nodes, node.dependencies ≠ [] →
      node.dependencies.length = node.operation.kind.inputCount) ∧
      ¬ Executable noParsers (salesPlanner.plan noParsers selfUnionGraph) := by
  refine ⟨by decide, ?_⟩
  intro h
  have : (match salesPlanner.plan noParsers selfUnionGraph with
    | .ok plan => validatePhysicalPlan noParsers plan
    | .error _ => .ok ()) = .error (planFailure "PLAN_OPERATOR_INPUT_COUNT"
      "Operator node 'physical-twice' requires 2 input(s)" [("node_id", .text "physical-twice"),
        ("operation", .text "UNION_ALL"), ("required_inputs", .count 2), ("actual_inputs", .count 1)]) := rfl
  revert h this
  cases salesPlanner.plan noParsers selfUnionGraph with
  | ok plan =>
    intro h hv
    cases h.symm.trans hv
  | error _ =>
    intro _ hv
    cases hv

end CapabilityPlanner

end DataNexus.Runtime
