/-
  DataNexus.Runtime.PlanAcceptance — exactly which plans the coordinator accepts
  (`validate_physical_plan`, its two graph walks with their dictionaries).

  `Acceptable` is what a plan has to be, clause by clause. `traverse` is the walk from the output
  with a `by_id` that may miss, `validateRaw` the whole function with it and with both loops
  still to end: with enough rounds it returns what `validatePhysicalPlan` returns, so no key is
  ever missing and the loops end (`validateRaw_eq`). Dependencies have smaller waves, so there is
  no cycle to find.
-/

import DataNexus.Runtime.PhysicalPlan

namespace DataNexus.Runtime

open Lib

variable {lib : ScalarParsers} {plan : PhysicalPlan}

/-! ## Acceptable plans -/

structure Acceptable (lib : ScalarParsers) (plan : PhysicalPlan) : Prop where
  ids : (plan.nodes.map (·.id)).Nodup
  output : ∃ node ∈ plan.nodes, node.id = plan.outputNodeId
  supported : ∀ node ∈ plan.nodes, ∀ operation ∈ node.operations, operation.kind.isBlocked = false
  operators : plan.version = .v1 → ∀ node ∈ plan.nodes, ∀ operation ∈ node.operations, validateOperatorV1 lib operation = .ok ()
  sources : ∀ node ∈ plan.nodes, node.isSourceFragment = true → node.dependencies = []
  inputs : ∀ node ∈ plan.nodes, ∀ operator, node.operator = some operator →
    node.dependencies.length = operator.kind.inputCount
  waves : ∀ node ∈ plan.nodes, ∀ d ∈ node.dependencies, ∃ below ∈ plan.nodes, below.id = d ∧ below.wave < node.wave
  reachable : ∀ node ∈ plan.nodes, Worklist.Reaches (dependenciesOf plan.nodes) plan.outputNodeId node.id

/-- A v0 kind is not blocked. -/
theorem isBlocked_of_isV0 {kind : OperatorKind} (h : kind.isV0 = true) : kind.isBlocked = false := by
  cases kind <;> first | rfl | cases h

theorem operations_of_operator {node : PhysicalNode} {operator : OperatorSpec} (h : node.operator = some operator) :
    node.operations = [operator] ∧ node.isSourceFragment = false ∧ node.payload = .operator operator := by
  unfold PhysicalNode.operator at h
  split at h
  · cases h
  · rename_i op hpayload
    obtain rfl := Option.some.inj h
    simp only [PhysicalNode.operations, PhysicalNode.isSourceFragment, hpayload, and_self]

/-- What the constructors have checked of a node: the operations of a fragment are v0's, and the
    node is called after its last operation. -/
theorem validatePayload_ok {node : PhysicalNode} (h : node.validatePayload = .ok ()) :
    (∀ fragment, node.payload = .sourceFragment fragment → ∀ operation ∈ fragment.operations, operation.isV1 = false) ∧
    ∃ last, node.operations.getLast? = some last ∧ node.operation = last.kind := by
  simp only [PhysicalNode.validatePayload, bind_eq_ok, refuseIf_eq_ok] at h
  obtain ⟨_, hfragment, _, -, _, -, h⟩ := h
  constructor
  · intro fragment hpayload operation hmem
    simp only [PhysicalNode.sourceFragment, hpayload, Option.any_some, List.any_eq_false] at hfragment
    simpa using hfragment operation hmem
  · split at h
    · cases h
    · rename_i last hlast
      exact ⟨last, hlast, by simpa using h⟩

theorem supported_iff {node : PhysicalNode} (h : node.validatePayload = .ok ()) :
    node.operation.isBlocked = false ↔ ∀ operation ∈ node.operations, operation.kind.isBlocked = false := by
  obtain ⟨hfragment, last, hlast, hkind⟩ := validatePayload_ok h
  constructor
  · intro hnode operation hmem
    cases hpayload : node.payload with
    | sourceFragment fragment =>
      have hoperation : operation ∈ fragment.operations := by simpa [PhysicalNode.operations, hpayload] using hmem
      have hv0 := hfragment fragment hpayload operation hoperation
      refine isBlocked_of_isV0 (operation.legacyOperator ?_)
      simpa [OperatorSpec.isV1] using hv0
    | operator operator =>
      simp only [PhysicalNode.operations, hpayload, List.mem_singleton] at hmem
      simp only [PhysicalNode.operations, hpayload, List.getLast?_singleton, Option.some.injEq] at hlast
      rw [hmem, hlast, ← hkind]
      exact hnode
  · intro hall
    rw [hkind]
    exact hall last (List.mem_of_getLast? hlast)

/-- The version boundary of a v0 plan. -/
theorem operator_of_v0 (h : plan.versionBoundary lib = .ok ()) (hv0 : plan.version = .v0) {node : PhysicalNode}
    (hnode : node ∈ plan.nodes) : node.operator.any (·.isV1) = false := by
  simp only [PhysicalPlan.versionBoundary, hv0, refuseIf_eq_ok, List.any_eq_false] at h
  have hthis := h node hnode
  simp only [Bool.or_eq_true, not_or, Bool.not_eq_true] at hthis
  exact hthis.1.1

theorem acceptable_iff (hpayload : ∀ node ∈ plan.nodes, node.validatePayload = .ok ())
    (hversion : plan.versionBoundary lib = .ok ()) : Accepted lib plan ↔ Acceptable lib plan := by
  constructor
  · intro h
    refine ⟨h.nodup, ?_, ?_, ?_, ?_, ?_, fun node hnode => (h.nodes node hnode).waves, h.needed⟩
    · obtain ⟨node, hnode, hid⟩ := List.mem_map.mp h.output
      exact ⟨node, hnode, hid⟩
    · intro node hnode
      exact (supported_iff (hpayload node hnode)).mp (h.nodes node hnode).supported
    · intro hv1 node hnode
      exact (h.nodes node hnode).operations (.inl hv1)
    · intro node hnode hsource
      have hinputs := (h.nodes node hnode).inputs
      unfold PhysicalNode.isSourceFragment at hsource
      split at hsource
      · rename_i fragment he
        rw [he] at hinputs
        exact hinputs
      · cases hsource
    · intro node hnode operator hoperator
      obtain ⟨hoperations, -, he⟩ := operations_of_operator hoperator
      have hinputs := (h.nodes node hnode).inputs
      rw [he] at hinputs
      obtain ⟨-, last, hlast, hkind⟩ := validatePayload_ok (hpayload node hnode)
      rw [hoperations, List.getLast?_singleton] at hlast
      rw [Option.some.inj hlast, ← hkind]
      exact hinputs
  · intro h
    refine ⟨h.ids, ?_, fun node hnode => ⟨?_, ?_, ?_, h.waves node hnode⟩, h.reachable⟩
    · obtain ⟨node, hnode, hid⟩ := h.output
      exact List.mem_map.mpr ⟨node, hnode, hid⟩
    · intro hv1
      rcases hv1 with hv1 | hv1
      · exact h.operators hv1 node hnode
      · cases hv : plan.version with
        | v0 =>
          rw [operator_of_v0 hversion hv hnode] at hv1
          cases hv1
        | v1 => exact h.operators hv node hnode
    · exact (supported_iff (hpayload node hnode)).mpr (h.supported node hnode)
    · split
      · rename_i fragment he
        refine h.sources node hnode ?_
        simp only [PhysicalNode.isSourceFragment, he]
      · rename_i operator he
        have hoperator : node.operator = some operator := by simp only [PhysicalNode.operator, he]
        rw [h.inputs node hnode operator hoperator]
        obtain ⟨-, last, hlast, hkind⟩ := validatePayload_ok (hpayload node hnode)
        rw [(operations_of_operator hoperator).1, List.getLast?_singleton] at hlast
        rw [hkind, Option.some.inj hlast]

/-! ## No cycle -/

/-- Dependencies of smaller waves leave no cycle. -/
theorem acyclic_of_waves {nodes : List PhysicalNode}
    (h : ∀ node ∈ nodes, ∀ d ∈ node.dependencies, validateDependency nodes node d = .ok ()) (id : String) :
    ¬ Relation.TransGen (fun a b => b ∈ dependenciesOf nodes a) id id := by
  let rank (id : String) : Nat := (findNode nodes id).elim 0 (·.wave)
  have hstep : ∀ a b, b ∈ dependenciesOf nodes a → rank b < rank a := by
    intro a b hb
    unfold dependenciesOf at hb
    cases hnode : findNode nodes a with
    | none => simp [hnode] at hb
    | some node =>
      simp only [hnode, Option.elim_some] at hb
      have hdependency := h node (List.mem_of_find?_eq_some hnode) b hb
      unfold validateDependency at hdependency
      cases hbelow : findNode nodes b with
      | none => simp [hbelow] at hdependency
      | some below =>
        simp only [hbelow, refuseIf_eq_ok, decide_eq_false_iff_not, not_le] at hdependency
        simpa [rank, hnode, hbelow] using hdependency
  have hdescends : ∀ a b, Relation.TransGen (fun a b => b ∈ dependenciesOf nodes a) a b → rank b < rank a := by
    intro a b hpath
    induction hpath with
    | single hb => exact hstep _ _ hb
    | tail _ hb ih => exact (hstep _ _ hb).trans ih
  intro hcycle
  exact absurd (hdescends id id hcycle) (lt_irrefl _)

/-! ## The walks with their dictionaries -/

/-- The first part of `validate_physical_plan`, up to the walk from the output. -/
def validateNodes (lib : ScalarParsers) (plan : PhysicalPlan) : Except PlannerError Unit := do
  let ids := plan.nodes.map (·.id)
  refuseIf (ids.dedup.length != ids.length)
    (planFailure "PLAN_DUPLICATE_NODE" "Physical plan contains duplicate IDs")
  refuseIf (!ids.contains plan.outputNodeId)
    (planFailure "PLAN_OUTPUT_MISSING" "Physical plan output node does not exist")
  forM plan.nodes (validatePlanNode lib plan)

/-- `while pending:`, with the key of a `KeyError`; nothing when the rounds are used up. -/
def traverse (byId : String → Option PhysicalNode) : Nat → List String → List String → Option (Except String (List String))
  | _, [], seen => some (.ok seen)
  | 0, _ :: _, _ => none
  | fuel + 1, id :: pending, seen =>
    if id ∈ seen then traverse byId fuel pending seen
    else
      match byId id with
      | none => some (.error id)
      | some node => traverse byId fuel (node.dependencies.reverse ++ pending) (id :: seen)

inductive Raised where
  | failure (error : PlannerError)
  | keyError (key : String)

/-- `validate_physical_plan`, each loop with this many rounds. -/
def validateRaw (lib : ScalarParsers) (plan : PhysicalPlan) (fuel : Nat) : Option (Except Raised Unit) :=
  match validateNodes lib plan with
  | .error error => some (.error (.failure error))
  | .ok () =>
    match traverse (findNode plan.nodes) fuel [plan.outputNodeId] [] with
    | none => none
    | some (.error key) => some (.error (.keyError key))
    | some (.ok reached) =>
      let unreachable := Kahn.sorted ((plan.nodes.map (·.id)).filter (· ∉ reached))
      if !unreachable.isEmpty then
        some (.error (.failure (planFailure "PLAN_UNREACHABLE_NODE"
          "Physical plan contains nodes outside the output dependency closure" [("nodes", .names unreachable)])))
      else
        let graph := plan.nodes.map fun node => (node.id, node.dependencies)
        let visited := Kahn.loop graph fuel (Kahn.init graph)
        if visited.ready ≠ [] then none
        else if visited.order.length != plan.nodes.length then
          some (.error (.failure (planFailure "PLAN_CYCLE" "Physical plan contains a dependency cycle")))
        else some (.ok ())

/-- With every key there, the walk is the one of the library, and ends. -/
theorem traverse_eq {nodes : List PhysicalNode} {all : List String} (hall : all.Nodup)
    (hnext : ∀ k ∈ all, ∀ d ∈ dependenciesOf nodes k, d ∈ all) (hfound : ∀ k ∈ all, (findNode nodes k).isSome = true)
    {fuel : Nat} (pending seen : List String) (hp : ∀ k ∈ pending, k ∈ all)
    (hf : Worklist.cost (dependenciesOf nodes) all pending seen ≤ fuel) :
    traverse (findNode nodes) fuel pending seen = some (.ok (Worklist.walk (dependenciesOf nodes) fuel pending seen)) := by
  induction fuel generalizing pending seen with
  | zero =>
    have hnil : pending = [] := List.eq_nil_of_length_eq_zero (by simp only [Worklist.cost] at hf; omega)
    subst hnil
    rfl
  | succ fuel ih =>
    cases pending with
    | nil => rfl
    | cons id pending =>
      rw [traverse, Worklist.walk]
      by_cases hseen : id ∈ seen
      · rw [if_pos hseen, if_pos hseen]
        refine ih pending seen (fun k hk => hp k (by simp [hk])) ?_
        simp only [Worklist.cost, List.length_cons] at hf ⊢
        omega
      · have hid := hp id (by simp)
        rw [if_neg hseen, if_neg hseen]
        obtain ⟨node, hnode⟩ := Option.isSome_iff_exists.mp (hfound id hid)
        have hdependencies : dependenciesOf nodes id = node.dependencies := by simp [dependenciesOf, hnode]
        rw [hnode, hdependencies]
        refine ih _ _ ?_ ?_
        · intro k hk
          rcases List.mem_append.mp hk with hk | hk
          · exact hnext id hid k (by rw [hdependencies]; exact List.mem_reverse.mp hk)
          · exact hp k (by simp [hk])
        · have hedges : Worklist.edges (dependenciesOf nodes) (all.filter (· ∉ id :: seen)) + (dependenciesOf nodes id).length =
              Worklist.edges (dependenciesOf nodes) (all.filter (· ∉ seen)) := Worklist.edges_filter_cons hall hid hseen
          rw [hdependencies] at hedges
          simp only [Worklist.cost, List.length_cons, List.length_append, List.length_reverse] at hf ⊢
          omega

/-- With enough rounds a walk marks what is reached, however many more it may have. -/
theorem mem_walk {next : String → List String} {all : List String} (hall : all.Nodup) (hnext : ∀ k ∈ all, ∀ d ∈ next k, d ∈ all)
    {start k : String} (hstart : start ∈ all) {fuel : Nat} (hf : Worklist.cost next all [start] [] ≤ fuel) :
    k ∈ Worklist.walk next fuel [start] [] ↔ Worklist.Reaches next start k := by
  constructor
  · intro h
    rcases Worklist.walk_sound h with h | ⟨p, hp, hr⟩
    · cases h
    · rwa [List.mem_singleton.mp hp] at hr
  · intro h
    obtain ⟨h1, h2⟩ := Worklist.walk_closed hall hnext [start] [] (by simpa using hstart) hf (by simp)
    induction h with
    | refl => exact h1 start (by simp)
    | tail _ hd ih => exact h2 _ ih _ hd

theorem loop_drained_add {graph : List (String × List String)} {s : Kahn.State String} {fuel : Nat}
    (h : (Kahn.loop graph fuel s).ready = []) (more : Nat) : Kahn.loop graph (fuel + more) s = Kahn.loop graph fuel s := by
  induction fuel generalizing s with
  | zero =>
    have hready : s.ready = [] := h
    cases more with
    | zero => rfl
    | succ more =>
      rw [Nat.zero_add]
      simp only [Kahn.loop, hready]
  | succ fuel ih =>
    rw [Nat.succ_add, Kahn.loop]
    rw [Kahn.loop] at h ⊢
    split
    · rfl
    · rename_i k rest hready
      rw [hready] at h
      exact ih h

/-- What the checks of the nodes have established when the walks begin. -/
structure Checked (lib : ScalarParsers) (plan : PhysicalPlan) : Prop where
  nodup : (plan.nodes.map (·.id)).Nodup
  output : plan.outputNodeId ∈ plan.nodes.map (·.id)
  nodes : ∀ node ∈ plan.nodes, AcceptedNode lib plan node

theorem validateNodes_eq_ok : validateNodes lib plan = .ok () ↔ Checked lib plan := by
  simp only [validateNodes, bind_eq_ok, refuseIf_eq_ok, forM_eq_ok, dedup_length_bne]
  constructor
  · intro h
    obtain ⟨_, hnd, _, hout, hnodes⟩ := h
    exact ⟨hnd, by simpa using hout, fun node hnode => (validatePlanNode_eq_ok hnd).mp (hnodes node hnode)⟩
  · intro h
    exact ⟨(), h.nodup, (), by simpa using h.output, fun node hnode => (validatePlanNode_eq_ok h.nodup).mpr (h.nodes node hnode)⟩

theorem Checked.next (h : Checked lib plan) :
    ∀ k ∈ plan.nodes.map (·.id), ∀ d ∈ dependenciesOf plan.nodes k, d ∈ plan.nodes.map (·.id) := by
  intro k hk d hd
  obtain ⟨node, hnode, rfl⟩ := List.mem_map.mp hk
  obtain ⟨below, hb, rfl, -⟩ := (h.nodes node hnode).waves d (CapabilityPlanner.dependenciesOf_eq h.nodup hnode ▸ hd)
  exact List.mem_map.mpr ⟨below, hb, rfl⟩

theorem Checked.found (h : Checked lib plan) : ∀ k ∈ plan.nodes.map (·.id), (findNode plan.nodes k).isSome = true := by
  intro k hk
  obtain ⟨node, hnode, rfl⟩ := List.mem_map.mp hk
  have hfind : findNode plan.nodes node.id = some node := find?_key_of_mem (fun n : PhysicalNode => n.id) h.nodup hnode
  rw [hfind]
  rfl

theorem Checked.length (h : Checked lib plan) :
    (Kahn.run (plan.nodes.map fun node => (node.id, node.dependencies))).length = plan.nodes.length :=
  kahn_length h.nodup fun node hnode => (h.nodes node hnode).waves

theorem Checked.graph (h : Checked lib plan) : Kahn.WellFormed (plan.nodes.map fun node => (node.id, node.dependencies)) := by
  have hkeys : Kahn.keys (plan.nodes.map fun node => (node.id, node.dependencies)) = plan.nodes.map (·.id) := by
    simp [Kahn.keys, Function.comp_def]
  refine ⟨hkeys ▸ h.nodup, fun n hn d hd => ?_⟩
  obtain ⟨node, hnode, rfl⟩ := List.mem_map.mp hn
  obtain ⟨below, hb, rfl, -⟩ := (h.nodes node hnode).waves d hd
  exact hkeys ▸ List.mem_map.mpr ⟨below, hb, rfl⟩

/-- The two halves of the function. -/
theorem validatePhysicalPlan_eq : validatePhysicalPlan lib plan = (do
    validateNodes lib plan
    let reached := Worklist.reach (dependenciesOf plan.nodes) (plan.nodes.map (·.id)) plan.outputNodeId
    let unreachable := Kahn.sorted ((plan.nodes.map (·.id)).filter (· ∉ reached))
    refuseIf (!unreachable.isEmpty)
      (planFailure "PLAN_UNREACHABLE_NODE" "Physical plan contains nodes outside the output dependency closure"
        [("nodes", .names unreachable)])
    let visited := Kahn.run (plan.nodes.map fun node => (node.id, node.dependencies))
    refuseIf (visited.length != plan.nodes.length)
      (planFailure "PLAN_CYCLE" "Physical plan contains a dependency cycle")) := by
  simp only [validatePhysicalPlan, validateNodes, bind_assoc]

/-- With enough rounds for both loops the function returns, and no key has been missing. -/
theorem validateRaw_eq (more : Nat) :
    validateRaw lib plan (1 + Worklist.edges (dependenciesOf plan.nodes) (plan.nodes.map (·.id)) + plan.nodes.length + more) =
      some ((validatePhysicalPlan lib plan).mapError .failure) := by
  rw [validatePhysicalPlan_eq]
  unfold validateRaw
  cases hnodes : validateNodes lib plan with
  | error error => rfl
  | ok _ =>
    have h := validateNodes_eq_ok.mp hnodes
    have hcost : Worklist.cost (dependenciesOf plan.nodes) (plan.nodes.map (·.id)) [plan.outputNodeId] [] =
        1 + Worklist.edges (dependenciesOf plan.nodes) (plan.nodes.map (·.id)) := by
      simp [Worklist.cost]
    have hfuel : Worklist.cost (dependenciesOf plan.nodes) (plan.nodes.map (·.id)) [plan.outputNodeId] [] ≤
        1 + Worklist.edges (dependenciesOf plan.nodes) (plan.nodes.map (·.id)) + plan.nodes.length + more := by
      rw [hcost]
      omega
    have hwalk := traverse_eq h.nodup h.next h.found [plan.outputNodeId] [] (by simpa using h.output) hfuel
    -- Both walks mark what is reached from the output.
    have hunreachable : ((plan.nodes.map (·.id)).filter (· ∉ Worklist.walk (dependenciesOf plan.nodes)
        (1 + Worklist.edges (dependenciesOf plan.nodes) (plan.nodes.map (·.id)) + plan.nodes.length + more)
        [plan.outputNodeId] [])) = (plan.nodes.map (·.id)).filter
          (· ∉ Worklist.reach (dependenciesOf plan.nodes) (plan.nodes.map (·.id)) plan.outputNodeId) := by
      refine List.filter_congr fun id _ => ?_
      rw [decide_eq_decide, mem_walk h.nodup h.next h.output hfuel, Worklist.mem_reach h.nodup h.next h.output]
    have hdrained : (Kahn.loop (plan.nodes.map fun node => (node.id, node.dependencies)) plan.nodes.length
        (Kahn.init (plan.nodes.map fun node => (node.id, node.dependencies)))).ready = [] :=
      Kahn.loop_drained h.graph (Kahn.init_mid h.graph) (by simp [Kahn.init])
    have hloop : Kahn.loop (plan.nodes.map fun node => (node.id, node.dependencies))
        (1 + Worklist.edges (dependenciesOf plan.nodes) (plan.nodes.map (·.id)) + plan.nodes.length + more)
        (Kahn.init (plan.nodes.map fun node => (node.id, node.dependencies))) =
          Kahn.loop (plan.nodes.map fun node => (node.id, node.dependencies)) plan.nodes.length
            (Kahn.init (plan.nodes.map fun node => (node.id, node.dependencies))) := by
      have hsum : 1 + Worklist.edges (dependenciesOf plan.nodes) (plan.nodes.map (·.id)) + plan.nodes.length + more =
          plan.nodes.length + (1 + Worklist.edges (dependenciesOf plan.nodes) (plan.nodes.map (·.id)) + more) := by omega
      rw [hsum, loop_drained_add hdrained]
    have hlength : (Kahn.loop (plan.nodes.map fun node => (node.id, node.dependencies)) plan.nodes.length
        (Kahn.init (plan.nodes.map fun node => (node.id, node.dependencies)))).order.length = plan.nodes.length := by
      have hrun := h.length
      rwa [Kahn.run, List.length_map] at hrun
    have hvisited := h.length
    dsimp only
    rw [hwalk]
    dsimp only
    rw [hunreachable, hloop, hlength]
    simp only [hdrained, ne_eq, not_true_eq_false, if_false, bne_self_eq_false, Bool.false_eq_true]
    show _ = some (Except.mapError Raised.failure (do
      refuseIf _ _
      refuseIf ((Kahn.run (plan.nodes.map fun node => (node.id, node.dependencies))).length != plan.nodes.length) _))
    rw [hvisited, bne_self_eq_false]
    cases (Kahn.sorted ((plan.nodes.map (·.id)).filter
      (· ∉ Worklist.reach (dependenciesOf plan.nodes) (plan.nodes.map (·.id)) plan.outputNodeId))).isEmpty <;> rfl

theorem validatePlanNode_error {node : PhysicalNode} {error : PlannerError} (h : validatePlanNode lib plan node = .error error) :
    ∃ failure, error = .planFailure failure ∧ failure.code ≠ "PLAN_CYCLE" := by
  simp only [validatePlanNode, bind_eq_error, refuseIf_eq_error, refuseIf_eq_ok] at h
  rcases h with h | ⟨_, -, ⟨-, rfl⟩ | ⟨_, -, h | ⟨_, -, h⟩⟩⟩
  · unfold validateNodeOperations at h
    split at h
    · obtain ⟨operation, -, h⟩ := forM_error h
      split at h
      · cases h
      · cases h
        exact ⟨_, rfl, by decide⟩
    · cases h
  · exact ⟨_, rfl, by simp⟩
  · unfold validateNodeInputs at h
    split at h
    · obtain ⟨-, rfl⟩ := refuseIf_eq_error.mp h
      exact ⟨_, rfl, by simp⟩
    · obtain ⟨-, rfl⟩ := refuseIf_eq_error.mp h
      exact ⟨_, rfl, by simp⟩
  · obtain ⟨d, -, h⟩ := forM_error h
    unfold validateDependency at h
    split at h
    · cases h
      exact ⟨_, rfl, by simp⟩
    · obtain ⟨-, rfl⟩ := refuseIf_eq_error.mp h
      exact ⟨_, rfl, by simp⟩

/-- The checks of the nodes raise no cycle, and the walks find none. -/
theorem validatePhysicalPlan_error {error : PlannerError} (h : validatePhysicalPlan lib plan = .error error) :
    ∃ failure, error = .planFailure failure ∧ failure.code ≠ "PLAN_CYCLE" := by
  rw [validatePhysicalPlan_eq] at h
  rcases bind_eq_error.mp h with h | ⟨_, hnodes, h⟩
  · simp only [validateNodes, bind_eq_error, refuseIf_eq_error, refuseIf_eq_ok] at h
    rcases h with ⟨-, rfl⟩ | ⟨_, -, ⟨-, rfl⟩ | ⟨_, -, h⟩⟩
    · exact ⟨_, rfl, by decide⟩
    · exact ⟨_, rfl, by decide⟩
    · obtain ⟨node, -, h⟩ := forM_error h
      exact validatePlanNode_error h
  · have hchecked := validateNodes_eq_ok.mp hnodes
    simp only [bind_eq_error, refuseIf_eq_error, refuseIf_eq_ok, hchecked.length, bne_self_eq_false] at h
    rcases h with ⟨-, rfl⟩ | ⟨_, -, h, -⟩
    · exact ⟨_, rfl, by simp⟩
    · cases h

/-- A plan is accepted exactly when it is acceptable. A plan whose dependencies pass the wave
    check has no cycle, a refusal is a `PlanFailure` and never for a cycle, and the function
    returns with the keys of its dictionaries all there. -/
theorem plan_acceptance (lib : ScalarParsers) (plan : PhysicalPlan)
    (hpayload : ∀ node ∈ plan.nodes, node.validatePayload = .ok ()) (hversion : plan.versionBoundary lib = .ok ()) :
    (validatePhysicalPlan lib plan = .ok () ↔ Acceptable lib plan) ∧
    ((∀ node ∈ plan.nodes, ∀ d ∈ node.dependencies, validateDependency plan.nodes node d = .ok ()) →
      ∀ id, ¬ Relation.TransGen (fun a b => b ∈ dependenciesOf plan.nodes a) id id) ∧
    (∀ error, validatePhysicalPlan lib plan = .error error →
      ∃ failure, error = .planFailure failure ∧ failure.code ≠ "PLAN_CYCLE") ∧
    ∃ rounds, ∀ more, validateRaw lib plan (rounds + more) = some ((validatePhysicalPlan lib plan).mapError .failure) :=
  ⟨validatePhysicalPlan_eq_ok.trans (acceptable_iff hpayload hversion), acyclic_of_waves,
    fun _ h => validatePhysicalPlan_error h, _, validateRaw_eq⟩

/-- A fragment and a select over it. -/
def twoWaves : PhysicalPlan where
  version := .v0
  id := "plan"
  nodes := [
    ⟨"orders", .select, [], 0, ["orders"], [], .sourceFragment ⟨⟨"o", "table", "orders"⟩, [bareSelect], []⟩⟩,
    ⟨"picked", .select, ["orders"], 1, ["picked"], [], .operator bareSelect⟩]
  outputNodeId := "picked"

theorem twoWaves_acceptable : Acceptable noParsers twoWaves := by
  have hpayload : ∀ node ∈ twoWaves.nodes, node.validatePayload = .ok () := by
    intro node hnode
    simp only [twoWaves, List.mem_cons, List.not_mem_nil, or_false] at hnode
    rcases hnode with rfl | rfl <;> rfl
  exact (plan_acceptance noParsers twoWaves hpayload rfl).1.mp (by rfl)

end DataNexus.Runtime
