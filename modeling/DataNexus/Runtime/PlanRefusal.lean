/-
  DataNexus.Runtime.PlanRefusal — when the planner refuses a graph.

  `Refused` names every reason, each on the graph and the planner's parameters alone.
  `prepare_refused` and `layout_refused`: a failure before the plan is constructed is a
  `PlanFailure` or a `BindingFailure` and comes from one of these reasons; no validator of
  a physical node and no missing key is ever the cause. `not_refused_of_layout`: a laid out
  graph has none of them.
-/

import DataNexus.Runtime.PlanShape

namespace DataNexus.Runtime

open Lib

/-- A failure the planner raises itself. -/
def PlannerError.IsFailure : PlannerError → Prop
  | .planFailure _ | .bindingFailure _ => True
  | .validationError _ | .keyError _ => False

/-! ## Binding fails with a `BindingFailure` -/

mutual

theorem bindExpression_error {columns : List BoundColumn} {e : PlannerError} : ∀ {expression : TypedExpression},
    bindExpression columns expression = .error e → e.IsFailure
  | .mk kind dataType column value args, h => by
    simp only [bindExpression] at h
    split at h
    · split at h
      · cases h; trivial
      · cases h
    · rcases bind_eq_error.mp h with h | ⟨_, _, h⟩
      · exact bindExpressions_error h
      · cases h

theorem bindExpressions_error {columns : List BoundColumn} {e : PlannerError} : ∀ {expressions : List TypedExpression},
    bindExpressions columns expressions = .error e → e.IsFailure
  | [], h => by cases h
  | arg :: args, h => by
    simp only [bindExpressions] at h
    rcases bind_eq_error.mp h with h | ⟨_, _, h⟩
    · exact bindExpression_error h
    · rcases bind_eq_error.mp h with h | ⟨_, _, h⟩
      · exact bindExpressions_error h
      · cases h

end

theorem bindOptional_error {columns : List BoundColumn} {e : PlannerError} {expression : Option TypedExpression}
    (h : bindOptional columns expression = .error e) : e.IsFailure := by
  cases expression with
  | none => cases h
  | some expression =>
    simp only [bindOptional] at h
    cases hb : bindExpression columns expression with
    | ok _ => rw [hb] at h; cases h
    | error e' =>
      rw [hb] at h
      cases h
      exact bindExpression_error hb

theorem bindPayload_error {columns : List BoundColumn} {e : PlannerError} {payload : V1Payload}
    (h : bindPayload columns payload = .error e) : e.IsFailure := by
  simp only [bindPayload] at h
  split at h
  · cases h
  · rcases bind_eq_error.mp h with h | ⟨_, _, h⟩
    · exact bindExpression_error h
    · cases h

theorem applyBindings_error {operation : OperatorSpec} {columns : List BoundColumn} {e : PlannerError}
    (h : applyBindings operation columns = .error e) : e.IsFailure := by
  simp only [applyBindings] at h
  rcases bind_eq_error.mp h with h | ⟨_, _, h⟩
  · exact bindOptional_error h
  rcases bind_eq_error.mp h with h | ⟨_, _, h⟩
  · obtain ⟨item, -, h⟩ := mapM_error h
    rcases bind_eq_error.mp h with h | ⟨_, _, h⟩
    · exact bindOptional_error h
    · cases h
  rcases bind_eq_error.mp h with h | ⟨_, _, h⟩
  · obtain ⟨item, -, h⟩ := mapM_error h
    rcases bind_eq_error.mp h with h | ⟨_, _, h⟩
    · exact bindExpression_error h
    · cases h
  split at h
  · rename_i e' he
    cases h
    cases hv : operation.v1 with
    | none => rw [hv] at he; cases he
    | some payload =>
      rw [hv] at he
      cases hb : bindPayload columns payload with
      | ok _ => simp [hb] at he
      | error _ =>
        simp only [Option.mapM_some, hb] at he
        cases he
        exact bindPayload_error hb
  · cases h

theorem applyBindings_kind {operation bound : OperatorSpec} {columns : List BoundColumn}
    (h : applyBindings operation columns = .ok bound) : bound.kind = operation.kind ∧ bound.isV1 = operation.isV1 := by
  simp only [applyBindings, bind_eq_ok] at h
  obtain ⟨_, -, _, -, _, -, h⟩ := h
  split at h
  · cases h
  · rename_i v1 hv
    cases h
    have := isNone_of_map_bindPayload hv
    refine ⟨rfl, ?_⟩
    simpa [OperatorSpec.isV1] using congrArg (!·) this

/-! ## The reasons -/

namespace CapabilityPlanner

variable {lib : ScalarParsers} {planner : CapabilityPlanner}

/-- Why `plan` refuses a graph. -/
inductive Refused (planner : CapabilityPlanner) (graph : ValidatedLogicalGraph lib) : Prop
  /-- A repeated id, a dangling dependency or a cycle. -/
  | unordered {e : PlannerError} : topologicalOrder graph.nodes = .error e → Refused planner graph
  /-- A blocked kind or an invalid v1 form. -/
  | rejected {node : LogicalNode} {e : PlannerError} : node ∈ graph.nodes →
      checkNode lib graph.version node = .error e → Refused planner graph
  /-- A concept without one binding, or one on another source. -/
  | unbound {node : LogicalNode} {e : PlannerError} : node ∈ graph.nodes → planner.bindNode node = .error e →
      Refused planner graph
  /-- An expression whose type is not its column's. -/
  | mistyped {node : LogicalNode} {columns : List BoundColumn} {e : PlannerError} : node ∈ graph.nodes →
      planner.bindNode node = .ok (node, columns) → applyBindings node.operation columns = .error e →
      Refused planner graph
  /-- A root that no source can run. -/
  | unread {node : LogicalNode} {columns : List BoundColumn} {operation : OperatorSpec} : node ∈ graph.nodes →
      node.dependencies = [] → planner.bindNode node = .ok (node, columns) →
      applyBindings node.operation columns = .ok operation →
      planner.pushdown node operation [] none = false ∨ planner.source node = none → Refused planner graph
  | outputless : graph.outputNodeId ∉ graph.nodes.map (·.id) → Refused planner graph

theorem topologicalOrder_error {nodes : List LogicalNode} {e : PlannerError} (h : topologicalOrder nodes = .error e) :
    e.IsFailure := by
  simp only [topologicalOrder] at h
  rcases bind_eq_error.mp h with h | ⟨_, _, h⟩
  · obtain ⟨-, rfl⟩ := refuseIf_eq_error.mp h; trivial
  rcases bind_eq_error.mp h with h | ⟨_, _, h⟩
  · obtain ⟨-, rfl⟩ := refuseIf_eq_error.mp h; trivial
  rcases bind_eq_error.mp h with h | ⟨_, _, h⟩
  · obtain ⟨-, rfl⟩ := refuseIf_eq_error.mp h; trivial
  · cases h

theorem checkNode_error {version : PlanVersion} {node : LogicalNode} {e : PlannerError}
    (h : checkNode lib version node = .error e) : e.IsFailure := by
  simp only [checkNode] at h
  split at h
  · split at h
    · obtain ⟨-, rfl⟩ := refuseIf_eq_error.mp h; trivial
    · cases h; trivial
  · obtain ⟨-, rfl⟩ := refuseIf_eq_error.mp h; trivial

theorem checkNode_supported {version : PlanVersion} {node : LogicalNode} (h : checkNode lib version node = .ok ()) :
    node.operation.kind.isBlocked = false := by
  simp only [checkNode] at h
  split at h
  · split at h
    · exact refuseIf_eq_ok.mp h
    · cases h
  · exact refuseIf_eq_ok.mp h

theorem bindNode_error {node : LogicalNode} {e : PlannerError} (h : planner.bindNode node = .error e) :
    e.IsFailure := by
  simp only [bindNode] at h
  rcases bind_eq_error.mp h with h | ⟨_, _, h⟩
  · obtain ⟨concept, -, h⟩ := mapM_error h
    unfold bindConcept at h
    split at h
    · cases h
    · cases h; trivial
  rcases bind_eq_error.mp h with h | ⟨_, _, h⟩
  · obtain ⟨-, rfl⟩ := refuseIf_eq_error.mp h; trivial
  · cases h

theorem prepare_refused {graph : ValidatedLogicalGraph lib} {e : PlannerError}
    (h : planner.prepare lib graph = .error e) : e.IsFailure ∧ Refused planner graph := by
  simp only [prepare] at h
  rcases bind_eq_error.mp h with h | ⟨ordered, ho, h⟩
  · exact ⟨topologicalOrder_error h, .unordered h⟩
  have hsub := (topologicalOrder_spec ho).perm.subset
  rcases bind_eq_error.mp h with h | ⟨_, _, h⟩
  · obtain ⟨node, hn, h⟩ := forM_error h
    exact ⟨checkNode_error h, .rejected (hsub hn) h⟩
  · obtain ⟨node, hn, h⟩ := mapM_error h
    exact ⟨bindNode_error h, .unbound (hsub hn) h⟩

/-! ## The physical nodes always validate -/

theorem validatePayload_eq_ok {node : PhysicalNode}
    (hlegacy : ∀ fragment, node.payload = .sourceFragment fragment → ∀ operation ∈ fragment.operations,
      operation.isV1 = false)
    (hnames : node.logicalOperations.map (·.logicalNodeId) = node.logicalNodeIds)
    (hlast : ∃ last, node.operations.getLast? = some last ∧ node.operation = last.kind) :
    node.validatePayload = .ok () := by
  obtain ⟨last, hl, hk⟩ := hlast
  simp only [PhysicalNode.validatePayload, bind_eq_ok, refuseIf_eq_ok, hl]
  refine ⟨(), ?_, (), ?_, (), ?_, by simp [hk]⟩
  · unfold PhysicalNode.sourceFragment
    split
    · rename_i fragment hp
      simpa using hlegacy fragment hp
    · rfl
  · rw [← hnames]
    cases node.logicalOperations <;> simp
  · simp [hnames]

theorem legacy_of_valid {node : PhysicalNode} {fragment : SourceFragment} (h : node.validatePayload = .ok ())
    (hp : node.payload = .sourceFragment fragment) : ∀ operation ∈ fragment.operations, operation.isV1 = false := by
  simp only [PhysicalNode.validatePayload, bind_eq_ok, refuseIf_eq_ok] at h
  obtain ⟨_, hv, -⟩ := h
  simpa [PhysicalNode.sourceFragment, hp] using hv

theorem fragmentNode_valid {done : List BoundNode} {physical : List PhysicalNode} {item : BoundNode}
    {operation : OperatorSpec} {ids : List String} {source : BoundSource}
    (hb : List.Forall₂ (Built planner done) done physical)
    (hc : planner.candidatePushdown item.1 operation = true) :
    (fragmentNode item.1 item.2 operation ids source (planner.fusible physical item.1 ids)).validatePayload =
      .ok () := by
  have hop : operation.isV1 = false := by
    simp only [candidatePushdown, Bool.and_eq_true, Bool.not_eq_true'] at hc
    exact hc.1.2
  cases hf : planner.fusible physical item.1 ids with
  | none =>
    refine validatePayload_eq_ok ?_ rfl ⟨operation, rfl, rfl⟩
    rintro fragment hp op ho
    cases hp
    obtain rfl : op = operation := by simpa using ho
    exact hop
  | some pair =>
    obtain ⟨below, fragment⟩ := pair
    obtain ⟨_, _, -, hfind, hfrag, -, -⟩ := fusible_eq_some.mp hf
    obtain ⟨last, -, hlast⟩ := mem_right_of_forall₂ hb (List.mem_of_find?_eq_some hfind)
    refine validatePayload_eq_ok ?_ (by simp [fragmentNode, hlast.names])
      ⟨operation, by simp [fragmentNode, PhysicalNode.operations], rfl⟩
    rintro fused hp op ho
    cases hp
    rcases List.mem_append.mp ho with ho | ho
    · exact legacy_of_valid hlast.valid (sourceFragment_eq_some.mp hfrag) op ho
    · obtain rfl : op = operation := by simpa using ho
      exact hop

/-- A node that cannot be planned is a reason to refuse the graph. -/
theorem physicalNode_refused {graph : ValidatedLogicalGraph lib} {done : List BoundNode} {st : PlanState}
    {item : BoundNode} {e : PlannerError} (hm : Mapped done st)
    (hb : List.Forall₂ (Built planner done) done st.physical) (hd : item.1.dependencies ⊆ done.map (·.1.id))
    (hnode : item.1 ∈ graph.nodes) (hbind : planner.bindNode item.1 = .ok item)
    (h : planner.physicalNode st item.1 item.2 = .error e) : e.IsFailure ∧ Refused planner graph := by
  simp only [physicalNode] at h
  rcases bind_eq_error.mp h with h | ⟨operation, ho, h⟩
  · exact ⟨applyBindings_error h, .mistyped hnode hbind h⟩
  rw [mappedDependencies_of_mapped hm hd] at h
  rcases bind_eq_error.mp h with h | ⟨ids, hids, h⟩
  · cases h
  obtain rfl := Except.ok.inj hids
  split at h
  · rename_i hp
    split at h
    · rename_i hs
      cases h
      have hnil : item.1.dependencies = [] := by
        rcases (pushdown_eq_true hp).2 with h | h
        · exact dependencyIds_eq_nil.mp h
        · -- A fused node has found its source already.
          obtain ⟨⟨below, fragment⟩, hf⟩ := Option.isSome_iff_exists.mp h
          obtain ⟨_, source, -, -, -, hs', -⟩ := fusible_eq_some.mp hf
          cases hs.symm.trans hs'
      exact ⟨trivial, .unread hnode hnil hbind ho (.inr hs)⟩
    · rename_i source hs
      rw [fragmentNode_valid hb (pushdown_eq_true hp).1] at h
      cases h
  · rename_i hp
    rcases bind_eq_error.mp h with h | ⟨_, _, h⟩
    · obtain ⟨hnil, rfl⟩ := refuseIf_eq_error.mp h
      have hnil : item.1.dependencies = [] := dependencyIds_eq_nil.mp (List.isEmpty_iff.mp hnil)
      refine ⟨trivial, .unread hnode hnil hbind ho (.inl ?_)⟩
      rw [hnil] at hp
      simpa [dependencyIds, fusible] using hp
    · rw [show (operatorNode item.1 operation (dependencyIds item.1.dependencies)).validatePayload = .ok () from
        validatePayload_eq_ok (fun _ hf => absurd hf (by simp [operatorNode])) rfl ⟨operation, rfl, rfl⟩] at h
      cases h

theorem planNodes_refused {graph : ValidatedLogicalGraph lib} {bound : List BoundNode} {e : PlannerError}
    (hp : Prepared planner graph bound) (h : bound.foldlM planner.planNode ⟨[], []⟩ = .error e) :
    e.IsFailure ∧ Refused planner graph := by
  obtain ⟨done, item, rest, st, hsplit, hdone, hstep⟩ := foldlM_error h
  obtain ⟨hm, hb⟩ := built_of_foldlM
    (fun pre other post e => hp.closed pre other (post ++ item :: rest) (by simp [hsplit, e])) hdone
  have hi : item ∈ bound := by simp [hsplit]
  rcases bind_eq_error.mp hstep with hstep | ⟨_, _, hstep⟩
  · exact physicalNode_refused hm hb (hp.closed done item rest hsplit)
      (hp.ordered.perm.subset (List.mem_map.mpr ⟨item, hi, rfl⟩)) (hp.bound item hi) hstep
  · cases hstep

/-- The order of the logical nodes ranks the physical ones. -/
theorem idxOf_lt_of_dependency {graph : ValidatedLogicalGraph lib} {bound : List BoundNode} {physical : List PhysicalNode}
    (hp : Prepared planner graph bound) (hb : List.Forall₂ (Built planner bound) bound physical) {node : PhysicalNode}
    (hn : node ∈ physical) {d : String} (hd : d ∈ node.dependencies) :
    ((bound.map (·.1.id)).map physicalId).idxOf d < ((bound.map (·.1.id)).map physicalId).idxOf node.id := by
  obtain ⟨item, hi, hbuilt⟩ := mem_right_of_forall₂ hb hn
  obtain ⟨k, hk, rfl⟩ := mem_dependencyIds.mp (hbuilt.shape.dependencies_subset hd)
  obtain ⟨pre, post, e⟩ := List.append_of_mem hi
  have hnd := hp.nodup.map physicalId_injective
  have hkpre : physicalId k ∈ (pre.map (·.1.id)).map physicalId :=
    List.mem_map.mpr ⟨k, hp.closed pre item post e hk, rfl⟩
  rw [e] at hnd ⊢
  simp only [List.map_append, List.map_cons, hbuilt.id] at hnd ⊢
  have hout : physicalId item.1.id ∉ (pre.map (·.1.id)).map physicalId := fun hm =>
    (List.disjoint_of_nodup_append hnd) hm (List.mem_cons_self ..)
  rw [List.idxOf_append_of_mem hkpre, List.idxOf_append_of_notMem hout]
  exact (List.idxOf_lt_length_of_mem hkpre).trans_le (Nat.le_add_right ..)

theorem assignWaves_isOk {graph : ValidatedLogicalGraph lib} {bound : List BoundNode} {physical : List PhysicalNode}
    {outputId : String} (hp : Prepared planner graph bound) (hb : List.Forall₂ (Built planner bound) bound physical)
    (hnd : (physical.map (·.id)).Nodup) (hc : Closed physical) (ho : outputId ∈ physical.map (·.id)) :
    ∃ planned, assignWaves (physical.filter (·.id ∈ reachable outputId physical)) = .ok planned := by
  have hnext : ∀ k ∈ physical.map (·.id), ∀ d ∈ dependenciesOf physical k, d ∈ physical.map (·.id) := by
    intro k hk d hd
    obtain ⟨node, hn, rfl⟩ := List.mem_map.mp hk
    exact hc node hn d (dependenciesOf_eq hnd hn ▸ hd)
  have hsome : (Layers.assign (dependenciesOf (physical.filter (·.id ∈ reachable outputId physical)))
      ((physical.filter (·.id ∈ reachable outputId physical)).map (·.id))).isSome := by
    refine Layers.assign_isSome (((bound.map (·.1.id)).map physicalId).idxOf ·) fun k hk d hd => ?_
    obtain ⟨node, hn, rfl⟩ := List.mem_map.mp hk
    have hmem := (List.mem_filter.mp hn).1
    rw [dependenciesOf_filter hnd _ hn] at hd
    have hreach : d ∈ reachable outputId physical := by
      have hnr : node.id ∈ reachable outputId physical := by simpa using (List.mem_filter.mp hn).2
      exact (Worklist.mem_reach hnd hnext ho).mpr (((Worklist.mem_reach hnd hnext ho).mp hnr).tail hd)
    rw [dependenciesOf_eq hnd hmem] at hd
    obtain ⟨below, hbelow, rfl⟩ := List.mem_map.mp (hc node hmem d hd)
    exact ⟨List.mem_map.mpr ⟨below, List.mem_filter.mpr ⟨hbelow, by simpa using hreach⟩, rfl⟩,
      idxOf_lt_of_dependency hp hb hmem hd⟩
  obtain ⟨waves, hw⟩ := Option.isSome_iff_exists.mp hsome
  unfold assignWaves
  rw [hw]
  exact ⟨_, rfl⟩

theorem layout_refused {graph : ValidatedLogicalGraph lib} {bound : List BoundNode} {e : PlannerError}
    (hp : Prepared planner graph bound) (h : planner.layout graph.outputNodeId bound = .error e) :
    e.IsFailure ∧ Refused planner graph := by
  simp only [layout] at h
  rcases bind_eq_error.mp h with h | ⟨st, hst, h⟩
  · exact planNodes_refused hp h
  obtain ⟨hm, hb⟩ := built_of_foldlM hp.closed hst
  have hnd : (st.physical.map (·.id)).Nodup := hm.ids ▸ hp.nodup.map physicalId_injective
  rw [hm.mapping, lookup_map_pair] at h
  split at h
  · rename_i hnone
    cases h
    refine ⟨trivial, .outputless fun hmem => ?_⟩
    have hmem' : graph.outputNodeId ∈ bound.map (·.1.id) := by
      have := (hp.ordered.perm.map (·.id)).mem_iff.mpr hmem
      simpa [Function.comp_def] using this
    simp [hmem'] at hnone
  · rename_i id hsome
    have hmem : id ∈ st.physical.map (·.id) := by
      split at hsome
      · rename_i hmem
        obtain rfl := Option.some.inj hsome
        exact hm.ids ▸ List.mem_map.mpr ⟨_, hmem, rfl⟩
      · cases hsome
    obtain ⟨planned, hw⟩ := assignWaves_isOk hp hb hnd (closed_of_built hp hm hb) hmem
    rw [hw] at h
    cases h

theorem not_refused_of_layout {graph : ValidatedLogicalGraph lib} {bound : List BoundNode}
    {physical planned : List PhysicalNode} (hb : planner.prepare lib graph = .ok bound)
    (hl : Laid planner bound physical graph.outputNodeId planned) : ¬ Refused planner graph := by
  have hp := prepare_spec hb
  have hitem : ∀ node ∈ graph.nodes, ∃ item ∈ bound, item.1 = node := fun node hn =>
    List.mem_map.mp (hp.ordered.perm.mem_iff.mpr hn)
  intro hr
  rcases hr with ho | ⟨hn, hc⟩ | ⟨hn, hu⟩ | ⟨hn, hbind, ha⟩ | ⟨hn, hnil, hbind, ha, hroot⟩ | hout
  · simp only [prepare, bind_eq_ok] at hb
    obtain ⟨_, ho', -⟩ := hb
    cases ho.symm.trans ho'
  · obtain ⟨item, hi, rfl⟩ := hitem _ hn
    cases hc.symm.trans (hp.checked item hi)
  · obtain ⟨item, hi, rfl⟩ := hitem _ hn
    cases hu.symm.trans (hp.bound item hi)
  · obtain ⟨item, hi, rfl⟩ := hitem _ hn
    obtain ⟨node, -, hbuilt⟩ := mem_left_of_forall₂ hl.built hi
    obtain rfl : item.2 = _ := congrArg Prod.snd (Except.ok.inj ((hp.bound item hi).symm.trans hbind))
    rcases hbuilt.shape with ⟨ho, -, -, -, -⟩ | ⟨-, -, hchain⟩
    · cases ha.symm.trans ho
    · obtain ⟨_, ho⟩ := hchain.bound
      cases ha.symm.trans ho
  · obtain ⟨item, hi, rfl⟩ := hitem _ hn
    obtain ⟨node, -, hbuilt⟩ := mem_left_of_forall₂ hl.built hi
    obtain rfl : item.2 = _ := congrArg Prod.snd (Except.ok.inj ((hp.bound item hi).symm.trans hbind))
    rcases hbuilt.shape with ⟨-, hne, -, -, -⟩ | ⟨-, -, hchain⟩
    · exact hne hnil
    · obtain ⟨_, _, ho, hpush, hs⟩ := hchain.root hnil
      obtain rfl := Except.ok.inj (ha.symm.trans ho)
      rcases hroot with h | h
      · cases h.symm.trans hpush
      · cases h.symm.trans hs
  · obtain ⟨item, hi, he⟩ := List.mem_map.mp hl.output
    exact hout (List.mem_map.mpr ⟨item.1, hp.ordered.perm.subset (List.mem_map.mpr ⟨item, hi, rfl⟩), he⟩)

end CapabilityPlanner

end DataNexus.Runtime
