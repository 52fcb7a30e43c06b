/-
  DataNexus.Runtime.PlanMeaning — the planner preserves what a graph computes.

  The operators and the tables are parameters: an operator maps the tables of its inputs,
  in order, to a table, and each source alias has a table. The logical graph computes each
  node from its bound operation (`logicalFlow`); the physical plan folds a fragment's
  operations over its source's table and applies an operator to its dependencies
  (`physicalFlow`). `plan_preserves_meaning`: whatever is fused, shared, dropped and
  renamed, both give the output the same table.
-/

import DataNexus.Runtime.PlanShape

namespace DataNexus.Runtime

open Lib

namespace CapabilityPlanner

variable {lib : ScalarParsers} (planner : CapabilityPlanner)
variable {T : Type} (apply : OperatorSpec → List T → T) (tables : String → T)

/-- The node's operation over its bound columns. -/
def boundOperation (node : LogicalNode) : Option OperatorSpec :=
  (planner.bindNode node).toOption.bind fun item => (applyBindings node.operation item.2).toOption

/-- A root reads its source's table, any other node its dependencies. -/
def logicalFlow (nodes : List LogicalNode) : Dataflow String LogicalNode T where
  node id := nodes.find? (·.id == id)
  deps node := node.dependencies
  sem node inputs := (planner.boundOperation node).bind fun operation =>
    if node.dependencies = [] then node.sourceAlias.map fun source => apply operation [tables source]
    else some (apply operation inputs)

def runFragment (table : T) (operations : List OperatorSpec) : T :=
  operations.foldl (fun t operation => apply operation [t]) table

def physicalFlow (nodes : List PhysicalNode) : Dataflow String PhysicalNode T where
  node := findNode nodes
  deps node := node.dependencies
  sem node inputs := match node.payload with
    | .sourceFragment fragment => some (runFragment apply (tables fragment.source.aliasName) fragment.operations)
    | .operator operation => some (apply operation inputs)

variable {planner apply tables}

theorem boundOperation_eq {item : BoundNode} {operation : OperatorSpec} (hb : planner.bindNode item.1 = .ok item)
    (ho : applyBindings item.1.operation item.2 = .ok operation) :
    planner.boundOperation item.1 = some operation := by
  simp [boundOperation, hb, ho, Except.toOption]

theorem Prepared.find {graph : ValidatedLogicalGraph lib} {bound : List BoundNode} (hp : Prepared planner graph bound)
    {item : BoundNode} (hi : item ∈ bound) : graph.nodes.find? (·.id == item.1.id) = some item.1 :=
  find?_key_of_mem (fun n : LogicalNode => n.id) hp.ordered.nodup
    (hp.ordered.perm.subset (List.mem_map.mpr ⟨item, hi, rfl⟩))

theorem eq_singleton_of_dependencyIds {dependencies : List String} {d : String} (hnd : dependencies.Nodup)
    (h : dependencyIds dependencies = [physicalId d]) : dependencies = [d] := by
  rw [dependencyIds_of_nodup hnd] at h
  exact List.map_injective_iff.mpr physicalId_injective (by simpa using h)

theorem source_keyed (hkeys : ∀ k source, planner.sources k = some source → source.aliasName = k)
    {logical : LogicalNode} {operation : OperatorSpec} {source : BoundSource}
    (hc : planner.candidatePushdown logical operation = true) (hs : planner.source logical = some source) :
    logical.sourceAlias = some source.aliasName := by
  simp only [candidatePushdown, Bool.and_eq_true] at hc
  obtain ⟨a, ha⟩ := Option.isSome_iff_exists.mp hc.1.1.1
  rw [CapabilityPlanner.source, ha, Option.getD_some] at hs
  rw [ha, hkeys a source hs]

/-- The logical nodes of a chain compute what its operations fold to. -/
theorem chain_evalsTo {graph : ValidatedLogicalGraph lib} {bound : List BoundNode} (hp : Prepared planner graph bound)
    (hkeys : ∀ k source, planner.sources k = some source → source.aliasName = k)
    (hdistinct : ∀ node ∈ graph.nodes, node.dependencies.Nodup) {aliasName : String} {item : BoundNode}
    {ids : List String} {operations : List OperatorSpec} (h : Chain planner bound aliasName item ids operations) :
    (planner.logicalFlow apply tables graph.nodes).EvalsTo item.1.id
      (runFragment apply (tables aliasName) operations) := by
  induction h with
  | @opens item operation source hi ho hc hs ha hd =>
    refine .intro [] (hp.find hi) (by simp [logicalFlow, hd]) ?_
    simp [logicalFlow, boundOperation_eq (hp.bound _ hi) ho, hd, source_keyed hkeys (pushdown_eq_true hc).1 hs, ha, runFragment]
  | @fuses last item ids operations operation source _ hi ho hc hs ha hd ih =>
    have hnode : item.1 ∈ graph.nodes := hp.ordered.perm.subset (List.mem_map.mpr ⟨item, hi, rfl⟩)
    have hdeps := eq_singleton_of_dependencyIds (hdistinct _ hnode) hd
    refine .intro [runFragment apply (tables aliasName) operations] (hp.find hi) ?_ ?_
    · simp only [logicalFlow, hdeps]
      exact .cons ih .nil
    · simp [logicalFlow, boundOperation_eq (hp.bound _ hi) ho, hdeps, runFragment]

/-- The physical node of every logical node computes that node's table. -/
theorem built_evalsTo {graph : ValidatedLogicalGraph lib} {bound : List BoundNode} {physical : List PhysicalNode}
    (hp : Prepared planner graph bound) (hb : List.Forall₂ (Built planner bound) bound physical)
    (hnd : (physical.map (·.id)).Nodup)
    (hkeys : ∀ k source, planner.sources k = some source → source.aliasName = k)
    (hdistinct : ∀ node ∈ graph.nodes, node.dependencies.Nodup) {item : BoundNode} (hi : item ∈ bound)
    (apply : OperatorSpec → List T → T) (tables : String → T) :
    ∃ t, (planner.logicalFlow apply tables graph.nodes).EvalsTo item.1.id t ∧
      (physicalFlow apply tables physical).EvalsTo (physicalId item.1.id) t := by
  -- Dependencies come first in the order, so the induction is on the ordered nodes.
  suffices ∀ pre post, bound = pre ++ post → ∀ item ∈ pre,
      ∃ t, (planner.logicalFlow apply tables graph.nodes).EvalsTo item.1.id t ∧
        (physicalFlow apply tables physical).EvalsTo (physicalId item.1.id) t from this bound [] (by simp) item hi
  intro pre
  induction pre using List.reverseRecOn with
  | nil => simp
  | append_singleton pre item ih =>
    intro post hsplit
    rw [List.append_assoc, List.singleton_append] at hsplit
    intro other ho
    rcases List.mem_append.mp ho with ho | ho
    · exact ih _ hsplit other ho
    obtain rfl := List.mem_singleton.mp ho
    have hi : other ∈ bound := by simp [hsplit]
    obtain ⟨node, hn, hbuilt⟩ := mem_left_of_forall₂ hb hi
    have hfind : findNode physical (physicalId other.1.id) = some node :=
      hbuilt.id ▸ find?_key_of_mem (fun n : PhysicalNode => n.id) hnd hn
    rcases hbuilt.shape with @⟨operation, hop, hne, hd, -, hpay⟩ | ⟨hpay, hd, hchain⟩
    · have hnode : other.1 ∈ graph.nodes := hp.ordered.perm.subset (List.mem_map.mpr ⟨other, hi, rfl⟩)
      have hvalues : ∀ d ∈ other.1.dependencies, ∃ t,
          (planner.logicalFlow apply tables graph.nodes).EvalsTo d t ∧
            (physicalFlow apply tables physical).EvalsTo (physicalId d) t := by
        intro d hd
        obtain ⟨below, hbelow, rfl⟩ := List.mem_map.mp (hp.closed pre other post hsplit hd)
        exact ih _ hsplit below hbelow
      obtain ⟨ts, hl, hph⟩ := Dataflow.common_values physicalId hvalues
      refine ⟨apply operation ts, .intro ts (hp.find hi) hl ?_, .intro ts hfind ?_ ?_⟩
      · simp [logicalFlow, boundOperation_eq (hp.bound _ hi) hop, hne]
      · simp only [physicalFlow, hd, dependencyIds_of_nodup (hdistinct _ hnode)]
        exact hph
      · simp [physicalFlow, hpay]
    · refine ⟨_, chain_evalsTo hp hkeys hdistinct hchain, .intro [] hfind ?_ ?_⟩
      · simp [physicalFlow, hd]
      · simp [physicalFlow, hpay]

/-- Dropping what the output does not reach, and the waves, change no value. -/
theorem planned_evalsTo {physical planned : List PhysicalNode} {outputId : String}
    (hnd : (physical.map (·.id)).Nodup) (h : Planned physical outputId planned) {t : T}
    (ht : (physicalFlow apply tables physical).EvalsTo outputId t) :
    (physicalFlow apply tables planned).EvalsTo outputId t := by
  refine ht.transfer (Worklist.Reaches (dependenciesOf physical) outputId) ?_ ?_ .refl
  · intro k node hk hn d hd
    obtain ⟨hmem, rfl⟩ := key_of_find? (fun n : PhysicalNode => n.id) hn
    exact hk.tail (by rwa [dependenciesOf_eq hnd hmem])
  · intro k node hk hn
    obtain ⟨hmem, rfl⟩ := key_of_find? (fun n : PhysicalNode => n.id) hn
    obtain ⟨kept, hkept, hid⟩ := List.mem_map.mp ((h.mem node.id).mpr hk)
    obtain ⟨origin, ho, e⟩ := h.same kept hkept
    have hsame : origin = node := by
      have := find?_key_of_mem (fun n : PhysicalNode => n.id) hnd ho
      rw [show origin.id = node.id by rw [← hid, e]] at this
      exact Option.some.inj (this.symm.trans (find?_key_of_mem (fun n : PhysicalNode => n.id) hnd hmem))
    subst hsame
    refine ⟨kept, hid ▸ find?_key_of_mem (fun n : PhysicalNode => n.id) h.nodup hkept, ?_, ?_⟩
    · rw [e]; rfl
    · rw [e]; rfl

/-- For every interpretation of the operators and every table of the sources, an accepted
    graph and its plan give their output nodes the same table. -/
theorem plan_preserves_meaning (planner : CapabilityPlanner) (graph : ValidatedLogicalGraph lib)
    (result : PhysicalPlan) (hplan : planner.plan lib graph = .ok result)
    (hkeys : ∀ k source, planner.sources k = some source → source.aliasName = k)
    (hdistinct : ∀ node ∈ graph.nodes, node.dependencies.Nodup)
    (apply : OperatorSpec → List T → T) (tables : String → T) :
    ∃ t, (planner.logicalFlow apply tables graph.nodes).EvalsTo graph.outputNodeId t ∧
      (physicalFlow apply tables result.nodes).EvalsTo result.outputNodeId t := by
  obtain ⟨bound, planned, outputId, hb, hl, rfl, -⟩ := plan_eq_ok hplan
  have hp := prepare_spec hb
  obtain ⟨rfl, physical, hlaid⟩ := layout_spec hp hl
  obtain ⟨item, hi, he⟩ := List.mem_map.mp hlaid.output
  obtain ⟨t, hlog, hphys⟩ := built_evalsTo hp hlaid.built hlaid.nodup hkeys hdistinct hi apply tables
  rw [he] at hlog hphys
  exact ⟨t, hlog, planned_evalsTo hlaid.nodup hlaid.planned hphys⟩

/-! ## A shared prefix

A source is read once in the graph and used twice: the limit is fused with a copy of the
read, the projection runs on the read itself, and a join needs both. -/

def salesSource : BoundSource := ⟨"sales", "csv", "sales.csv"⟩

def salesPlanner : CapabilityPlanner where
  binder := exactConceptBinder fun _ => []
  sources k := if k = "sales" then some salesSource else none
  capabilities _ := some { operatorKinds := [.select, .limit] }

/-- A v0 spec of a kind with nothing else set. -/
def ofKind (kind : OperatorKind) (h : kind.isV0 = true) : OperatorSpec := { kind, legacyOperator := fun _ => h }

def sharedPrefixGraph (lib : ScalarParsers) : ValidatedLogicalGraph lib where
  version := .v0
  id := "shared"
  nodes := [
    { id := "both", operation := bareJoin, dependencies := ["top", "named"] },
    { id := "top", operation := { ofKind .limit rfl with limit := some 3 }, dependencies := ["read"],
      sourceAlias := some "sales" },
    { id := "named", operation := ofKind .project rfl, dependencies := ["read"], sourceAlias := some "sales" },
    { id := "read", operation := bareSelect, sourceAlias := some "sales" }]
  outputNodeId := "both"
  v0Boundary := by decide
  v1Boundary := nofun

def sharedPrefixPlan : PhysicalPlan where
  version := .v0
  id := "physical-shared"
  nodes := [
    { id := "physical-read", operation := .select, dependencies := [], wave := 0, logicalNodeIds := ["read"],
      logicalOperations := [⟨"read", .select⟩],
      payload := .sourceFragment ⟨salesSource, [bareSelect], []⟩ },
    { id := "physical-top", operation := .limit, dependencies := [], wave := 0, logicalNodeIds := ["read", "top"],
      logicalOperations := [⟨"read", .select⟩, ⟨"top", .limit⟩],
      payload := .sourceFragment ⟨salesSource, [bareSelect, { ofKind .limit rfl with limit := some 3 }], []⟩ },
    { id := "physical-named", operation := .project, dependencies := ["physical-read"], wave := 1,
      logicalNodeIds := ["named"], logicalOperations := [⟨"named", .project⟩],
      payload := .operator (ofKind .project rfl) },
    { id := "physical-both", operation := .join, dependencies := ["physical-top", "physical-named"], wave := 2,
      logicalNodeIds := ["both"], logicalOperations := [⟨"both", .join⟩], payload := .operator bareJoin }]
  outputNodeId := "physical-both"

/-- The table here is the expression that computed it. -/
def traceOf (operation : OperatorSpec) (inputs : List String) : String :=
  operation.kind.text ++ "(" ++ ", ".intercalate inputs ++ ")"

theorem sharedPrefix_preserves_meaning :
    salesPlanner.plan noParsers (sharedPrefixGraph noParsers) = .ok sharedPrefixPlan ∧
      ∃ t, (salesPlanner.logicalFlow traceOf id (sharedPrefixGraph noParsers).nodes).EvalsTo "both" t ∧
        (physicalFlow traceOf id sharedPrefixPlan.nodes).EvalsTo "physical-both" t := by
  have hplan : salesPlanner.plan noParsers (sharedPrefixGraph noParsers) = .ok sharedPrefixPlan := rfl
  refine ⟨hplan, plan_preserves_meaning salesPlanner (sharedPrefixGraph noParsers) sharedPrefixPlan hplan ?_ ?_
    traceOf id⟩
  · intro k source h
    simp only [salesPlanner] at h
    split at h
    · rename_i hk
      rw [← Option.some.inj h, hk]
      rfl
    · cases h
  · decide

end CapabilityPlanner

end DataNexus.Runtime
