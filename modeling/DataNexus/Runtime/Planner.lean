/-
  DataNexus.Runtime.Planner — the capability planner (`query_runtime/planner.py`).

  `plan` orders the logical nodes, checks and binds them all, then turns them one by one
  into physical nodes: a node its source can run is fused onto its predecessor's fragment
  (or opens one), any other node becomes a local operator. What the output does not need
  is dropped, waves are assigned, and the plan is constructed, which validates it again.

  A dictionary built by a loop is the list of its items in insertion order; one that is a
  parameter is a partial function. Besides its own failures the planner can be left by
  the validators of the models it constructs (`validationError`) and by a missing key
  (`keyError`).
-/

import DataNexus.Lib.Dataflow
import DataNexus.Lib.Layers
import DataNexus.Lib.Worklist
import DataNexus.Runtime.Domain

namespace DataNexus.Runtime

open Lib

inductive Detail where
  | text (value : String)
  | count (value : Nat)
  | names (values : List String)
  deriving DecidableEq

/-- A `RuntimeFailure`: its stable code, its message and its details. -/
structure Failure where
  code : String
  message : String
  details : List (String × Detail) := []
  deriving DecidableEq

inductive PlannerError where
  | planFailure (failure : Failure)
  | bindingFailure (failure : Failure)
  | validationError (message : String)
  | keyError (key : String)
  deriving DecidableEq

structure LogicalNode where
  id : String
  operation : OperatorSpec
  dependencies : List String := []
  sourceAlias : Option String := none
  concepts : List String := []
  estimatedRows : Option Int := none
  estimatedBytes : Option Int := none
  requiresSpill : Bool := false

structure ValidatedLogicalGraph (lib : ScalarParsers) where
  version : PlanVersion
  id : String
  nodes : List LogicalNode
  outputNodeId : String
  /-- `version_boundary`. -/
  v0Boundary : version = .v0 → ∀ node ∈ nodes, node.operation.isV1 = false
  v1Boundary : version = .v1 → ∀ node ∈ nodes, validateOperatorV1 lib node.operation = .ok ()

/-- A `ConceptBinder` fails with a `BindingFailure` or not at all. -/
abbrev ConceptBinder := String → Except Failure BoundColumn

def exactConceptBinder (bindings : String → List BoundColumn) : ConceptBinder := fun concept =>
  match bindings concept with
  | [] => .error ⟨"BINDING_MISSING", s!"No exact source binding exists for concept '{concept}'",
      [("concept", .text concept)]⟩
  | [column] => .ok column
  | candidates => .error ⟨"BINDING_AMBIGUOUS", s!"Concept '{concept}' has multiple exact source bindings",
      [("concept", .text concept), ("candidate_count", .count candidates.length)]⟩

/-- `LOCAL_ONLY`. -/
def OperatorKind.isLocalOnly : OperatorKind → Bool
  | .pivot | .derive | .project => true
  | _ => false

def planFailure (code message : String) (details : List (String × Detail) := []) : PlannerError :=
  .planFailure ⟨code, message, details⟩

/-! ## Ordering -/

def topologicalOrder (nodes : List LogicalNode) : Except PlannerError (List LogicalNode) := do
  let ids := nodes.map (·.id)
  refuseIf (ids.dedup.length != ids.length)
    (planFailure "PLAN_DUPLICATE_NODE" "Logical graph contains duplicate node IDs")
  let unknown := Kahn.sorted ((nodes.flatMap (·.dependencies)).filter (· ∉ ids)).dedup
  refuseIf (!unknown.isEmpty)
    (planFailure "PLAN_MISSING_DEPENDENCY" "Logical graph references missing dependencies"
      [("dependencies", .names unknown)])
  let ordered := Kahn.run (nodes.map fun node => (node.id, node.dependencies))
  refuseIf (ordered.length != nodes.length)
    (planFailure "PLAN_CYCLE" "Logical graph contains a dependency cycle")
  return ordered.filterMap fun id => nodes.find? (·.id == id)

/-! ## Binding -/

/-- `{column.concept: column}`: the last column of a concept wins. -/
def bindingOf (columns : List BoundColumn) (concept : String) : Option BoundColumn :=
  columns.reverse.find? (·.concept == concept)

def boundName (columns : List BoundColumn) (value : String) : String :=
  (bindingOf columns value).elim value (·.columnName)

mutual

def bindExpression (columns : List BoundColumn) : TypedExpression → Except PlannerError TypedExpression
  | .mk kind dataType column value args =>
    match if kind = .column then column.bind (bindingOf columns) else none with
    | some binding =>
      if binding.dataType ≠ dataType then
        .error (.bindingFailure ⟨"BINDING_TYPE_MISMATCH",
          s!"Concept '{binding.concept}' type does not match its binding", [("concept", .text binding.concept),
            ("logical_type", .text dataType.text), ("physical_type", .text binding.dataType.text)]⟩)
      else .ok (.mk kind dataType (some binding.columnName) value args)
    | none => do return .mk kind dataType column value (← bindExpressions columns args)

def bindExpressions (columns : List BoundColumn) : List TypedExpression → Except PlannerError (List TypedExpression)
  | [] => .ok []
  | arg :: args => do return (← bindExpression columns arg) :: (← bindExpressions columns args)

end

def bindOptional (columns : List BoundColumn) : Option TypedExpression → Except PlannerError (Option TypedExpression)
  | none => .ok none
  | some expression => some <$> bindExpression columns expression

def bindPayload (columns : List BoundColumn) (payload : V1Payload) : Except PlannerError V1Payload := do
  let name := boundName columns
  let impute ← match payload.impute with
    | none => .ok none
    | some i => do pure (some { i with column := name i.column, value := ← bindExpression columns i.value })
  return { payload with
    partitionBy := payload.partitionBy.map name
    window := payload.window.map fun w => { w with column := w.column.map name }
    date := payload.date.map fun d => { d with column := name d.column }
    explode := payload.explode.map fun e => { e with column := name e.column }
    impute := impute
    unpivot := payload.unpivot.map fun u => { u with columns := u.columns.map name } }

theorem isNone_of_map_bindPayload {columns : List BoundColumn} {v1 v1' : Option V1Payload}
    (h : v1.mapM (bindPayload columns) = .ok v1') : v1'.isNone = v1.isNone := by
  cases v1 with
  | none => simp_all
  | some p =>
    obtain ⟨q, -, rfl⟩ : ∃ q, bindPayload columns p = .ok q ∧ some q = v1' := by simpa using h
    rfl

/-- `_apply_bindings`. -/
def applyBindings (operation : OperatorSpec) (columns : List BoundColumn) : Except PlannerError OperatorSpec := do
  let name := boundName columns
  let predicate ← bindOptional columns operation.predicate
  let aggregates ← operation.aggregates.mapM fun a => do
    return { a with expression := ← bindOptional columns a.expression }
  let expressions ← operation.expressions.mapM fun e => do
    return { e with expression := ← bindExpression columns e.expression }
  match h : operation.v1.mapM (bindPayload columns) with
  | .error e => .error e
  | .ok v1 =>
    .ok { operation with
      columns := operation.columns.map name
      predicate := predicate
      groupBy := operation.groupBy.map name
      aggregates := aggregates
      expressions := expressions
      sort := operation.sort.map fun s => { s with column := name s.column }
      joinKeys := operation.joinKeys.map fun k => { left := name k.left, right := name k.right }
      pivotIndex := operation.pivotIndex.map name
      pivotColumn := operation.pivotColumn.map name
      pivotValue := operation.pivotValue.map name
      v1 := v1
      legacyOperator := fun hn => operation.legacyOperator (isNone_of_map_bindPayload h ▸ hn) }

/-- `_deduplicate_columns`: one column per key, the last one, in key order. -/
def deduplicateColumns (columns : List BoundColumn) : List BoundColumn :=
  let key (c : BoundColumn) : Lex (String × Lex (String × String)) :=
    toLex (c.concept, toLex (c.sourceAlias, c.columnName))
  (Kahn.sorted (columns.map key).dedup).filterMap fun k => columns.reverse.find? (key · = k)

/-! ## The planner -/

structure CapabilityPlanner where
  binder : ConceptBinder
  sources : String → Option BoundSource
  capabilities : String → Option CapabilityCatalog
  fragmentSupported : Option (SourceFragment → Bool) := none

structure PlanState where
  physical : List PhysicalNode
  mapping : List (String × String)

def findNode (nodes : List PhysicalNode) (id : String) : Option PhysicalNode := nodes.find? (·.id == id)

def dependenciesOf (nodes : List PhysicalNode) (id : String) : List String :=
  (findNode nodes id).elim [] (·.dependencies)

/-- `f"physical-{id}"`. -/
def physicalId (id : String) : String := "physical-" ++ id

/-- A model validator's `ValueError` leaves a constructor as a `ValidationError`. -/
def constructed {α : Type} (valid : Except String Unit) (value : α) : Except PlannerError α :=
  match valid with
  | .ok () => .ok value
  | .error message => .error (.validationError message)

namespace CapabilityPlanner

variable (lib : ScalarParsers) (planner : CapabilityPlanner)

def supports (logical : LogicalNode) (capability : CapabilityCatalog) : Bool :=
  logical.operation.kind != .join &&
  capability.supports logical.operation.kind &&
  !(logical.operation.kind == .aggregate &&
    logical.operation.aggregates.any fun item => !capability.aggregateFunctions.contains item.function) &&
  !(logical.operation.timeGrain.any fun grain => !capability.timeGrains.contains grain) &&
  !(logical.requiresSpill && !capability.spillSupported) &&
  !(logical.estimatedRows.any fun rows => capability.maxRows.any fun limit => rows > (limit : Int)) &&
  !(logical.estimatedBytes.any fun bytes => capability.maxBytes.any fun limit => bytes > (limit : Int))

/-- The checks made on every node before anything is bound. -/
def checkNode (version : PlanVersion) (node : LogicalNode) : Except PlannerError Unit := do
  if version = .v1 ∨ node.operation.isV1 = true then
    match validateOperatorV1 lib node.operation with
    | .ok () => pure ()
    | .error _ => throw (planFailure "PLAN_OPERATOR_INVALID" "Invalid v1 operator form or value")
  refuseIf node.operation.kind.isBlocked
    (planFailure "OPERATOR_UNSUPPORTED"
      (node.operation.kind.text ++ " requires a governed backend and is not executable"))

def bindConcept (concept : String) : Except PlannerError BoundColumn :=
  match planner.binder concept with
  | .ok column => .ok column
  | .error failure => .error (.bindingFailure failure)

def bindNode (node : LogicalNode) : Except PlannerError (LogicalNode × List BoundColumn) := do
  let bound ← node.concepts.mapM planner.bindConcept
  let mismatched := node.sourceAlias.elim [] fun source =>
    Kahn.sorted ((bound.map (·.sourceAlias)).filter (· ≠ source)).dedup
  refuseIf (!mismatched.isEmpty) (.bindingFailure ⟨"BINDING_SOURCE_MISMATCH",
    s!"Logical node '{node.id}' bindings do not match its source",
    [("logical_source", .text (node.sourceAlias.getD "")), ("bound_sources", .names mismatched)]⟩)
  return (node, bound)

def source (logical : LogicalNode) : Option BoundSource := planner.sources (logical.sourceAlias.getD "")

/-- The source could run this operation. -/
def candidatePushdown (logical : LogicalNode) (operation : OperatorSpec) : Bool :=
  logical.sourceAlias.isSome && !operation.kind.isLocalOnly && !operation.isV1 &&
    (planner.capabilities (logical.sourceAlias.getD "")).any (supports logical)

/-- The predecessor fragment on the same source, when there is exactly one dependency. -/
def fusible (physical : List PhysicalNode) (logical : LogicalNode) (dependencyIds : List String) :
    Option (PhysicalNode × SourceFragment) :=
  match dependencyIds with
  | [dependency] =>
    (findNode physical dependency).bind fun node =>
      node.sourceFragment.bind fun fragment =>
        (planner.source logical).bind fun source =>
          if fragment.source.aliasName = source.aliasName then some (node, fragment) else none
  | _ => none

def supportsFragment (source : Option BoundSource) (operations : List OperatorSpec) : Bool :=
  match source, planner.fragmentSupported with
  | some source, some supported => supported { source, operations }
  | _, _ => true

/-- `pushdown`, after the fragment as it would be has been offered to `fragment_supported`. -/
def pushdown (logical : LogicalNode) (operation : OperatorSpec) (dependencyIds : List String)
    (fused : Option (PhysicalNode × SourceFragment)) : Bool :=
  planner.candidatePushdown logical operation && (dependencyIds.isEmpty || fused.isSome) &&
    planner.supportsFragment (planner.source logical) ((fused.elim [] (·.2.operations)) ++ [operation])

def fragmentNode (logical : LogicalNode) (bound : List BoundColumn) (operation : OperatorSpec)
    (dependencyIds : List String) (source : BoundSource) (fused : Option (PhysicalNode × SourceFragment)) :
    PhysicalNode where
  id := physicalId logical.id
  operation := operation.kind
  dependencies := fused.elim dependencyIds (·.1.dependencies)
  wave := 0
  logicalNodeIds := fused.elim [] (·.1.logicalNodeIds) ++ [logical.id]
  logicalOperations := fused.elim [] (·.1.logicalOperations) ++ [⟨logical.id, operation.kind⟩]
  payload := .sourceFragment {
    source := source
    operations := fused.elim [] (·.2.operations) ++ [operation]
    boundColumns := fused.elim bound fun f => deduplicateColumns (f.2.boundColumns ++ bound) }

def operatorNode (logical : LogicalNode) (operation : OperatorSpec) (dependencyIds : List String) : PhysicalNode where
  id := physicalId logical.id
  operation := operation.kind
  dependencies := dependencyIds
  wave := 0
  logicalNodeIds := [logical.id]
  logicalOperations := [⟨logical.id, operation.kind⟩]
  payload := .operator operation

/-- `tuple(dict.fromkeys(mapping[dep] for dep in logical.dependencies))`: first occurrences. -/
def mappedDependencies (mapping : List (String × String)) (logical : LogicalNode) :
    Except PlannerError (List String) := do
  let mapped ← logical.dependencies.mapM fun dependency =>
    match mapping.lookup dependency with
    | some id => .ok id
    | none => .error (.keyError dependency)
  return mapped.reverse.dedup.reverse

/-- The physical node of one logical node. -/
def physicalNode (st : PlanState) (logical : LogicalNode) (bound : List BoundColumn) :
    Except PlannerError PhysicalNode := do
  let operation ← applyBindings logical.operation bound
  let dependencyIds ← mappedDependencies st.mapping logical
  let fused := planner.fusible st.physical logical dependencyIds
  if planner.pushdown logical operation dependencyIds fused then
    match planner.source logical with
    | none => throw (planFailure "PLAN_SOURCE_MISSING"
        ("Source alias '" ++ logical.sourceAlias.getD "" ++ "' is not bound"))
    | some source =>
      let node := fragmentNode logical bound operation dependencyIds source fused
      constructed node.validatePayload node
  else
    refuseIf dependencyIds.isEmpty
      (planFailure "PLAN_ROOT_LOCAL_UNSUPPORTED"
        ("Root operation '" ++ operation.kind.text ++ "' cannot execute locally without input"))
    let node := operatorNode logical operation dependencyIds
    constructed node.validatePayload node

def planNode (st : PlanState) (item : LogicalNode × List BoundColumn) : Except PlannerError PlanState := do
  let node ← planner.physicalNode st item.1 item.2
  return ⟨st.physical ++ [node], st.mapping ++ [(item.1.id, node.id)]⟩

/-- `_reachable`. -/
def reachable (outputId : String) (nodes : List PhysicalNode) : List String :=
  Worklist.reach (dependenciesOf nodes) (nodes.map (·.id)) outputId

/-- `_assign_waves`. -/
def assignWaves (nodes : List PhysicalNode) : Except PlannerError (List PhysicalNode) :=
  match Layers.assign (dependenciesOf nodes) (nodes.map (·.id)) with
  | none => .error (planFailure "PLAN_CYCLE" "Physical plan contains a dependency cycle")
  | some waves => .ok (waves.filterMap fun (id, wave) => (findNode nodes id).map fun node => { node with wave := wave })

/-- The checked, bound nodes in order. -/
def prepare (graph : ValidatedLogicalGraph lib) : Except PlannerError (List (LogicalNode × List BoundColumn)) := do
  let ordered ← topologicalOrder graph.nodes
  forM ordered (checkNode lib graph.version)
  ordered.mapM planner.bindNode

/-- From the bound nodes to the planned ones and the output's id. -/
def layout (outputNodeId : String) (bound : List (LogicalNode × List BoundColumn)) :
    Except PlannerError (List PhysicalNode × String) := do
  let st ← bound.foldlM planner.planNode ⟨[], []⟩
  match st.mapping.lookup outputNodeId with
  | none => throw (planFailure "PLAN_OUTPUT_MISSING" "Graph output node does not exist")
  | some outputId =>
    let kept := reachable outputId st.physical
    let planned ← assignWaves (st.physical.filter (·.id ∈ kept))
    return (planned, outputId)

def plan (graph : ValidatedLogicalGraph lib) : Except PlannerError PhysicalPlan := do
  let bound ← planner.prepare lib graph
  let (planned, outputId) ← planner.layout graph.outputNodeId bound
  let result : PhysicalPlan := ⟨graph.version, physicalId graph.id, planned, outputId⟩
  constructed (result.versionBoundary lib) result

end CapabilityPlanner

end DataNexus.Runtime
