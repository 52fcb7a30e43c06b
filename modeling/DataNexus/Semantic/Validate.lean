/-
  DataNexus.Semantic.Validate — `SQGValidator.validate`: the graph's structure, the flows
  of its nodes, that the output enforces what the question resolved to, and the shapes the
  trusted modes permit (`semantic_api/validator.py`).

  A node's first position stands for `node_positions`. Time windows compare as instants;
  the compiler has put its windows through JSON, so their offsets are fixed ones.
-/

import DataNexus.Semantic.Validator

namespace DataNexus.Semantic

open Lib Noted

def region : String := "commerce.sales_record.region"

def period : String := "commerce.sales_record.period"

def profit : String := "metric.profit"

structure ValidationResult where
  normalized : Option SQG
  diagnostics : List Diagnostic
  deriving DecidableEq

/-- Every diagnostic is an ERROR. -/
def ValidationResult.valid (result : ValidationResult) : Bool :=
  result.normalized.isSome && result.diagnostics.isEmpty

/-! ## Structure -/

/-- `node_positions`. -/
def position? (nodes : List SQGNode) (id : String) : Option Nat := nodes.findIdx? (·.id = id)

def SQG.node? (sqg : SQG) (id : String) : Option SQGNode := sqg.nodes.find? (·.id = id)

def Operator.arity : Operator → Nat
  | select => 0
  | join => 2
  | _ => 1

def checkDependency (nodes : List SQGNode) (index : Nat) (node : SQGNode) (item : String × Nat) : Check Unit := do
  let path := "nodes." ++ toString index ++ ".dependencies"
  noteIf (item.1 ∈ node.dependencies.take item.2) ⟨"DUPLICATE_DEPENDENCY", "A dependency may appear only once per node.",
    path, [("dependency", .text item.1)]⟩
  if item.1 = node.id then note ⟨"SELF_DEPENDENCY", "A node cannot depend on itself.", path, []⟩
  else
    match position? nodes item.1 with
    | none =>
      note ⟨"MISSING_DEPENDENCY", "A dependency references an unknown node.", path, [("dependency", .text item.1)]⟩
    | some position =>
      noteIf (index ≤ position) ⟨"FORWARD_DEPENDENCY", "Dependencies must reference an earlier node.", path,
        [("dependency", .text item.1)]⟩

def checkDependencies (nodes : List SQGNode) (index : Nat) (node : SQGNode) : Check Unit := do
  forM node.dependencies.zipIdx (checkDependency nodes index node)
  noteIf (node.dependencies.length ≠ node.operator.arity) ⟨"DEPENDENCY_ARITY_INVALID",
    "Operator has an invalid number of dependencies.", "nodes." ++ toString index ++ ".dependencies",
    [("expected", .int node.operator.arity), ("actual", .int node.dependencies.length)]⟩

def checkId (nodes : List SQGNode) (item : SQGNode × Nat) : Check Unit :=
  noteIf (position? nodes item.1.id ≠ some item.2) ⟨"DUPLICATE_NODE_ID", "Node IDs must be unique.",
    "nodes." ++ toString item.2 ++ ".id", [("node_id", .text item.1.id)]⟩

def checkNode (nodes : List SQGNode) (item : SQGNode × Nat) : Check Unit := do
  noteIf (item.1.operator ≠ item.1.parameters.kind) ⟨"OPERATOR_PARAMETER_MISMATCH",
    "Node parameters do not match the declared operator.", "nodes." ++ toString item.2 ++ ".parameters.kind", []⟩
  checkDependencies nodes item.2 item.1

/-- `dependency_structure_valid`. -/
def SQG.dependencyStructureValid (sqg : SQG) : Bool :=
  (sqg.nodes.zipIdx.all fun item =>
    position? sqg.nodes item.1.id = some item.2 && (checkDependencies sqg.nodes item.2 item.1).notes.isEmpty) &&
  (position? sqg.nodes sqg.outputNodeId).isSome

def SQG.dependenciesOf (sqg : SQG) (id : String) : List String := ((sqg.node? id).map (·.dependencies)).getD []

/-- `_ancestors`. -/
def SQG.ancestors (sqg : SQG) : List String :=
  Worklist.reach sqg.dependenciesOf (sqg.nodes.map (·.id)) sqg.outputNodeId

def SQG.checkStructure (sqg : SQG) : Check Unit := do
  forM sqg.nodes.zipIdx (checkId sqg.nodes)
  forM sqg.nodes.zipIdx (checkNode sqg.nodes)
  if (position? sqg.nodes sqg.outputNodeId).isNone then
    note ⟨"OUTPUT_NODE_MISSING", "The output node does not exist.", "output_node_id", []⟩
  else if sqg.dependencyStructureValid then
    forM sqg.nodes.zipIdx fun item =>
      noteIf (item.1.id ∉ sqg.ancestors) ⟨"NODE_NOT_OUTPUT_REACHABLE",
        "Every node must contribute to the declared output.", "nodes." ++ toString item.2 ++ ".id",
        [("node_id", .text item.1.id)]⟩
  else pure ()

/-! ## What the output must enforce -/

def expectedMembers (terms : List ResolvedTerm) : List String :=
  (terms.filter (·.kind = .member)).map (·.machineId)

def windowInstants (window : TimeWindow) : Option (Int × Int) :=
  window.start.asUtc.bind fun start => window.endExclusive.asUtc.map (start, ·)

def expectedWindows (windows : List TimeWindow) : List (Int × Int) := (windows.filterMap windowInstants).dedup

/-- The smaller of two windows, and the other. -/
def orderedWindows (a b : Int × Int) : (Int × Int) × (Int × Int) :=
  if a.1 < b.1 ∨ (a.1 = b.1 ∧ a.2 ≤ b.2) then (a, b) else (b, a)

/-- A monthly comparison filters its two adjacent windows as one. -/
def expectedFilterWindows (mode : Option CompilationMode) (windows : List TimeWindow) : List (Int × Int) :=
  match mode, expectedWindows windows with
  | some .monthlyRegionalComparison, [a, b] =>
    let ordered := orderedWindows a b
    if ordered.1.2 = ordered.2.1 then [(ordered.1.1, ordered.2.2)] else [a, b]
  | _, windows => windows

def sameSet (xs ys : List String) : Bool := xs.all (ys.contains ·) && ys.all (xs.contains ·)

namespace SQGValidator

variable (v : SQGValidator)

def datetimeTerms (terms : List ResolvedTerm) : List String :=
  (terms.filter fun term => term.kind = .field &&
    (v.registry.field? term.machineId).any fun field => field.dataType = .datetime).map (·.machineId)

def expectedTimeFields (mode : Option CompilationMode) (terms : List ResolvedTerm) (windows : List TimeWindow) :
    List String :=
  if expectedWindows windows = [] then v.datetimeTerms terms
  else if mode.isSome || v.datetimeTerms terms = [] then [period]
  else v.datetimeTerms terms

/-- `expected_members_by_field[field_id]`; empty where it has no such key. -/
def membersByField (terms : List ResolvedTerm) (fieldId : String) : List String :=
  (expectedMembers terms).filter fun id => (v.registry.member? id).map (·.1) = some fieldId

def expectedConcepts (terms : List ResolvedTerm) : List String :=
  (terms.filter fun term => term.kind = .entity || term.kind = .field || term.kind = .metric).map (·.machineId)

end SQGValidator

namespace Flow

/-- The concepts the output's columns come from or its rows are decided by. -/
def contributing (flow : Flow) : List String :=
  flow.columns.flatMap (·.2.conceptLineage) ++ flow.columns.flatMap (·.2.entities) ++ flow.enforcingConcepts

def enforcedMembers (flow : Flow) : List String :=
  (flow.memberConstraints.filter (·.sourceEnforcing)).flatMap (·.values)

def introducedMembers (flow : Flow) : List String := flow.memberConstraints.flatMap (·.values)

def enforcedWindows (flow : Flow) (fields : List String) : List (Int × Int) :=
  (flow.timeConstraints.filter fun c => c.sourceEnforcing && (fields.isEmpty || fields.contains c.fieldId)).filterMap
    (·.window)

def introducedWindows (flow : Flow) : List (Int × Int) := flow.timeConstraints.filterMap (·.window)

/-- `member_predicates[field_id]`. -/
def memberPredicates (flow : Flow) (fieldId : String) : List (List String) :=
  (flow.memberConstraints.filter (·.fieldId = fieldId)).map (·.values)

end Flow

/-- The flow read where there is no output flow. -/
def Flow.empty : Flow := { columns := [], grain := [], entities := [] }

/-- The sorted members of `xs` that are not in `ys`. -/
def sortedDifference (xs ys : List String) : List String := Kahn.sorted (xs.filter (!ys.contains ·)).dedup

def windowDifference (xs ys : List (Int × Int)) : List (Int × Int) := (xs.filter (!ys.contains ·)).dedup

namespace SQGValidator

variable (v : SQGValidator)

def checkMemberShape (flow : Flow) (terms : List ResolvedTerm) (fieldId : String) : Check Unit :=
  match flow.memberPredicates fieldId with
  | [values] =>
    noteIf (v.membersByField terms fieldId ≠ [] && !sameSet values (v.membersByField terms fieldId))
      ⟨"MEMBER_CONSTRAINT_SHAPE_INVALID", "Member predicate set must exactly match resolved members for its domain.",
        "nodes", [("field_id", .text fieldId)]⟩
  | predicates =>
    note ⟨"MEMBER_CONSTRAINT_SHAPE_INVALID", "Each governed member domain requires one canonical EQ or IN predicate.",
      "nodes", [("field_id", .text fieldId), ("predicate_count", .int predicates.length)]⟩

def checkTimeShape (flow : Flow) (fields : List String) (filterWindows : List (Int × Int)) : Check Unit := do
  let missing := windowDifference filterWindows (flow.enforcedWindows fields)
  noteIf (missing ≠ []) ⟨"MISSING_TIME_CONSTRAINT", "A normalized time window is not enforced by the candidate SQG.",
    "nodes", [("window_count", .int missing.length)]⟩
  let introduced := windowDifference flow.introducedWindows filterWindows
  noteIf (introduced ≠ []) ⟨"UNRESOLVED_TIME_CONSTRAINT",
    "Candidate SQG introduced a time window not normalized from the request.", "nodes",
    [("window_count", .int introduced.length)]⟩
  noteIf (flow.timeConstraints.length ≠ filterWindows.length || flow.timeConstraints.any (·.window.isNone))
    ⟨"TIME_CONSTRAINT_SHAPE_INVALID", "Time constraints require exactly one canonical governed BETWEEN predicate.",
      "nodes", [("expected_count", .int filterWindows.length), ("predicate_count", .int flow.timeConstraints.length)]⟩

/-- `_validate_constraint_coverage`. -/
def validateConstraintCoverage (output : Option Flow) (terms : List ResolvedTerm) (windows : List TimeWindow)
    (mode : Option CompilationMode) : Check Unit := do
  let flow := output.getD .empty
  let fields := v.expectedTimeFields mode terms windows
  forM windows.zipIdx fun item =>
    noteIf (windowInstants item.1).isNone ⟨"DATETIME_INSTANT_OUT_OF_RANGE",
      "Normalized time boundaries cannot be represented as UTC instants.", "time_windows." ++ toString item.2, []⟩
  forM flow.timeConstraints fun c =>
    noteIf (fields ≠ [] && !fields.contains c.fieldId) ⟨"UNRESOLVED_TIME_DOMAIN",
      "Time constraint targets a field outside the normalized time domain.", "nodes", [("field_id", .text c.fieldId)]⟩
  forM (sortedDifference (expectedConcepts terms) flow.contributing) fun id =>
    note ⟨"MISSING_RESOLVED_CONCEPT", "A resolved semantic concept does not contribute to the candidate output.",
      "nodes", [("concept_id", .text id)]⟩
  forM (Kahn.sorted (flow.memberConstraints.map (·.fieldId)).dedup) (v.checkMemberShape flow terms)
  forM (sortedDifference (expectedMembers terms) flow.enforcedMembers) fun id =>
    note ⟨"MISSING_MEMBER_CONSTRAINT", "A resolved member is not enforced by the candidate SQG.", "nodes",
      [("member_id", .text id)]⟩
  forM (sortedDifference flow.introducedMembers (expectedMembers terms)) fun id =>
    note ⟨"UNRESOLVED_MEMBER_CONSTRAINT", "Candidate SQG introduced a member not resolved from the request.", "nodes",
      [("member_id", .text id)]⟩
  checkTimeShape flow fields (expectedFilterWindows mode windows)

end SQGValidator

/-! ## The trusted modes -/

namespace CompilationMode

def expectedSchema : CompilationMode → List (String × ScalarType)
  | regionalQuarterlyProfit => [("region", .string), ("period", .datetime), ("profit", .number)]
  | monthlyRegionalComparison =>
    [("region", .string), ("profit_current", .number), ("profit_previous", .number), ("profit_change", .number)]

def requiredOutputLineage : CompilationMode → List (String × String)
  | regionalQuarterlyProfit => [("region", region), ("period", period), ("profit", profit)]
  | monthlyRegionalComparison =>
    [("region", region), ("profit_current", profit), ("profit_previous", profit), ("profit_change", profit)]

def expectedTail : CompilationMode → List Operator
  | regionalQuarterlyProfit => [.aggregate, .sort, .project]
  | monthlyRegionalComparison => [.aggregate, .pivot, .derive, .project]

end CompilationMode

/-- The nodes from `node?` back to one without dependencies; none where one has several. -/
def linearBack (sqg : SQG) : Nat → Option SQGNode → Option (List SQGNode)
  | 0, _ => some []
  | _ + 1, none => some []
  | fuel + 1, some node =>
    match node.dependencies with
    | [] => some [node]
    | [dependency] => (linearBack sqg fuel (sqg.node? dependency)).map (node :: ·)
    | _ => none

/-- `linear_path`. Every step goes to an earlier node, so there are no more steps than nodes. -/
def SQG.linearPath (sqg : SQG) : List SQGNode :=
  ((linearBack sqg sqg.nodes.length (sqg.node? sqg.outputNodeId)).getD []).reverse

/-- `exact_topology`. -/
def SQG.exactTopology (sqg : SQG) (mode : CompilationMode) : Bool :=
  let operators := sqg.linearPath.map (·.operator)
  let filterCount := if operators.head? = some .select then (operators.tail.takeWhile (· = .filter)).length else 0
  sqg.linearPath.length = sqg.nodes.length &&
    operators = .select :: List.replicate filterCount .filter ++ mode.expectedTail

def allowedFilterColumns (terms : List ResolvedTerm) (windows : List TimeWindow) : List String :=
  (if terms.any (·.kind = .member) then [region] else []) ++ if windows.isEmpty then [] else [period]

/-- `exact_aggregate`. -/
def SQG.exactAggregate (sqg : SQG) : Bool :=
  (sqg.nodes.filterMap fun node =>
    match node.operator, node.parameters with
    | .aggregate, .aggregate groupBy measures => some (groupBy, measures)
    | _, _ => none) = [([region, period], [⟨profit, "profit", .sum⟩])]

/-- The pivots on the linear path. -/
def SQG.pivots (sqg : SQG) : List (List String × String × String × List String × List PivotValueBinding) :=
  sqg.linearPath.filterMap fun node =>
    match node.parameters with
    | .pivot index column value values bindings => some (index, column, value, values, bindings)
    | _ => none

def actualBindings (bindings : List PivotValueBinding) : List (String × Option Int) :=
  bindings.map fun binding => (binding.aliasName, binding.value.asUtc)

/-- The later window's start for `profit_current`, the earlier one's for `profit_previous`;
    without two windows, whatever instants the candidate binds. -/
def expectedBindings (windows : List TimeWindow) (actual : List (String × Option Int)) : List (String × Option Int) :=
  match windows with
  | [a, b] =>
    let (first, second) := if b.start.instant < a.start.instant then (b, a) else (a, b)
    [("profit_current", second.start.asUtc), ("profit_previous", first.start.asUtc)]
  | _ => [("profit_current", (actual[0]?).bind (·.2)), ("profit_previous", (actual[1]?).bind (·.2))]

/-- `exact_pivot`. -/
def SQG.exactPivot (sqg : SQG) (windows : List TimeWindow) : Bool :=
  match sqg.pivots with
  | [(index, column, value, values, bindings)] =>
    let actual := actualBindings bindings
    index = [region] && column = period && value = "profit" && values = ["profit_current", "profit_previous"] &&
      actual = expectedBindings windows actual &&
      match actual.map (·.2) with
      | [some current, some previous] => previous < current
      | _ => false
  | _ => false

def expectedProjectMapping : List (String × String) :=
  [("region", region), ("profit_current", "profit_current"), ("profit_previous", "profit_previous"),
    ("profit_change", "profit_change")]

/-- Whether the projections, read as a dict from alias to source, are the expected mapping. -/
def projectMappingMatches (columns : List Projection) : Bool :=
  (columns.all fun column => (expectedProjectMapping.lookup column.aliasName).isSome) &&
    expectedProjectMapping.all fun item =>
      ((columns.reverse.find? (·.aliasName = item.1)).map (·.source)) = some item.2

def SQG.projections (sqg : SQG) : List Projection :=
  match (sqg.node? sqg.outputNodeId).map SQGNode.parameters with
  | some (.project columns) => columns
  | _ => []

/-- The columns of the DERIVE under the output. -/
def SQG.derivedColumns (sqg : SQG) : List DerivedColumn :=
  match (sqg.node? sqg.outputNodeId).map (·.dependencies) with
  | some [dependency] =>
    match (sqg.node? dependency).map SQGNode.parameters with
    | some (.derive columns) => columns
    | _ => []
  | _ => []

/-- `exact_change`. -/
def SQG.exactChange (sqg : SQG) : Bool :=
  match sqg.derivedColumns.filter (·.output = "profit_change") with
  | [change] => change.expression = .binary .subtract (.column "profit_current") (.column "profit_previous")
  | _ => false

/-- Whether an output column comes from its concept; profit only through an aggregate. -/
def lineageValid (flow : Flow) (item : String × String) : Bool :=
  (flow.column? item.1).any fun column =>
    column.conceptLineage.contains item.2 && (item.2 ≠ profit || column.aggregatedConcepts.contains item.2)

/-- `_validate_compilation_mode`. -/
def validateCompilationMode (sqg : SQG) (output : Option Flow) (mode : CompilationMode) (terms : List ResolvedTerm)
    (windows : List TimeWindow) : Check Unit :=
  match output with
  | none => pure ()
  | some flow => do
    let detail : String × Detail := ("mode", .text mode.text)
    forM (sortedDifference [region, period, profit] flow.usedConcepts) fun id =>
      note ⟨"COMPILATION_MODE_CONCEPT_MISSING", "Candidate omits a concept required by the compilation mode.", "nodes",
        [("concept_id", .text id), detail]⟩
    noteIf ((flow.columns.map fun c => (c.1, c.2.dataType)) ≠ mode.expectedSchema) ⟨"COMPILATION_MODE_SCHEMA_INVALID",
      "Output schema does not match the trusted compilation mode contract.", "result_schema", [detail]⟩
    forM mode.requiredOutputLineage fun item =>
      noteIf (!lineageValid flow item) ⟨"COMPILATION_MODE_OUTPUT_LINEAGE_INVALID",
        "Trusted output is not derived from its required semantic concept.", "result_schema",
        [("column", .text item.1), ("concept_id", .text item.2), detail]⟩
    noteIf (!sqg.exactTopology mode) ⟨"COMPILATION_MODE_TOPOLOGY_INVALID",
      "Candidate operator topology is not permitted by the trusted mode.", "nodes", [detail]⟩
    forM sqg.nodes fun node =>
      match node.parameters with
      | .filter predicate =>
        noteIf (!(allowedFilterColumns terms windows).contains predicate.column) ⟨"COMPILATION_MODE_FILTER_INVALID",
          "Trusted modes allow only filters backed by resolved constraints.", "nodes",
          [("column", .text predicate.column), detail]⟩
      | _ => pure ()
    noteIf (!sqg.exactAggregate) ⟨"COMPILATION_MODE_AGGREGATE_INVALID",
      "Trusted modes require SUM(metric.profit) at the governed region and period grain.", "nodes", [detail]⟩
    if mode = .monthlyRegionalComparison then
      noteIf (!sqg.exactPivot windows) ⟨"COMPILATION_MODE_PIVOT_INVALID",
        "Monthly comparison requires the canonical governed period pivot.", "nodes", [detail]⟩
      noteIf (!projectMappingMatches sqg.projections || !sqg.exactChange) ⟨"COMPILATION_MODE_DERIVATION_INVALID",
        "Monthly comparison requires profit_current minus profit_previous.", "nodes", [detail]⟩
    else pure ()

/-! ## Validation -/

namespace SQGValidator

variable (v : SQGValidator)

/-- One round of the loop over the nodes; a later node of the same id replaces the flow. -/
def flowStep (selected : List String) (flows : List (String × Flow)) (item : SQGNode × Nat) :
    Check (List (String × Flow)) := do
  match ← v.validateNode selected flows item.1 item.2 with
  | none => pure flows
  | some flow => pure ((item.1.id, flow) :: flows)

def flowsOf (selected : List String) (nodes : List SQGNode) : Check (List (String × Flow)) :=
  nodes.zipIdx.foldlM (v.flowStep selected) []

/-- Everything up to the result schema; the flows are empty where the structure is invalid. -/
def validateFlows (candidate : SQG) (context : SemanticContext) (terms : List ResolvedTerm)
    (windows : List TimeWindow) (mode : Option CompilationMode) : Check (List (String × Flow)) := do
  candidate.checkStructure
  if candidate.dependencyStructureValid then
    let flows ← v.flowsOf context.selected candidate.nodes
    v.validateConstraintCoverage (flows.lookup candidate.outputNodeId) terms windows mode
    match mode with
    | none => pure ()
    | some mode => validateCompilationMode candidate (flows.lookup candidate.outputNodeId) mode terms windows
    pure flows
  else pure []

def validate (candidate : SQG) (context : SemanticContext) (terms : List ResolvedTerm) (windows : List TimeWindow)
    (mode : Option CompilationMode) : ValidationResult :=
  let checked := v.validateFlows candidate context terms windows mode
  match checked.value.lookup candidate.outputNodeId with
  | none => ⟨none, checked.notes⟩
  | some flow =>
    let inferred : List ResultColumn := flow.columns.map fun c => ⟨c.1, c.2.dataType⟩
    let diagnostics := checked.notes ++
      if candidate.resultSchema ≠ [] ∧ candidate.resultSchema ≠ inferred then
        [⟨"RESULT_SCHEMA_MISMATCH", "Declared result schema does not match deterministic column flow.",
          "result_schema", []⟩]
      else []
    let schema := if candidate.resultSchema = [] then inferred else candidate.resultSchema
    ⟨if diagnostics = [] then some { candidate with resultSchema := schema } else none, diagnostics⟩

end SQGValidator

end DataNexus.Semantic
