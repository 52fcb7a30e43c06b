/-
  DataNexus.Runtime.Domain — the query runtime's contracts (`query_runtime/domain.py`,
  `operators.operator_input_count`, `scalar_values.scalar_value`).

  An `OperatorSpecV1` is an `OperatorSpec` whose `v1` part is present, as the subclass is
  in the source; `legacyOperator` is the base class's own validator, which no copy can
  break because copies never touch the kind. `model_copy` does not validate, so every
  other shape rule of the v1 form is a check (`validateOperatorV1`), made again wherever
  the source makes it.

  The parsers of the standard library that `scalar_value` calls (`Decimal`,
  `date.fromisoformat`, `datetime.fromisoformat`) are a parameter (`ScalarParsers`):
  nothing below depends on which texts they accept.
-/

import DataNexus.Lib.Outcome

namespace DataNexus.Runtime

open Lib

inductive OperatorKind where
  | source | select | filter | aggregate | pivot | derive | project | sort | limit | join
  | act | ask | date | deduplicate | distinct | except | explode | impute | intersect | pick
  | resample | sample | search | summarize | unionAll | unionDistinct | unpivot | window
  deriving DecidableEq

namespace OperatorKind

def text : OperatorKind → String
  | source => "SOURCE" | select => "SELECT" | filter => "FILTER" | aggregate => "AGGREGATE" | pivot => "PIVOT"
  | derive => "DERIVE" | project => "PROJECT" | sort => "SORT" | limit => "LIMIT" | join => "JOIN" | act => "ACT"
  | ask => "ASK" | date => "DATE" | deduplicate => "DEDUPLICATE" | distinct => "DISTINCT" | except => "EXCEPT"
  | explode => "EXPLODE" | impute => "IMPUTE" | intersect => "INTERSECT" | pick => "PICK" | resample => "RESAMPLE"
  | sample => "SAMPLE" | search => "SEARCH" | summarize => "SUMMARIZE" | unionAll => "UNION_ALL"
  | unionDistinct => "UNION_DISTINCT" | unpivot => "UNPIVOT" | window => "WINDOW"

/-- `V0_OPERATOR_KINDS`. -/
def isV0 : OperatorKind → Bool
  | source | select | filter | aggregate | pivot | derive | project | sort | limit | join => true
  | _ => false

/-- `BLOCKED_OPERATOR_KINDS`. -/
def isBlocked : OperatorKind → Bool
  | act | ask | search => true
  | _ => false

/-- `SET_OPERATORS`. -/
def isSetOperator : OperatorKind → Bool
  | unionAll | unionDistinct | intersect | except => true
  | _ => false

/-- `operator_input_count`. -/
def inputCount (kind : OperatorKind) : Nat :=
  if kind.isSetOperator || kind == .join then 2 else 1

end OperatorKind

inductive ScalarType where
  | string | integer | float | decimal | boolean | date | timestamp
  deriving DecidableEq

def ScalarType.text : ScalarType → String
  | .string => "string" | .integer => "integer" | .float => "float" | .decimal => "decimal" | .boolean => "boolean"
  | .date => "date" | .timestamp => "timestamp"

inductive ExpressionKind where
  | column | literal | add | subtract | multiply | divide | equal | notEqual | lessThan | lessEqual
  | greaterThan | greaterEqual | and | or | not | isNull | coalesce
  deriving DecidableEq

inductive AggregateFunction where
  | sum | avg | min | max | count
  deriving DecidableEq

inductive JoinType where
  | inner | left | right | full
  deriving DecidableEq

inductive SortDirection where
  | asc | desc
  deriving DecidableEq

inductive TimeGrain where
  | day | week | month | quarter | year
  deriving DecidableEq

inductive PlanVersion where
  | v0 | v1
  deriving DecidableEq

/-- `str | int | float | bool | None`; a float is its IEEE 754 bits. -/
inductive ScalarValue where
  | str (value : String)
  | int (value : Int)
  | float (bits : BitVec 64)
  | bool (value : Bool)
  | null
  deriving DecidableEq

structure CapabilityCatalog where
  operatorKinds : List OperatorKind
  joins : Bool := false
  aggregateFunctions : List AggregateFunction := []
  timeGrains : List TimeGrain := []
  spillSupported : Bool := false
  maxRows : Option Nat := none
  maxBytes : Option Nat := none
  deriving DecidableEq

def CapabilityCatalog.supports (capability : CapabilityCatalog) (kind : OperatorKind) : Bool :=
  if kind = .join then capability.joins && capability.operatorKinds.contains kind
  else capability.operatorKinds.contains kind

structure BoundSource where
  aliasName : String
  sourceType : String
  objectName : String
  deriving DecidableEq

structure BoundColumn where
  concept : String
  sourceAlias : String
  columnName : String
  dataType : ScalarType
  deriving DecidableEq

inductive TypedExpression where
  | mk (kind : ExpressionKind) (dataType : ScalarType) (column : Option String) (value : ScalarValue)
      (args : List TypedExpression)

namespace TypedExpression

def kind : TypedExpression → ExpressionKind
  | mk k _ _ _ _ => k

def dataType : TypedExpression → ScalarType
  | mk _ t _ _ _ => t

def column : TypedExpression → Option String
  | mk _ _ c _ _ => c

def value : TypedExpression → ScalarValue
  | mk _ _ _ v _ => v

def args : TypedExpression → List TypedExpression
  | mk _ _ _ _ as => as

/-- Python truth of an optional name. -/
def named (column : Option String) : Bool := column.any (· ≠ "")

mutual

/-- `validate_shape` of the expression and of every argument below it. -/
def validateShape : TypedExpression → Except String Unit
  | mk kind _ column _ args => do
    validateShapes args
    refuseIf (kind == .column && (!named column || !args.isEmpty)) "column expressions require exactly a column name"
    refuseIf (kind == .literal && (named column || !args.isEmpty)) "literal expressions cannot contain column or args"
    refuseIf (kind != .column && kind != .literal && named column) "operator expressions cannot contain a column name"

def validateShapes : List TypedExpression → Except String Unit
  | [] => .ok ()
  | arg :: args => do
    validateShape arg
    validateShapes args

end

end TypedExpression

/-- Induction over an expression and its arguments. -/
theorem typedExpression_induction {P : TypedExpression → Prop}
    (h : ∀ kind dataType column value args, (∀ arg ∈ args, P arg) → P (.mk kind dataType column value args)) :
    ∀ e, P e := by
  intro e
  refine @TypedExpression.rec P (fun args => ∀ arg ∈ args, P arg) h ?_ ?_ e
  · intro arg harg
    cases harg
  · intro first rest hfirst hrest arg harg
    obtain rfl | harg := List.mem_cons.mp harg
    · exact hfirst
    · exact hrest arg harg

structure NamedExpression where
  name : String
  expression : TypedExpression

structure AggregateSpec where
  name : String
  function : AggregateFunction
  expression : Option TypedExpression := none

structure SortSpec where
  column : String
  direction : SortDirection := .asc
  nullsFirst : Bool := false

structure JoinKey where
  left : String
  right : String

inductive WindowFunction where
  | rowNumber | rank | denseRank | sum | min | max | count
  deriving DecidableEq

structure WindowSpec where
  function : WindowFunction
  output : String
  column : Option String := none
  preceding : Nat := 0

structure DateSpec where
  column : String
  output : String
  grain : TimeGrain

structure UnpivotSpec where
  columns : List String
  nameColumn : String
  valueColumn : String

structure ExplodeSpec where
  column : String
  output : String

structure ImputeSpec where
  column : String
  value : TypedExpression

/-- The fields `OperatorSpecV1` adds. -/
structure V1Payload where
  partitionBy : List String := []
  window : Option WindowSpec := none
  date : Option DateSpec := none
  unpivot : Option UnpivotSpec := none
  explode : Option ExplodeSpec := none
  impute : Option ImputeSpec := none
  sampleSeed : Option Nat := none

structure OperatorSpec where
  kind : OperatorKind
  columns : List String := []
  predicate : Option TypedExpression := none
  groupBy : List String := []
  aggregates : List AggregateSpec := []
  expressions : List NamedExpression := []
  sort : List SortSpec := []
  limit : Option Nat := none
  joinType : Option JoinType := none
  joinKeys : List JoinKey := []
  pivotIndex : List String := []
  pivotColumn : Option String := none
  pivotValue : Option String := none
  pivotValues : List String := []
  timeGrain : Option TimeGrain := none
  v1 : Option V1Payload := none
  /-- `legacy_operator`: a v0 spec has a v0 kind. -/
  legacyOperator : v1.isNone → kind.isV0 = true := by decide

/-- A join that names no keys. -/
def bareJoin : OperatorSpec := { kind := .join }

/-- A select of every column. -/
def bareSelect : OperatorSpec := { kind := .select }

/-- `isinstance(operation, OperatorSpecV1)`. -/
def OperatorSpec.isV1 (operation : OperatorSpec) : Bool := operation.v1.isSome

/-! ## Scalar literals -/

/-- What `scalar_value` asks of the standard library: a decimal text's required integer
    digits and scale, when it parses to a finite value; whether a date or a naive
    timestamp text parses. -/
structure ScalarParsers where
  decimalShape : String → Option (Nat × Nat)
  dateFromIso : String → Bool
  timestampFromIso : String → Bool

/-- No text parses. -/
def noParsers : ScalarParsers := ⟨fun _ => none, fun _ => false, fun _ => false⟩

/-- `math.isfinite` of a float given by its bits. -/
def isFinite (bits : BitVec 64) : Bool := bits.extractLsb' 52 11 != 0x7FF#11

/-- Whether `scalar_value(kind, value)` returns. -/
def scalarValue (lib : ScalarParsers) : ScalarType → ScalarValue → Except String Unit
  | _, .null => .ok ()
  | .string, .str _ => .ok ()
  | .integer, .int value =>
    refuseIf (value < -(2 ^ 63) || value ≥ 2 ^ 63) "Literal value does not match its declared scalar type"
  | .float, .int value =>
    -- `float(value)` overflows from halfway past the largest double on.
    refuseIf (value.natAbs ≥ 2 ^ 1024 - 2 ^ 970) "Float value must be finite"
  | .float, .float bits => refuseIf (!isFinite bits) "Literal value does not match its declared scalar type"
  | .boolean, .bool _ => .ok ()
  | .decimal, .str value =>
    match lib.decimalShape value with
    | none => .error "Invalid decimal literal"
    | some (digits, scale) => refuseIf (digits + scale > 38) "Decimal exceeds precision 38"
  | .decimal, _ => .error "Exact decimal literals require strings"
  | .date, .str value => refuseIf (!lib.dateFromIso value) "Invalid date literal"
  | .timestamp, .str value => refuseIf (!lib.timestampFromIso value) "Invalid timestamp literal"
  | _, _ => .error "Literal value does not match its declared scalar type"

/-! ## The v1 form -/

variable (lib : ScalarParsers)

def hasNul (name : String) : Bool := name.toList.contains (Char.ofNat 0)

/-- What `validate_expression_v1` asks of one node. -/
def validateExpressionNode (node : TypedExpression) : Except String Unit :=
  match node.kind with
  | .literal => do
    refuseIf (!node.args.isEmpty || TypedExpression.named node.column)
      "literal expression cannot have arguments or a column"
    scalarValue lib node.dataType node.value
  | .column =>
    refuseIf (!TypedExpression.named node.column || node.column.any hasNul || !node.args.isEmpty)
      "column expression requires a valid column only"
  | .coalesce => do
    refuseIf (TypedExpression.named node.column) "operator expression cannot have a column"
    refuseIf (node.args.isEmpty || node.args.any (·.dataType != node.dataType))
      "COALESCE requires arguments with matching declared types"
  | kind => do
    refuseIf (TypedExpression.named node.column) "operator expression cannot have a column"
    refuseIf (node.args.length != if kind = .not ∨ kind = .isNull then 1 else 2) "expression has invalid arity"

/-- The work list of `validate_expression_v1`, its top first; `left` counts down from the
    128 nodes it may visit. -/
def validateExpressionLoop : Nat → List (TypedExpression × Nat) → Except String Unit
  | _, [] => .ok ()
  | 0, _ :: _ => .error "expression exceeds depth/node limits"
  | left + 1, (node, depth) :: pending => do
    refuseIf (depth > 16) "expression exceeds depth/node limits"
    validateExpressionNode lib node
    validateExpressionLoop left ((node.args.map (·, depth + 1)).reverse ++ pending)

def validateExpressionV1 (expression : TypedExpression) : Except String Unit :=
  validateExpressionLoop lib 128 [(expression, 0)]

/-- The operator fields whose presence `extension_shape` looks at. -/
inductive OperatorField where
  | columns | predicate | groupBy | aggregates | expressions | sort | limit | joinType | joinKeys
  | pivotIndex | pivotColumn | pivotValue | pivotValues | timeGrain
  | partitionBy | window | date | unpivot | explode | impute | sampleSeed
  deriving DecidableEq

def OperatorSpec.payload (operation : OperatorSpec) : V1Payload := operation.v1.getD {}

/-- `model_dump(exclude_defaults=True)`, less the kind and the version. -/
def OperatorSpec.nonDefaults (op : OperatorSpec) : List OperatorField :=
  let present : List (OperatorField × Bool) := [
    (.columns, !op.columns.isEmpty), (.predicate, op.predicate.isSome), (.groupBy, !op.groupBy.isEmpty),
    (.aggregates, !op.aggregates.isEmpty), (.expressions, !op.expressions.isEmpty), (.sort, !op.sort.isEmpty),
    (.limit, op.limit.isSome), (.joinType, op.joinType.isSome), (.joinKeys, !op.joinKeys.isEmpty),
    (.pivotIndex, !op.pivotIndex.isEmpty), (.pivotColumn, op.pivotColumn.isSome),
    (.pivotValue, op.pivotValue.isSome), (.pivotValues, !op.pivotValues.isEmpty), (.timeGrain, op.timeGrain.isSome),
    (.partitionBy, !op.payload.partitionBy.isEmpty), (.window, op.payload.window.isSome),
    (.date, op.payload.date.isSome), (.unpivot, op.payload.unpivot.isSome),
    (.explode, op.payload.explode.isSome), (.impute, op.payload.impute.isSome),
    (.sampleSeed, op.payload.sampleSeed.isSome)]
  (present.filter (·.2)).map (·.1)

def OperatorKind.allowedFields : OperatorKind → List OperatorField
  | .select | .project => [.columns, .expressions]
  | .derive => [.expressions]
  | .filter => [.predicate]
  | .sort => [.sort]
  | .limit => [.limit]
  | .aggregate | .summarize => [.groupBy, .aggregates]
  | .join => [.joinType, .joinKeys]
  | .pivot => [.pivotIndex, .pivotColumn, .pivotValue, .pivotValues]
  | .distinct => [.columns]
  | .deduplicate => [.partitionBy, .sort]
  | .pick => [.partitionBy, .sort, .limit]
  | .sample => [.sampleSeed, .limit]
  | .window => [.partitionBy, .sort, .window]
  | .date => [.date]
  | .resample => [.date, .groupBy, .aggregates]
  | .unpivot => [.unpivot]
  | .explode => [.explode]
  | .impute => [.impute]
  | _ => []

def OperatorSpec.hasRequired (op : OperatorSpec) : Bool :=
  match op.kind with
  | .filter => op.predicate.isSome
  | .limit => op.limit.isSome
  | .select | .project => !op.columns.isEmpty || !op.expressions.isEmpty
  | .derive => !op.expressions.isEmpty
  | .aggregate | .summarize | .resample => !op.aggregates.isEmpty
  | .join => op.joinType.isSome && !op.joinKeys.isEmpty
  | .sort => !op.sort.isEmpty
  | .pivot =>
    TypedExpression.named op.pivotColumn && TypedExpression.named op.pivotValue && !op.pivotValues.isEmpty
  | _ => true

def OperatorSpec.identifiers (op : OperatorSpec) : List String :=
  op.columns ++ op.groupBy ++ op.payload.partitionBy ++ op.pivotIndex ++ op.pivotValues ++
    op.expressions.map (·.name) ++ op.aggregates.map (·.name) ++ op.sort.map (·.column) ++
    op.joinKeys.map (·.left) ++ op.joinKeys.map (·.right) ++ op.pivotColumn.toList ++ op.pivotValue.toList ++
    op.payload.window.toList.flatMap (fun w => w.output :: w.column.toList) ++
    op.payload.date.toList.flatMap (fun d => [d.column, d.output]) ++
    op.payload.unpivot.toList.flatMap (fun u => u.columns ++ [u.nameColumn, u.valueColumn]) ++
    op.payload.explode.toList.flatMap (fun e => [e.column, e.output]) ++
    op.payload.impute.toList.map (·.column)

def OperatorSpec.allExpressions (op : OperatorSpec) : List TypedExpression :=
  op.expressions.map (·.expression) ++ op.aggregates.filterMap (·.expression) ++ op.predicate.toList ++
    op.payload.impute.toList.map (·.value)

/-- `Field(min_length=1, max_length=128)`. -/
def boundedName (name : String) : Bool := 1 ≤ name.length && name.length ≤ 128

def WindowFunction.isRanking : WindowFunction → Bool
  | .rowNumber | .rank | .denseRank => true
  | _ => false

/-- The field constraints and nested validators of the v1 models. -/
def OperatorSpec.validateFields (op : OperatorSpec) : Except String Unit := do
  forM op.allExpressions TypedExpression.validateShape
  refuseIf (op.predicate.any (·.dataType != .boolean)) "predicate expression must be boolean"
  refuseIf (op.limit.any (· > 1000000)) "limit"
  refuseIf (op.payload.partitionBy.length > 128) "partition_by"
  refuseIf (op.payload.window.any fun w => !boundedName w.output || w.preceding > 100000) "window"
  refuseIf (op.payload.window.any fun w => w.function.isRanking && (w.column.isSome || w.preceding != 0))
    "ranking windows do not take a column or frame"
  refuseIf (op.payload.window.any fun w => !w.function.isRanking && !TypedExpression.named w.column)
    "aggregate windows require a column"
  refuseIf (op.payload.date.any fun d => !boundedName d.column || !boundedName d.output) "date"
  refuseIf (op.payload.unpivot.any fun u =>
    u.columns.isEmpty || u.columns.length > 128 || !boundedName u.nameColumn || !boundedName u.valueColumn) "unpivot"
  refuseIf (op.payload.explode.any fun e => !boundedName e.column || !boundedName e.output) "explode"
  refuseIf (op.payload.impute.any fun i => !boundedName i.column) "impute"
  refuseIf (op.payload.impute.any fun i => i.value.kind != .literal || i.value.value == .null)
    "imputation requires a non-null typed literal"
  forM op.payload.impute.toList fun i => scalarValue lib i.value.dataType i.value.value
  refuseIf (op.payload.sampleSeed.any (· > 2 ^ 32 - 1)) "sample_seed"

/-- The kinds each payload belongs to, in the order `extension_shape` checks them. -/
def OperatorSpec.payloadPresence (op : OperatorSpec) : List (Bool × Bool × String) := [
  (op.payload.window.isSome, op.kind == .window, "window is required only for [WINDOW]"),
  (op.payload.date.isSome, op.kind == .date || op.kind == .resample, "date is required only for [DATE, RESAMPLE]"),
  (op.payload.unpivot.isSome, op.kind == .unpivot, "unpivot is required only for [UNPIVOT]"),
  (op.payload.explode.isSome, op.kind == .explode, "explode is required only for [EXPLODE]"),
  (op.payload.impute.isSome, op.kind == .impute, "impute is required only for [IMPUTE]"),
  (op.payload.sampleSeed.isSome, op.kind == .sample, "sample_seed is required only for [SAMPLE]")]

def OperatorSpec.extensionShape (op : OperatorSpec) : Except String Unit := do
  refuseIf (op.nonDefaults.any fun field => !op.kind.allowedFields.contains field)
    "operator contains parameters that its form does not support"
  refuseIf (!op.hasRequired) (op.kind.text ++ " requires its supported form payload")
  refuseIf (op.aggregates.any fun a => a.function != .count && a.expression.isNone)
    "non-COUNT aggregates require an expression"
  refuseIf (op.identifiers.any fun name => name == "" || hasNul name)
    "operator identifiers cannot be empty or contain null bytes"
  forM op.allExpressions (validateExpressionV1 lib)
  refuseIf (op.sort.length > 128 || op.aggregates.length > 128 || op.expressions.length > 128 ||
    op.joinKeys.length > 128) "operator lists are limited to 128 entries"
  forM op.payloadPresence fun (present, expected, message) => refuseIf (present != expected) message
  if op.kind = .pick ∨ op.kind = .deduplicate ∨ op.kind = .window then
    refuseIf op.sort.isEmpty "ordered selection/window requires explicit sort keys"
  else
    refuseIf (!op.payload.partitionBy.isEmpty) "partition_by requires PICK, DEDUPLICATE or WINDOW"
  refuseIf (op.kind == .sample && op.limit.isNone) "SAMPLE requires a limit"
  refuseIf (op.kind == .resample && op.aggregates.isEmpty) "RESAMPLE requires aggregates"
  refuseIf ((op.kind == .distinct || op.kind == .deduplicate) && op.limit.any (· ≠ 0))
    "deduplication does not take a limit"
  forM [op.payload.partitionBy, op.columns, op.groupBy, op.pivotValues] fun values =>
    refuseIf (values.length > 128 || values.dedup.length != values.length)
      "column/value lists must be unique and at most 128 items"

/-- `validate_operator_v1`: the spec's dump, read again as a v1 spec. -/
def validateOperatorV1 (op : OperatorSpec) : Except String Unit := do
  op.validateFields lib
  op.extensionShape lib

/-! ## Physical plans -/

structure SourceFragment where
  source : BoundSource
  operations : List OperatorSpec
  boundColumns : List BoundColumn := []

structure LogicalOperationRef where
  logicalNodeId : String
  operation : OperatorKind
  deriving DecidableEq

/-- What a physical node runs; `PhysicalNodeKind` is which of the two it is. -/
inductive NodePayload where
  | sourceFragment (fragment : SourceFragment)
  | operator (operator : OperatorSpec)

structure PhysicalNode where
  id : String
  operation : OperatorKind
  dependencies : List String
  wave : Nat
  logicalNodeIds : List String
  logicalOperations : List LogicalOperationRef
  payload : NodePayload

namespace PhysicalNode

/-- The operations the node executes, in order. -/
def operations (node : PhysicalNode) : List OperatorSpec :=
  match node.payload with
  | .sourceFragment fragment => fragment.operations
  | .operator operator => [operator]

def isSourceFragment (node : PhysicalNode) : Bool :=
  match node.payload with
  | .sourceFragment _ => true
  | .operator _ => false

def sourceFragment (node : PhysicalNode) : Option SourceFragment :=
  match node.payload with
  | .sourceFragment fragment => some fragment
  | .operator _ => none

def operator (node : PhysicalNode) : Option OperatorSpec :=
  match node.payload with
  | .sourceFragment _ => none
  | .operator operator => some operator

/-- The validators of `PhysicalNode` (`validate_payload`) and of its fragment
    (`legacy_fragment`). -/
def validatePayload (node : PhysicalNode) : Except String Unit := do
  refuseIf (node.sourceFragment.any fun f => f.operations.any (·.isV1)) "v0 source fragments cannot contain v1 payloads"
  refuseIf (node.logicalNodeIds.length > 1 && node.logicalOperations.isEmpty)
    "fused nodes require logical operation metadata"
  refuseIf (!node.logicalOperations.isEmpty && node.logicalOperations.map (·.logicalNodeId) != node.logicalNodeIds)
    "logical operation metadata must match logical node IDs"
  match node.operations.getLast? with
  | none => .error "source fragment requires at least one operation"
  | some last => refuseIf (node.operation != last.kind) "node operation must match its final operation"

end PhysicalNode

structure PhysicalPlan where
  version : PlanVersion
  id : String
  nodes : List PhysicalNode
  outputNodeId : String

/-- `PhysicalPlan.version_boundary`. -/
def PhysicalPlan.versionBoundary (plan : PhysicalPlan) : Except String Unit :=
  match plan.version with
  | .v0 =>
    refuseIf (plan.nodes.any fun node => node.operator.any (·.isV1) || !node.operation.isV0 ||
      node.logicalOperations.any fun ref => !ref.operation.isV0) "v1 operators require a query-runtime/v1 plan"
  | .v1 => forM plan.nodes fun node => forM node.operations (validateOperatorV1 lib)

end DataNexus.Runtime
