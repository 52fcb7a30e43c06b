/-
  DataNexus.Runtime.OperatorQueries — a spec as one DuckDB statement (`operators.py`,
  `operators_v1.py`).

  `buildQuery` is `DuckDBOperatorExecutor._build_query`: the text and the parameters, put
  together apart from each other. Of the input tables it reads the schemas. Two notions of
  case meet here: `_add_output_name` and its kin fold the letters A to Z, `_new_name` asks
  `str.lower`, whose tables are a parameter.
-/

import DataNexus.Runtime.Rendering

namespace DataNexus.Runtime

open Lib Lib.QuotedText

/-! ## Names -/

/-- `_normalize_identifier`. -/
def normalizeIdentifier (name : String) : String := String.ofList (name.toList.map Char.toLower)

namespace CaseTables

variable (tables : CaseTables)

/-- A capital sigma after a cased letter and not before one; `before` is read backwards. -/
def isFinalSigma (before after : List Char) : Bool :=
  (before.dropWhile tables.ignorable).head?.any tables.cased &&
    !(after.dropWhile tables.ignorable).head?.any tables.cased

def lowerFrom (before : List Char) : List Char → List Char
  | [] => []
  | c :: cs =>
    (if c = Char.ofNat 0x3A3 then [Char.ofNat (if tables.isFinalSigma before cs then 0x3C2 else 0x3C3)]
      else tables.lowered c) ++ lowerFrom (c :: before) cs

/-- `str.lower`. -/
def lower (name : String) : List Char := tables.lowerFrom [] name.toList

end CaseTables

/-- `_reject_normalized_collisions`, from the names seen so far by their normal form. -/
def rejectCollisionsFrom (message : String) (seen : List (String × String)) : List String → Except BuildFailure Unit
  | [] => .ok ()
  | name :: names =>
    match seen.lookup (normalizeIdentifier name) with
    | some existing => .error (.operator "COLUMN_COLLISION" message (.columns [existing, name]))
    | none => rejectCollisionsFrom message (seen ++ [(normalizeIdentifier name, name)]) names

def rejectNormalizedCollisions (names : List String) (message : String) : Except BuildFailure Unit :=
  rejectCollisionsFrom message [] names

/-- `_add_output_name`. -/
def addOutputName (names : List String) (name : String) : Except BuildFailure (List String) := do
  refuseIf (names.contains (normalizeIdentifier name))
    (.operator "COLUMN_COLLISION" ("Duplicate output column '" ++ name ++ "'"))
  return names ++ [normalizeIdentifier name]

/-- `_new_name`. -/
def newName (lib : Libraries) (name : String) (columns : List String) : Except BuildFailure String := do
  refuseIf ((columns.map lib.caseTables.lower).contains (lib.caseTables.lower name))
    (.operator "COLUMN_COLLISION" "Extension output collides with input")
  quoteIdentifier name

def quoteAll (columns : List String) (names : List String) : Except BuildFailure (List String) :=
  names.mapM fun name => quoteIdentifier name (some columns)

/-! ## The operators of both versions -/

/-- A statement and what is bound to its markers. -/
abbrev BuiltQuery := String × List Parameter

def commaSeparated (terms : List String) : String := ", ".intercalate terms

/-- What the loops over projections collect. -/
structure Projected where
  names : List String := []
  projections : List String := []
  parameters : List Parameter := []

section

variable (lib : Libraries) (exact : Bool) (columns : List String) (schema : Schema)

/-- `DuckDBOperatorExecutor.render`. -/
def render (expression : TypedExpression) : Except BuildFailure RenderedExpression :=
  renderExpression lib schema.columnTypes exact columns expression

def projectColumn (acc : Projected) (column : String) : Except BuildFailure Projected := do
  let names ← addOutputName acc.names column
  let quotedColumn ← quoteIdentifier column (some columns)
  return { acc with names, projections := acc.projections ++ [quotedColumn] }

def projectExpression (acc : Projected) (item : NamedExpression) : Except BuildFailure Projected := do
  let names ← addOutputName acc.names item.name
  let rendered ← render lib exact columns schema item.expression
  let output ← quoteIdentifier item.name
  return ⟨names, acc.projections ++ [rendered.sql ++ " AS " ++ output], acc.parameters ++ rendered.parameters⟩

/-- `_select_query`. -/
def selectQuery (spec : OperatorSpec) : Except BuildFailure BuiltQuery := do
  let selected ← spec.columns.foldlM (projectColumn columns) {}
  let projected ← spec.expressions.foldlM (projectExpression lib exact columns schema) selected
  refuseIf projected.projections.isEmpty (.operator "OPERATOR_INVALID" (spec.kind.text ++ " requires projections"))
  return ("SELECT " ++ commaSeparated projected.projections ++ " FROM input_0", projected.parameters)

/-- `function.value.upper()`. -/
def AggregateFunction.upper : AggregateFunction → String
  | sum => "SUM" | avg => "AVG" | min => "MIN" | max => "MAX" | count => "COUNT"

def AggregateFunction.value : AggregateFunction → String
  | sum => "sum" | avg => "avg" | min => "min" | max => "max" | count => "count"

/-- What an aggregate is called on; only COUNT is called on every row. -/
def aggregateArgument (aggregate : AggregateSpec) : Except BuildFailure RenderedExpression :=
  match aggregate.expression with
  | some expression => render lib exact columns schema expression
  | none =>
    if aggregate.function = .count then .ok ⟨"*", []⟩
    else .error (.operator "OPERATOR_INVALID" (aggregate.function.value ++ " requires an expression"))

def projectAggregate (acc : Projected) (aggregate : AggregateSpec) : Except BuildFailure Projected := do
  let names ← addOutputName acc.names aggregate.name
  let argument ← aggregateArgument lib exact columns schema aggregate
  let output ← quoteIdentifier aggregate.name
  return ⟨names, acc.projections ++ [aggregate.function.upper ++ "(" ++ argument.sql ++ ") AS " ++ output],
    acc.parameters ++ argument.parameters⟩

/-- ` GROUP BY a, b`, if there are keys. -/
def groupClause (keys : List String) : Except BuildFailure String :=
  if keys.isEmpty then .ok ""
  else do
    let names ← quoteAll columns keys
    return " GROUP BY " ++ commaSeparated names

/-- `_aggregate_query`. -/
def aggregateQuery (spec : OperatorSpec) (source : String := "input_0") : Except BuildFailure BuiltQuery := do
  let grouped ← quoteAll columns spec.groupBy
  let names ← spec.groupBy.foldlM addOutputName []
  let projected ← spec.aggregates.foldlM (projectAggregate lib exact columns schema) ⟨names, grouped, []⟩
  refuseIf spec.aggregates.isEmpty (.operator "OPERATOR_INVALID" "AGGREGATE requires aggregates")
  let group ← groupClause columns spec.groupBy
  let relation ← quoteIdentifier source
  return ("SELECT " ++ commaSeparated projected.projections ++ " FROM " ++ relation ++ group, projected.parameters)

def projectPivotValue (pivotColumn pivotValue : String) (acc : Projected) (value : String) : Except BuildFailure Projected := do
  let names ← addOutputName acc.names value
  let output ← quoteIdentifier value
  return ⟨names,
    acc.projections ++ ["SUM(CASE WHEN " ++ pivotColumn ++ " = ? THEN " ++ pivotValue ++ " END) AS " ++ output],
    acc.parameters ++ [.scalar (.str value)]⟩

/-- `_pivot_query`. -/
def pivotQuery (spec : OperatorSpec) : Except BuildFailure BuiltQuery :=
  match spec.pivotColumn, spec.pivotValue with
  | some column, some value => do
    refuseIf (column == "" || value == "" || spec.pivotValues.isEmpty)
      (.operator "OPERATOR_INVALID" "PIVOT requires column, value, and fixed values")
    let pivotColumn ← quoteIdentifier column (some columns)
    let pivotValue ← quoteIdentifier value (some columns)
    let indexed ← quoteAll columns spec.pivotIndex
    let names ← spec.pivotIndex.foldlM addOutputName []
    let projected ← spec.pivotValues.foldlM (projectPivotValue pivotColumn pivotValue) ⟨names, indexed, []⟩
    let keys ← quoteAll columns spec.pivotIndex
    let group := commaSeparated keys
    let groupClause := if group = "" then "" else " GROUP BY " ++ group
    let orderClause := if group = "" then "" else " ORDER BY " ++ group
    return ("SELECT " ++ commaSeparated projected.projections ++ " FROM input_0" ++ groupClause ++ orderClause,
      projected.parameters)
  | _, _ => .error (.operator "OPERATOR_INVALID" "PIVOT requires column, value, and fixed values")

def deriveExpression (acc : Projected) (item : NamedExpression) : Except BuildFailure Projected := do
  refuseIf (acc.names.contains (normalizeIdentifier item.name))
    (.operator "COLUMN_COLLISION" ("Derived column '" ++ item.name ++ "' already exists"))
  let rendered ← render lib exact columns schema item.expression
  let output ← quoteIdentifier item.name
  return ⟨acc.names ++ [normalizeIdentifier item.name], acc.projections ++ [rendered.sql ++ " AS " ++ output],
    acc.parameters ++ rendered.parameters⟩

/-- `_derive_query`. -/
def deriveQuery (spec : OperatorSpec) : Except BuildFailure BuiltQuery := do
  let derived ← spec.expressions.foldlM (deriveExpression lib exact columns schema)
    ⟨columns.map normalizeIdentifier, ["*"], []⟩
  refuseIf spec.expressions.isEmpty (.operator "OPERATOR_INVALID" "DERIVE requires expressions")
  return ("SELECT " ++ commaSeparated derived.projections ++ " FROM input_0", derived.parameters)

def SortDirection.upper : SortDirection → String
  | asc => "ASC" | desc => "DESC"

/-- One key of an ORDER BY. -/
def sortTerm (item : SortSpec) : Except BuildFailure String := do
  let column ← quoteIdentifier item.column (some columns)
  return column ++ " " ++ item.direction.upper ++ (if item.nullsFirst then " NULLS FIRST" else " NULLS LAST")

def sortQuery (spec : OperatorSpec) : Except BuildFailure BuiltQuery := do
  refuseIf spec.sort.isEmpty (.operator "OPERATOR_INVALID" "SORT requires sort keys")
  let terms ← spec.sort.mapM (sortTerm columns)
  return ("SELECT * FROM input_0 ORDER BY " ++ commaSeparated terms, [])

def limitParameter (limit : Option Nat) : Parameter := .scalar (limit.elim .null fun n => .int n)

def limitQuery (spec : OperatorSpec) : Except BuildFailure BuiltQuery := do
  refuseIf spec.limit.isNone (.operator "OPERATOR_INVALID" "LIMIT requires a limit")
  return ("SELECT * FROM input_0 LIMIT ?", [limitParameter spec.limit])

def filterQuery (spec : OperatorSpec) : Except BuildFailure BuiltQuery :=
  match spec.predicate with
  | none => .error (.operator "OPERATOR_INVALID" "FILTER requires a predicate")
  | some predicate => do
    let rendered ← render lib exact columns schema predicate
    return ("SELECT * FROM input_0 WHERE " ++ rendered.sql, rendered.parameters)

def JoinType.upper : JoinType → String
  | inner => "INNER" | left => "LEFT" | right => "RIGHT" | full => "FULL"

def joinClause (right : List String) (key : JoinKey) : Except BuildFailure String := do
  let leftColumn ← quoteIdentifier key.left (some columns)
  let rightColumn ← quoteIdentifier key.right (some right)
  return "left_input." ++ leftColumn ++ " = right_input." ++ rightColumn

/-- The columns that both sides of a join have, by their normal forms in order. -/
def joinCollisions (left right : List String) : List String :=
  let shared := left.filter fun column => (right.map normalizeIdentifier).contains (normalizeIdentifier column)
  (shared.mergeSort fun a b => decide (normalizeIdentifier a ≤ normalizeIdentifier b)).flatMap fun column =>
    column :: (right.find? fun other => normalizeIdentifier other == normalizeIdentifier column).toList

/-- `_join_query`. -/
def joinQuery (spec : OperatorSpec) (inputs : List Schema) : Except BuildFailure BuiltQuery :=
  match spec.joinType, inputs with
  | some joinType, left :: right :: _ => do
    refuseIf spec.joinKeys.isEmpty (.operator "OPERATOR_INVALID" "JOIN requires type and keys")
    refuseIf (!(joinCollisions left.columnNames right.columnNames).isEmpty)
      (.operator "COLUMN_COLLISION" "JOIN inputs contain colliding column names"
        (.columns (joinCollisions left.columnNames right.columnNames)))
    let clauses ← spec.joinKeys.mapM (joinClause left.columnNames right.columnNames)
    return ("SELECT left_input.*, right_input.* FROM input_0 AS left_input " ++ joinType.upper ++
      " JOIN input_1 AS right_input ON " ++ " AND ".intercalate clauses, [])
  | none, _ => .error (.operator "OPERATOR_INVALID" "JOIN requires type and keys")
  | some _, _ =>
    .error (if spec.joinKeys.isEmpty then .operator "OPERATOR_INVALID" "JOIN requires type and keys" else .indexError)

end

/-! ## The operators of v1 -/

def invalid (message : String) : BuildFailure := .operator "OPERATOR_INVALID" message

/-- `_row_json`. -/
def rowJson (columns : List String) : Except BuildFailure String := do
  refuseIf columns.isEmpty (invalid "Row identity requires named columns")
  let fields ← columns.mapM fun column => do
    let quotedColumn ← quoteIdentifier column
    return quotedColumn ++ " := " ++ quotedColumn
  return "to_json(struct_pack(" ++ commaSeparated fields ++ "))"

/-- `_order`. -/
def orderBy (sort : List SortSpec) (columns : List String) (identity : String) (tieBreak : Bool) : Except BuildFailure String := do
  let terms ← sort.mapM (sortTerm columns)
  return commaSeparated (terms ++ if tieBreak then [identity] else [])

def WindowFunction.value : WindowFunction → String
  | rowNumber => "row_number" | rank => "rank" | denseRank => "dense_rank" | sum => "sum" | min => "min" | max => "max"
  | count => "count"

/-- The functions whose windows leave the row out of the order. -/
def WindowFunction.ranksTies : WindowFunction → Bool
  | rank | denseRank => true
  | _ => false

section

variable (lib : Libraries) (columns : List String) (schema : Schema)

def setQuery (kind : OperatorKind) (inputs : List Schema) : Except BuildFailure BuiltQuery :=
  match inputs with
  | left :: right :: _ => do
    refuseIf (left != right) (invalid "Set inputs require identical ordered Arrow schemas")
    let operation := match kind with
      | .unionAll => "UNION ALL"
      | .unionDistinct => "UNION"
      | .intersect => "INTERSECT"
      | _ => "EXCEPT"
    return ("SELECT * FROM input_0 " ++ operation ++ " SELECT * FROM input_1", [])
  | _ => .error .indexError

def distinctQuery (spec : OperatorSpec) : Except BuildFailure BuiltQuery := do
  let names ← quoteAll columns spec.columns
  let projection := if commaSeparated names = "" then "*" else commaSeparated names
  return ("SELECT DISTINCT " ++ projection ++ " FROM input_0", [])

/-- `PARTITION BY ... `, if there are partition columns. -/
def partitionPrefix (spec : OperatorSpec) : Except BuildFailure String := do
  let names ← quoteAll columns spec.payload.partitionBy
  let partition := commaSeparated names
  return if partition = "" then "" else "PARTITION BY " ++ partition ++ " "

/-- How many rows of a partition are kept. -/
def pickCount (spec : OperatorSpec) : Nat :=
  if spec.limit = some 0 then 0 else if spec.kind = .deduplicate then 1 else spec.limit.getD 1

def pickQuery (spec : OperatorSpec) : Except BuildFailure BuiltQuery := do
  let leading ← partitionPrefix columns spec
  let identity ← rowJson schema.columnNames
  let order ← orderBy spec.sort columns identity true
  return ("SELECT * FROM input_0 QUALIFY row_number() OVER (" ++ leading ++ "ORDER BY " ++ order ++ ") <= ? ORDER BY " ++
    order, [.scalar (.int (pickCount spec))])

/-- What a window function is called on. -/
def windowArgument (column : Option String) : Except BuildFailure String :=
  match column with
  | some column => quoteIdentifier column (some columns)
  | none => .ok ""

def windowQuery (spec : OperatorSpec) : Except BuildFailure BuiltQuery := do
  let leading ← partitionPrefix columns spec
  let identity ← rowJson schema.columnNames
  let _ ← orderBy spec.sort columns identity true
  match spec.payload.window with
  | none => throw .assertionError
  | some window => do
    let output ← newName lib window.output columns
    let order ← orderBy spec.sort columns identity (!window.function.ranksTies)
    let argument ← windowArgument columns window.column
    let frame := if window.column.isSome then " ROWS BETWEEN " ++ toString window.preceding ++ " PRECEDING AND CURRENT ROW"
      else ""
    return ("SELECT *, " ++ window.function.value ++ "(" ++ argument ++ ") OVER (" ++ leading ++ "ORDER BY " ++ order ++
      frame ++ ") AS " ++ output ++ " FROM input_0 ORDER BY " ++ order ++ ", " ++ output, [])

def sampleQuery (spec : OperatorSpec) : Except BuildFailure BuiltQuery := do
  let identity ← rowJson schema.columnNames
  return ("SELECT * FROM input_0 ORDER BY md5(CAST(? AS VARCHAR) || ':' || " ++ identity ++ "), " ++ identity ++ " LIMIT ?",
    [limitParameter spec.payload.sampleSeed, limitParameter spec.limit])

def TimeGrain.value : TimeGrain → String
  | day => "day" | week => "week" | month => "month" | quarter => "quarter" | year => "year"

def ArrowType.isDate : ArrowType → Bool
  | .date _ => true
  | _ => false

/-- The column's type, of a column that is there. -/
def requireType (column : String) : Except BuildFailure ArrowType :=
  match schema.type? column with
  | some type => .ok type
  | none => .error .indexError

def requireNaive : ArrowType → Except BuildFailure Unit
  | .date _ | .timestamp _ none => .ok ()
  | .timestamp _ (some _) => .error (invalid "DATE/RESAMPLE requires timezone-naive input; normalize at ingestion")
  | _ => .error (invalid "DATE/RESAMPLE requires an Arrow date or timestamp")

/-- The spec RESAMPLE aggregates its buckets by. -/
def resampled (spec : OperatorSpec) (date : DateSpec) : OperatorSpec :=
  { spec with kind := .aggregate, groupBy := date.output :: spec.groupBy, timeGrain := none, legacyOperator := fun _ => rfl }

def dateQuery (spec : OperatorSpec) : Except BuildFailure BuiltQuery :=
  match spec.payload.date with
  | none => .error .assertionError
  | some date => do
    let column ← quoteIdentifier date.column (some columns)
    let output ← newName lib date.output columns
    let type ← requireType schema date.column
    requireNaive type
    let bucket := "date_trunc(?, " ++ column ++ ")"
    let bucket := if type.isDate then "CAST(" ++ bucket ++ " AS DATE)" else bucket
    let inner := "SELECT *, " ++ bucket ++ " AS " ++ output ++ " FROM input_0"
    let grain := Parameter.scalar (.str date.grain.value)
    if spec.kind = .date then return (inner, [grain])
    let (sql, parameters) ← aggregateQuery lib spec.isV1 (columns ++ [date.output]) schema (resampled spec date) "bucketed"
    return ("WITH bucketed AS (" ++ inner ++ ") " ++ sql, grain :: parameters)

def explodeQuery (spec : OperatorSpec) : Except BuildFailure BuiltQuery :=
  match spec.payload.explode with
  | none => .error .assertionError
  | some explode => do
    let column ← quoteIdentifier explode.column (some columns)
    let output ← newName lib explode.output columns
    match ← requireType schema explode.column with
    | .list _ | .largeList _ => return ("SELECT *, unnest(" ++ column ++ ") AS " ++ output ++ " FROM input_0", [])
    | _ => throw (invalid "EXPLODE requires an Arrow list")

/-- One branch of an UNPIVOT. -/
def unpivotBranch (retained : List String) (name value : String) (column : String) : Except BuildFailure String := do
  let quotedColumn ← quoteIdentifier column
  return "SELECT " ++ String.join (retained.map (· ++ ", ")) ++ "CAST(? AS VARCHAR) AS " ++ name ++ ", " ++ quotedColumn ++
    " AS " ++ value ++ " FROM input_0"

def unpivotQuery (spec : OperatorSpec) : Except BuildFailure BuiltQuery :=
  match spec.payload.unpivot with
  | none => .error .assertionError
  | some unpivot => do
    refuseIf (unpivot.columns.dedup.length != unpivot.columns.length) (invalid "UNPIVOT requires unique columns")
    let name ← newName lib unpivot.nameColumn columns
    let value ← newName lib unpivot.valueColumn (columns ++ [unpivot.nameColumn])
    let _ ← quoteAll columns unpivot.columns
    let types ← unpivot.columns.mapM (requireType schema)
    refuseIf (types.dedup.length != 1) (invalid "UNPIVOT columns must have identical Arrow types")
    let retained ← (schema.columnNames.filter (!unpivot.columns.contains ·)).mapM fun column => quoteIdentifier column
    let queries ← unpivot.columns.mapM (unpivotBranch retained name value)
    return (" UNION ALL ".intercalate queries, unpivot.columns.map fun column => .scalar (.str column))

/-- Whether a literal of the type may replace values of the Arrow type. -/
def imputeMatches : ScalarType → ArrowType → Bool
  | .string, .string => true
  | .integer, .integer _ _ => true
  | .float, .floating _ => true
  | .decimal, .decimal _ _ _ _ => true
  | .boolean, .boolean => true
  | .date, .date _ => true
  | .timestamp, .timestamp _ _ => true
  | _, _ => false

def lossy : BuildFailure := invalid "IMPUTE replacement cannot be represented without loss"

/-- The microseconds of a unit's step, and its steps in a number of microseconds. -/
def TimeUnit.divisor : TimeUnit → Int
  | s => 1000000 | ms => 1000 | us => 1 | ns => 1

def TimeUnit.units (unit : TimeUnit) (microseconds : Int) : Int :=
  if unit = .ns then microseconds * 1000 else microseconds / unit.divisor

/-- `_validate_imputation_value`. -/
def validateImputationValue (value : NativeScalar) (target : ArrowType) : Except BuildFailure Unit :=
  match target, value with
  | .integer width unsigned, .int value =>
    let minimum : Int := if unsigned then 0 else -(2 ^ (width.bits - 1))
    refuseIf (!(minimum ≤ value && value < minimum + 2 ^ width.bits)) lossy
  | .integer _ _, _ => .error .assertionError
  | .decimal _ precision scale _, .decimal value => do
    let shape ← (decimalShape (.finite value)).mapError .valueError
    let discarded := (shape.2 - scale).toNat
    refuseIf (shape.1 > (precision - scale : Int) || value.coefficient % 10 ^ discarded != 0) lossy
  | .decimal _ _ _ _, _ => .error .assertionError
  | .timestamp unit _, .datetime microseconds =>
    refuseIf (microseconds % unit.divisor != 0 ||
      !(-(2 ^ 63) ≤ unit.units microseconds && unit.units microseconds < 2 ^ 63)) lossy
  | .timestamp _ _, _ => .error .assertionError
  | _, _ => .ok ()

def imputeExpression (target quotedTarget column : String) : Except BuildFailure String :=
  if column = target then
    .ok ("COALESCE(" ++ quotedTarget ++ ", cast_to_type(?, " ++ quotedTarget ++ ")) AS " ++ quotedTarget)
  else quoteIdentifier column

def imputeQuery (spec : OperatorSpec) : Except BuildFailure BuiltQuery :=
  match spec.payload.impute with
  | none => .error .assertionError
  | some impute => do
    let column ← quoteIdentifier impute.column (some columns)
    let target ← requireType schema impute.column
    refuseIf (!imputeMatches impute.value.dataType target) (invalid "IMPUTE literal must match the target type")
    let _ ← render lib true columns [] impute.value
    let replacement ← (nativeScalar lib impute.value.dataType impute.value.value).mapError .valueError
    validateImputationValue replacement target
    match lib.arrowScalar replacement target with
    | none => throw lossy
    | some replacement => do
      let expressions ← schema.columnNames.mapM (imputeExpression impute.column column)
      return ("SELECT " ++ commaSeparated expressions ++ " FROM input_0", [.native replacement])

/-- `build_extension_query`; `none` where the operator is one of both versions. -/
def buildExtensionQuery (spec : OperatorSpec) (inputs : List Schema) : Except BuildFailure (Option BuiltQuery) :=
  match spec.kind with
  | .unionAll | .unionDistinct | .intersect | .except => some <$> setQuery spec.kind inputs
  | .distinct => some <$> distinctQuery columns spec
  | .deduplicate | .pick => some <$> pickQuery columns schema spec
  | .window => some <$> windowQuery lib columns schema spec
  | .sample => some <$> sampleQuery schema spec
  | .date | .resample => some <$> dateQuery lib columns schema spec
  | .summarize => some <$> aggregateQuery lib spec.isV1 columns schema spec
  | .explode => some <$> explodeQuery lib columns schema spec
  | .unpivot => some <$> unpivotQuery lib columns schema spec
  | .impute => some <$> imputeQuery lib columns schema spec
  | _ => .ok none

/-- The operators `_build_query` builds itself. -/
def buildCommonQuery (spec : OperatorSpec) (inputs : List Schema) : Except BuildFailure BuiltQuery :=
  match spec.kind with
  | .select | .project => selectQuery lib spec.isV1 columns schema spec
  | .filter => filterQuery lib spec.isV1 columns schema spec
  | .aggregate => do
    refuseIf spec.timeGrain.isSome (.operator "OPERATOR_TIME_GRAIN_UNSUPPORTED"
      "Local time-grain aggregation requires an explicit bucket expression")
    aggregateQuery lib spec.isV1 columns schema spec
  | .pivot => pivotQuery columns spec
  | .derive => deriveQuery lib spec.isV1 columns schema spec
  | .sort => sortQuery columns spec
  | .limit => limitQuery spec
  | .join => joinQuery spec inputs
  | kind => .error (.operator "OPERATOR_UNSUPPORTED" ("Local operator '" ++ kind.text ++ "' is not supported"))

end

/-- `_build_query`. -/
def buildQuery (lib : Libraries) (spec : OperatorSpec) (inputs : List Schema) : Except BuildFailure BuiltQuery := do
  forM inputs fun schema => rejectNormalizedCollisions schema.columnNames "Input contains colliding column names"
  match inputs with
  | [] => throw .indexError
  | schema :: _ => do
    refuseIf spec.kind.isBlocked (.operator "OPERATOR_UNSUPPORTED" "A governed backend is required")
    let extended ← if spec.isV1 then buildExtensionQuery lib schema.columnNames schema spec inputs else pure none
    match extended with
    | some query => return query
    | none => buildCommonQuery lib schema.columnNames schema spec inputs

end DataNexus.Runtime
