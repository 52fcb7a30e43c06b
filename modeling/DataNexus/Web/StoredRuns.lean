/-
  DataNexus.Web.StoredRuns — the runs that the web client keeps in the browser's storage
  (`apps/web/src/api/runStorage.ts`).

  A run is kept as the JSON text of `{version: 1, run}`. A text that is read back is taken for a
  run where the guard `isRun` accepts it. Runs of an older client have result columns without a
  `dataType`; `migrateLegacyResultColumns` finds them by the strict guards of that client and
  infers the types from the cells, or leaves the value as it is.

  The guards look at own properties by name, so two values that differ by the sign of a zero
  pass the same guards (`isRun_plain`), and a legacy guard accepts nothing that the current one
  refuses once the columns have their types (`isRun_of_isLegacyRun`). Proved: a run that was
  accepted is accepted again when it is written and read, without a migration and as it was but
  for the sign of its zeros (`stored_run_reread`); migration leaves runs alone, and what it
  makes is a run that differs by the types it added, each of which the cells fit
  (`stored_runs_survive`).

  `Date.parse` is a parameter: the language leaves open which strings it reads.
-/

import DataNexus.Lib.JsonText

namespace DataNexus.Web.RunStorage

open DataNexus.Lib DataNexus.Lib.JsonValue

def runStates : List String := ["queued", "running", "succeeded", "empty", "failed", "canceled"]
def scenarios : List String := ["success", "empty", "failure"]
def stageKeys : List String := ["initialize", "compile", "optimize", "execute", "generate"]
def stageStates : List String := ["pending", "running", "succeeded", "failed", "canceled"]
def nodeKinds : List String :=
  ["SOURCE", "SELECT", "FILTER", "AGGREGATE", "PIVOT", "DERIVE", "PROJECT", "SORT", "LIMIT", "JOIN"]
def columnFormats : List String := ["text", "currency", "percent", "number", "date", "timestamp"]
def legacyNodeKinds : List String := ["AGGREGATE", "PIVOT", "DERIVE", "PROJECT"]
def legacyColumnFormats : List String := ["text", "currency", "percent", "number"]
def scalarTypes : List String := ["string", "integer", "float", "decimal", "boolean", "date", "timestamp"]
def diagnosticSeverities : List String := ["info", "warning", "error"]

/-! ## Values -/

def isNull : JsonValue → Bool
  | .null => true
  | _ => false

def isBoolean : JsonValue → Bool
  | .boolean _ => true
  | _ => false

def isString : JsonValue → Bool
  | .string _ => true
  | _ => false

/-- What a number is worth, if it is finite. -/
def worth : JsonValue → Option ℚ
  | .number n => n.worth
  | _ => none

def isFiniteNumber (value : JsonValue) : Bool := (worth value).isSome

def isNumber (value : JsonValue) : Bool := (worth value).any fun q => 0 ≤ q

/-- `Number.isInteger`. -/
def isInteger (value : JsonValue) : Bool := (worth value).any fun q => q.den = 1

/-- `Number.isSafeInteger`. -/
def isSafeInteger (value : JsonValue) : Bool := (worth value).any fun q => q.den = 1 ∧ |q| ≤ 2 ^ 53 - 1

/-- `value === text`. -/
def isText (text : String) : JsonValue → Bool
  | .string s => s = units text
  | _ => false

def isEnumValue (allowed : List String) (value : JsonValue) : Bool := allowed.any fun text => isText text value

/-- `Array.isArray(value) && value.every(check)`. -/
def isArrayOf (check : JsonValue → Bool) : JsonValue → Bool
  | .array items => items.all check
  | _ => false

def isStringArray (value : JsonValue) : Bool := isArrayOf isString value

/-- `value.length`, of an array. -/
def length : JsonValue → Nat
  | .array items => items.length
  | _ => 0

/-- `Object.values(value).every(check)`. -/
def everyValue (check : JsonValue → Bool) : JsonValue → Bool
  | .object entries => entries.all fun e => check e.2
  | _ => true

def hasOwn (value : JsonValue) (key : String) : Bool := (value.property (units key)).isSome

def hasOnlyKeys (allowedKeys : List String) : JsonValue → Bool
  | .object entries => entries.all fun e => allowedKeys.any fun key => e.1 = units key
  | _ => true

/-- `check(value.key)`, where the check refuses undefined. -/
def field (key : String) (check : JsonValue → Bool) (value : JsonValue) : Bool :=
  (value.property (units key)).any check

/-- `value.key === undefined || check(value.key)`. -/
def optional (key : String) (check : JsonValue → Bool) (value : JsonValue) : Bool :=
  (value.property (units key)).all check

/-! ## The guards -/

section Guards

-- `Date.parse` reads the string
variable (dateParses : CodeUnits → Bool)

def isDateString : JsonValue → Bool
  | .string s => dateParses s
  | _ => false

def isStage (value : JsonValue) : Bool :=
  value.isRecord
    && field "key" (isEnumValue stageKeys) value
    && field "label" isString value
    && field "description" isString value
    && field "state" (isEnumValue stageStates) value
    && optional "durationMs" isNumber value

def isSqgFilter (filter : JsonValue) : Bool :=
  filter.isRecord
    && field "field" isString filter
    && field "operator" isString filter
    && field "value" isString filter

def isSqg (value : JsonValue) : Bool :=
  value.isRecord
    && field "version" isString value
    && field "intent" isString value
    && field "ontology" isString value
    && field "resolvedMembers" isStringArray value
    && field "metrics" isStringArray value
    && field "dimensions" isStringArray value
    && field "filters" (isArrayOf isSqgFilter) value
    && field "policyChecks" isStringArray value

def isPlanNode (value : JsonValue) : Bool :=
  value.isRecord
    && field "id" isString value
    && field "kind" (isEnumValue nodeKinds) value
    && field "label" isString value
    && field "plainLanguage" isString value
    && field "inputs" isStringArray value
    && field "outputFields" isStringArray value

def isResultColumn (value : JsonValue) : Bool :=
  value.isRecord
    && field "key" isString value
    && field "label" isString value
    && field "dataType" (isEnumValue scalarTypes) value
    && field "format" (isEnumValue columnFormats) value

def isResultCell (cell : JsonValue) : Bool := isNull cell || isBoolean cell || isString cell || isFiniteNumber cell

def isResultRow (value : JsonValue) : Bool := value.isRecord && everyValue isResultCell value

/-- `value.rows.length`. -/
def rowsLength (value : JsonValue) : Nat := ((value.property (units "rows")).map length).getD 0

/-- The row count stands so to the number of rows. -/
def rowCountIs (compare : ℚ → ℚ → Bool) (value : JsonValue) : Bool :=
  field "rowCount" (fun count => (worth count).any fun q => compare q (rowsLength value)) value

def isTrue : JsonValue → Bool
  | .boolean b => b
  | _ => false

def isResult (value : JsonValue) : Bool :=
  value.isRecord
    && field "columns" (isArrayOf isResultColumn) value
    && field "rows" (isArrayOf isResultRow) value
    && field "rowCount" isNumber value
    && rowCountIs (fun count rows => rows ≤ count) value
    && field "coverage" isString value
    && optional "truncated" isBoolean value
    && (if field "truncated" isTrue value then rowCountIs (fun count rows => rows < count) value
      else rowCountIs (fun count rows => count = rows) value)

def isLineageSource (value : JsonValue) : Bool :=
  value.isRecord
    && field "id" isString value
    && field "name" isString value
    && field "kind" isString value
    && field "freshness" isString value
    && field "contribution" isString value

def isLineage (value : JsonValue) : Bool :=
  value.isRecord
    && field "sources" (isArrayOf isLineageSource) value
    && field "transformations" isStringArray value

def isDiagnostic (value : JsonValue) : Bool :=
  value.isRecord
    && field "code" isString value
    && field "title" isString value
    && field "message" isString value
    && field "recovery" isString value
    && field "severity" (isEnumValue diagnosticSeverities) value

def isManifest (value : JsonValue) : Bool :=
  value.isRecord
    && field "uri" isString value
    && field "format" isString value
    && field "checksum" isString value
    && field "committedAt" (isDateString dateParses) value

/-- The guard of `tokens`, written out in `isRun`. -/
def isTokens (value : JsonValue) : Bool :=
  value.isRecord && field "input" isNumber value && field "output" isNumber value

/-- The guard of `executionLease`, written out in `isRun`. -/
def isExecutionLease (value : JsonValue) : Bool :=
  value.isRecord
    && field "ownerId" isString value
    && field "generation" isString value
    && field "heartbeatAt" (isDateString dateParses) value

/-- As many stages as there are keys, each of them a stage. -/
def isStages (check : JsonValue → Bool) (value : JsonValue) : Bool :=
  length value = stageKeys.length && isArrayOf check value

def isRun (value : JsonValue) : Bool :=
  value.isRecord
    && field "id" isString value
    && field "question" isString value
    && field "state" (isEnumValue runStates) value
    && field "createdAt" (isDateString dateParses) value
    && optional "completedAt" (isDateString dateParses) value
    && field "elapsedMs" isNumber value
    && optional "workload" isString value
    && optional "ontology" isString value
    && optional "compilationMode" isString value
    && field "model" isString value
    && field "executionMode" isString value
    && field "outputMode" isString value
    && field "tokens" isTokens value
    && field "stages" (isStages isStage) value
    && field "sqg" isSqg value
    && field "nodes" (isArrayOf isPlanNode) value
    && optional "result" isResult value
    && field "lineage" isLineage value
    && field "diagnostics" (isArrayOf isDiagnostic) value
    && optional "manifest" (isManifest dateParses) value
    && field "scenario" (isEnumValue scenarios) value
    && optional "executionLease" (isExecutionLease dateParses) value

/-! ## The guards of the older client -/

def isLegacyStage (value : JsonValue) : Bool :=
  value.isRecord
    && hasOnlyKeys ["key", "label", "description", "state", "durationMs"] value
    && field "key" (isEnumValue stageKeys) value
    && field "label" isString value
    && field "description" isString value
    && field "state" (isEnumValue stageStates) value
    && optional "durationMs" isNumber value

def isLegacySqgFilter (filter : JsonValue) : Bool :=
  filter.isRecord
    && hasOnlyKeys ["field", "operator", "value"] filter
    && field "field" isString filter
    && field "operator" isString filter
    && field "value" isString filter

def isLegacySqg (value : JsonValue) : Bool :=
  value.isRecord
    && hasOnlyKeys ["version", "intent", "ontology", "resolvedMembers", "metrics", "dimensions", "filters",
      "policyChecks"] value
    && field "version" (isText "0.1") value
    && field "intent" isString value
    && field "ontology" isString value
    && field "resolvedMembers" isStringArray value
    && field "metrics" isStringArray value
    && field "dimensions" isStringArray value
    && field "filters" (isArrayOf isLegacySqgFilter) value
    && field "policyChecks" isStringArray value

def isLegacyPlanNode (value : JsonValue) : Bool :=
  value.isRecord
    && hasOnlyKeys ["id", "kind", "label", "plainLanguage", "inputs", "outputFields"] value
    && field "id" isString value
    && field "kind" (isEnumValue legacyNodeKinds) value
    && field "label" isString value
    && field "plainLanguage" isString value
    && field "inputs" isStringArray value
    && field "outputFields" isStringArray value

def isLegacyResultColumn (value : JsonValue) : Bool :=
  value.isRecord
    && hasOnlyKeys ["key", "label", "format"] value
    && field "key" isString value
    && field "label" isString value
    && field "format" (isEnumValue legacyColumnFormats) value
    && !hasOwn value "dataType"

def isLegacyResultRow (value : JsonValue) : Bool :=
  value.isRecord && everyValue (fun cell => isString cell || isFiniteNumber cell) value

def isLegacyResult (value : JsonValue) : Bool :=
  value.isRecord
    && hasOnlyKeys ["columns", "rows", "rowCount", "coverage"] value
    && field "columns" (isArrayOf isLegacyResultColumn) value
    && field "rows" (isArrayOf isLegacyResultRow) value
    && field "rowCount" isNumber value
    && rowCountIs (fun count rows => count = rows) value
    && field "coverage" isString value
    && !hasOwn value "truncated"

def isLegacyLineageSource (value : JsonValue) : Bool :=
  value.isRecord
    && hasOnlyKeys ["id", "name", "kind", "freshness", "contribution"] value
    && field "id" isString value
    && field "name" isString value
    && field "kind" isString value
    && field "freshness" isString value
    && field "contribution" isString value

def isLegacyLineage (value : JsonValue) : Bool :=
  value.isRecord
    && hasOnlyKeys ["sources", "transformations"] value
    && field "sources" (isArrayOf isLegacyLineageSource) value
    && field "transformations" isStringArray value

def isLegacyDiagnostic (value : JsonValue) : Bool :=
  value.isRecord
    && hasOnlyKeys ["code", "title", "message", "recovery", "severity"] value
    && field "code" isString value
    && field "title" isString value
    && field "message" isString value
    && field "recovery" isString value
    && field "severity" (isEnumValue diagnosticSeverities) value

def isLegacyManifest (value : JsonValue) : Bool :=
  value.isRecord
    && hasOnlyKeys ["uri", "format", "checksum", "committedAt"] value
    && field "uri" isString value
    && field "format" isString value
    && field "checksum" isString value
    && field "committedAt" (isDateString dateParses) value

def isLegacyExecutionLease (value : JsonValue) : Bool :=
  value.isRecord
    && hasOnlyKeys ["ownerId", "generation", "heartbeatAt"] value
    && field "ownerId" isString value
    && field "generation" isString value
    && field "heartbeatAt" (isDateString dateParses) value

/-- The guard of `tokens`, written out in `isLegacyRun`. -/
def isLegacyTokens (value : JsonValue) : Bool :=
  value.isRecord
    && hasOnlyKeys ["input", "output"] value
    && field "input" isNumber value
    && field "output" isNumber value

def isLegacyRun (value : JsonValue) : Bool :=
  value.isRecord
    && hasOnlyKeys ["id", "question", "state", "createdAt", "completedAt", "elapsedMs", "model", "executionMode",
      "outputMode", "tokens", "stages", "sqg", "nodes", "result", "lineage", "diagnostics", "manifest", "scenario",
      "executionLease"] value
    && field "id" isString value
    && field "question" isString value
    && field "state" (isEnumValue runStates) value
    && field "createdAt" (isDateString dateParses) value
    && optional "completedAt" (isDateString dateParses) value
    && field "elapsedMs" isNumber value
    && !hasOwn value "workload"
    && !hasOwn value "ontology"
    && !hasOwn value "compilationMode"
    && field "model" isString value
    && field "executionMode" isString value
    && field "outputMode" isString value
    && field "tokens" isLegacyTokens value
    && field "stages" (isStages isLegacyStage) value
    && field "sqg" isLegacySqg value
    && field "nodes" (isArrayOf isLegacyPlanNode) value
    && optional "result" isLegacyResult value
    && field "lineage" isLegacyLineage value
    && field "diagnostics" (isArrayOf isLegacyDiagnostic) value
    && optional "manifest" (isLegacyManifest dateParses) value
    && field "scenario" (isEnumValue scenarios) value
    && optional "executionLease" (isLegacyExecutionLease dateParses) value

/-! ## Migration -/

/-- The cells of a column that are not null; none where a row has no such cell. -/
def columnCells (key : CodeUnits) : List JsonValue → Option (List JsonValue)
  | [] => some []
  | row :: rows =>
    match row.property key with
    | none => none
    | some cell => (columnCells key rows).map fun cells => if isNull cell then cells else cell :: cells

def asString : JsonValue → Option CodeUnits
  | .string s => some s
  | _ => none

def inferLegacyColumnDataType (column : JsonValue) (rows : List JsonValue) : Option String := do
  let key ← (column.property (units "key")).bind asString
  if !field "format" (isEnumValue legacyColumnFormats) column then none
  else
    let cells ← columnCells key rows
    if cells.isEmpty then none
    else if field "format" (isText "text") column then if cells.all isString then some "string" else none
    else if !cells.all isFiniteNumber then none
    else if cells.all isSafeInteger then some "integer"
    else if cells.all fun cell => !isInteger cell || isSafeInteger cell then some "float"
    else none

/-- What `migrateLegacyResultColumns` makes of a column. -/
def migrateColumn (rows : List JsonValue) (column : JsonValue) : JsonValue :=
  match inferLegacyColumnDataType column rows with
  | none => column
  | some dataType => column.spread (units "dataType") (.string (units dataType))

/-- The value, and whether it was migrated. -/
def migrateLegacyResultColumns (value : JsonValue) : JsonValue × Bool :=
  match value.property (units "result") with
  | none => (value, false)
  | some result =>
    match result.property (units "columns"), result.property (units "rows") with
    | some (.array columns), some (.array rows) =>
      if columns.isEmpty then (value, false)
      else if !columns.all (fun column => column.isRecord && !hasOwn column "dataType") then (value, false)
      else if !isLegacyRun dateParses value then (value, false)
      else
        let migrated := columns.map (migrateColumn rows)
        if migrated.all (fun column => column.isRecord && hasOwn column "dataType") then
          (value.spread (units "result") (result.spread (units "columns") (.array migrated)), true)
        else (value, false)
    | _, _ => (value, false)

/-! ## Storage -/

structure ParsedStoredRunRecord where
  run : Option JsonValue
  migrated : Bool

def rejected : ParsedStoredRunRecord := ⟨none, false⟩

def parseStoredRunRecord (raw : CodeUnits) : ParsedStoredRunRecord :=
  match parse raw with
  | none => rejected
  | some parsed =>
    if !field "version" (fun version => worth version = some 1) parsed then rejected
    else
      match parsed.property (units "run") with
      | none => rejected
      | some run =>
        let candidate := migrateLegacyResultColumns dateParses run
        if isRun dateParses candidate.1 then ⟨some candidate.1, candidate.2⟩ else rejected

theorem isDouble_one : IsDouble 1 := by
  refine ⟨?_, 1, 0, by norm_num, by norm_num, by norm_num⟩
  rw [abs_one]
  exact one_lt_zpow₀ (by norm_num) (by norm_num)

def storedRun (run : JsonValue) : JsonValue :=
  .object [(units "version", .number (.finite 1 isDouble_one)), (units "run", run)]

def serializeStoredRun (engine : Shortest) (run : JsonValue) : CodeUnits := stringify engine (storedRun run)

end Guards

/-! ## Zeros do not matter to the guards -/

/-- The guard does not see the sign of a zero. -/
def Stable (check : JsonValue → Bool) : Prop := ∀ value, check value.plainZeros = check value

@[simp] theorem isRecord_plain : Stable isRecord := by
  intro value
  cases value <;> rfl

theorem isNull_plain : Stable isNull := by
  intro value
  cases value <;> rfl

theorem isBoolean_plain : Stable isBoolean := by
  intro value
  cases value <;> rfl

theorem isTrue_plain : Stable isTrue := by
  intro value
  cases value <;> rfl

theorem isString_plain : Stable isString := by
  intro value
  cases value <;> rfl

theorem isText_plain (text : String) : Stable (isText text) := by
  intro value
  cases value <;> rfl

theorem worth_plain (value : JsonValue) : worth value.plainZeros = worth value := by
  cases value with
  | number n => exact Number.plainZero_worth n
  | null | boolean _ | string _ | array _ | object _ => rfl

theorem isFiniteNumber_plain : Stable isFiniteNumber := by
  intro value
  rw [isFiniteNumber, worth_plain, isFiniteNumber]

theorem isNumber_plain : Stable isNumber := by
  intro value
  rw [isNumber, worth_plain, isNumber]

theorem isEnumValue_plain (allowed : List String) : Stable (isEnumValue allowed) := by
  intro value
  simp only [isEnumValue, isText_plain _ value]

theorem isDateString_plain (dateParses : CodeUnits → Bool) : Stable (isDateString dateParses) := by
  intro value
  cases value <;> rfl

theorem length_plain (value : JsonValue) : length value.plainZeros = length value := by
  cases value with
  | array items => simp [length]
  | null | boolean _ | number _ | string _ | object _ => rfl

section Stability

variable {check check' : JsonValue → Bool}

theorem Stable.arrayOf (h : Stable check) : Stable (isArrayOf check) := by
  intro value
  cases value with
  | array items =>
    rw [plainZeros_array, isArrayOf, List.all_map]
    exact congrArg items.all (funext h)
  | null | boolean _ | number _ | string _ | object _ => rfl

theorem Stable.everyValue (h : Stable check) : Stable (everyValue check) := by
  intro value
  cases value with
  | object entries =>
    rw [plainZeros_object, RunStorage.everyValue, List.all_map]
    exact congrArg entries.all (funext fun e => h e.2)
  | null | boolean _ | number _ | string _ | array _ => rfl

theorem Stable.field (h : Stable check) (key : String) : Stable (field key check) := by
  intro value
  rw [RunStorage.field, property_plainZeros, Option.any_map]
  exact congrArg (Option.any · _) (funext h)

theorem Stable.optional (h : Stable check) (key : String) : Stable (optional key check) := by
  intro value
  rw [RunStorage.optional, property_plainZeros, Option.all_map]
  exact congrArg (Option.all · _) (funext h)

theorem Stable.stages (h : Stable check) : Stable (isStages check) := by
  intro value
  rw [isStages, length_plain, h.arrayOf value, isStages]

end Stability

theorem isStringArray_plain : Stable isStringArray := isString_plain.arrayOf

theorem isStage_plain : Stable isStage := by
  intro value
  simp only [isStage, isRecord_plain value, (isEnumValue_plain _).field _ value, isString_plain.field _ value,
    isNumber_plain.optional _ value]

theorem isSqgFilter_plain : Stable isSqgFilter := by
  intro value
  simp only [isSqgFilter, isRecord_plain value, isString_plain.field _ value]

theorem isSqg_plain : Stable isSqg := by
  intro value
  simp only [isSqg, isRecord_plain value, isString_plain.field _ value, isStringArray_plain.field _ value,
    isSqgFilter_plain.arrayOf.field _ value]

theorem isPlanNode_plain : Stable isPlanNode := by
  intro value
  simp only [isPlanNode, isRecord_plain value, isString_plain.field _ value, isStringArray_plain.field _ value,
    (isEnumValue_plain _).field _ value]

theorem isResultColumn_plain : Stable isResultColumn := by
  intro value
  simp only [isResultColumn, isRecord_plain value, isString_plain.field _ value, (isEnumValue_plain _).field _ value]

theorem isResultRow_plain : Stable isResultRow := by
  have hcell : Stable isResultCell := by
    intro cell
    simp only [isResultCell, isNull_plain cell, isBoolean_plain cell, isString_plain cell, isFiniteNumber_plain cell]
  intro value
  simp only [isResultRow, isRecord_plain value, hcell.everyValue value]

theorem rowCountIs_plain (compare : ℚ → ℚ → Bool) : Stable (rowCountIs compare) := by
  intro value
  have hrows : rowsLength value.plainZeros = rowsLength value := by
    rw [rowsLength, property_plainZeros, Option.map_map, rowsLength]
    exact congrArg (fun f => (Option.map f _).getD 0) (funext length_plain)
  have hcount : Stable fun count => (worth count).any fun q => compare q (rowsLength value) := by
    intro count
    simp only [worth_plain]
  rw [rowCountIs, hrows]
  exact hcount.field _ value

theorem isResult_plain : Stable isResult := by
  intro value
  simp only [isResult, isRecord_plain value, isResultColumn_plain.arrayOf.field _ value,
    isResultRow_plain.arrayOf.field _ value, isNumber_plain.field _ value, rowCountIs_plain _ value,
    isString_plain.field _ value, isBoolean_plain.optional _ value, isTrue_plain.field _ value]

theorem isLineageSource_plain : Stable isLineageSource := by
  intro value
  simp only [isLineageSource, isRecord_plain value, isString_plain.field _ value]

theorem isLineage_plain : Stable isLineage := by
  intro value
  simp only [isLineage, isRecord_plain value, isLineageSource_plain.arrayOf.field _ value,
    isStringArray_plain.field _ value]

theorem isDiagnostic_plain : Stable isDiagnostic := by
  intro value
  simp only [isDiagnostic, isRecord_plain value, isString_plain.field _ value, (isEnumValue_plain _).field _ value]

theorem isTokens_plain : Stable isTokens := by
  intro value
  simp only [isTokens, isRecord_plain value, isNumber_plain.field _ value]

section Dates

variable (dateParses : CodeUnits → Bool)

theorem isManifest_plain : Stable (isManifest dateParses) := by
  intro value
  simp only [isManifest, isRecord_plain value, isString_plain.field _ value,
    (isDateString_plain dateParses).field _ value]

theorem isExecutionLease_plain : Stable (isExecutionLease dateParses) := by
  intro value
  simp only [isExecutionLease, isRecord_plain value, isString_plain.field _ value,
    (isDateString_plain dateParses).field _ value]

/-- A run is a run whatever the signs of its zeros. -/
theorem isRun_plain : Stable (isRun dateParses) := by
  intro value
  simp only [isRun, isRecord_plain value, isString_plain.field _ value, isString_plain.optional _ value,
    (isEnumValue_plain _).field _ value, (isDateString_plain dateParses).field _ value,
    (isDateString_plain dateParses).optional _ value, isNumber_plain.field _ value, isTokens_plain.field _ value,
    isStage_plain.stages.field _ value, isSqg_plain.field _ value, isPlanNode_plain.arrayOf.field _ value,
    isResult_plain.optional _ value, isLineage_plain.field _ value, isDiagnostic_plain.arrayOf.field _ value,
    (isManifest_plain dateParses).optional _ value, (isExecutionLease_plain dateParses).optional _ value]

end Dates

/-! ## A legacy guard accepts less -/

section Weaken

variable {check check' : JsonValue → Bool} {value : JsonValue}

theorem field_some (check : JsonValue → Bool) {key : String} {v : JsonValue} (h : value.property (units key) = some v) :
    field key check value = check v := by
  rw [field, h]
  rfl

theorem optional_some (check : JsonValue → Bool) {key : String} {v : JsonValue}
    (h : value.property (units key) = some v) : optional key check value = check v := by
  rw [optional, h]
  rfl

theorem field_mono (h : ∀ v, check v = true → check' v = true) {key : String} (hv : field key check value = true) :
    field key check' value = true := by
  unfold field at *
  cases hp : value.property (units key) with
  | none => simp [hp] at hv
  | some v => exact h v (by simpa [hp] using hv)

theorem optional_mono (h : ∀ v, check v = true → check' v = true) {key : String}
    (hv : optional key check value = true) : optional key check' value = true := by
  unfold optional at *
  cases hp : value.property (units key) with
  | none => rfl
  | some v => exact h v (by simpa [hp] using hv)

theorem isArrayOf_mono (h : ∀ v, check v = true → check' v = true) (hv : isArrayOf check value = true) :
    isArrayOf check' value = true := by
  cases value with
  | array items => exact List.all_eq_true.mpr fun v hmem => h v (List.all_eq_true.mp hv v hmem)
  | null | boolean _ | number _ | string _ | object _ => cases hv

theorem everyValue_mono (h : ∀ v, check v = true → check' v = true) (hv : everyValue check value = true) :
    everyValue check' value = true := by
  cases value with
  | object entries => exact List.all_eq_true.mpr fun e hmem => h e.2 (List.all_eq_true.mp hv e hmem)
  | null | boolean _ | number _ | string _ | array _ => rfl

theorem isStages_mono (h : ∀ v, check v = true → check' v = true) (hv : isStages check value = true) :
    isStages check' value = true := by
  simp only [isStages, Bool.and_eq_true] at hv ⊢
  exact ⟨hv.1, isArrayOf_mono h hv.2⟩

end Weaken

theorem isEnumValue_mono {allowed allowed' : List String} (h : allowed ⊆ allowed') (value : JsonValue)
    (hv : isEnumValue allowed value = true) : isEnumValue allowed' value = true := by
  obtain ⟨text, hmem, htext⟩ := List.any_eq_true.mp hv
  exact List.any_eq_true.mpr ⟨text, h hmem, htext⟩

theorem isString_of_isText {text : String} (value : JsonValue) (hv : isText text value = true) :
    isString value = true := by
  cases value with
  | string s => rfl
  | null | boolean _ | number _ | array _ | object _ => cases hv

theorem isStage_of_isLegacyStage (value : JsonValue) (h : isLegacyStage value = true) : isStage value = true := by
  simp only [isLegacyStage, isStage, Bool.and_eq_true] at h ⊢
  simp only [h, and_self]

theorem isSqgFilter_of_isLegacySqgFilter (value : JsonValue) (h : isLegacySqgFilter value = true) :
    isSqgFilter value = true := by
  simp only [isLegacySqgFilter, isSqgFilter, Bool.and_eq_true] at h ⊢
  simp only [h, and_self]

theorem isSqg_of_isLegacySqg (value : JsonValue) (h : isLegacySqg value = true) : isSqg value = true := by
  simp only [isLegacySqg, Bool.and_eq_true] at h
  have hversion := field_mono isString_of_isText h.1.1.1.1.1.1.1.2
  have hfilters := field_mono (fun v => isArrayOf_mono isSqgFilter_of_isLegacySqgFilter) h.1.2
  simp only [isSqg, Bool.and_eq_true, hversion, hfilters, h, and_self]

theorem isPlanNode_of_isLegacyPlanNode (value : JsonValue) (h : isLegacyPlanNode value = true) :
    isPlanNode value = true := by
  simp only [isLegacyPlanNode, Bool.and_eq_true] at h
  have hkind := field_mono (isEnumValue_mono (by decide : legacyNodeKinds ⊆ nodeKinds)) h.1.1.1.1.2
  simp only [isPlanNode, Bool.and_eq_true, hkind, h, and_self]

theorem isResultRow_of_isLegacyResultRow (value : JsonValue) (h : isLegacyResultRow value = true) :
    isResultRow value = true := by
  simp only [isLegacyResultRow, isResultRow, Bool.and_eq_true] at h ⊢
  refine ⟨h.1, everyValue_mono ?_ h.2⟩
  intro cell hcell
  rcases Bool.or_eq_true_iff.mp hcell with hstring | hnumber
  · simp [isResultCell, hstring]
  · simp [isResultCell, hnumber]

theorem isLineage_of_isLegacyLineage (value : JsonValue) (h : isLegacyLineage value = true) :
    isLineage value = true := by
  have hsource : ∀ v, isLegacyLineageSource v = true → isLineageSource v = true := by
    intro v hv
    simp only [isLegacyLineageSource, isLineageSource, Bool.and_eq_true] at hv ⊢
    simp only [hv, and_self]
  simp only [isLegacyLineage, isLineage, Bool.and_eq_true] at h ⊢
  exact ⟨⟨h.1.1.1, field_mono (fun v => isArrayOf_mono hsource) h.1.2⟩, h.2⟩

theorem isDiagnostic_of_isLegacyDiagnostic (value : JsonValue) (h : isLegacyDiagnostic value = true) :
    isDiagnostic value = true := by
  simp only [isLegacyDiagnostic, isDiagnostic, Bool.and_eq_true] at h ⊢
  simp only [h, and_self]

theorem isTokens_of_isLegacyTokens (value : JsonValue) (h : isLegacyTokens value = true) : isTokens value = true := by
  simp only [isLegacyTokens, isTokens, Bool.and_eq_true] at h ⊢
  simp only [h, and_self]

theorem isManifest_of_isLegacyManifest (dateParses : CodeUnits → Bool) (value : JsonValue)
    (h : isLegacyManifest dateParses value = true) : isManifest dateParses value = true := by
  simp only [isLegacyManifest, isManifest, Bool.and_eq_true] at h ⊢
  simp only [h, and_self]

theorem isExecutionLease_of_isLegacyExecutionLease (dateParses : CodeUnits → Bool) (value : JsonValue)
    (h : isLegacyExecutionLease dateParses value = true) : isExecutionLease dateParses value = true := by
  simp only [isLegacyExecutionLease, isExecutionLease, Bool.and_eq_true] at h ⊢
  simp only [h, and_self]

/-! ## What is inferred -/

/-- The cell is one of the type. -/
def Fits (dataType : String) (cell : JsonValue) : Prop :=
  (dataType = "string" ∧ isString cell = true) ∨ (dataType = "integer" ∧ isSafeInteger cell = true) ∨
    (dataType = "float" ∧ isFiniteNumber cell = true)

/-- Every row has a cell of the column, and each that is not null is one of the type. -/
def ColumnFits (column : JsonValue) (rows : List JsonValue) (dataType : String) : Prop :=
  ∃ key, column.property (units "key") = some (.string key) ∧
    ∀ row ∈ rows, ∃ cell, row.property key = some cell ∧ (isNull cell = true ∨ Fits dataType cell)

theorem mem_columnCells {key : CodeUnits} {rows cells : List JsonValue} (h : columnCells key rows = some cells) :
    ∀ row ∈ rows, ∃ cell, row.property key = some cell ∧ (isNull cell = true ∨ cell ∈ cells) := by
  induction rows generalizing cells with
  | nil => simp
  | cons first rows ih =>
    rw [columnCells] at h
    cases hfirst : first.property key with
    | none => simp [hfirst] at h
    | some cell =>
      rw [hfirst] at h
      obtain ⟨others, hothers, rfl⟩ := Option.map_eq_some_iff.mp h
      intro row hrow
      rcases List.mem_cons.mp hrow with rfl | hrow
      · refine ⟨cell, hfirst, ?_⟩
        by_cases hnull : isNull cell = true
        · exact .inl hnull
        · exact .inr (by simp [hnull])
      · obtain ⟨cell', hcell', hor⟩ := ih hothers row hrow
        refine ⟨cell', hcell', hor.imp id fun hmem => ?_⟩
        split_ifs
        · exact hmem
        · exact List.mem_cons_of_mem _ hmem

/-- A type is inferred from the cells that are not null, all of which are of it. -/
theorem infer_cases {column : JsonValue} {rows : List JsonValue} {dataType : String}
    (h : inferLegacyColumnDataType column rows = some dataType) :
    ∃ key cells, column.property (units "key") = some (.string key) ∧ columnCells key rows = some cells ∧
      ((dataType = "string" ∧ cells.all isString = true) ∨ (dataType = "integer" ∧ cells.all isSafeInteger = true) ∨
        (dataType = "float" ∧ cells.all isFiniteNumber = true)) := by
  obtain ⟨key, hkey, h⟩ := Option.bind_eq_some_iff.mp h
  obtain ⟨keyValue, hproperty, hstring⟩ := Option.bind_eq_some_iff.mp hkey
  have hkeyValue : keyValue = .string key := by
    cases keyValue with
    | string s =>
      cases hstring
      rfl
    | null | boolean _ | number _ | array _ | object _ => cases hstring
  by_cases hformat : (!field "format" (isEnumValue legacyColumnFormats) column) = true
  · rw [if_pos hformat] at h
    cases h
  rw [if_neg hformat] at h
  obtain ⟨cells, hcells, h⟩ := Option.bind_eq_some_iff.mp h
  refine ⟨key, cells, hproperty.trans (congrArg some hkeyValue), hcells, ?_⟩
  split_ifs at h with hempty htext hstrings hnumbers hintegers hfloats
  · cases h
    exact .inl ⟨rfl, hstrings⟩
  · cases h
    exact .inr (.inl ⟨rfl, hintegers⟩)
  · cases h
    exact .inr (.inr ⟨rfl, by simpa using hnumbers⟩)

theorem infer_fits {column : JsonValue} {rows : List JsonValue} {dataType : String}
    (h : inferLegacyColumnDataType column rows = some dataType) : ColumnFits column rows dataType := by
  obtain ⟨key, cells, hkey, hcells, hall⟩ := infer_cases h
  refine ⟨key, hkey, fun row hrow => ?_⟩
  obtain ⟨cell, hcell, hor⟩ := mem_columnCells hcells row hrow
  refine ⟨cell, hcell, hor.imp id fun hmem => ?_⟩
  exact hall.imp (fun h => ⟨h.1, List.all_eq_true.mp h.2 cell hmem⟩)
    (Or.imp (fun h => ⟨h.1, List.all_eq_true.mp h.2 cell hmem⟩) fun h => ⟨h.1, List.all_eq_true.mp h.2 cell hmem⟩)

theorem infer_scalarType {column : JsonValue} {rows : List JsonValue} {dataType : String}
    (h : inferLegacyColumnDataType column rows = some dataType) : dataType ∈ scalarTypes := by
  obtain ⟨key, cells, -, -, hall⟩ := infer_cases h
  rcases hall with ⟨rfl, -⟩ | ⟨rfl, -⟩ | ⟨rfl, -⟩ <;> decide

/-! ## What is migrated -/

theorem isRecord_spread (value : JsonValue) (key : CodeUnits) (added : JsonValue) :
    (value.spread key added).isRecord = value.isRecord := by
  cases value <;> rfl

section Spread

variable {value : JsonValue} (hrecord : value.isRecord = true)
include hrecord

theorem field_spread (key key' : String) (check : JsonValue → Bool) (added : JsonValue) :
    field key check (value.spread (units key') added) =
      if units key = units key' then check added else field key check value := by
  rw [field, property_spread hrecord]
  split_ifs <;> rfl

theorem optional_spread (key key' : String) (check : JsonValue → Bool) (added : JsonValue) :
    optional key check (value.spread (units key') added) =
      if units key = units key' then check added else optional key check value := by
  rw [optional, property_spread hrecord]
  split_ifs <;> rfl

end Spread

theorem optional_of_not_hasOwn {value : JsonValue} {key : String} (h : (!hasOwn value key) = true)
    (check : JsonValue → Bool) : optional key check value = true := by
  have hnone : value.property (units key) = none := by simpa [hasOwn] using h
  rw [optional, hnone]
  rfl

/-- A legacy run is a run once its result is one. -/
theorem isRun_of_isLegacyRun {dateParses : CodeUnits → Bool} {value result : JsonValue}
    (h : isLegacyRun dateParses value = true) (hresult : isResult result = true) :
    isRun dateParses (value.spread (units "result") result) = true := by
  simp only [isLegacyRun, Bool.and_eq_true] at h
  have hrecord : value.isRecord = true := by simp only [h]
  have hworkload : optional "workload" isString value = true := optional_of_not_hasOwn (by simp only [h]) _
  have hontology : optional "ontology" isString value = true := optional_of_not_hasOwn (by simp only [h]) _
  have hcompilation : optional "compilationMode" isString value = true :=
    optional_of_not_hasOwn (by simp only [h]) _
  have htokens : field "tokens" isTokens value = true := field_mono isTokens_of_isLegacyTokens (by simp only [h])
  have hstages : field "stages" (isStages isStage) value = true :=
    field_mono (fun v => isStages_mono isStage_of_isLegacyStage) (by simp only [h])
  have hsqg : field "sqg" isSqg value = true := field_mono isSqg_of_isLegacySqg (by simp only [h])
  have hnodes : field "nodes" (isArrayOf isPlanNode) value = true :=
    field_mono (fun v => isArrayOf_mono isPlanNode_of_isLegacyPlanNode) (by simp only [h])
  have hlineage : field "lineage" isLineage value = true :=
    field_mono isLineage_of_isLegacyLineage (by simp only [h])
  have hdiagnostics : field "diagnostics" (isArrayOf isDiagnostic) value = true :=
    field_mono (fun v => isArrayOf_mono isDiagnostic_of_isLegacyDiagnostic) (by simp only [h])
  have hmanifest : optional "manifest" (isManifest dateParses) value = true :=
    optional_mono (isManifest_of_isLegacyManifest dateParses) (by simp only [h])
  have hlease : optional "executionLease" (isExecutionLease dateParses) value = true :=
    optional_mono (isExecutionLease_of_isLegacyExecutionLease dateParses) (by simp only [h])
  simp +decide only [isRun, isRecord_spread, field_spread hrecord, optional_spread hrecord, if_true, if_false,
    Bool.and_eq_true, hresult, hworkload, hontology, hcompilation, htokens, hstages, hsqg, hnodes, hlineage,
    hdiagnostics, hmanifest, hlease, h]

theorem units_isText (text : String) : isText text (.string (units text)) = true := decide_eq_true rfl

/-- A legacy column with an inferred type is a column. -/
theorem isResultColumn_spread {column : JsonValue} {dataType : String} (h : isLegacyResultColumn column = true)
    (htype : dataType ∈ scalarTypes) :
    isResultColumn (column.spread (units "dataType") (.string (units dataType))) = true := by
  simp only [isLegacyResultColumn, Bool.and_eq_true] at h
  have hrecord : column.isRecord = true := by simp only [h]
  have hformat : field "format" (isEnumValue columnFormats) column = true :=
    field_mono (isEnumValue_mono (by decide : legacyColumnFormats ⊆ columnFormats)) (by simp only [h])
  have hdataType : isEnumValue scalarTypes (.string (units dataType)) = true :=
    List.any_eq_true.mpr ⟨dataType, htype, units_isText dataType⟩
  simp +decide only [isResultColumn, isRecord_spread, field_spread hrecord, if_true, if_false, Bool.and_eq_true,
    hdataType, hformat, h]

theorem rowCountIs_spread {result : JsonValue} (hrecord : result.isRecord = true) (compare : ℚ → ℚ → Bool)
    (columns : JsonValue) :
    rowCountIs compare (result.spread (units "columns") columns) = rowCountIs compare result := by
  have hrows : rowsLength (result.spread (units "columns") columns) = rowsLength result := by
    rw [rowsLength, property_spread hrecord, if_neg (by decide), rowsLength]
  rw [rowCountIs, hrows, field_spread hrecord, if_neg (by decide), rowCountIs]

/-- A legacy result with columns for its columns is a result. -/
theorem isResult_spread {result : JsonValue} {columns : List JsonValue} (h : isLegacyResult result = true)
    (hcolumns : ∀ column ∈ columns, isResultColumn column = true) :
    isResult (result.spread (units "columns") (.array columns)) = true := by
  simp only [isLegacyResult, Bool.and_eq_true] at h
  have hrecord : result.isRecord = true := by simp only [h]
  have hcount : rowCountIs (fun count rows => count = rows) result = true := by simp only [h]
  have hle : rowCountIs (fun count rows => rows ≤ count) result = true := by
    refine field_mono (fun count hv => ?_) hcount
    cases hworth : worth count with
    | none => simp [hworth] at hv
    | some q =>
      have heq : q = rowsLength result := by simpa [hworth] using hv
      simpa [hworth] using heq.ge
  have hrows : field "rows" (isArrayOf isResultRow) result = true :=
    field_mono (fun v => isArrayOf_mono isResultRow_of_isLegacyResultRow) (by simp only [h])
  have hnone : result.property (units "truncated") = none := by
    have hown : (!hasOwn result "truncated") = true := by simp only [h]
    simpa [hasOwn] using hown
  have hoptional : optional "truncated" isBoolean result = true := by rw [optional, hnone]; rfl
  have htruncated : field "truncated" isTrue result = false := by rw [field, hnone]; rfl
  have hall : isArrayOf isResultColumn (.array columns) = true := List.all_eq_true.mpr hcolumns
  simp +decide only [isResult, isRecord_spread, field_spread hrecord, optional_spread hrecord,
    rowCountIs_spread hrecord, if_true, if_false, Bool.and_eq_true, hall, hrows, hle, hcount, hoptional, htruncated, h]

/-- The value differs by a type that each of its result columns is given, and that the cells fit. -/
def DiffersByTypes (value migrated : JsonValue) : Prop :=
  ∃ result columns rows columns', value.property (units "result") = some result ∧
    result.property (units "columns") = some (.array columns) ∧ result.property (units "rows") = some (.array rows) ∧
    migrated = value.spread (units "result") (result.spread (units "columns") (.array columns')) ∧
    List.Forall₂ (fun column column' => ∃ dataType, column.property (units "dataType") = none ∧
      column' = column.spread (units "dataType") (.string (units dataType)) ∧ ColumnFits column rows dataType)
      columns columns'

theorem forall₂_migrateColumn {columns rows : List JsonValue}
    (hplain : ∀ column ∈ columns, column.property (units "dataType") = none)
    (htyped : ∀ column ∈ columns, hasOwn (migrateColumn rows column) "dataType" = true) :
    List.Forall₂ (fun column column' => ∃ dataType, column.property (units "dataType") = none ∧
      column' = column.spread (units "dataType") (.string (units dataType)) ∧ ColumnFits column rows dataType)
      columns (columns.map (migrateColumn rows)) := by
  rw [List.forall₂_map_right_iff, List.forall₂_same]
  intro column hmem
  have hnone := hplain column hmem
  have hown := htyped column hmem
  unfold migrateColumn at hown ⊢
  cases hinfer : inferLegacyColumnDataType column rows with
  | none => simp [hinfer, hasOwn, hnone] at hown
  | some dataType => exact ⟨dataType, hnone, rfl, infer_fits hinfer⟩

theorem isResultColumn_migrateColumn {result : JsonValue} {columns rows : List JsonValue}
    (hlegacy : isLegacyResult result = true) (hcolumns : result.property (units "columns") = some (.array columns))
    (hplain : ∀ column ∈ columns, column.property (units "dataType") = none)
    (htyped : ∀ column ∈ columns, hasOwn (migrateColumn rows column) "dataType" = true) :
    ∀ column ∈ columns.map (migrateColumn rows), isResultColumn column = true := by
  have hall : ∀ column ∈ columns, isLegacyResultColumn column = true := by
    have harray : isArrayOf isLegacyResultColumn (.array columns) = true := by
      rw [← field_some (isArrayOf isLegacyResultColumn) hcolumns]
      simp only [isLegacyResult, Bool.and_eq_true] at hlegacy
      simp only [hlegacy]
    exact List.all_eq_true.mp harray
  intro migrated hmigrated
  obtain ⟨column, hmem, rfl⟩ := List.mem_map.mp hmigrated
  have hown := htyped column hmem
  unfold migrateColumn at hown ⊢
  cases hinfer : inferLegacyColumnDataType column rows with
  | none => simp [hinfer, hasOwn, hplain column hmem] at hown
  | some dataType => exact isResultColumn_spread (hall column hmem) (infer_scalarType hinfer)

/-- No run has a result column without a type. -/
theorem not_isRun_of_untyped (dateParses : CodeUnits → Bool) {value result column : JsonValue}
    {columns : List JsonValue} (hresult : value.property (units "result") = some result)
    (hcolumns : result.property (units "columns") = some (.array columns)) (hmem : column ∈ columns)
    (hnone : column.property (units "dataType") = none) : isRun dateParses value = false := by
  by_contra hrun
  have hrun : isRun dateParses value = true := by simpa using hrun
  have hisResult : isResult result = true := by
    rw [← optional_some isResult hresult]
    simp only [isRun, Bool.and_eq_true] at hrun
    simp only [hrun]
  have harray : isArrayOf isResultColumn (.array columns) = true := by
    rw [← field_some (isArrayOf isResultColumn) hcolumns]
    simp only [isResult, Bool.and_eq_true] at hisResult
    simp only [hisResult]
  have hcolumn : isResultColumn column = true := List.all_eq_true.mp harray column hmem
  simp only [isResultColumn, Bool.and_eq_true] at hcolumn
  have hdataType : field "dataType" (isEnumValue scalarTypes) column = true := by simp only [hcolumn]
  simp [field, hnone] at hdataType

/-- Migration leaves a value as it is, or types the columns of a legacy run. -/
theorem migrate_cases (dateParses : CodeUnits → Bool) (value : JsonValue) :
    migrateLegacyResultColumns dateParses value = (value, false) ∨
      ∃ migrated, migrateLegacyResultColumns dateParses value = (migrated, true) ∧
        isRun dateParses migrated = true ∧ isRun dateParses value = false ∧ DiffersByTypes value migrated := by
  unfold migrateLegacyResultColumns
  cases hresult : value.property (units "result") with
  | none => exact .inl rfl
  | some result =>
    cases hcolumns : result.property (units "columns") with
    | none => exact .inl (by simp only [hcolumns])
    | some columnsValue =>
      cases hrows : result.property (units "rows") with
      | none => cases columnsValue <;> exact .inl (by simp only [hcolumns, hrows])
      | some rowsValue =>
        cases columnsValue with
        | null | boolean _ | number _ | string _ | object _ => exact .inl (by simp only [hcolumns, hrows])
        | array columns =>
          cases rowsValue with
          | null | boolean _ | number _ | string _ | object _ => exact .inl (by simp only [hcolumns, hrows])
          | array rows =>
            simp only [hcolumns, hrows]
            split_ifs with hempty hplain hlegacy htyped
            · exact .inl rfl
            · exact .inl rfl
            · exact .inl rfl
            · right
              have hplain : ∀ column ∈ columns, column.property (units "dataType") = none := by
                intro column hmem
                have hall : columns.all (fun column => column.isRecord && !hasOwn column "dataType") = true := by
                  simpa using hplain
                have hcolumn := (Bool.and_eq_true_iff.mp (List.all_eq_true.mp hall column hmem)).2
                simpa [hasOwn] using hcolumn
              have htyped : ∀ column ∈ columns, hasOwn (migrateColumn rows column) "dataType" = true := by
                intro column hmem
                exact (Bool.and_eq_true_iff.mp (List.all_eq_true.mp htyped _ (List.mem_map_of_mem hmem))).2
              have hrun : isLegacyRun dateParses value = true := by simpa using hlegacy
              have hlegacyResult : isLegacyResult result = true := by
                rw [← optional_some isLegacyResult hresult]
                simp only [isLegacyRun, Bool.and_eq_true] at hrun
                simp only [hrun]
              have hmigrated := isResultColumn_migrateColumn hlegacyResult hcolumns hplain htyped
              refine ⟨_, rfl, isRun_of_isLegacyRun hrun (isResult_spread hlegacyResult hmigrated), ?_, result, columns,
                rows, _, hresult, hcolumns, hrows, rfl, forall₂_migrateColumn hplain htyped⟩
              obtain ⟨column, hmem⟩ := List.exists_mem_of_ne_nil columns (by simpa using hempty)
              exact not_isRun_of_untyped dateParses hresult hcolumns hmem (hplain column hmem)
            · exact .inl rfl

theorem migrate_run {dateParses : CodeUnits → Bool} {value : JsonValue} (h : isRun dateParses value = true) :
    migrateLegacyResultColumns dateParses value = (value, false) := by
  rcases migrate_cases dateParses value with hsame | ⟨migrated, -, -, hnot, -⟩
  · exact hsame
  · rw [h] at hnot
    cases hnot

theorem everywhere_forall₂ {p : JsonValue → Prop} {columns columns' : List JsonValue}
    {R : JsonValue → JsonValue → Prop} (hrel : List.Forall₂ R columns columns')
    (hall : ∀ column ∈ columns, Everywhere p column)
    (hstep : ∀ column column', R column column' → Everywhere p column → Everywhere p column') :
    ∀ column ∈ columns', Everywhere p column := by
  induction hrel with
  | nil => simp
  | cons hfirst hrest ih =>
    intro column hmem
    rcases List.mem_cons.mp hmem with rfl | hmem
    · exact hstep _ _ hfirst (hall _ (by simp))
    · exact ih (fun c hc => hall c (List.mem_cons_of_mem _ hc)) column hmem

/-- What is migrated is finite and ordered where the value is. -/
theorem DiffersByTypes.finite {value migrated : JsonValue} (h : DiffersByTypes value migrated) (hv : value.Finite) :
    migrated.Finite := by
  obtain ⟨result, columns, rows, columns', hresult, hcolumns, -, rfl, hrel⟩ := h
  have hresult : result.Finite := Everywhere.property hv hresult
  have hall : ∀ column ∈ columns, column.Finite := (everywhere_array.mp (Everywhere.property hresult hcolumns)).2
  refine Finite.spread hv (Finite.spread hresult (everywhere_array.mpr ⟨trivial, ?_⟩))
  refine everywhere_forall₂ hrel hall ?_
  rintro column column' ⟨dataType, -, rfl, -⟩ hcolumn
  exact Finite.spread hcolumn trivial

theorem DiffersByTypes.wellOrdered {value migrated : JsonValue} (h : DiffersByTypes value migrated)
    (hv : value.WellOrdered) : migrated.WellOrdered := by
  obtain ⟨result, columns, rows, columns', hresult, hcolumns, -, rfl, hrel⟩ := h
  have hresult : result.WellOrdered := Everywhere.property hv hresult
  have hall : ∀ column ∈ columns, column.WellOrdered :=
    (everywhere_array.mp (Everywhere.property hresult hcolumns)).2
  refine WellOrdered.spread hv (WellOrdered.spread hresult (everywhere_array.mpr ⟨?_, ?_⟩))
  · intro entries heq
    cases heq
  refine everywhere_forall₂ hrel hall ?_
  rintro column column' ⟨dataType, -, rfl, -⟩ hcolumn
  refine WellOrdered.spread hcolumn ?_
  intro entries heq
  cases heq

/-! ## Reading back -/

/-- What is accepted is a run, made of what was read. -/
theorem accepted_run {dateParses : CodeUnits → Bool} {raw : CodeUnits} {run : JsonValue} {migrated : Bool}
    (h : parseStoredRunRecord dateParses raw = ⟨some run, migrated⟩) :
    isRun dateParses run = true ∧
      ∃ parsed, parse raw = some parsed ∧ (parsed.Finite → run.Finite) ∧ run.WellOrdered := by
  unfold parseStoredRunRecord at h
  cases hparse : parse raw with
  | none =>
    rw [hparse] at h
    cases h
  | some parsed =>
    simp only [hparse] at h
    have hordered := parse_wellOrdered hparse
    split_ifs at h with hversion
    · cases h
    cases hrun : parsed.property (units "run") with
    | none =>
      rw [hrun] at h
      cases h
    | some value =>
      simp only [hrun] at h
      have hvalue : parsed.Finite → value.Finite := fun hfinite => Everywhere.property hfinite hrun
      have hvalue' : value.WellOrdered := Everywhere.property hordered hrun
      split_ifs at h with hisRun
      · cases h
        rcases migrate_cases dateParses value with hsame | ⟨made, hmade, -, -, hdiffers⟩
        · rw [hsame] at hisRun ⊢
          exact ⟨hisRun, parsed, rfl, hvalue, hvalue'⟩
        · rw [hmade] at hisRun ⊢
          exact ⟨hisRun, parsed, rfl, fun hfinite => hdiffers.finite (hvalue hfinite), hdiffers.wellOrdered hvalue'⟩
      · cases h

/-- A run that is written is read back with its zeros unsigned. -/
theorem run_reread (engine : Shortest) {dateParses : CodeUnits → Bool} {run : JsonValue}
    (hrun : isRun dateParses run = true) (hfinite : run.Finite) (hordered : run.WellOrdered) :
    parseStoredRunRecord dateParses (serializeStoredRun engine run) = ⟨some run.plainZeros, false⟩ := by
  have hstored : (storedRun run).Finite := by
    refine everywhere_object.mpr ⟨trivial, ?_⟩
    intro e he
    simp only [List.mem_cons, List.not_mem_nil, or_false] at he
    rcases he with rfl | rfl
    · trivial
    · exact hfinite
  have hstored' : (storedRun run).WellOrdered := by
    refine everywhere_object.mpr ⟨?_, ?_⟩
    · intro entries heq
      cases heq
      refine List.pairwise_cons.mpr ⟨?_, List.pairwise_singleton _ _⟩
      intro e he
      rw [List.mem_singleton.mp he]
      exact ⟨(by decide : units "version" ≠ units "run"),
        (by decide : goesBefore (units "run") (units "version") = false)⟩
    · intro e he
      simp only [List.mem_cons, List.not_mem_nil, or_false] at he
      rcases he with rfl | rfl
      · intro entries heq
        cases heq
      · exact hordered
  have hparse := parse_stringify engine hstored hstored'
  have hplain : isRun dateParses run.plainZeros = true := (isRun_plain dateParses run).trans hrun
  have hversion : (storedRun run).plainZeros.property (units "version") = some (.number (.finite 1 isDouble_one)) := by
    rw [property_plainZeros]
    rfl
  have hproperty : (storedRun run).plainZeros.property (units "run") = some run.plainZeros := by
    rw [property_plainZeros, storedRun, property, lookup_cons_if, if_neg (by decide), lookup_cons_if, if_pos rfl]
    rfl
  have hone : field "version" (fun version => worth version = some 1) (storedRun run).plainZeros = true := by
    rw [field_some _ hversion]
    exact decide_eq_true rfl
  rw [parseStoredRunRecord, serializeStoredRun, hparse]
  simp only [hone, Bool.not_true, Bool.false_eq_true, if_false, hproperty, migrate_run hplain, hplain, if_true]

/-- Every run that a stored text holds is read back, without a migration and with its zeros
    unsigned; migration leaves runs alone, and makes only runs, which differ by the types of
    their result columns. -/
theorem stored_runs_survive (engine : Shortest) (dateParses : CodeUnits → Bool) :
    (∀ raw parsed run migrated, parse raw = some parsed → parsed.Finite →
      parseStoredRunRecord dateParses raw = ⟨some run, migrated⟩ →
      parseStoredRunRecord dateParses (serializeStoredRun engine run) = ⟨some run.plainZeros, false⟩ ∧
        (run.Unsigned → run.plainZeros = run)) ∧
    (∀ value, isRun dateParses value = true → migrateLegacyResultColumns dateParses value = (value, false)) ∧
    (∀ value migrated, migrateLegacyResultColumns dateParses value = (migrated, true) →
      isRun dateParses migrated = true ∧ DiffersByTypes value migrated) := by
  refine ⟨?_, fun value => migrate_run, ?_⟩
  · intro raw parsed run migrated hparse hfinite haccepted
    obtain ⟨hrun, parsed', hparse', hrunFinite, hordered⟩ := accepted_run haccepted
    rw [hparse] at hparse'
    cases hparse'
    exact ⟨run_reread engine hrun (hrunFinite hfinite) hordered, Unsigned.plainZeros⟩
  · intro value migrated hmigrate
    rcases migrate_cases dateParses value with hsame | ⟨made, hmade, hrun, -, hdiffers⟩
    · rw [hsame] at hmigrate
      cases hmigrate
    · rw [hmade] at hmigrate
      cases hmigrate
      exact ⟨hrun, hdiffers⟩

/-! ## A text -/

def midnight : String := "2025-03-01T00:00:00.000Z"

def stageText (key : String) : CodeUnits :=
  units "\x7b\"key\":\"" ++ units key ++ units "\",\"label\":\"\",\"description\":\"\",\"state\":\"pending\"\x7d"

/-- The text of a legacy run with this elapsed time and result. -/
def sampleText (elapsedMs result : CodeUnits) : CodeUnits :=
  units "\x7b\"version\":1,\"run\":\x7b\"id\":\"a\",\"question\":\"q\",\"state\":\"succeeded\",\"createdAt\":\"" ++
    units midnight ++ units "\",\"elapsedMs\":" ++ elapsedMs ++
    units ",\"model\":\"m\",\"executionMode\":\"e\",\"outputMode\":\"o\"," ++
    units "\"tokens\":\x7b\"input\":3,\"output\":4\x7d,\"stages\":[" ++
    List.intercalate (units ",") (stageKeys.map stageText) ++
    units "],\"sqg\":\x7b\"version\":\"0.1\",\"intent\":\"\",\"ontology\":\"\",\"resolvedMembers\":[]," ++
    units "\"metrics\":[],\"dimensions\":[],\"filters\":[],\"policyChecks\":[]\x7d,\"nodes\":[],\"result\":" ++
    result ++
    units ",\"lineage\":\x7b\"sources\":[],\"transformations\":[]\x7d,\"diagnostics\":[],\"scenario\":\"success\"\x7d\x7d"

def emptyResult : CodeUnits := units "\x7b\"columns\":[],\"rows\":[],\"rowCount\":0,\"coverage\":\"\"\x7d"

def untypedResult : CodeUnits :=
  units "\x7b\"columns\":[\x7b\"key\":\"n\",\"label\":\"N\",\"format\":\"number\"\x7d]," ++
    units "\"rows\":[\x7b\"n\":2.5\x7d],\"rowCount\":1,\"coverage\":\"\"\x7d"

/-- A reader of the one date in the text. -/
def readsMidnight (s : CodeUnits) : Bool := s = units midnight

/-- The text is read as a finite value, accepted with this flag, and its run passes the check. -/
def acceptedWith (raw : CodeUnits) (migrated : Bool) (check : JsonValue → Bool) : Bool :=
  (parse raw).any (fun parsed => decide parsed.Finite) &&
    ((parseStoredRunRecord readsMidnight raw).run.any check &&
      (parseStoredRunRecord readsMidnight raw).migrated == migrated)

theorem acceptedWith_spec {raw : CodeUnits} {migrated : Bool} {check : JsonValue → Bool}
    (h : acceptedWith raw migrated check = true) :
    ∃ parsed run, parse raw = some parsed ∧ parsed.Finite ∧
      parseStoredRunRecord readsMidnight raw = ⟨some run, migrated⟩ ∧ check run = true := by
  obtain ⟨hfinite, hrecord⟩ := Bool.and_eq_true_iff.mp h
  obtain ⟨hrun, hmigrated⟩ := Bool.and_eq_true_iff.mp hrecord
  cases hparse : parse raw with
  | none => simp [hparse] at hfinite
  | some parsed =>
    cases hparsed : parseStoredRunRecord readsMidnight raw with
    | mk run flag =>
      rw [hparsed] at hrun hmigrated
      cases run with
      | none => cases hrun
      | some run =>
        rw [hparse] at hfinite
        obtain rfl : flag = migrated := by simpa using hmigrated
        exact ⟨parsed, run, rfl, of_decide_eq_true hfinite, rfl, hrun⟩

def isNegativeZero : JsonValue → Bool
  | .number .negativeZero => true
  | _ => false

theorem signed_zero_changes {run : JsonValue} (h : field "elapsedMs" isNegativeZero run = true) :
    run.plainZeros ≠ run := by
  intro heq
  have hchanged : field "elapsedMs" isNegativeZero run.plainZeros = false := by
    rw [field, property_plainZeros, Option.any_map]
    cases hproperty : run.property (units "elapsedMs") with
    | none => rfl
    | some value =>
      cases value with
      | number n => cases n <;> rfl
      | null | boolean _ | string _ | array _ | object _ => rfl
  rw [heq, h] at hchanged
  cases hchanged

theorem not_reread {raw : CodeUnits} (h : acceptedWith raw false (field "elapsedMs" isNegativeZero) = true) :
    ∃ parsed run, parse raw = some parsed ∧ parsed.Finite ∧
      parseStoredRunRecord readsMidnight raw = ⟨some run, false⟩ ∧
      parseStoredRunRecord readsMidnight (serializeStoredRun .nearest run) ≠ ⟨some run, false⟩ := by
  obtain ⟨parsed, run, hparse, hfinite, haccepted, hzero⟩ := acceptedWith_spec h
  refine ⟨parsed, run, hparse, hfinite, haccepted, ?_⟩
  obtain ⟨hrun, parsed', hparse', hrunFinite, hordered⟩ := accepted_run haccepted
  rw [hparse] at hparse'
  cases hparse'
  rw [run_reread .nearest hrun (hrunFinite hfinite) hordered]
  intro heq
  exact signed_zero_changes hzero (Option.some.inj (congrArg ParsedStoredRunRecord.run heq))

/-- A run whose elapsed time is -0 is not read back as it was. -/
theorem signed_zero_lost :
    ∃ parsed run, parse (sampleText (units "-0") emptyResult) = some parsed ∧ parsed.Finite ∧
      parseStoredRunRecord readsMidnight (sampleText (units "-0") emptyResult) = ⟨some run, false⟩ ∧
      parseStoredRunRecord readsMidnight (serializeStoredRun .nearest run) ≠ ⟨some run, false⟩ :=
  not_reread (by decide +kernel)

/-- What is accepted with a migration was migrated. -/
theorem accepted_migrated {dateParses : CodeUnits → Bool} {raw : CodeUnits} {run : JsonValue}
    (h : parseStoredRunRecord dateParses raw = ⟨some run, true⟩) :
    ∃ value, migrateLegacyResultColumns dateParses value = (run, true) ∧ isRun dateParses run = true := by
  unfold parseStoredRunRecord at h
  cases hparse : parse raw with
  | none =>
    rw [hparse] at h
    cases h
  | some parsed =>
    simp only [hparse] at h
    split_ifs at h with hversion
    · cases h
    cases hrun : parsed.property (units "run") with
    | none =>
      rw [hrun] at h
      cases h
    | some value =>
      simp only [hrun] at h
      split_ifs at h with hisRun
      · obtain ⟨hvalue, hflag⟩ := ParsedStoredRunRecord.mk.inj h
        obtain rfl := Option.some.inj hvalue
        exact ⟨value, Prod.ext rfl hflag, hisRun⟩
      · cases h

theorem sample_accepted : acceptedWith (sampleText (units "12") untypedResult) true (fun _ => true) = true := by
  decide +kernel

/-- A legacy run with a column of numbers is migrated, and read back without a migration. -/
theorem sample_survives :
    ∃ value run, parseStoredRunRecord readsMidnight (sampleText (units "12") untypedResult) = ⟨some run, true⟩ ∧
      DiffersByTypes value run ∧ migrateLegacyResultColumns readsMidnight run = (run, false) ∧
      parseStoredRunRecord readsMidnight (serializeStoredRun .nearest run) = ⟨some run.plainZeros, false⟩ := by
  have hall : ∀ raw, acceptedWith raw true (fun _ => true) = true →
      ∃ value run, parseStoredRunRecord readsMidnight raw = ⟨some run, true⟩ ∧
        DiffersByTypes value run ∧ migrateLegacyResultColumns readsMidnight run = (run, false) ∧
        parseStoredRunRecord readsMidnight (serializeStoredRun .nearest run) = ⟨some run.plainZeros, false⟩ := by
    intro raw haccept
    obtain ⟨parsed, run, hparse, hfinite, haccepted, -⟩ := acceptedWith_spec haccept
    obtain ⟨hreread, hsame, hmigrates⟩ := stored_runs_survive .nearest readsMidnight
    obtain ⟨value, hvalue, hrun⟩ := accepted_migrated haccepted
    exact ⟨value, run, haccepted, (hmigrates value run hvalue).2, hsame run hrun,
      (hreread raw parsed run true hparse hfinite haccepted).1⟩
  exact hall (sampleText (units "12") untypedResult) sample_accepted

end DataNexus.Web.RunStorage
