/-
  DataNexus.Semantic.Validator — the deterministic checks on a candidate graph
  (`SQGValidator` in `semantic_api/validator.py`).

  Every check appends its diagnostic and goes on, so a candidate is accepted when nothing
  was noted. Each node gets a flow: its columns with their provenance, and the member and
  time predicates on the way to it. Sets of ids are lists read by membership; a dict is a
  list of pairs in insertion order. `datetime.fromisoformat`, restricted to texts with an
  offset, is a parameter (`parseIso`). Every diagnostic has severity ERROR and stage
  VALIDATE. A candidate that does not parse as an SQG is refused before all of this.
-/

import DataNexus.Lib.Worklist
import DataNexus.Lib.Kahn
import DataNexus.Semantic.Models

namespace DataNexus.Semantic

open Lib Noted

inductive Detail where
  | text (value : String)
  | int (value : Nat)
  deriving DecidableEq

structure Diagnostic where
  code : String
  message : String
  path : String
  details : List (String × Detail) := []
  deriving DecidableEq

abbrev Check := Noted Diagnostic

/-! ## Flows -/

structure Column where
  dataType : ScalarType
  entities : List String
  sourceConceptId : Option String := none
  memberDomainFieldId : Option String := none
  timeDomainFieldId : Option String := none
  conceptLineage : List String := []
  aggregatedConcepts : List String := []
  constraintEligible : Bool := true
  deriving DecidableEq

structure MemberConstraint where
  fieldId : String
  values : List String
  sourceEnforcing : Bool
  deriving DecidableEq

structure TimeConstraint where
  fieldId : String
  window : Option (Int × Int)
  sourceEnforcing : Bool
  deriving DecidableEq

structure Flow where
  columns : List (String × Column)
  grain : List String
  entities : List String
  usedConcepts : List String := []
  enforcingConcepts : List String := []
  memberConstraints : List MemberConstraint := []
  timeConstraints : List TimeConstraint := []
  deriving DecidableEq

namespace Flow

def column? (flow : Flow) (name : String) : Option Column := flow.columns.lookup name

end Flow

def hasColumn (columns : List (String × Column)) (name : String) : Bool := (columns.lookup name).isSome

/-- `columns[name] = column`. -/
def setColumn (columns : List (String × Column)) (name : String) (column : Column) : List (String × Column) :=
  if hasColumn columns name then columns.map fun c => if c.1 = name then (name, column) else c
  else columns ++ [(name, column)]

/-- The two texts of a dict whose keys are exactly `start` and `end_exclusive`. -/
def rangeOf (entries : List (String × String)) : Option (String × String) :=
  if entries.all fun e => e.1 = "start" || e.1 = "end_exclusive" then
    (entries.lookup "start").bind fun start => (entries.lookup "end_exclusive").map (start, ·)
  else none

/-- `math.isfinite`. -/
def isFiniteFloat (bits : BitVec 64) : Bool := bits.extractLsb' 52 11 != 0x7FF#11

structure SQGValidator where
  registry : OntologyRegistry
  parseIso : String → Option DateTime

namespace SQGValidator

variable (v : SQGValidator)

def parseDatetime : Scalar → Option DateTime
  | .text value => v.parseIso value
  | _ => none

def runtimeValueMatches (value : Scalar) : ScalarType → Bool
  | .string => match value with | .text _ => true | _ => false
  | .number =>
    match value with
    | .int _ => true
    | .float bits => isFiniteFloat bits
    | _ => false
  | .boolean => match value with | .bool _ => true | _ => false
  | .datetime => (v.parseDatetime value).isSome

def validateConcept (id : String) (kind : ConceptKind) (selected : List String) (path : String) : Check Unit :=
  match v.registry.conceptState id kind with
  | none =>
    note ⟨"ONTOLOGY_CONCEPT_UNKNOWN", "Reference is not an exact ontology " ++ kind.text ++ " ID.", path,
      [("concept_id", .text id)]⟩
  | some (enabled, policy) => do
    noteIf (!enabled || policy = .deny) ⟨"ONTOLOGY_CONCEPT_FORBIDDEN",
      "Ontology concept is disabled or denied by query policy.", path, [("concept_id", .text id)]⟩
    noteIf (id ∉ selected) ⟨"CONTEXT_CONCEPT_NOT_SELECTED",
      "Ontology concept was not included in the retrieved semantic context.", path, [("concept_id", .text id)]⟩

def requireColumn (column : String) (flow : Flow) (path : String) : Check (Option Column) := do
  noteIf (flow.column? column).isNone ⟨"COLUMN_NOT_AVAILABLE",
    "Operator references a column not produced by its dependency.", path, [("column", .text column)]⟩
  pure (flow.column? column)

/-! ## SELECT -/

def fieldColumn (field : OntologyField) : Column :=
  { dataType := field.dataType
    entities := [field.entityId]
    sourceConceptId := some field.id
    memberDomainFieldId := if field.members.isEmpty then none else some field.id
    timeDomainFieldId := if field.dataType = .datetime then some field.id else none
    conceptLineage := [field.id] }

def metricColumn (metric : OntologyMetric) : Column :=
  { dataType := metric.dataType
    entities := [metric.entityId]
    sourceConceptId := some metric.id
    conceptLineage := [metric.id] }

/-- One column of a SELECT; the state is the columns and the grain so far. -/
def selectColumn (entityId : String) (selected : List String) (path : String)
    (state : List (String × Column) × List String) (item : String × Nat) :
    Check (List (String × Column) × List String) :=
  let column := item.1
  let columnPath := path ++ ".parameters.columns." ++ toString item.2
  if hasColumn state.1 column then do
    note ⟨"DUPLICATE_OUTPUT_COLUMN", "An operator cannot emit duplicate column names.", columnPath,
      [("column", .text column)]⟩
    pure state
  else
    match v.registry.field? column with
    | some field => do
      v.validateConcept column .field selected columnPath
      noteIf (field.entityId ≠ entityId) ⟨"FIELD_ENTITY_MISMATCH",
        "Selected field does not belong to the selected entity.", columnPath, []⟩
      pure (state.1 ++ [(column, fieldColumn field)], state.2 ++ [column])
    | none =>
      match v.registry.metric? column with
      | some metric => do
        v.validateConcept column .metric selected columnPath
        noteIf (metric.entityId ≠ entityId) ⟨"METRIC_ENTITY_MISMATCH",
          "Selected metric does not belong to the selected entity.", columnPath, []⟩
        pure (state.1 ++ [(column, metricColumn metric)], state.2)
      | none => do
        note ⟨"ONTOLOGY_CONCEPT_UNKNOWN", "Selected column is not an exact ontology field or metric ID.", columnPath,
          [("concept_id", .text column)]⟩
        pure state

def selectFlow (entityId : String) (columns : List String) (path : String) (selected : List String) : Check Flow := do
  v.validateConcept entityId .entity selected (path ++ ".parameters.entity_id")
  let (columns, grain) ← columns.zipIdx.foldlM (v.selectColumn entityId selected path) ([], [])
  pure { columns, grain, entities := [entityId], usedConcepts := entityId :: columns.map (·.1) }

/-! ## FILTER -/

/-- The window of a BETWEEN, where both ends are instants in order. -/
def windowOf : PredicateValue → Option (Int × Int)
  | .dict entries =>
    (rangeOf entries).bind fun range =>
      (v.parseIso range.1).bind fun start => (v.parseIso range.2).bind fun stop =>
        start.asUtc.bind fun start => stop.asUtc.bind fun stop => if start < stop then some (start, stop) else none
  | _ => none

def validateBetween (value : PredicateValue) (column : Column) (path : String) : Check Unit :=
  let cardinality : Diagnostic := ⟨"PREDICATE_CARDINALITY_INVALID",
    "BETWEEN requires a datetime range with start and end_exclusive.", path, []⟩
  match value with
  | .dict entries =>
    match rangeOf entries with
    | none => note cardinality
    | some (start, stop) =>
      if column.dataType ≠ .datetime then note cardinality
      else
        match v.parseIso start, v.parseIso stop with
        | some start, some stop =>
          match start.asUtc, stop.asUtc with
          | some start, some stop =>
            noteIf (start ≥ stop) ⟨"TIME_RANGE_INVALID", "Datetime range start must be before end_exclusive.", path, []⟩
          | _, _ =>
            note ⟨"DATETIME_INSTANT_OUT_OF_RANGE", "Datetime boundaries cannot be represented as UTC instants.", path,
              []⟩
        | _, _ =>
          note ⟨"DATETIME_LITERAL_INVALID", "Datetime predicate values must be timezone-aware ISO 8601 strings.", path,
            []⟩
  | _ => note cardinality

/-- The member checks on one value. -/
def validateMember (domain : String) (value : Option Scalar) (path : String) : Check Unit :=
  let unknown : Diagnostic := ⟨"ONTOLOGY_MEMBER_UNKNOWN", "Member predicates require an exact ontology member ID.",
    path, []⟩
  match value with
  | some (.text id) =>
    match v.registry.member? id with
    | none => note unknown
    | some (fieldId, member) =>
      if fieldId ≠ domain then
        note ⟨"MEMBER_FIELD_MISMATCH", "Ontology member does not belong to the filtered field.", path,
          [("member_id", .text id)]⟩
      else
        noteIf (!member.enabled) ⟨"ONTOLOGY_CONCEPT_FORBIDDEN", "Ontology member is disabled.", path,
          [("concept_id", .text id)]⟩
  | _ => note unknown

def validateValue (column : Column) (operator : PredicateOperator) (value : Option Scalar) (path : String) :
    Check Unit := do
  if column.dataType = .datetime && value.any fun x => (v.parseDatetime x).isNone then
    note ⟨"DATETIME_LITERAL_INVALID", "Datetime predicate values must be timezone-aware ISO 8601 strings.", path, []⟩
  else
    noteIf (value.any fun x => !v.runtimeValueMatches x column.dataType) ⟨"PREDICATE_VALUE_TYPE_INVALID",
      "Predicate value does not match the input column type.", path, []⟩
  noteIf (value.isNone && operator ≠ .eq && operator ≠ .ne) ⟨"PREDICATE_VALUE_TYPE_INVALID",
    "Only equality predicates may compare with null.", path, []⟩
  match column.memberDomainFieldId with
  | none => pure ()
  | some domain => v.validateMember domain value path

def validatePredicate (predicate : Predicate) (source : Flow) (path : String) : Check Unit := do
  let valuePath := path ++ ".parameters.predicate.value"
  match ← requireColumn predicate.column source (path ++ ".parameters.predicate.column") with
  | none => pure ()
  | some column =>
    noteIf (column.memberDomainFieldId.isSome && predicate.operator ≠ .eq && predicate.operator ≠ .isIn)
      ⟨"MEMBER_OPERATOR_UNSUPPORTED", "Resolved member filters support only positive EQ or IN predicates.",
        path ++ ".parameters.predicate.operator", []⟩
    match predicate.operator, predicate.value with
    | .isIn, .list [] | .isIn, .null | .isIn, .scalar _ | .isIn, .dict _ =>
      note ⟨"PREDICATE_CARDINALITY_INVALID", "IN predicates require a non-empty list.", valuePath, []⟩
    | .isIn, .list values =>
      forM values.zipIdx fun item =>
        v.validateValue column .isIn (some item.1) (valuePath ++ "." ++ toString item.2)
    | .between, value => v.validateBetween value column valuePath
    | _, .list _ | _, .dict _ =>
      note ⟨"PREDICATE_CARDINALITY_INVALID", "This predicate operator requires one scalar value.", valuePath, []⟩
    | operator, .null => v.validateValue column operator none valuePath
    | operator, .scalar value => v.validateValue column operator (some value) valuePath

/-- The scalars a predicate compares with. -/
def scalarsOf : PredicateValue → List Scalar
  | .scalar value => [value]
  | .list values => values
  | _ => []

/-- The known members among a predicate's values. -/
def membersOf (value : PredicateValue) : List String :=
  (scalarsOf value).filterMap fun
    | .text id => if (v.registry.member? id).isSome then some id else none
    | _ => none

def filteredFlow (predicate : Predicate) (source : Flow) : Flow :=
  match source.column? predicate.column with
  | none => source
  | some column =>
    { source with
      enforcingConcepts := source.enforcingConcepts ++ column.conceptLineage ++ column.entities
      memberConstraints := source.memberConstraints ++
        match column.memberDomainFieldId with
        | some domain =>
          if predicate.operator = .eq || predicate.operator = .isIn then
            [⟨domain, v.membersOf predicate.value, column.constraintEligible⟩]
          else []
        | none => []
      timeConstraints := source.timeConstraints ++
        match column.timeDomainFieldId with
        | some domain =>
          [⟨domain, if predicate.operator = .between then v.windowOf predicate.value else none,
            column.constraintEligible⟩]
        | none => [] }

/-! ## AGGREGATE, PIVOT -/

/-- A column that a node groups by: columns and enforcing concepts so far. -/
def groupColumn (source : Flow) (path : String) (state : List (String × Column) × List String) (item : String × Nat) :
    Check (List (String × Column) × List String) := do
  let itemPath := path ++ ".parameters.group_by." ++ toString item.2
  let info ← requireColumn item.1 source itemPath
  if hasColumn state.1 item.1 then
    note ⟨"DUPLICATE_OUTPUT_COLUMN", "Aggregate group columns must be unique.", itemPath, []⟩
    pure state
  else
    match info with
    | none => pure state
    | some column => pure (state.1 ++ [(item.1, column)], state.2 ++ column.conceptLineage ++ column.entities)

def measureColumn (source : Flow) (path : String) (columns : List (String × Column)) (item : AggregateMeasure × Nat) :
    Check (List (String × Column)) := do
  let itemPath := path ++ ".parameters.measures." ++ toString item.2
  let info ← requireColumn item.1.source source (itemPath ++ ".source")
  noteIf (info.any fun column => column.dataType ≠ .number) ⟨"AGGREGATE_TYPE_INVALID",
    "Aggregate measures require numeric input.", itemPath ++ ".source", []⟩
  if hasColumn columns item.1.output then
    note ⟨"DUPLICATE_OUTPUT_COLUMN", "Aggregate output collides with another output column.", itemPath ++ ".output",
      [("column", .text item.1.output)]⟩
    pure columns
  else
    pure (columns ++ [(item.1.output,
      { dataType := .number
        entities := (info.map (·.entities)).getD source.entities
        conceptLineage := (info.map (·.conceptLineage)).getD []
        aggregatedConcepts := (info.map fun column => column.conceptLineage ++ column.aggregatedConcepts).getD []
        constraintEligible := false })])

def aggregateFlow (groupBy : List String) (measures : List AggregateMeasure) (source : Flow) (path : String) :
    Check Flow := do
  let (groups, enforcing) ← groupBy.zipIdx.foldlM (groupColumn source path) ([], source.enforcingConcepts)
  let columns ← measures.zipIdx.foldlM (measureColumn source path) groups
  pure { source with columns, grain := groupBy, enforcingConcepts := enforcing }

def indexColumn (source : Flow) (path : String) (state : List (String × Column) × List String) (item : String × Nat) :
    Check (List (String × Column) × List String) := do
  match ← requireColumn item.1 source (path ++ ".parameters.index." ++ toString item.2) with
  | none => pure state
  | some column => pure (setColumn state.1 item.1 column, state.2 ++ column.conceptLineage ++ column.entities)

def pivotedColumn (source : Flow) (info : Option Column) : Column :=
  { dataType := (info.map (·.dataType)).getD .number
    entities := (info.map (·.entities)).getD source.entities
    memberDomainFieldId := info.bind (·.memberDomainFieldId)
    timeDomainFieldId := info.bind (·.timeDomainFieldId)
    conceptLineage := (info.map (·.conceptLineage)).getD []
    aggregatedConcepts := (info.map (·.aggregatedConcepts)).getD []
    constraintEligible := false }

def valueColumn (source : Flow) (info : Option Column) (path : String) (columns : List (String × Column))
    (item : String × Nat) : Check (List (String × Column)) :=
  if hasColumn columns item.1 then do
    note ⟨"DUPLICATE_OUTPUT_COLUMN", "Pivot output collides with an index column.",
      path ++ ".parameters.values." ++ toString item.2, [("column", .text item.1)]⟩
    pure columns
  else pure (columns ++ [(item.1, pivotedColumn source info)])

def pivotFlow (index : List String) (column value : String) (values : List String) (source : Flow) (path : String) :
    Check Flow := do
  let (indexed, enforcing) ← index.zipIdx.foldlM (indexColumn source path) ([], source.enforcingConcepts)
  let pivot ← requireColumn column source (path ++ ".parameters.column")
  let info ← requireColumn value source (path ++ ".parameters.value")
  let columns ← values.zipIdx.foldlM (valueColumn source info path) indexed
  noteIf (values.dedup.length ≠ values.length) ⟨"DUPLICATE_OUTPUT_COLUMN", "Pivot values must produce unique columns.",
    path ++ ".parameters.values", []⟩
  pure { source with
    columns
    grain := index
    enforcingConcepts := enforcing ++ (pivot.toList ++ info.toList).flatMap fun c => c.conceptLineage ++ c.entities }

/-! ## DERIVE, PROJECT, SORT -/

def operandInfo (source : Flow) (path : String) : Operand → Check (Option Column)
  | .column name => requireColumn name source (path ++ ".column")
  | .literal value dataType => do
    noteIf (value.any fun x => !v.runtimeValueMatches x dataType) ⟨"LITERAL_VALUE_TYPE_INVALID",
      "Literal runtime value does not match its declared type.", path ++ ".value", []⟩
    noteIf (dataType = .datetime && value.any fun x => (v.parseDatetime x).isNone) ⟨"DATETIME_LITERAL_INVALID",
      "Datetime literals must be timezone-aware ISO 8601 strings.", path ++ ".value", []⟩
    pure (some { dataType, entities := [] })

def expressionInfo (source : Flow) (path : String) : Expression → Check (Option Column)
  | .operand operand => v.operandInfo source path operand
  | .binary _ left right => do
    let leftInfo ← v.operandInfo source (path ++ ".left") left
    let rightInfo ← v.operandInfo source (path ++ ".right") right
    noteIf (leftInfo.any fun column => column.dataType ≠ .number) ⟨"EXPRESSION_TYPE_INVALID",
      "Binary arithmetic requires numeric operands.", path ++ ".left", []⟩
    noteIf (rightInfo.any fun column => column.dataType ≠ .number) ⟨"EXPRESSION_TYPE_INVALID",
      "Binary arithmetic requires numeric operands.", path ++ ".right", []⟩
    let infos := leftInfo.toList ++ rightInfo.toList
    pure (some
      { dataType := .number
        entities := infos.flatMap (·.entities)
        conceptLineage := infos.flatMap (·.conceptLineage)
        aggregatedConcepts := infos.flatMap (·.aggregatedConcepts)
        constraintEligible := false })

def derivedColumn (source : Flow) (path : String) (columns : List (String × Column)) (item : DerivedColumn × Nat) :
    Check (List (String × Column)) :=
  let itemPath := path ++ ".parameters.columns." ++ toString item.2
  if hasColumn columns item.1.output then do
    note ⟨"DERIVE_OUTPUT_COLLISION", "Derived output cannot replace an existing column.", itemPath ++ ".output",
      [("column", .text item.1.output)]⟩
    pure columns
  else do
    let info ← v.expressionInfo source (itemPath ++ ".expression") item.1.expression
    noteIf (info.any fun column => column.dataType ≠ item.1.dataType) ⟨"DERIVE_TYPE_MISMATCH",
      "Derived output type does not match its expression.", itemPath ++ ".data_type", []⟩
    pure (columns ++ [(item.1.output, { pivotedColumn source info with dataType := item.1.dataType })])

def deriveFlow (columns : List DerivedColumn) (source : Flow) (path : String) : Check Flow := do
  let columns ← columns.zipIdx.foldlM (v.derivedColumn source path) source.columns
  pure { source with columns }

def projectColumn (source : Flow) (path : String) (state : List (String × Column) × List String)
    (item : Projection × Nat) : Check (List (String × Column) × List String) := do
  let itemPath := path ++ ".parameters.columns." ++ toString item.2
  let info ← requireColumn item.1.source source (itemPath ++ ".source")
  if hasColumn state.1 item.1.aliasName then
    note ⟨"DUPLICATE_OUTPUT_COLUMN", "Projected aliases must be unique.", itemPath ++ ".alias", []⟩
    pure state
  else
    match info with
    | none => pure state
    | some column =>
      pure (state.1 ++ [(item.1.aliasName, column)],
        if item.1.source ∈ source.grain then state.2 ++ [item.1.aliasName] else state.2)

def projectFlow (columns : List Projection) (source : Flow) (path : String) : Check Flow := do
  let (columns, grain) ← columns.zipIdx.foldlM (projectColumn source path) ([], [])
  noteIf (source.grain ≠ [] && grain = []) ⟨"GRAIN_LOST", "Projection removed every grain column.",
    path ++ ".parameters.columns", []⟩
  pure { source with columns, grain }

def sortFlow (keys : List SortKey) (source : Flow) (path : String) : Check Flow := do
  let infos ← keys.zipIdx.mapM fun item =>
    requireColumn item.1.column source (path ++ ".parameters.keys." ++ toString item.2 ++ ".column")
  pure { source with
    enforcingConcepts := source.enforcingConcepts ++
      (infos.flatMap Option.toList).flatMap fun c => c.conceptLineage ++ c.entities }

/-! ## JOIN -/

/-- Adds the right input's columns to the left's. -/
def joinColumn (path : String) (columns : List (String × Column)) (item : String × Column) :
    Check (List (String × Column)) :=
  if hasColumn columns item.1 then do
    note ⟨"JOIN_OUTPUT_COLLISION", "Join inputs contain an unqualified duplicate column.", path ++ ".parameters",
      [("column", .text item.1)]⟩
    pure columns
  else pure (columns ++ [item])

def validateRelation (relation : OntologyRelation) (left right : Flow) (leftKey rightKey : Option Column)
    (path : String) : Check Unit := do
  noteIf (relation.fromEntityId ∉ left.entities || relation.toEntityId ∉ right.entities)
    ⟨"RELATION_ENDPOINT_MISMATCH", "Join inputs do not match the relation direction and endpoints.",
      path ++ ".dependencies", []⟩
  noteIf ((leftKey.any fun key => key.sourceConceptId ≠ some relation.fromFieldId) ||
      rightKey.any fun key => key.sourceConceptId ≠ some relation.toFieldId)
    ⟨"JOIN_KEY_NOT_GOVERNED", "Join keys must preserve the governed relation key provenance.", path ++ ".parameters",
      []⟩
  noteIf (leftKey.any fun left => rightKey.any fun right => left.dataType ≠ right.dataType)
    ⟨"JOIN_KEY_TYPE_MISMATCH", "Join key types must match.", path ++ ".parameters", []⟩

def joinFlow (relationId leftKey rightKey : String) (joinType : JoinType) (left right : Flow) (path : String)
    (selected : List String) : Check Flow := do
  v.validateConcept relationId .relation selected (path ++ ".parameters.relation_id")
  let leftInfo ← requireColumn leftKey left (path ++ ".parameters.left_key")
  let rightInfo ← requireColumn rightKey right (path ++ ".parameters.right_key")
  match v.registry.relation? relationId with
  | none => pure ()
  | some relation => validateRelation relation left right leftInfo rightInfo path
  let columns ← right.columns.foldlM (joinColumn path) left.columns
  -- A LEFT join keeps the left rows that match nothing, so the right side enforces nothing.
  let enforcing := joinType = .inner
  pure
    { columns
      grain := left.grain ++ right.grain
      entities := left.entities ++ right.entities
      usedConcepts := left.usedConcepts ++ right.usedConcepts ++ [relationId]
      enforcingConcepts := left.enforcingConcepts ++ right.enforcingConcepts ++ [relationId] ++
        ((leftInfo.toList ++ rightInfo.toList).flatMap fun c => c.conceptLineage ++ c.entities) ++
        left.entities ++ right.entities
      memberConstraints := left.memberConstraints ++ right.memberConstraints.map fun c =>
        { c with sourceEnforcing := c.sourceEnforcing && enforcing }
      timeConstraints := left.timeConstraints ++ right.timeConstraints.map fun c =>
        { c with sourceEnforcing := c.sourceEnforcing && enforcing } }

def validateNode (selected : List String) (flows : List (String × Flow)) (node : SQGNode) (index : Nat) :
    Check (Option Flow) :=
  let path := "nodes." ++ toString index
  match node.operator, node.parameters with
  | .select, .select entityId columns => some <$> v.selectFlow entityId columns path selected
  | operator, parameters =>
    match node.dependencies.mapM fun d => flows.lookup d with
    | none => do
      note ⟨"DEPENDENCY_FLOW_UNAVAILABLE", "A dependency did not produce a valid column flow.",
        path ++ ".dependencies", []⟩
      pure none
    | some inputs =>
      match operator, parameters, inputs with
      | .filter, .filter predicate, source :: _ => do
        v.validatePredicate predicate source path
        pure (some (v.filteredFlow predicate source))
      | .aggregate, .aggregate groupBy measures, source :: _ => some <$> aggregateFlow groupBy measures source path
      | .pivot, .pivot index column value values _, source :: _ => some <$> pivotFlow index column value values source path
      | .derive, .derive columns, source :: _ => some <$> v.deriveFlow columns source path
      | .project, .project columns, source :: _ => some <$> projectFlow columns source path
      | .sort, .sort keys, source :: _ => some <$> sortFlow keys source path
      | .join, .join relationId leftKey rightKey joinType, left :: right :: _ =>
        some <$> v.joinFlow relationId leftKey rightKey joinType left right path selected
      | _, _, _ => do
        note ⟨"UNSUPPORTED_OPERATOR", "The operator is not supported by sqg.v0 validation.", path ++ ".operator", []⟩
        pure none

end SQGValidator

end DataNexus.Semantic
