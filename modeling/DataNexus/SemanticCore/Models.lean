/-
  DataNexus.SemanticCore.Models — the contract of `semantic-core`: an ontology, a semantic
  query graph, and what their model validators accept (`models.py`).

  What raises in Python is an error here, with the kind of exception (`PythonError`): a
  missing key, an empty iterator, a failed check. A dict is a list of pairs; that of a node's
  outputs, the outputs by name. `date.fromisoformat` and `datetime.fromisoformat` are a
  parameter (`Calendar`). Left out: the pattern of identifiers, descriptions, and the contract
  version.

  - `Ontology.conceptsAreConsistent`, `SemanticQueryGraph.graphIsDeterministic`.
  - `checkNode`: one round of the loop over the nodes.
-/

import DataNexus.Lib.Worklist

namespace DataNexus.SemanticCore

open Lib

/-! ## What raises -/

inductive PythonError where
  /-- `SemanticValidationError`. -/
  | semanticValidation (message : String)
  | value (message : String)
  | key (key : String)
  | index
  | stopIteration
  | assertion (message : String)
  deriving DecidableEq

/-- `d[key]`. -/
def item {β : Type} (d : List (String × β)) (key : String) : Except PythonError β :=
  match d.lookup key with
  | some b => .ok b
  | none => .error (.key key)

/-- `xs[i]`. -/
def nth {α : Type} (xs : List α) (i : Nat) : Except PythonError α :=
  match xs[i]? with
  | some x => .ok x
  | none => .error .index

/-- `next(x for x in xs if p(x))`. -/
def firstOf {α : Type} (xs : List α) (p : α → Bool) : Except PythonError α :=
  match xs.find? p with
  | some x => .ok x
  | none => .error .stopIteration

/-- `{s!r}` of an identifier, and of a list of them. -/
def reprText (s : String) : String := "'" ++ s ++ "'"

def reprList (xs : List String) : String := "[" ++ ", ".intercalate (xs.map reprText) ++ "]"

def boolText (b : Bool) : String := if b then "True" else "False"

/-! ## Types -/

inductive DataType where
  | string | integer | number | decimal | boolean | date | datetime
  deriving DecidableEq

def DataType.value : DataType → String
  | string => "string" | integer => "integer" | number => "number" | decimal => "decimal" | boolean => "boolean"
  | date => "date" | datetime => "datetime"

def DataType.numeric : DataType → Bool
  | integer | number | decimal => true
  | _ => false

inductive Aggregation where
  | sum | avg | min | max | count | countDistinct
  deriving DecidableEq

def Aggregation.value : Aggregation → String
  | sum => "SUM" | avg => "AVG" | min => "MIN" | max => "MAX" | count => "COUNT" | countDistinct => "COUNT_DISTINCT"

/-- COUNT or COUNT_DISTINCT. -/
def Aggregation.counts : Aggregation → Bool
  | count | countDistinct => true
  | _ => false

/-- `aggregation_output_type`. -/
def aggregationOutputType (aggregation : Aggregation) (sourceType : DataType) : Except PythonError DataType := do
  let refused := PythonError.value (aggregation.value ++ " does not support source type " ++ reprText sourceType.value)
  refuseIf ((aggregation = .sum || aggregation = .avg) && !sourceType.numeric) refused
  refuseIf ((aggregation = .min || aggregation = .max) && sourceType = .boolean) refused
  if aggregation.counts then return .integer
  if aggregation = .avg && sourceType = .integer then return .number
  return sourceType

/-! ## The ontology -/

structure OntologyField where
  id : String
  dataType : DataType
  nullable : Bool := true
  deriving DecidableEq

structure Entity where
  id : String
  fields : List OntologyField
  deriving DecidableEq

/-- `fields_are_unique`. -/
def Entity.fieldsAreUnique (entity : Entity) : Except PythonError Unit :=
  refuseIf ((entity.fields.map (·.id)).dedup.length != (entity.fields.map (·.id)).length)
    (.value ("entity " ++ reprText entity.id ++ " contains duplicate field IDs"))

structure Metric where
  id : String
  entity : String
  field : String
  aggregation : Aggregation
  deriving DecidableEq

structure Relation where
  id : String
  leftEntity : String
  rightEntity : String
  leftField : String
  rightField : String
  deriving DecidableEq

structure Resolver where
  id : String
  entity : String
  field : String
  deriving DecidableEq

structure Ontology where
  version : String
  entities : List Entity
  metrics : List Metric := []
  relations : List Relation := []
  resolvers : List Resolver := []
  deriving DecidableEq

/-- `{entity.id: {field.id: field}}`. -/
abbrev FieldTable := List (String × List (String × OntologyField))

def Ontology.fieldTable (ontology : Ontology) : FieldTable :=
  ontology.entities.map fun entity => (entity.id, entity.fields.map fun field => (field.id, field))

/-- `_require_unique`. -/
def requireUnique (kind : String) (identifiers : List String) : Except PythonError Unit :=
  refuseIf (identifiers.dedup.length != identifiers.length) (.value ("ontology contains duplicate " ++ kind ++ " IDs"))

/-- `_require_field`. -/
def requireField (entities : FieldTable) (entity field owner : String) : Except PythonError Unit :=
  match entities.lookup entity with
  | none => .error (.value (owner ++ " references unknown entity " ++ reprText entity))
  | some fields =>
    refuseIf (fields.lookup field).isNone (.value (owner ++ " references unknown field " ++ entity ++ "." ++ field))

def Ontology.checkMetric (ontology : Ontology) (metric : Metric) : Except PythonError Unit := do
  requireField ontology.fieldTable metric.entity metric.field ("metric " ++ reprText metric.id)
  let entity ← firstOf ontology.entities (·.id == metric.entity)
  let source ← firstOf entity.fields (·.id == metric.field)
  let _ ← aggregationOutputType metric.aggregation source.dataType

def Ontology.checkRelation (ontology : Ontology) (relation : Relation) : Except PythonError Unit := do
  let owner := "relation " ++ reprText relation.id
  requireField ontology.fieldTable relation.leftEntity relation.leftField owner
  requireField ontology.fieldTable relation.rightEntity relation.rightField owner
  let leftType := (← item (← item ontology.fieldTable relation.leftEntity) relation.leftField).dataType
  let rightType := (← item (← item ontology.fieldTable relation.rightEntity) relation.rightField).dataType
  refuseIf (leftType != rightType)
    (.value (owner ++ " joins incompatible key types " ++ reprText leftType.value ++ " and " ++ reprText rightType.value))

/-- `concepts_are_consistent`. -/
def Ontology.conceptsAreConsistent (ontology : Ontology) : Except PythonError Unit := do
  requireUnique "entity" (ontology.entities.map (·.id))
  requireUnique "metric" (ontology.metrics.map (·.id))
  requireUnique "relation" (ontology.relations.map (·.id))
  requireUnique "resolver" (ontology.resolvers.map (·.id))
  ontology.metrics.forM ontology.checkMetric
  ontology.relations.forM ontology.checkRelation
  ontology.resolvers.forM fun resolver =>
    requireField ontology.fieldTable resolver.entity resolver.field ("resolver " ++ reprText resolver.id)

/-- What the model validators of an ontology accept. -/
structure Ontology.Accepted (ontology : Ontology) : Prop where
  entities : ∀ entity ∈ ontology.entities, entity.fieldsAreUnique = .ok ()
  concepts : ontology.conceptsAreConsistent = .ok ()

/-! ## The graph -/

inductive JsonScalar where
  | str (value : String)
  | int (value : Int)
  | float (bits : BitVec 64)
  | bool (value : Bool)
  | null
  | decimal (value : String)
  deriving DecidableEq

inductive PredicateValue where
  | scalar (value : JsonScalar)
  | list (values : List JsonScalar)
  deriving DecidableEq

inductive PredicateOperator where
  | eq | neq | gt | gte | lt | lte | isIn | notIn | contains
  deriving DecidableEq

def PredicateOperator.value : PredicateOperator → String
  | eq => "EQ" | neq => "NEQ" | gt => "GT" | gte => "GTE" | lt => "LT" | lte => "LTE" | isIn => "IN" | notIn => "NOT_IN"
  | contains => "CONTAINS"

def PredicateOperator.orders : PredicateOperator → Bool
  | gt | gte | lt | lte => true
  | _ => false

structure Predicate where
  field : String
  op : PredicateOperator
  value : PredicateValue
  deriving DecidableEq

/-- `predicate.value if isinstance(predicate.value, list) else [predicate.value]`. -/
def PredicateValue.values : PredicateValue → List JsonScalar
  | scalar value => [value]
  | list values => values

def PredicateValue.isList : PredicateValue → Bool
  | list _ => true
  | scalar _ => false

/-- `collection_operators_use_lists`. -/
def Predicate.collectionOperatorsUseLists (predicate : Predicate) : Except PythonError Unit := do
  let isCollection := predicate.op = .isIn || predicate.op = .notIn
  refuseIf (isCollection && (!predicate.value.isList || predicate.value.values.isEmpty))
    (.value (predicate.op.value ++ " requires a non-empty list value"))
  refuseIf (!isCollection && predicate.value.isList) (.value (predicate.op.value ++ " requires a scalar value"))

structure OutputField where
  name : String
  dataType : DataType
  nullable : Bool := true
  deriving DecidableEq

structure MeasureRef where
  metric : String
  source : String
  name : String
  deriving DecidableEq

inductive NumericLiteral where
  | integer (value : String)
  | decimal (value : String)
  deriving DecidableEq

inductive ScalarOperand where
  | field (field : String)
  | literal (value : NumericLiteral)
  deriving DecidableEq

/-- The field of an operand that is one. -/
def ScalarOperand.field? : ScalarOperand → Option String
  | field f => some f
  | literal _ => none

inductive DeriveOperator where
  | add | subtract | multiply | divide
  deriving DecidableEq

structure DeriveExpression where
  name : String
  op : DeriveOperator
  left : ScalarOperand
  right : ScalarOperand
  deriving DecidableEq

def DeriveExpression.operands (expression : DeriveExpression) : List ScalarOperand := [expression.left, expression.right]

structure SortKey where
  field : String
  descending : Bool := false
  deriving DecidableEq

inductive JoinSide where
  | left | right
  deriving DecidableEq

/-- The position of the side's input. -/
def JoinSide.input : JoinSide → Nat
  | left => 0
  | right => 1

structure JoinProjection where
  source : JoinSide
  field : String
  name : String
  deriving DecidableEq

inductive JoinKind where
  | inner | left | right | full
  deriving DecidableEq

structure JoinParams where
  relation : String
  leftKey : String
  rightKey : String
  kind : JoinKind
  fields : List JoinProjection
  deriving DecidableEq

structure PivotParams where
  index : List String
  column : String
  value : String
  aggregation : Aggregation
  expectedColumns : List String
  deriving DecidableEq

structure AggregateParams where
  groupBy : List String := []
  measures : List MeasureRef
  deriving DecidableEq

inductive NodeParams where
  | select (entity : String) (fields : List String)
  | filter (predicate : Predicate)
  | aggregate (params : AggregateParams)
  | pivot (params : PivotParams)
  | derive (expressions : List DeriveExpression)
  | project (fields : List String)
  | sort (keys : List SortKey)
  | join (params : JoinParams)
  deriving DecidableEq

def NodeParams.operator : NodeParams → String
  | select .. => "SELECT" | filter _ => "FILTER" | aggregate _ => "AGGREGATE" | pivot _ => "PIVOT" | derive _ => "DERIVE"
  | project _ => "PROJECT" | sort _ => "SORT" | join _ => "JOIN"

/-- How many inputs an operator has. -/
def NodeParams.expectedInputs : NodeParams → Nat
  | select .. => 0
  | join _ => 2
  | _ => 1

structure SQGNode where
  id : String
  inputs : List String
  outputs : List OutputField
  params : NodeParams
  deriving DecidableEq

def SQGNode.outputNames (node : SQGNode) : List String := node.outputs.map (·.name)

/-- `output_names_are_unique`. -/
def SQGNode.outputNamesAreUnique (node : SQGNode) : Except PythonError Unit :=
  refuseIf (node.outputNames.dedup.length != node.outputNames.length)
    (.value ("node " ++ reprText node.id ++ " contains duplicate output names"))

structure SemanticQueryGraph where
  ontologyVersion : String
  nodes : List SQGNode
  root : String
  deriving DecidableEq

/-! ## Checks on a node -/

/-- How ISO dates and aware timestamps are told from other texts. -/
structure Calendar where
  /-- `date.fromisoformat(value).isoformat() == value`. -/
  isDate : String → Bool
  /-- A `T` in the text, which parses with its `Z` replaced, with an offset. -/
  isAwareDatetime : String → Bool

/-- The exponent is not all ones. -/
def isFinite (bits : BitVec 64) : Bool := bits.extractLsb' 52 11 != 0x7FF#11

/-- The dict of a node's outputs. -/
abbrev Outputs := List OutputField

def Outputs.names (outputs : Outputs) : List String := List.map (·.name) outputs

/-- `outputs[name]`. -/
def Outputs.get (outputs : Outputs) (name : String) : Except PythonError OutputField :=
  match List.find? (·.name == name) outputs with
  | some output => .ok output
  | none => .error (.key name)

section

variable (calendar : Calendar)

/-- `_require_fields`. -/
def requireFields (nodeId : String) (fields available : List String) : Except PythonError Unit :=
  refuseIf (!(fields.filter fun field => !available.contains field).isEmpty)
    (.value ("node " ++ reprText nodeId ++ " references unavailable fields " ++
      reprList (fields.filter fun field => !available.contains field)))

/-- `_scalar_matches_type`. -/
def scalarMatchesType : JsonScalar → DataType → Bool
  | .null, _ => true
  | .str _, .string => true
  | .str value, .date => calendar.isDate value
  | .str value, .datetime => calendar.isAwareDatetime value
  | .int _, .integer => true
  | .int _, .number => true
  | .int _, .decimal => true
  | .float bits, .number => isFinite bits
  | .decimal _, .decimal => true
  | .bool _, .boolean => true
  | _, _ => false

/-- `_validate_predicate_type`. -/
def validatePredicateType (nodeId : String) (predicate : Predicate) (fieldType : DataType) : Except PythonError Unit := do
  let values := predicate.value.values
  refuseIf ((predicate.op.orders || predicate.op = .contains) && values.contains .null)
    (.value ("node " ++ reprText nodeId ++ " " ++ predicate.op.value ++ " does not accept null"))
  refuseIf (predicate.op = .contains && fieldType != .string)
    (.value ("node " ++ reprText nodeId ++ " CONTAINS requires a string field"))
  refuseIf (predicate.op.orders && fieldType = .boolean)
    (.value ("node " ++ reprText nodeId ++ " cannot order a boolean field"))
  refuseIf (!values.all fun value => scalarMatchesType calendar value fieldType)
    (.value ("node " ++ reprText nodeId ++ " predicate value does not match field " ++ reprText predicate.field ++ " type " ++
      reprText fieldType.value))

/-- `len(names) != len(set(names))` raises. -/
def requireDistinct (nodeId what : String) (names : List String) : Except PythonError Unit :=
  refuseIf (names.dedup.length != names.length)
    (.value ("node " ++ reprText nodeId ++ " contains duplicate " ++ what ++ " output names"))

/-- `_validate_operator`. -/
def validateOperator (node : SQGNode) (parents : List Outputs) : Except PythonError (List String) :=
  match node.params with
  | .select _ fields => return fields
  | .filter predicate => do
    let parent ← nth parents 0
    requireFields node.id [predicate.field] parent.names
    validatePredicateType calendar node.id predicate (← parent.get predicate.field).dataType
    return parent.names
  | .aggregate params => do
    let parent ← nth parents 0
    requireFields node.id (params.groupBy ++ params.measures.map (·.source)) parent.names
    let names := params.groupBy ++ params.measures.map (·.name)
    requireDistinct node.id "aggregate" names
    return names
  | .pivot params => do
    let parent ← nth parents 0
    requireFields node.id (params.index ++ [params.column, params.value]) parent.names
    let names := params.index ++ params.expectedColumns
    requireDistinct node.id "pivot" names
    return names
  | .derive expressions => do
    let parent ← nth parents 0
    let names := expressions.map (·.name)
    refuseIf (names.dedup.length != names.length || names.any parent.names.contains)
      (.value ("node " ++ reprText node.id ++ " contains duplicate derived output names"))
    expressions.forM fun expression => requireFields node.id (expression.operands.filterMap (·.field?)) parent.names
    return parent.names ++ names
  | .project fields => do
    let parent ← nth parents 0
    requireFields node.id fields parent.names
    return fields
  | .sort keys => do
    let parent ← nth parents 0
    requireFields node.id (keys.map (·.field)) parent.names
    return parent.names
  | .join params => do
    requireFields node.id [params.leftKey] (← nth parents 0).names
    requireFields node.id [params.rightKey] (← nth parents 1).names
    params.fields.forM fun projection => do
      requireFields node.id [projection.field] (← nth parents projection.source.input).names
    let names := params.fields.map (·.name)
    requireDistinct node.id "join" names
    return names

end

/-- What an output has to be: its type and whether it may be null. -/
abbrev Contract := DataType × Bool

def OutputField.contract (output : OutputField) : Contract := (output.dataType, output.nullable)

/-- `_derive_output_type`. -/
def deriveOutputType (nodeId : String) (expression : DeriveExpression) (available : Outputs) : Except PythonError DataType := do
  let types ← expression.operands.mapM fun
    | .field field => do return (← available.get field).dataType
    | .literal (.integer _) => return .integer
    | .literal (.decimal _) => return .decimal
  refuseIf (types.any fun type => !type.numeric)
    (.value ("node " ++ reprText nodeId ++ " derive expression " ++ reprText expression.name ++ " requires numeric operands"))
  if types.contains .decimal then return .decimal
  if expression.op = .divide || types.contains .number then return .number
  return .integer

/-- `_derive_output_nullable`. -/
def deriveOutputNullable (expression : DeriveExpression) (available : Outputs) : Except PythonError Bool := do
  let nullables ← expression.operands.mapM fun
    | .field field => do return (← available.get field).nullable
    | .literal _ => return false
  return nullables.any id

/-- Whether a join pads the side with nulls. -/
def JoinKind.pads : JoinKind → JoinSide → Bool
  | full, _ => true
  | left, .right => true
  | right, .left => true
  | _, _ => false

/-- `_join_output_contract`. -/
def joinOutputContract (kind : JoinKind) (projection : JoinProjection) (source : OutputField) : Contract :=
  (source.dataType, source.nullable || kind.pads projection.source)

/-- The contracts of fields that are passed on. -/
def passedOn (parent : Outputs) (fields : List String) : Except PythonError (List (String × Contract)) :=
  fields.mapM fun field => do return (field, (← parent.get field).contract)

/-- `_expected_output_contracts`. -/
def expectedOutputContracts (node : SQGNode) (parents : List Outputs) : Except PythonError (List (String × Contract)) :=
  match node.params with
  | .select .. => return []
  | .filter _ | .sort _ => do
    let parent ← nth parents 0
    return List.map (fun output => (output.name, output.contract)) parent
  | .project fields => do passedOn (← nth parents 0) fields
  | .aggregate params => do passedOn (← nth parents 0) params.groupBy
  | .pivot params => do
    let parent ← nth parents 0
    let valueType ← aggregationOutputType params.aggregation (← parent.get params.value).dataType
    let index ← passedOn parent params.index
    return index ++ params.expectedColumns.map fun field => (field, (valueType, true))
  | .derive expressions => do
    let parent ← nth parents 0
    let derived ← expressions.mapM fun expression => do
      let type ← deriveOutputType node.id expression parent
      let nullable ← deriveOutputNullable expression parent
      return (expression.name, (type, nullable))
    return List.map (fun output => (output.name, output.contract)) parent ++ derived
  | .join params =>
    params.fields.mapM fun projection => do
      let parent ← nth parents projection.source.input
      return (projection.name, joinOutputContract params.kind projection (← parent.get projection.field))

/-! ## The validator of the graph -/

/-- What a dependency of the node at the index has to be. -/
def checkDependency (positions : List (String × Nat)) (index : Nat) (node : SQGNode) (dependency : String) :
    Except PythonError Unit := do
  refuseIf (dependency == node.id) (.value ("node " ++ reprText node.id ++ " cannot depend on itself"))
  refuseIf (positions.lookup dependency).isNone
    (.value ("node " ++ reprText node.id ++ " references missing input " ++ reprText dependency))
  refuseIf ((← item positions dependency) ≥ index)
    (.value ("node " ++ reprText node.id ++ " has forward dependency " ++ reprText dependency ++
      "; dependencies must appear first"))

def checkContract (node : SQGNode) (contracts : List (String × Contract)) (output : OutputField) : Except PythonError Unit :=
  match contracts.lookup output.name with
  | none => .ok ()
  | some (type, nullable) => do
    refuseIf (output.dataType != type)
      (.value ("node " ++ reprText node.id ++ " output " ++ reprText output.name ++ " has type " ++
        reprText output.dataType.value ++ ", expected " ++ reprText type.value))
    refuseIf (output.nullable != nullable)
      (.value ("node " ++ reprText node.id ++ " output " ++ reprText output.name ++ " has nullable=" ++
        boolText output.nullable ++ ", expected nullable=" ++ boolText nullable))

/-- One round of the loop over the nodes. -/
def checkNode (calendar : Calendar) (positions : List (String × Nat)) (outputs : List (String × Outputs)) (index : Nat)
    (node : SQGNode) : Except PythonError Unit := do
  refuseIf (node.inputs.length != node.params.expectedInputs)
    (.value ("node " ++ reprText node.id ++ " (" ++ node.params.operator ++ ") requires " ++
      toString node.params.expectedInputs ++ " input(s)"))
  node.inputs.forM (checkDependency positions index node)
  let parents ← node.inputs.mapM (item outputs)
  let expected ← validateOperator calendar node parents
  refuseIf (node.outputNames != expected)
    (.value ("node " ++ reprText node.id ++ " outputs " ++ reprList node.outputNames ++ ", expected " ++ reprList expected))
  let contracts ← expectedOutputContracts node parents
  node.outputs.forM (checkContract node contracts)

/-- The loop, with the outputs of the nodes before. -/
def checkNodes (calendar : Calendar) (positions : List (String × Nat)) :
    List (String × Outputs) → Nat → List SQGNode → Except PythonError Unit
  | _, _, [] => .ok ()
  | outputs, index, node :: nodes => do
    checkNode calendar positions outputs index node
    checkNodes calendar positions ((node.id, node.outputs) :: outputs) (index + 1) nodes

namespace SemanticQueryGraph

def ids (sqg : SemanticQueryGraph) : List String := sqg.nodes.map (·.id)

/-- The inputs of the node. -/
def inputsOf (sqg : SemanticQueryGraph) (id : String) : List String :=
  ((sqg.nodes.find? (·.id == id)).map (·.inputs)).getD []

/-- The nodes the root consumes. -/
def ancestors (sqg : SemanticQueryGraph) : List String := Worklist.reach sqg.inputsOf sqg.ids sqg.root

/-- `graph_is_deterministic`. -/
def graphIsDeterministic (calendar : Calendar) (sqg : SemanticQueryGraph) : Except PythonError Unit := do
  refuseIf (sqg.ids.dedup.length != sqg.ids.length) (.value "SQG contains duplicate node IDs")
  refuseIf (!sqg.ids.contains sqg.root) (.value ("root references missing node " ++ reprText sqg.root))
  checkNodes calendar sqg.ids.zipIdx [] 0 sqg.nodes
  let unreachable := sqg.ids.filter fun id => !sqg.ancestors.contains id
  refuseIf (!unreachable.isEmpty)
    (.value ("root " ++ reprText sqg.root ++ " does not consume all nodes; outside root ancestor closure: " ++
      reprList unreachable))

/-- What the model validators of a graph accept. -/
structure Accepted (calendar : Calendar) (sqg : SemanticQueryGraph) : Prop where
  outputs : ∀ node ∈ sqg.nodes, node.outputNamesAreUnique = .ok ()
  predicates : ∀ node ∈ sqg.nodes, ∀ predicate, node.params = .filter predicate → predicate.collectionOperatorsUseLists = .ok ()
  graph : sqg.graphIsDeterministic calendar = .ok ()

end SemanticQueryGraph

end DataNexus.SemanticCore
