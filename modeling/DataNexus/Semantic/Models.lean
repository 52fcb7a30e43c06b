/-
  DataNexus.Semantic.Models — the compiler's data model: ontology, request terms, and the
  semantic query graph (`semantic_api/models.py`, `semantic_api/ontology.py`).

  A registry is built only from a document whose ids are unique over all kinds and whose
  references resolve, so these are fields of it. An aware `datetime` is its wall time and
  its offset, in microseconds; `asUtc` fails where the instant is outside the years 1 to
  9999. Left out: labels and synonyms of members, ontology id and version, node names, and
  the length limits of the request models.
-/

import DataNexus.Lib.Keyed
import DataNexus.Lib.Noted

namespace DataNexus.Semantic

open Lib

/-! ## Time -/

/-- An aware `datetime`: wall time since 1970-01-01 and UTC offset, in microseconds. -/
structure DateTime where
  wall : Int
  offset : Int
  deriving DecidableEq

namespace DateTime

def instant (d : DateTime) : Int := d.wall - d.offset

/-- `datetime.min` and `datetime.max`. -/
def earliest : Int := -62135596800000000

def latest : Int := 253402300799999999

/-- `_as_utc`. -/
def asUtc (d : DateTime) : Option Int := if earliest ≤ d.instant ∧ d.instant ≤ latest then some d.instant else none

end DateTime

inductive Grain where
  | year | quarter | month
  deriving DecidableEq

structure TimeWindow where
  sourceText : String
  start : DateTime
  endExclusive : DateTime
  grain : Grain
  deriving DecidableEq

/-! ## The ontology -/

inductive QueryPolicy where
  | allow | deny
  deriving DecidableEq

inductive ScalarType where
  | string | number | boolean | datetime
  deriving DecidableEq

structure OntologyMember where
  id : String
  enabled : Bool := true
  deriving DecidableEq

structure OntologyEntity where
  id : String
  label : String
  synonyms : List String := []
  enabled : Bool := true
  queryPolicy : QueryPolicy := .allow
  deriving DecidableEq

structure OntologyField where
  id : String
  entityId : String
  label : String
  dataType : ScalarType
  synonyms : List String := []
  members : List OntologyMember := []
  enabled : Bool := true
  queryPolicy : QueryPolicy := .allow
  deriving DecidableEq

structure OntologyMetric where
  id : String
  entityId : String
  label : String
  dataType : ScalarType := .number
  synonyms : List String := []
  enabled : Bool := true
  queryPolicy : QueryPolicy := .allow
  deriving DecidableEq

structure OntologyRelation where
  id : String
  fromEntityId : String
  toEntityId : String
  fromFieldId : String
  toFieldId : String
  enabled : Bool := true
  queryPolicy : QueryPolicy := .allow
  deriving DecidableEq

structure OntologyDocument where
  entities : List OntologyEntity
  fields : List OntologyField
  metrics : List OntologyMetric
  relations : List OntologyRelation := []
  deriving DecidableEq

namespace OntologyDocument

/-- All ids, over every kind. -/
def ids (document : OntologyDocument) : List String :=
  document.entities.map (·.id) ++ document.fields.map (·.id) ++ document.metrics.map (·.id) ++
    document.relations.map (·.id) ++ document.fields.flatMap fun field => field.members.map (·.id)

def field? (document : OntologyDocument) (id : String) : Option OntologyField := document.fields.find? (·.id = id)

def metric? (document : OntologyDocument) (id : String) : Option OntologyMetric := document.metrics.find? (·.id = id)

def relation? (document : OntologyDocument) (id : String) : Option OntologyRelation :=
  document.relations.find? (·.id = id)

/-- `members`: a member's field and the member. -/
def member? (document : OntologyDocument) (id : String) : Option (String × OntologyMember) :=
  (document.fields.flatMap fun field => field.members.map (field.id, ·)).find? (·.2.id = id)

end OntologyDocument

/-- What `OntologyRegistry.__init__` accepts. -/
structure OntologyRegistry extends OntologyDocument where
  uniqueIds : toOntologyDocument.ids.Nodup
  fieldEntities : ∀ field ∈ fields, field.entityId ∈ entities.map (·.id)
  metricEntities : ∀ metric ∈ metrics, metric.entityId ∈ entities.map (·.id)
  endpoints : ∀ relation ∈ relations, ∃ source ∈ fields, ∃ target ∈ fields,
    source.id = relation.fromFieldId ∧ target.id = relation.toFieldId ∧
    source.entityId = relation.fromEntityId ∧ target.entityId = relation.toEntityId ∧
    source.dataType = target.dataType

inductive ConceptKind where
  | entity | field | metric | relation
  deriving DecidableEq

namespace ConceptKind

def text : ConceptKind → String
  | entity => "entity"
  | field => "field"
  | metric => "metric"
  | relation => "relation"

end ConceptKind

/-- `concept_state`; none where the id is not one of this kind. -/
def OntologyDocument.conceptState (document : OntologyDocument) (id : String) :
    ConceptKind → Option (Bool × QueryPolicy)
  | .entity => (document.entities.find? (·.id = id)).map fun c => (c.enabled, c.queryPolicy)
  | .field => (document.field? id).map fun c => (c.enabled, c.queryPolicy)
  | .metric => (document.metric? id).map fun c => (c.enabled, c.queryPolicy)
  | .relation => (document.relation? id).map fun c => (c.enabled, c.queryPolicy)

/-! ## What the question resolved to -/

inductive CompilationMode where
  | regionalQuarterlyProfit | monthlyRegionalComparison
  deriving DecidableEq

def CompilationMode.text : CompilationMode → String
  | regionalQuarterlyProfit => "regional_quarterly_profit"
  | monthlyRegionalComparison => "monthly_regional_comparison"

inductive ResolvedTermKind where
  | entity | field | metric | member | timeWindow
  deriving DecidableEq

structure ResolvedTerm where
  kind : ResolvedTermKind
  machineId : String
  deriving DecidableEq

structure SemanticContext where
  entities : List OntologyEntity
  fields : List OntologyField
  metrics : List OntologyMetric
  relations : List OntologyRelation
  deriving DecidableEq

/-- The ids of everything in the context. -/
def SemanticContext.selected (context : SemanticContext) : List String :=
  context.entities.map (·.id) ++ context.fields.map (·.id) ++ context.metrics.map (·.id) ++
    context.relations.map (·.id)

/-! ## The semantic query graph -/

inductive Scalar where
  | text (value : String)
  | int (value : Int)
  | float (bits : BitVec 64)
  | bool (value : Bool)
  deriving DecidableEq

inductive Operand where
  | column (name : String)
  | literal (value : Option Scalar) (dataType : ScalarType)
  deriving DecidableEq

inductive BinaryOperator where
  | add | subtract | multiply | divide
  deriving DecidableEq

inductive Expression where
  | operand (operand : Operand)
  | binary (operator : BinaryOperator) (left right : Operand)
  deriving DecidableEq

inductive PredicateOperator where
  | eq | ne | gt | gte | lt | lte | isIn | between
  deriving DecidableEq

inductive PredicateValue where
  | null
  | scalar (value : Scalar)
  | list (values : List Scalar)
  | dict (entries : List (String × String))
  deriving DecidableEq

structure Predicate where
  column : String
  operator : PredicateOperator
  value : PredicateValue
  deriving DecidableEq

inductive AggregateFunction where
  | sum | avg | min | max | count
  deriving DecidableEq

structure AggregateMeasure where
  source : String
  output : String
  function : AggregateFunction
  deriving DecidableEq

structure PivotValueBinding where
  aliasName : String
  value : DateTime
  deriving DecidableEq

structure DerivedColumn where
  output : String
  expression : Expression
  dataType : ScalarType
  deriving DecidableEq

structure Projection where
  source : String
  aliasName : String
  deriving DecidableEq

inductive SortDirection where
  | asc | desc
  deriving DecidableEq

structure SortKey where
  column : String
  direction : SortDirection := .asc
  deriving DecidableEq

inductive JoinType where
  | inner | left
  deriving DecidableEq

inductive Operator where
  | select | filter | aggregate | pivot | derive | project | sort | join
  deriving DecidableEq

inductive NodeParameters where
  | select (entityId : String) (columns : List String)
  | filter (predicate : Predicate)
  | aggregate (groupBy : List String) (measures : List AggregateMeasure)
  | pivot (index : List String) (column value : String) (values : List String) (valueBindings : List PivotValueBinding)
  | derive (columns : List DerivedColumn)
  | project (columns : List Projection)
  | sort (keys : List SortKey)
  | join (relationId leftKey rightKey : String) (joinType : JoinType)
  deriving DecidableEq

def NodeParameters.kind : NodeParameters → Operator
  | select .. => .select
  | filter .. => .filter
  | aggregate .. => .aggregate
  | pivot .. => .pivot
  | derive .. => .derive
  | project .. => .project
  | sort .. => .sort
  | join .. => .join

structure SQGNode where
  id : String
  operator : Operator
  dependencies : List String := []
  parameters : NodeParameters
  deriving DecidableEq

structure ResultColumn where
  name : String
  dataType : ScalarType
  deriving DecidableEq

structure SQG where
  nodes : List SQGNode
  outputNodeId : String
  resultSchema : List ResultColumn := []
  deriving DecidableEq

end DataNexus.Semantic
