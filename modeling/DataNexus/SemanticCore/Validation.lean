/-
  DataNexus.SemanticCore.Validation — a graph checked against an ontology
  (`validate_sqg` in `validation.py`).

  For every node, what the loop keeps (`Walked`): the entities it reads, and for every output
  the fields it comes from and the field occurrences it still is (`DirectBinding`). Sets are
  lists without repetitions. The lookups fail as Python's do, so that `validate_sqg` raising
  only its own error is something to prove.
-/

import DataNexus.SemanticCore.Models

namespace DataNexus.SemanticCore

open Lib

structure DirectBinding where
  entity : String
  field : String
  nullable : Bool
  deriving DecidableEq

/-- A field of an entity. -/
abbrev Source := String × String

/-- `_matches_source`. -/
def matchesSource (binding : DirectBinding) (source : Source) : Bool := (binding.entity, binding.field) == source

/-- `_with_effective_nullability`. -/
def withEffectiveNullability (bindings : List DirectBinding) (nullable : Bool) : List DirectBinding :=
  (bindings.map fun binding => { binding with nullable := binding.nullable || nullable }).dedup

/-- The fields each output comes from. -/
abbrev Lineage := List (String × List Source)

/-- The field occurrences each output is. -/
abbrev Bindings := List (String × List DirectBinding)

structure Walked where
  entities : List (String × List String) := []
  lineage : List (String × Lineage) := []
  bindings : List (String × Bindings) := []

def Walked.add (walked : Walked) (id : String) (entities : List String) (lineage : Lineage) (bindings : Bindings) : Walked where
  entities := (id, entities) :: walked.entities
  lineage := (id, lineage) :: walked.lineage
  bindings := (id, bindings) :: walked.bindings

/-- `raise SemanticValidationError(message)` if the condition holds. -/
def invalidIf (condition : Bool) (message : String) : Except PythonError Unit := refuseIf condition (.semanticValidation message)

/-- A dict of each name's value. -/
def dictOf {β : Type} (names : List String) (value : String → Except PythonError β) : Except PythonError (List (String × β)) :=
  names.mapM fun name => do return (name, ← value name)

section

variable (ontology : Ontology)

def Ontology.metricTable : List (String × Metric) := ontology.metrics.map fun metric => (metric.id, metric)

def Ontology.relationTable : List (String × Relation) := ontology.relations.map fun relation => (relation.id, relation)

/-! ## SELECT -/

/-- What an output of a SELECT has to be. -/
def checkSelected (node : SQGNode) (entity : String) (output : OutputField) : Except PythonError Unit := do
  let expected ← item (← item ontology.fieldTable entity) output.name
  invalidIf (output.dataType != expected.dataType)
    ("node " ++ reprText node.id ++ " output " ++ reprText output.name ++ " has type " ++ reprText output.dataType.value ++
      ", expected " ++ reprText expected.dataType.value ++ " from the ontology")
  invalidIf (output.nullable != expected.nullable)
    ("node " ++ reprText node.id ++ " output " ++ reprText output.name ++ " has nullable=" ++ boolText output.nullable ++
      ", expected nullable=" ++ boolText expected.nullable ++ " from the ontology")

def visitSelect (walked : Walked) (node : SQGNode) (entity : String) (fields : List String) : Except PythonError Walked := do
  invalidIf (ontology.fieldTable.lookup entity).isNone
    ("node " ++ reprText node.id ++ " references unknown entity " ++ reprText entity)
  let known ← item ontology.fieldTable entity
  fields.forM fun field =>
    invalidIf (known.lookup field).isNone ("node " ++ reprText node.id ++ " references unknown field " ++ entity ++ "." ++ field)
  node.outputs.forM (checkSelected ontology node entity)
  return walked.add node.id [entity] (node.outputs.map fun output => (output.name, [(entity, output.name)]))
    (node.outputs.map fun output => (output.name, [⟨entity, output.name, output.nullable⟩]))

/-! ## The checks on measures and joins -/

/-- The occurrences of the metric's field among those of the measure's input column. -/
def sourceBindings (inputBindings : List Bindings) (metric : Metric) (measure : MeasureRef) : Except PythonError (List DirectBinding) := do
  let bindings ← item (← nth inputBindings 0) measure.source
  return bindings.filter fun binding => matchesSource binding (metric.entity, metric.field)

def checkMeasure (node : SQGNode) (params : AggregateParams) (inherited : List String) (inputBindings : List Bindings)
    (measure : MeasureRef) : Except PythonError Unit := do
  match ontology.metricTable.lookup measure.metric with
  | none => invalidIf true ("node " ++ reprText node.id ++ " references unknown metric " ++ reprText measure.metric)
  | some metric => do
    invalidIf (!inherited.contains metric.entity)
      ("metric " ++ reprText metric.id ++ " belongs to entity " ++ reprText metric.entity ++ ", not the node's input entities " ++
        reprList (inherited.insertionSort (· ≤ ·)))
    let sources ← sourceBindings inputBindings metric measure
    invalidIf sources.isEmpty
      ("metric " ++ reprText metric.id ++ " requires source field " ++ metric.entity ++ "." ++ metric.field ++
        ", which is not bound by input alias " ++ reprText measure.source ++ " on node " ++ reprText node.id)
    invalidIf (sources.length != 1)
      ("metric " ++ reprText metric.id ++ " input alias " ++ reprText measure.source ++
        " does not resolve to exactly one direct field occurrence")
    let output ← firstOf node.outputs (·.name == measure.name)
    let field ← item (← item ontology.fieldTable metric.entity) metric.field
    let expectedType ← aggregationOutputType metric.aggregation field.dataType
    invalidIf (output.dataType != expectedType)
      ("metric " ++ reprText metric.id ++ " output " ++ reprText output.name ++ " has type " ++ reprText output.dataType.value ++
        ", expected " ++ reprText expectedType.value)
    let expectedNullable := !metric.aggregation.counts && (sources.any (·.nullable) || params.groupBy.isEmpty)
    invalidIf (output.nullable != expectedNullable)
      ("metric " ++ reprText metric.id ++ " output " ++ reprText output.name ++ " has nullable=" ++ boolText output.nullable ++
        ", expected nullable=" ++ boolText expectedNullable)

/-- The left and the right key field of a relation, one way and the other; one where they are
    the same. -/
def orientations (relation : Relation) (left right : List String) : List (Source × Source) :=
  let forward := ((relation.leftEntity, relation.leftField), (relation.rightEntity, relation.rightField))
  let backward := ((relation.rightEntity, relation.rightField), (relation.leftEntity, relation.leftField))
  let first := if left.contains relation.leftEntity && right.contains relation.rightEntity then [forward] else []
  if left.contains relation.rightEntity && right.contains relation.leftEntity && !first.contains backward then
    first ++ [backward]
  else first

def checkJoin (node : SQGNode) (params : JoinParams) (walked : Walked) (inputBindings : List Bindings) : Except PythonError Unit := do
  match ontology.relationTable.lookup params.relation with
  | none => invalidIf true ("node " ++ reprText node.id ++ " references unknown relation " ++ reprText params.relation)
  | some relation => do
    let left ← item walked.entities (← nth node.inputs 0)
    let right ← item walked.entities (← nth node.inputs 1)
    let ways := orientations relation left right
    invalidIf ways.isEmpty
      ("relation " ++ reprText relation.id ++ " does not connect join inputs " ++ reprList (left.insertionSort (· ≤ ·)) ++
        " and " ++ reprList (right.insertionSort (· ≤ ·)))
    let leftKeys ← item (← nth inputBindings 0) params.leftKey
    let rightKeys ← item (← nth inputBindings 1) params.rightKey
    invalidIf (leftKeys.length != 1 || rightKeys.length != 1)
      ("relation " ++ reprText relation.id ++ " key aliases " ++ reprText params.leftKey ++ "/" ++ reprText params.rightKey ++
        " must each resolve to exactly one direct field occurrence")
    let leftBinding ← firstOf leftKeys fun _ => true
    let rightBinding ← firstOf rightKeys fun _ => true
    let matching := ways.filter fun way => matchesSource leftBinding way.1 && matchesSource rightBinding way.2
    invalidIf (matching.length != 1)
      ("relation " ++ reprText relation.id ++ " key aliases do not resolve to exactly one relation orientation: " ++
        reprList (ways.map fun way => way.1.1 ++ "." ++ way.1.2 ++ " -> " ++ way.2.1 ++ "." ++ way.2.2))

/-! ## What an operator's outputs come from -/

/-- The outputs of the node's kind. -/
def propagate (node : SQGNode) (inputLineage : List Lineage) (inputBindings : List Bindings) :
    Except PythonError (Lineage × Bindings) :=
  match node.params with
  | .select .. => .error (.assertion "unhandled SQG node type: SelectNode")
  | .filter _ | .sort _ | .project _ => do
    let lineage ← node.outputs.mapM fun output => do
      return (output.name, ← item (← nth inputLineage 0) output.name)
    let bindings ← node.outputs.mapM fun output => do
      let bound ← item (← nth inputBindings 0) output.name
      return (output.name, withEffectiveNullability bound output.nullable)
    return (lineage, bindings)
  | .derive expressions => do
    let fromLineage ← nth inputLineage 0
    let fromBindings ← nth inputBindings 0
    let lineage := node.outputs.filterMap fun output => (fromLineage.lookup output.name).map fun sources => (output.name, sources)
    let bindings := node.outputs.filterMap fun output =>
      (fromBindings.lookup output.name).map fun bound => (output.name, withEffectiveNullability bound output.nullable)
    let derived ← expressions.mapM fun expression => do
      let sources ← (expression.operands.filterMap (·.field?)).mapM (item fromLineage)
      return (expression.name, sources.flatten.dedup)
    return (derived ++ lineage, expressions.map (fun expression => (expression.name, [])) ++ bindings)
  | .aggregate params => do
    let lineage ← dictOf params.groupBy fun field => do item (← nth inputLineage 0) field
    let bindings ← dictOf params.groupBy fun field => do
      let bound ← item (← nth inputBindings 0) field
      let output ← firstOf node.outputs (·.name == field)
      return withEffectiveNullability bound output.nullable
    let measured ← params.measures.mapM fun measure => do
      let metric ← item ontology.metricTable measure.metric
      return (measure.name, [(metric.entity, metric.field)])
    return (measured ++ lineage, params.measures.map (fun measure => (measure.name, [])) ++ bindings)
  | .pivot params => do
    let value ← item (← nth inputLineage 0) params.value
    let column ← item (← nth inputLineage 0) params.column
    let lineage ← dictOf params.index fun field => do item (← nth inputLineage 0) field
    let bindings ← dictOf params.index fun field => do item (← nth inputBindings 0) field
    return (params.expectedColumns.map (fun field => (field, (value ++ column).dedup)) ++ lineage,
      params.expectedColumns.map (fun field => (field, [])) ++ bindings)
  | .join params => do
    let lineage ← params.fields.mapM fun projection => do
      return (projection.name, ← item (← nth inputLineage projection.source.input) projection.field)
    let bindings ← params.fields.mapM fun projection => do
      let bound ← item (← nth inputBindings projection.source.input) projection.field
      let output ← Outputs.get node.outputs projection.name
      return (projection.name, withEffectiveNullability bound output.nullable)
    return (lineage, bindings)

/-- The checks of an operator, before its outputs are looked up. -/
def checkOperator (walked : Walked) (node : SQGNode) (inherited : List String) (inputBindings : List Bindings) : Except PythonError Unit :=
  match node.params with
  | .aggregate params => params.measures.forM (checkMeasure ontology node params inherited inputBindings)
  | .join params => checkJoin ontology node params walked inputBindings
  | _ => pure ()

/-- A node that has inputs. -/
def visitOperator (walked : Walked) (node : SQGNode) : Except PythonError Walked := do
  let inherited := (← node.inputs.mapM (item walked.entities)).flatten.dedup
  let inputLineage ← node.inputs.mapM (item walked.lineage)
  let inputBindings ← node.inputs.mapM (item walked.bindings)
  checkOperator ontology walked node inherited inputBindings
  let (lineage, bindings) ← propagate ontology node inputLineage inputBindings
  return walked.add node.id inherited lineage bindings

/-- One round of the loop over the nodes. -/
def visit (walked : Walked) (node : SQGNode) : Except PythonError Walked :=
  match node.params with
  | .select entity fields => visitSelect ontology walked node entity fields
  | _ => visitOperator ontology walked node

end

/-- `validate_sqg`. -/
def validateSqg (sqg : SemanticQueryGraph) (ontology : Ontology) : Except PythonError Unit := do
  invalidIf (sqg.ontologyVersion != ontology.version)
    ("SQG ontology_version " ++ reprText sqg.ontologyVersion ++ " does not match ontology version " ++ reprText ontology.version)
  let _ ← sqg.nodes.foldlM (visit ontology) {}

end DataNexus.SemanticCore
