/-
  DataNexus.Semantic.Algebra — what a semantic query graph computes.

  Each operator as the backend's adapter hands it to the runtime and DuckDB runs it
  (`semantic_backend/adapter.py`, `query_runtime/operators.py`): bags of rows, a predicate
  keeps the rows where it is true, IN is a disjunction of equalities, BETWEEN is half-open,
  a PIVOT cell is SUM(CASE WHEN column = bound value), SORT moves rows only. The scalars
  and what is computed with them are a parameter (`Algebra`): of them only that null
  passes neither an equality with a value nor a BETWEEN. SELECT reads the rows of its
  entity. Where the adapter refuses a node (a pivot alias without a bound value), the
  cell here is that of a value no row has.
-/

import DataNexus.Lib.Relational
import DataNexus.Semantic.Models

namespace DataNexus.Semantic

open Lib Relational

structure Algebra (V : Type) where
  null : V
  compare : PredicateOperator → V → Option Scalar → Bool
  within : V → Int × Int → Bool
  isAt : V → Int → Bool
  joins : V → V → Bool
  aggregate : AggregateFunction → Multiset V → V
  arithmetic : BinaryOperator → V → V → V
  literal : Option Scalar → ScalarType → V
  compare_null : ∀ value, compare .eq null (some value) = false
  within_null : ∀ window, within null window = false

structure Table (V : Type) where
  columns : List String
  rows : Multiset (Row String V)

/-- The rows as the tuples of their columns. -/
def Table.values {V : Type} (table : Table V) : Multiset (List V) := table.rows.map fun r => table.columns.map r

/-- The rows of each entity. -/
abbrev Data (V : Type) := String → Multiset (Row String V)

/-- How a text is read as a datetime. -/
abbrev IsoParser := String → Option DateTime

/-- The instants of a dict's two ends. -/
def rangeInstants (parseIso : IsoParser) (entries : List (String × String)) : Option (Int × Int) :=
  (entries.lookup "start").bind fun start => (entries.lookup "end_exclusive").bind fun stop =>
    (parseIso start).bind fun start => (parseIso stop).map fun stop => (start.instant, stop.instant)

namespace Algebra

variable {V : Type} (alg : Algebra V) (parseIso : IsoParser)

def keeps (predicate : Predicate) (x : V) : Bool :=
  match predicate.operator, predicate.value with
  | .between, .dict entries => (rangeInstants parseIso entries).any fun window => alg.within x window
  | .between, _ => false
  | .isIn, .list values => values.any fun value => alg.compare .eq x (some value)
  | .isIn, _ => false
  | operator, .scalar value => alg.compare operator x (some value)
  | operator, .null => alg.compare operator x none
  | _, _ => false

/-- A row with nulls outside the columns. -/
def restrict (columns : List String) (r : Row String V) : Row String V := fun c => if c ∈ columns then r c else alg.null

def select (data : Data V) (entityId : String) (columns : List String) : Table V :=
  ⟨columns, (data entityId).map (alg.restrict columns)⟩

def filter (predicate : Predicate) (input : Table V) : Table V :=
  ⟨input.columns, passing (alg.keeps parseIso predicate) predicate.column input.rows⟩

def measureCell (measures : List AggregateMeasure) (group : Multiset (Row String V)) (c : String) : V :=
  match measures.find? (·.output = c) with
  | some measure => alg.aggregate measure.function (group.map fun r => r measure.source)
  | none => alg.null

/-- The instant an alias is bound to; a later binding replaces an earlier one. -/
def boundValue (bindings : List PivotValueBinding) (aliasName : String) : Option Int :=
  (bindings.reverse.find? (·.aliasName = aliasName)).map (·.value.instant)

def pivotCell (column value : String) (values : List String) (bindings : List PivotValueBinding)
    (group : Multiset (Row String V)) (c : String) : V :=
  if c ∈ values then
    alg.aggregate .sum (group.map fun r =>
      if (boundValue bindings c).any fun instant => alg.isAt (r column) instant then r value else alg.null)
  else alg.null

def operand (r : Row String V) : Operand → V
  | .column name => r name
  | .literal value dataType => alg.literal value dataType

def expression (r : Row String V) : Expression → V
  | .operand operand => alg.operand r operand
  | .binary operator left right => alg.arithmetic operator (alg.operand r left) (alg.operand r right)

def deriveRow (inputs : List String) (columns : List DerivedColumn) (r : Row String V) : Row String V := fun c =>
  if c ∈ inputs then r c
  else
    match columns.find? (·.output = c) with
    | some column => alg.expression r column.expression
    | none => alg.null

def projectRow (columns : List Projection) (r : Row String V) : Row String V := fun c =>
  match columns.find? (·.aliasName = c) with
  | some column => r column.source
  | none => alg.null

def join (leftKey rightKey : String) (joinType : JoinType) (left right : Table V) : Table V :=
  let joins (l r : Row String V) : Bool := alg.joins (l leftKey) (r rightKey)
  ⟨left.columns ++ right.columns,
    match joinType with
    | .inner => innerJoin left.columns joins left.rows right.rows
    | .left => leftJoin left.columns joins alg.null left.rows right.rows⟩

variable [DecidableEq V]

def aggregated (groupBy : List String) (measures : List AggregateMeasure) (input : Table V) : Table V :=
  ⟨groupBy ++ measures.map (·.output), grouped groupBy (alg.measureCell measures) input.rows⟩

def pivoted (index : List String) (column value : String) (values : List String) (bindings : List PivotValueBinding)
    (input : Table V) : Table V :=
  ⟨index ++ values, grouped index (alg.pivotCell column value values bindings) input.rows⟩

def derived (columns : List DerivedColumn) (input : Table V) : Table V :=
  ⟨input.columns ++ columns.map (·.output), input.rows.map (alg.deriveRow input.columns columns)⟩

def projected (columns : List Projection) (input : Table V) : Table V :=
  ⟨columns.map (·.aliasName), input.rows.map (alg.projectRow columns)⟩

/-- A node on the tables of its dependencies. -/
def apply (data : Data V) : NodeParameters → List (Table V) → Option (Table V)
  | .select entityId columns, [] => some (alg.select data entityId columns)
  | .filter predicate, [input] => some (alg.filter parseIso predicate input)
  | .aggregate groupBy measures, [input] => some (alg.aggregated groupBy measures input)
  | .pivot index column value values bindings, [input] => some (alg.pivoted index column value values bindings input)
  | .derive columns, [input] => some (alg.derived columns input)
  | .project columns, [input] => some (alg.projected columns input)
  | .sort _, [input] => some input
  | .join _ leftKey rightKey joinType, [left, right] => some (alg.join leftKey rightKey joinType left right)
  | _, _ => none

def tableStep (data : Data V) (tables : List (String × Table V)) (node : SQGNode) : List (String × Table V) :=
  match (node.dependencies.mapM fun d => tables.lookup d).bind (alg.apply parseIso data node.parameters) with
  | some table => (node.id, table) :: tables
  | none => tables

/-- The table of each node, the last one first. -/
def tablesOf (data : Data V) (nodes : List SQGNode) : List (String × Table V) :=
  nodes.foldl (alg.tableStep parseIso data) []

/-- The table of the output node. -/
def evaluate (data : Data V) (sqg : SQG) : Option (Table V) :=
  (alg.tablesOf parseIso data sqg.nodes).lookup sqg.outputNodeId

end Algebra

end DataNexus.Semantic
