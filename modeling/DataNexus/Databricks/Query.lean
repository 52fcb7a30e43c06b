/-
  DataNexus.Databricks.Query — source fragments as Databricks SQL, and the row limit
  (`DatabricksFragmentTranslator.translate` and `_operation`, and the row check of
  `DatabricksSourceAdapter.execute`, in `databricks_adapter.py`).

  A query is kept as the tree the translator nests, next to the text it writes. The live
  warehouse is any `Semantics` of the single operators on rows; a subquery hands its rows
  on in their order. A fragment's LIMIT is clamped to `row_limit + 1` and the whole query
  is bounded by the same number, so an accepted result is complete when nothing that looks
  past the clamp follows it: `Phase` says how far the rows the warehouse works on can be
  from the true ones, after each operation.
-/

import DataNexus.Databricks.Expressions

namespace DataNexus.Databricks

open Lib Lib.SqlExpression DataNexus.Runtime

structure Translator where
  catalog : String
  schema : String
  rowLimit : Nat
  identifiers : matchesIdentifier catalog = true ∧ matchesIdentifier schema = true
  bounded : 1 ≤ rowLimit ∧ rowLimit ≤ 10000

/-- A nested query. `terms` and `condition` are texts already rendered; the other fields are
    the operation's own. -/
inductive Query where
  | table (name : String)
  | projected (columns : List String) (expressions : List NamedExpression) (terms : List String) (query : Query)
  | filtered (predicate : TypedExpression) (condition : String) (query : Query)
  | aggregated (groupBy : List String) (aggregates : List AggregateSpec) (terms : List String) (query : Query)
  | sorted (sort : List SortSpec) (terms : List String) (query : Query)
  | limited (aliasName : String) (rows : Nat) (query : Query)

def commaSeparated (terms : List String) : String := ", ".intercalate terms

def Query.sql : Query → String
  | .table name => "SELECT * FROM " ++ name
  | .projected _ _ terms query => "SELECT " ++ commaSeparated terms ++ " FROM (" ++ query.sql ++ ") AS projected"
  | .filtered _ condition query => "SELECT * FROM (" ++ query.sql ++ ") AS filtered WHERE " ++ condition
  | .aggregated groupBy _ terms query =>
    "SELECT " ++ commaSeparated terms ++ " FROM (" ++ query.sql ++ ") AS aggregated" ++
      if groupBy.isEmpty then "" else " GROUP BY " ++ commaSeparated (groupBy.map quote)
  | .sorted _ terms query => "SELECT * FROM (" ++ query.sql ++ ") AS sorted ORDER BY " ++ commaSeparated terms
  | .limited aliasName rows query => "SELECT * FROM (" ++ query.sql ++ ") AS " ++ aliasName ++ " LIMIT " ++ toString rows

/-- `PhysicalSourceFragment`; its `sql` is the query's text. -/
structure PhysicalSourceFragment where
  sourceName : String
  query : Query
  parameters : List StatementParameter

def PhysicalSourceFragment.sql (fragment : PhysicalSourceFragment) : String := fragment.query.sql

/-! ## Translation -/

def invalidTranslation (message : String) : Raised := .resolverFailure "DATABRICKS_TRANSLATION_INVALID" message

def quotedIdentifier (name : String) : Except Raised String := do
  let name ← identifier name
  pure (quote name)

/-- The `expression AS name` terms of a projection. -/
def expressionTerms : List NamedExpression → List StatementParameter →
    Except Raised (List String × List StatementParameter)
  | [], parameters => .ok ([], parameters)
  | item :: items, parameters => do
    let (rendered, parameters) ← expression item.expression 0 parameters
    let name ← quotedIdentifier item.name
    let (terms, parameters) ← expressionTerms items parameters
    pure ((rendered ++ " AS " ++ name) :: terms, parameters)

def functionText : AggregateFunction → String
  | .sum => "SUM" | .avg => "AVG" | .min => "MIN" | .max => "MAX" | .count => "COUNT"

/-- What an aggregate is taken of; only COUNT may leave it out. -/
def measured (aggregate : AggregateSpec) (parameters : List StatementParameter) : Rendered :=
  match aggregate.expression with
  | none => do
    refuseIf (aggregate.function != .count) (invalidTranslation "Only COUNT may omit an aggregate expression.")
    pure ("*", parameters)
  | some measure => expression measure 0 parameters

def aggregateTerms : List AggregateSpec → List StatementParameter →
    Except Raised (List String × List StatementParameter)
  | [], parameters => .ok ([], parameters)
  | aggregate :: aggregates, parameters => do
    let (rendered, parameters) ← measured aggregate parameters
    let name ← quotedIdentifier aggregate.name
    let (terms, parameters) ← aggregateTerms aggregates parameters
    pure ((functionText aggregate.function ++ "(" ++ rendered ++ ") AS " ++ name) :: terms, parameters)

def sortTerm (item : SortSpec) : Except Raised String := do
  let column ← quotedIdentifier item.column
  let direction := match item.direction with
    | .asc => "ASC"
    | .desc => "DESC"
  pure (column ++ " " ++ direction ++ " " ++ if item.nullsFirst then "NULLS FIRST" else "NULLS LAST")

/-- `_operation`. -/
def operation (t : Translator) (query : Query) (spec : OperatorSpec) (parameters : List StatementParameter) :
    Except Raised (Query × List StatementParameter) :=
  match spec.kind with
  | .source => .ok (query, parameters)
  | .select | .project => do
    let columns ← spec.columns.mapM quotedIdentifier
    let (terms, parameters) ← expressionTerms spec.expressions parameters
    refuseIf (columns ++ terms).isEmpty (invalidTranslation "A projection requires reviewed output columns.")
    pure (.projected spec.columns spec.expressions (columns ++ terms) query, parameters)
  | .filter =>
    match spec.predicate with
    | none => .error (invalidTranslation "A filter requires a typed predicate.")
    | some predicate => do
      let (condition, parameters) ← expression predicate 0 parameters
      pure (.filtered predicate condition query, parameters)
  | .aggregate => do
    refuseIf spec.aggregates.isEmpty (invalidTranslation "An aggregate requires reviewed measures.")
    let groupBy ← spec.groupBy.mapM quotedIdentifier
    let (terms, parameters) ← aggregateTerms spec.aggregates parameters
    pure (.aggregated spec.groupBy spec.aggregates (groupBy ++ terms) query, parameters)
  | .sort => do
    refuseIf spec.sort.isEmpty (invalidTranslation "A sort requires reviewed keys.")
    let terms ← spec.sort.mapM sortTerm
    pure (.sorted spec.sort terms query, parameters)
  | .limit =>
    match spec.limit with
    | none => .error (invalidTranslation "A limit requires a bounded row count.")
    | some rows => .ok (.limited "limited" (min rows (t.rowLimit + 1)) query, parameters)
  | kind =>
    .error (.resolverFailure "DATABRICKS_TRANSLATION_UNSUPPORTED"
      ("Operator '" ++ kind.text ++ "' cannot cross the live source boundary."))

def operations (t : Translator) : Query → List OperatorSpec → List StatementParameter →
    Except Raised (Query × List StatementParameter)
  | query, [], parameters => .ok (query, parameters)
  | query, spec :: specs, parameters => do
    let (query, parameters) ← operation t query spec parameters
    operations t query specs parameters

/-- `translate`. -/
def translate (t : Translator) (fragment : SourceFragment) : Except Raised PhysicalSourceFragment := do
  let objectName ← identifier fragment.source.objectName
  let base := Query.table (quote t.catalog ++ "." ++ quote t.schema ++ "." ++ quote objectName)
  let (query, parameters) ← operations t base fragment.operations []
  pure ⟨fragment.source.aliasName, .limited "bounded_result" (t.rowLimit + 1) query, parameters⟩

/-! ## What the operators do to rows -/

/-- A meaning of the single operators, on rows of any kind. Groups are formed by a key of
    the grouped columns; an ordering is total and transitive. -/
structure Semantics (ρ : Type) where
  project : List String → List NamedExpression → ρ → ρ
  holds : TypedExpression → ρ → Bool
  Key : Type
  decidableKey : DecidableEq Key
  key : List String → ρ → Key
  summarize : List String → List AggregateSpec → List ρ → ρ
  precedes : List SortSpec → ρ → ρ → Bool
  precedes_total : ∀ sort a b, (precedes sort a b || precedes sort b a) = true
  precedes_trans : ∀ sort a b c, precedes sort a b = true → precedes sort b c = true → precedes sort a c = true

variable {ρ : Type}

/-- One row for each key; without grouped columns one row in all. -/
def Semantics.grouped (S : Semantics ρ) (groupBy : List String) (aggregates : List AggregateSpec) (rows : List ρ) :
    List ρ :=
  letI := S.decidableKey
  if groupBy = [] then [S.summarize groupBy aggregates rows]
  else (rows.map (S.key groupBy)).dedup.map fun k =>
    S.summarize groupBy aggregates (rows.filter fun r => S.key groupBy r = k)

/-- The rows of a nested query over the rows of the source table. -/
def Query.eval (S : Semantics ρ) (table : List ρ) : Query → List ρ
  | .table _ => table
  | .projected columns expressions _ query => (query.eval S table).map (S.project columns expressions)
  | .filtered predicate _ query => (query.eval S table).filter (S.holds predicate)
  | .aggregated groupBy aggregates _ query => S.grouped groupBy aggregates (query.eval S table)
  | .sorted sort _ query => (query.eval S table).mergeSort (S.precedes sort)
  | .limited _ rows query => (query.eval S table).take rows

/-- The live execution: translate, run, and refuse a result over the limit. -/
def live (t : Translator) (S : Semantics ρ) (fragment : SourceFragment) (table : List ρ) : Except Raised (List ρ) := do
  let connector ← translate t fragment
  let rows := connector.query.eval S table
  refuseIf (rows.length > t.rowLimit)
    (.resolverFailure "DATABRICKS_RESULT_TRUNCATED" "The live result exceeded the complete-result row boundary.")
  pure rows

/-- One operation of a fragment on all the rows. -/
def perform (S : Semantics ρ) (spec : OperatorSpec) (rows : List ρ) : List ρ :=
  match spec.kind with
  | .select | .project => rows.map (S.project spec.columns spec.expressions)
  | .filter => rows.filter fun r => spec.predicate.all (S.holds · r)
  | .aggregate => S.grouped spec.groupBy spec.aggregates rows
  | .sort => rows.mergeSort (S.precedes spec.sort)
  | .limit => (spec.limit.map rows.take).getD rows
  | _ => rows

/-- The fold of the operations over the source table. -/
def performAll (S : Semantics ρ) (specs : List OperatorSpec) (rows : List ρ) : List ρ :=
  specs.foldl (fun rows spec => perform S spec rows) rows

/-! ## What a clamp can change -/

/-- What of an operation decides whether a clamp shows. -/
inductive Shape where
  | source | project | filter | grouped | global | sort
  | limit (rows : Nat)
  deriving DecidableEq

def shapeOf (spec : OperatorSpec) : Option Shape :=
  match spec.kind with
  | .source => some .source
  | .select | .project => some .project
  | .filter => some .filter
  | .aggregate => some (if spec.groupBy = [] then .global else .grouped)
  | .sort => some .sort
  | .limit => spec.limit.map .limit
  | _ => none

/-- How the warehouse's rows are related to the true ones: the same; the same and at most
    `row_limit + 1`; their first `row_limit + 1`; the same or too many to be accepted;
    anything. -/
inductive Phase where
  | whole | bounded | clipped | clippedSorted | wrong
  deriving DecidableEq

def Phase.next (rowLimit : Nat) : Phase → Shape → Phase
  | .whole, .global => .bounded
  | .whole, .limit rows => if rows ≤ rowLimit + 1 then .bounded else .clipped
  | .whole, _ => .whole
  | .bounded, _ => .bounded
  | .clipped, .source | .clipped, .project => .clipped
  | .clipped, .sort => .clippedSorted
  | .clipped, .limit rows => if rows ≤ rowLimit + 1 then .bounded else .clipped
  | .clipped, .filter | .clipped, .grouped | .clipped, .global => .wrong
  | .clippedSorted, .source | .clippedSorted, .project | .clippedSorted, .sort => .clippedSorted
  | .clippedSorted, .limit rows =>
    if rows = 0 then .bounded else if rows ≤ rowLimit then .wrong else .clippedSorted
  | .clippedSorted, .filter | .clippedSorted, .grouped | .clippedSorted, .global => .wrong
  | .wrong, .limit 0 => .bounded
  | .wrong, _ => .wrong

/-- No operation that looks past a clamp follows it. -/
def clampsUnseen (rowLimit : Nat) (shapes : List Shape) : Bool :=
  shapes.foldl (Phase.next rowLimit) .whole != .wrong

end DataNexus.Databricks
