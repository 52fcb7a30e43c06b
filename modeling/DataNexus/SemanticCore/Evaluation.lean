/-
  DataNexus.SemanticCore.Evaluation — what a graph says, over the rows of its entities.

  A cell is a value and, if operators have only passed it on, the place it was read at
  (`Origin`); what an operator computes or pads has none. Truth is three-valued, and a
  FILTER keeps what is true. A group of no keys is one group, of no rows too. Sums and products
  are exact; a quotient, and what depends on a calendar or on a spelling of values, is a
  parameter (`Engine`).

  - `evaluateNode`: the rows of a node from those of its inputs.
  - `rowsOf`: the rows of every node of a graph, and `rowsOf_node` how they are made.
-/

import DataNexus.SemanticCore.Validation

namespace DataNexus.SemanticCore

open Lib

/-! ## Values -/

inductive Value where
  | null
  | text (value : String)
  | number (value : ℚ)
  | bool (value : Bool)
  | date (day : Int)
  | datetime (instant : Int)
  deriving DecidableEq

namespace Value

/-- A value of the type, or null. Whole numbers are integers; numbers and decimals are any. -/
def hasType : Value → DataType → Bool
  | null, _ => true
  | text _, .string => true
  | number q, .integer => q.den == 1
  | number _, .number => true
  | number _, .decimal => true
  | bool _, .boolean => true
  | date _, .date => true
  | datetime _, .datetime => true
  | _, _ => false

def number? : Value → Option ℚ
  | number q => some q
  | _ => none

/-- The order of two values of a kind; unknown for null. -/
def order : Value → Value → Option Ordering
  | text a, text b => some (compare a b)
  | number a, number b => some (compare a b)
  | bool a, bool b => some (compare a b)
  | date a, date b => some (compare a b)
  | datetime a, datetime b => some (compare a b)
  | _, _ => none

end Value

/-- How texts are read as dates, values spelled and numbers divided. -/
structure Engine where
  day : String → Int
  instant : String → Int
  /-- The text that a PIVOT compares with its columns. -/
  spell : Value → String
  /-- The quotient of two numbers, if it is not null. -/
  quotient : ℚ → ℚ → Option ℚ

/-! ## Literals -/

def digitsAmount (digits : List Char) : ℕ := digits.foldl (fun n c => 10 * n + (c.toNat - '0'.toNat)) 0

/-- The number of a text `-?digits`. -/
def readInteger : List Char → ℤ
  | '-' :: digits => -(digitsAmount digits : ℤ)
  | '+' :: digits => digitsAmount digits
  | digits => digitsAmount digits

/-- The number of a text `-?digits(.digits)?`. -/
def readMantissa (text : List Char) : ℚ :=
  let whole := text.takeWhile (· != '.')
  let fraction := (text.dropWhile (· != '.')).drop 1
  (readInteger (whole ++ fraction) : ℚ) / 10 ^ fraction.length

/-- The number of a decimal text, with its exponent if it has one. -/
def readDecimal (text : List Char) : ℚ :=
  let isMark := fun c : Char => c == 'e' || c == 'E'
  readMantissa (text.takeWhile fun c => !isMark c) * 10 ^ readInteger ((text.dropWhile fun c => !isMark c).drop 1)

def NumericLiteral.amount : NumericLiteral → ℚ
  | integer value => readInteger value.toList
  | decimal value => readDecimal value.toList

/-- The number of the bits, which are finite. -/
def floatAmount (bits : BitVec 64) : ℚ :=
  let sign : ℚ := if bits.msb then -1 else 1
  let fraction : ℚ := (bits.extractLsb' 0 52).toNat
  match (bits.extractLsb' 52 11).toNat with
  | 0 => sign * fraction / 2 ^ 1074
  | exponent => sign * (2 ^ 52 + fraction) * 2 ^ exponent / 2 ^ 1075

/-- A scalar of a predicate, read as the column's value is. -/
def JsonScalar.read (engine : Engine) (like : Value) : JsonScalar → Value
  | null => .null
  | str value =>
    match like with
    | .date _ => .date (engine.day value)
    | .datetime _ => .datetime (engine.instant value)
    | _ => .text value
  | int value => .number value
  | float bits => .number (floatAmount bits)
  | bool value => .bool value
  | decimal value => .number (readDecimal value.toList)

/-! ## FILTER -/

/-- What a comparison says of a value and a scalar. -/
def PredicateOperator.truth : PredicateOperator → Value → Value → Option Bool
  | eq, value, scalar | isIn, value, scalar | notIn, value, scalar => (value.order scalar).map (· == .eq)
  | neq, value, scalar => (value.order scalar).map (· != .eq)
  | gt, value, scalar => (value.order scalar).map (· == .gt)
  | gte, value, scalar => (value.order scalar).map (· != .lt)
  | lt, value, scalar => (value.order scalar).map (· == .lt)
  | lte, value, scalar => (value.order scalar).map (· != .gt)
  | contains, .text value, .text scalar => some (decide (scalar.toList <:+: value.toList))
  | contains, _, _ => none

/-- OR of truth values, some of them unknown. -/
def anyTrue (truths : List (Option Bool)) : Option Bool :=
  if truths.contains (some true) then some true
  else if truths.contains none then none
  else some false

def Predicate.truth (engine : Engine) (predicate : Predicate) (value : Value) : Option Bool :=
  let any := anyTrue (predicate.value.values.map fun scalar => predicate.op.truth value (scalar.read engine value))
  if predicate.op = .notIn then any.map (!·) else any

/-! ## Rows -/

/-- A field of an entity's row. -/
structure Origin where
  entity : String
  field : String
  row : Nat
  deriving DecidableEq

structure Cell where
  value : Value
  origin : Option Origin := none
  deriving DecidableEq

/-- What an outer join pads. -/
def Cell.pad : Cell where
  value := .null

abbrev Row := String → Cell

/-- The rows of an entity, each a value for every field. -/
abbrev Data := String → List (String → Value)

def readRow (entity : String) (record : String → Value) (i : Nat) : Row := fun field => ⟨record field, some ⟨entity, field, i⟩⟩

def beforeOn (key : SortKey) (a b : Row) : Ordering :=
  match (a key.field).value.order (b key.field).value with
  | some order => if key.descending then order.swap else order
  | none => compare ((a key.field).value == .null) ((b key.field).value == .null)

def sorted (keys : List SortKey) (rows : List Row) : List Row :=
  rows.mergeSort fun a b => (keys.map fun key => beforeOn key a b).foldr Ordering.then .eq != .gt

/-! ## Groups -/

/-- The first of the values that no other is on this side of. -/
def extreme (side : Ordering) : List Value → Value
  | [] => .null
  | value :: values => values.foldl (fun best v => if v.order best = some side then v else best) value

/-- An aggregate over a column of a group. -/
def Aggregation.apply (aggregation : Aggregation) (column : List Value) : Value :=
  let known := column.filter (· != .null)
  let numbers := known.filterMap (·.number?)
  match aggregation with
  | .count => .number known.length
  | .countDistinct => .number known.dedup.length
  | .min => extreme .lt known
  | .max => extreme .gt known
  | .sum => if numbers.isEmpty then .null else .number numbers.sum
  | .avg => if numbers.isEmpty then .null else .number (numbers.sum / numbers.length)

def keysOf (keys : List String) (row : Row) : List Value := keys.map fun field => (row field).value

/-- The rows by their keys. -/
def groups (keys : List String) (rows : List Row) : List (List Row) :=
  if keys.isEmpty then [rows]
  else (rows.map (keysOf keys)).dedup.map fun key => rows.filter (keysOf keys · == key)

/-- A key of a group, from its first row. -/
def keyCell (group : List Row) (field : String) : Cell := (group.head?.map (· field)).getD .pad

def aggregateRow (ontology : Ontology) (params : AggregateParams) (group : List Row) : Row := fun name =>
  match params.measures.find? (·.name == name) with
  | none => keyCell group name
  | some measure =>
    match ontology.metricTable.lookup measure.metric with
    | none => .pad
    | some metric => { value := metric.aggregation.apply (group.map fun row => (row measure.source).value) }

/-- The values of the group's rows that belong to the column. -/
def pivoted (engine : Engine) (params : PivotParams) (group : List Row) (name : String) : List Value :=
  (group.filter fun row => (row params.column).value != .null && engine.spell (row params.column).value == name).map
    fun row => (row params.value).value

def pivotRow (engine : Engine) (params : PivotParams) (group : List Row) : Row := fun name =>
  if params.expectedColumns.contains name then { value := params.aggregation.apply (pivoted engine params group name) }
  else keyCell group name

/-! ## DERIVE -/

def ScalarOperand.evaluate (row : Row) : ScalarOperand → Value
  | field f => (row f).value
  | literal value => .number value.amount

/-- Arithmetic on numbers; null of anything else. -/
def DeriveOperator.apply (engine : Engine) : DeriveOperator → Value → Value → Value
  | add, .number a, .number b => .number (a + b)
  | subtract, .number a, .number b => .number (a - b)
  | multiply, .number a, .number b => .number (a * b)
  | divide, .number a, .number b => (engine.quotient a b).elim .null .number
  | _, _, _ => .null

def DeriveExpression.evaluate (engine : Engine) (expression : DeriveExpression) (row : Row) : Value :=
  expression.op.apply engine (expression.left.evaluate row) (expression.right.evaluate row)

def deriveRow (engine : Engine) (expressions : List DeriveExpression) (row : Row) : Row := fun name =>
  match expressions.find? (·.name == name) with
  | none => row name
  | some expression => { value := expression.evaluate engine row }

/-! ## JOIN -/

/-- Whether a join keeps the rows of a side that match none of the other. -/
def JoinKind.keepsUnmatched : JoinKind → JoinSide → Bool
  | left, .left | right, .right | full, _ => true
  | _, _ => false

def matched (params : JoinParams) (l r : Row) : Bool :=
  (l params.leftKey).value.order (r params.rightKey).value == some .eq

/-- A row of a join; a side that is not there is padded. -/
def joinRow (params : JoinParams) (l r : Option Row) : Row := fun name =>
  match params.fields.find? (·.name == name) with
  | none => .pad
  | some projection =>
    match projection.source with
    | .left => (l.map (· projection.field)).getD .pad
    | .right => (r.map (· projection.field)).getD .pad

def joinRows (params : JoinParams) (ls rs : List Row) : List Row :=
  let both := ls.flatMap fun l => (rs.filter (matched params l)).map fun r => joinRow params (some l) (some r)
  let left := if params.kind.keepsUnmatched .left then ls.filter fun l => !rs.any (matched params l) else []
  let right := if params.kind.keepsUnmatched .right then rs.filter fun r => !ls.any (matched params · r) else []
  both ++ left.map (fun l => joinRow params (some l) none) ++ right.map fun r => joinRow params none (some r)

/-! ## The graph -/

section

variable (engine : Engine) (ontology : Ontology) (data : Data)

/-- The rows of a node, from those of its inputs. -/
def evaluateNode (node : SQGNode) (inputs : List (List Row)) : List Row :=
  match node.params, inputs with
  | .select entity _, _ => (data entity).zipIdx.map fun entry => readRow entity entry.1 entry.2
  | .filter predicate, [rows] => rows.filter fun row => predicate.truth engine (row predicate.field).value == some true
  | .sort keys, [rows] => sorted keys rows
  | .project _, [rows] => rows
  | .aggregate params, [rows] => (groups params.groupBy rows).map (aggregateRow ontology params)
  | .pivot params, [rows] => (groups params.index rows).map (pivotRow engine params)
  | .derive expressions, [rows] => rows.map (deriveRow engine expressions)
  | .join params, [ls, rs] => joinRows params ls rs
  | _, _ => []

/-- The rows of the nodes, the last node's first. -/
def evaluate (nodes : List SQGNode) : List (String × List Row) :=
  nodes.foldl (fun tables node =>
    (node.id, evaluateNode engine ontology data node (node.inputs.map fun id => (tables.lookup id).getD [])) :: tables) []

/-- The rows of the node of this id. -/
def rowsOf (nodes : List SQGNode) (id : String) : List Row := ((evaluate engine ontology data nodes).lookup id).getD []

end

end DataNexus.SemanticCore
