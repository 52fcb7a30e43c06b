/-
  DataNexus.Runtime.Rendering — typed expressions as DuckDB text (`expressions.py`).

  `renderExpression` puts text and parameters together as the source does, apart from each
  other. `sqlOf` is the same expression as a tree: what is written where (`places`). The
  text is the tree's text, the parameters are the values at its markers in their order
  (`renderExpression_sqlOf`).

  - `DuckType`, `SqlExpression`: what is rendered.
  - `decimalExpressionShape`, `isExactNumeric`: when and to what an exact decimal operation
    is cast.
-/

import DataNexus.Lib.QuotedText
import DataNexus.Runtime.ScalarValues

namespace DataNexus.Runtime

open Lib Lib.QuotedText

/-- The `details` of a failure: a column, or the columns that collide. -/
inductive FailureDetails where
  | none
  | column (name : String)
  | columns (names : List String)
  deriving DecidableEq

/-- How a query is refused: `OperatorFailure` with its code, message and details, or an error
    of the language. -/
inductive BuildFailure where
  | operator (code message : String) (details : FailureDetails := .none)
  | valueError (message : String)
  | assertionError
  | indexError
  deriving DecidableEq

/-- A value bound to a marker. -/
inductive Parameter where
  | scalar (value : ScalarValue)
  | native (value : NativeScalar)
  deriving DecidableEq

def ExpressionKind.value : ExpressionKind → String
  | column => "column" | literal => "literal" | add => "add" | subtract => "subtract" | multiply => "multiply"
  | divide => "divide" | equal => "equal" | notEqual => "not_equal" | lessThan => "less_than"
  | lessEqual => "less_equal" | greaterThan => "greater_than" | greaterEqual => "greater_equal" | and => "and"
  | or => "or" | not => "not" | isNull => "is_null" | coalesce => "coalesce"

/-- `_BINARY`. -/
def binaryText : ExpressionKind → Option String
  | .add => some "+" | .subtract => some "-" | .multiply => some "*" | .equal => some "=" | .notEqual => some "<>"
  | .lessThan => some "<" | .lessEqual => some "<=" | .greaterThan => some ">" | .greaterEqual => some ">="
  | .and => some "AND" | .or => some "OR" | _ => none

/-- `_DECIMAL_ARITHMETIC`. -/
def ExpressionKind.isDecimalArithmetic : ExpressionKind → Bool
  | add | subtract | multiply => true
  | _ => false

inductive DuckType where
  | plain (type : ScalarType)
  | decimal (precision scale : Int)
  deriving DecidableEq

/-- `_SQL_TYPES`, and the decimal types that are computed. -/
def DuckType.text : DuckType → String
  | plain .string => "VARCHAR" | plain .integer => "BIGINT" | plain .float => "DOUBLE"
  | plain .decimal => "DECIMAL(38, 10)" | plain .boolean => "BOOLEAN" | plain .date => "DATE"
  | plain .timestamp => "TIMESTAMP"
  | decimal precision scale => "DECIMAL(" ++ toString precision ++ ", " ++ toString scale ++ ")"

/-- `quote_identifier`. -/
def quoteIdentifier (identifier : String) (available : Option (List String) := none) : Except BuildFailure String := do
  refuseIf (identifier == "" || hasNul identifier) (.operator "EXPRESSION_INVALID_IDENTIFIER" "Invalid empty identifier")
  refuseIf (available.any fun columns => !columns.contains identifier)
    (.operator "COLUMN_MISSING" ("Column '" ++ identifier ++ "' is not present in the input") (.column identifier))
  return quoted identifier

theorem quoteIdentifier_ok {identifier : String} {available : Option (List String)} {s : String}
    (h : quoteIdentifier identifier available = .ok s) :
    s = quoted identifier ∧ ∀ columns, available = some columns → identifier ∈ columns := by
  simp only [quoteIdentifier, bind_eq_ok, refuseIf_eq_ok, pure_eq_ok] at h
  obtain ⟨_, _, _, havailable, rfl⟩ := h
  refine ⟨rfl, ?_⟩
  rintro columns rfl
  simpa using havailable

/-! ## Decimal shapes -/

section

variable (lib : Libraries) (types : List (String × ArrowType))

/-- The digits of an integer literal: `len(str(abs(value))) if value else 0`. -/
def integerDigits : NativeScalar → Except BuildFailure (Int × Int)
  | .int value => .ok (if value = 0 then 0 else digitCount value.natAbs, 0)
  | .null => .ok (0, 0)
  | _ => .error .assertionError

def decimalDigits : NativeScalar → Except BuildFailure (Int × Int)
  | .decimal value => do
    let shape ← (decimalShape (.finite value)).mapError .valueError
    return (shape.1, shape.2)
  | .null => .ok (0, 0)
  | _ => .error .assertionError

def integerColumnShape (column : Option String) : Except BuildFailure (Int × Int) :=
  match types.lookup (column.getD "") with
  | some (.integer width unsigned) => .ok (digitCount (2 ^ (width.bits - if unsigned then 0 else 1)), 0)
  | _ => .error (.operator "EXPRESSION_TYPE" "Integer column requires its Arrow schema")

def decimalColumnShape (column : Option String) : Except BuildFailure (Int × Int) :=
  match types.lookup (column.getD "") with
  | some (.decimal 128 precision scale _) => .ok (precision - scale, scale)
  | _ => .error (.operator "EXPRESSION_TYPE" "Decimal column requires its Arrow schema")

/-- `max` of the digits or of the scales; Python's `max` of nothing raises. -/
def maximum (values : List Int) : Except BuildFailure Int :=
  match values with
  | [] => .error (.valueError "max() iterable argument is empty")
  | value :: values => .ok (values.foldl max value)

/-- The shape of an operation before the 38 digits of DuckDB: of a sum one more digit than
    its operands, of a product all their digits. -/
def operationShape (kind : ExpressionKind) (shapes : List (Int × Int)) : Except BuildFailure (Int × Int) :=
  if kind = .multiply then .ok ((shapes.map (·.1)).sum, (shapes.map (·.2)).sum)
  else do
    let scale ← maximum (shapes.map (·.2))
    let digits ← maximum (shapes.map (·.1))
    return (if kind = .coalesce then digits else digits + 1, scale)

/-- What `_decimal_expression_shape` makes of the shapes of the arguments. -/
def combineShapes (kind : ExpressionKind) (shapes : List (Int × Int)) : Except BuildFailure (Int × Int) :=
  if kind = .coalesce then do
    let (digits, scale) ← operationShape kind shapes
    refuseIf (digits + scale > 38)
      (.operator "EXPRESSION_TYPE" "Decimal COALESCE has no lossless common type within precision 38")
    return (digits, scale)
  else if kind.isDecimalArithmetic then do
    let (digits, scale) ← operationShape kind shapes
    refuseIf (scale > 38) (.operator "EXPRESSION_TYPE" "Decimal expression scale exceeds 38")
    return (min digits (38 - scale), scale)
  else .error (.operator "EXPRESSION_TYPE" "Expression does not produce an exact decimal")

mutual

/-- `_decimal_expression_shape`. -/
def decimalExpressionShape : TypedExpression → Except BuildFailure (Int × Int)
  | .mk kind dataType column value args =>
    match dataType, kind with
    | .integer, .literal => do integerDigits (← (nativeScalar lib .integer value).mapError .valueError)
    | .integer, .column => integerColumnShape types column
    | .integer, _ => .ok (19, 0)
    | .decimal, .literal => do decimalDigits (← (nativeScalar lib .decimal value).mapError .valueError)
    | .decimal, .column => decimalColumnShape types column
    | .decimal, kind => do combineShapes kind (← decimalExpressionShapes args)
    | _, _ => .error (.operator "EXPRESSION_TYPE" "Exact decimal operands are required")

def decimalExpressionShapes : List TypedExpression → Except BuildFailure (List (Int × Int))
  | [] => .ok []
  | arg :: args => do
    let shape ← decimalExpressionShape arg
    let shapes ← decimalExpressionShapes args
    return shape :: shapes

end

mutual

/-- `_is_exact_numeric_expression`. -/
def isExactNumeric : TypedExpression → Bool
  | .mk kind dataType _ _ args =>
    (dataType == .decimal || dataType == .integer) &&
      (kind == .column || kind == .literal ||
        ((kind.isDecimalArithmetic || kind == .coalesce) && allExactNumeric args))

def allExactNumeric : List TypedExpression → Bool
  | [] => true
  | arg :: args => isExactNumeric arg && allExactNumeric args

end

/-! ## Rendering -/

structure RenderedExpression where
  sql : String
  parameters : List Parameter
  deriving DecidableEq

/-- `CAST(sql AS type)`. -/
def castText (sql : String) (type : DuckType) : String := "CAST(" ++ sql ++ " AS " ++ type.text ++ ")"

variable (exactLiterals : Bool)

def renderLiteral (dataType : ScalarType) (value : ScalarValue) : Except BuildFailure RenderedExpression := do
  if exactLiterals then
    let native ← (nativeScalar lib dataType value).mapError fun message => .operator "EXPRESSION_TYPE" message
    if dataType = .decimal then
      match native with
      | .decimal decimal =>
        let shape ← (decimalShape (.finite decimal)).mapError .valueError
        return ⟨castText "?" (.decimal (max 1 (shape.1 + shape.2)) shape.2), [.scalar (.str decimal.formatFixed)]⟩
      | .null => return ⟨castText "?" (.decimal 1 0), [.scalar .null]⟩
      | _ => throw .assertionError
  return ⟨castText "?" (.plain dataType), [.scalar value]⟩

/-- `_require_arity`, with the arguments it leaves. -/
def requireArity (kind : ExpressionKind) (arity : String) : BuildFailure :=
  .operator "EXPRESSION_ARITY" ("Expression '" ++ kind.value ++ "' requires " ++ arity ++ " arguments")

/-- The scales the operands are cast to: their own for a product, else the result's. -/
def operandScales (kind : ExpressionKind) (scale : Int) (left right : TypedExpression) : Except BuildFailure (Int × Int) :=
  if kind = .multiply then do
    return ((← decimalExpressionShape lib types left).2, (← decimalExpressionShape lib types right).2)
  else return (scale, scale)

/-- A rendered operation of two arguments. -/
def renderBinary (expression : TypedExpression) (operator : String) (left right : TypedExpression)
    (l r : RenderedExpression) : Except BuildFailure RenderedExpression := do
  if exactLiterals && expression.kind.isDecimalArithmetic && expression.dataType == .decimal && isExactNumeric expression then
    let (digits, scale) ← decimalExpressionShape lib types expression
    let precision := max 1 (digits + scale)
    let (leftScale, rightScale) ← operandScales lib types expression.kind scale left right
    let body := "(" ++ castText l.sql (.decimal precision leftScale) ++ " " ++ operator ++ " " ++
      castText r.sql (.decimal precision rightScale) ++ ")"
    return ⟨castText body (.decimal precision scale), l.parameters ++ r.parameters⟩
  return ⟨"(" ++ l.sql ++ " " ++ operator ++ " " ++ r.sql ++ ")", l.parameters ++ r.parameters⟩

def renderCoalesce (expression : TypedExpression) (rendered : List RenderedExpression) : Except BuildFailure RenderedExpression := do
  refuseIf rendered.isEmpty (.operator "EXPRESSION_ARITY" "coalesce requires at least one argument")
  let parameters := rendered.flatMap (·.parameters)
  if exactLiterals && expression.dataType == .decimal then
    let (digits, scale) ← decimalExpressionShape lib types expression
    let type := DuckType.decimal (max 1 (digits + scale)) scale
    return ⟨"COALESCE(" ++ ", ".intercalate (rendered.map fun item => castText item.sql type) ++ ")", parameters⟩
  return ⟨"COALESCE(" ++ ", ".intercalate (rendered.map (·.sql)) ++ ")", parameters⟩

/-- `render_expression` over the rendered arguments of an operation. -/
def renderOperation (expression : TypedExpression) (rendered : List RenderedExpression) : Except BuildFailure RenderedExpression :=
  match binaryText expression.kind, expression.kind, expression.args, rendered with
  | some operator, _, [left, right], [l, r] => renderBinary lib types exactLiterals expression operator left right l r
  | some _, kind, _, _ => .error (requireArity kind "2")
  | none, .divide, _, [l, r] => .ok ⟨"(" ++ l.sql ++ " / NULLIF(" ++ r.sql ++ ", 0))", l.parameters ++ r.parameters⟩
  | none, .divide, _, _ => .error (requireArity .divide "2")
  | none, .not, _, [x] => .ok ⟨"(NOT " ++ x.sql ++ ")", x.parameters⟩
  | none, .not, _, _ => .error (requireArity .not "1")
  | none, .isNull, _, [x] => .ok ⟨"(" ++ x.sql ++ " IS NULL)", x.parameters⟩
  | none, .isNull, _, _ => .error (requireArity .isNull "1")
  | none, .coalesce, _, rendered => renderCoalesce lib types exactLiterals expression rendered
  | none, kind, _, _ => .error (.operator "EXPRESSION_UNSUPPORTED" ("Unsupported expression kind '" ++ kind.value ++ "'"))

variable (columns : List String)

mutual

/-- `render_expression`. -/
def renderExpression : TypedExpression → Except BuildFailure RenderedExpression
  | .mk kind dataType column value args =>
    match kind, column with
    | .column, some name => do return ⟨← quoteIdentifier name (some columns), []⟩
    | .column, none => .error .assertionError
    | .literal, _ => renderLiteral lib exactLiterals dataType value
    | kind, column => do
      let rendered ← renderExpressions args
      renderOperation lib types exactLiterals (.mk kind dataType column value args) rendered

def renderExpressions : List TypedExpression → Except BuildFailure (List RenderedExpression)
  | [] => .ok []
  | arg :: args => do
    let first ← renderExpression arg
    let rest ← renderExpressions args
    return first :: rest

end

end

/-! ## What is rendered, as a tree -/

inductive SqlExpression where
  | column (name : String)
  | literal (type : DuckType) (parameter : Parameter)
  | cast (x : SqlExpression) (type : DuckType)
  | binary (operator : String) (x y : SqlExpression)
  | quotient (x y : SqlExpression)
  | not (x : SqlExpression)
  | isNull (x : SqlExpression)
  | coalesce (args : List SqlExpression)

namespace SqlExpression

/-- What stands around a cast expression. -/
def castPlaces (ps : List (Place Parameter)) (type : DuckType) : List (Place Parameter) :=
  .plain "CAST(" :: (ps ++ [.plain (" AS " ++ type.text ++ ")")])

mutual

def places : SqlExpression → List (Place Parameter)
  | column name => [.name name]
  | literal type parameter => castPlaces [.literal parameter] type
  | cast x type => castPlaces x.places type
  | binary operator x y => .plain "(" :: (x.places ++ .plain (" " ++ operator ++ " ") :: (y.places ++ [.plain ")"]))
  | quotient x y => .plain "(" :: (x.places ++ .plain " / NULLIF(" :: (y.places ++ [.plain ", 0))"]))
  | not x => .plain "(NOT " :: (x.places ++ [.plain ")"])
  | isNull x => .plain "(" :: (x.places ++ [.plain " IS NULL)"])
  | coalesce args => .plain "COALESCE(" :: (joined ", " (placesOf args) ++ [.plain ")"])

def placesOf : List SqlExpression → List (List (Place Parameter))
  | [] => []
  | x :: xs => x.places :: placesOf xs

end

end SqlExpression

section

variable (lib : Libraries) (types : List (String × ArrowType)) (exactLiterals : Bool)

def literalSql (dataType : ScalarType) (value : ScalarValue) : SqlExpression :=
  if exactLiterals && dataType == .decimal then
    match nativeScalar lib dataType value with
    | .ok (.decimal decimal) =>
      .literal (.decimal (max 1 (decimal.shape.1 + decimal.shape.2)) decimal.shape.2) (.scalar (.str decimal.formatFixed))
    | _ => .literal (.decimal 1 0) (.scalar .null)
  else .literal (.plain dataType) (.scalar value)

/-- The computed shape, where there is one. -/
def shapeOf (expression : TypedExpression) : Int × Int := (decimalExpressionShape lib types expression).toOption.getD (0, 0)

/-- The type a decimal of the shape is cast to. -/
def shapeType (shape : Int × Int) : DuckType := .decimal (max 1 (shape.1 + shape.2)) shape.2

/-- The type an operand is cast to: of the result, and for a product with its own scale. -/
def operandType (expression operand : TypedExpression) : DuckType :=
  let shape := shapeOf lib types expression
  .decimal (max 1 (shape.1 + shape.2))
    (if expression.kind = .multiply then (shapeOf lib types operand).2 else shape.2)

/-- Whether an operation is put between casts. -/
def castsOperation (expression : TypedExpression) : Bool :=
  exactLiterals && expression.kind.isDecimalArithmetic && expression.dataType == .decimal && isExactNumeric expression

def operationSql (expression : TypedExpression) (args : List SqlExpression) : SqlExpression :=
  match binaryText expression.kind, expression.kind, expression.args, args with
  | some operator, _, [left, right], [x, y] =>
    if castsOperation exactLiterals expression then
      .cast (.binary operator (.cast x (operandType lib types expression left)) (.cast y (operandType lib types expression right)))
        (shapeType (shapeOf lib types expression))
    else .binary operator x y
  | none, .divide, _, [x, y] => .quotient x y
  | none, .not, _, [x] => .not x
  | none, .isNull, _, [x] => .isNull x
  | _, _, _, args =>
    if exactLiterals && expression.dataType == .decimal then
      .coalesce (args.map fun x => .cast x (shapeType (shapeOf lib types expression)))
    else .coalesce args

mutual

/-- The tree `render_expression` writes. -/
def sqlOf : TypedExpression → SqlExpression
  | .mk kind dataType column value args =>
    match kind, column with
    | .column, some name => .column name
    | .literal, _ => literalSql lib exactLiterals dataType value
    | kind, column => operationSql lib types exactLiterals (.mk kind dataType column value args) (sqlsOf args)

def sqlsOf : List TypedExpression → List SqlExpression
  | [] => []
  | arg :: args => sqlOf arg :: sqlsOf args

end

end

/-! ## The text is the tree's -/

/-- A rendered expression is the text of a tree over the columns and the values at its
    markers. -/
structure Writes (columns : List String) (r : RenderedExpression) (x : SqlExpression) : Prop where
  sql : r.sql = text x.places
  parameters : r.parameters = literals x.places
  separated : Separated x.places
  named : ∀ n ∈ names x.places, n ∈ columns

theorem isBare_type (type : DuckType) : isBare type.text = true := by
  cases type with
  | plain type => cases type <;> decide
  | decimal precision scale =>
    have hopen : isBare "DECIMAL(" = true := by decide
    have hcomma : isBare ", " = true := by decide
    have hclose : isBare ")" = true := by decide
    exact isBare_append (isBare_append (isBare_append (isBare_append hopen (isBare_toString_int precision)) hcomma)
      (isBare_toString_int scale)) hclose

theorem isFixed_operator {kind : ExpressionKind} {operator : String} (h : binaryText kind = some operator) :
    isFixed (" " ++ operator ++ " ") = true := by
  cases kind <;> cases h <;> decide

namespace SqlExpression

theorem text_castPlaces (ps : List (Place Parameter)) (type : DuckType) :
    text (castPlaces ps type) = castText (text ps) type := by
  simp [castPlaces, castText, Place.text, String.append_assoc]

theorem literals_castPlaces (ps : List (Place Parameter)) (type : DuckType) :
    literals (castPlaces ps type) = literals ps := by
  simp [castPlaces]

theorem names_castPlaces (ps : List (Place Parameter)) (type : DuckType) : names (castPlaces ps type) = names ps := by
  simp [castPlaces]

theorem separated_castPlaces {ps : List (Place Parameter)} (h : Separated ps) (type : DuckType) :
    Separated (castPlaces ps type) := by
  have htype : isFixed (" AS " ++ type.text ++ ")") = true :=
    isFixed_append (isFixed_append (by decide) (isBare_type type)) (by decide)
  exact (h.between htype .nil).fixed (by decide)

theorem placesOf_eq (xs : List SqlExpression) : placesOf xs = xs.map places := by
  induction xs with
  | nil => rfl
  | cons x xs ih => rw [placesOf, ih, List.map_cons]

end SqlExpression

open DataNexus.Runtime.SqlExpression

namespace Writes

variable {columns : List String} {r l : RenderedExpression} {x y : SqlExpression}

attribute [local simp] places

theorem column {name : String} (h : name ∈ columns) : Writes columns ⟨quoted name, []⟩ (.column name) where
  sql := by simp [places, Place.text]
  parameters := rfl
  separated := .name name
  named := by simpa [places] using h

theorem literal (type : DuckType) (parameter : Parameter) :
    Writes columns ⟨castText "?" type, [parameter]⟩ (.literal type parameter) where
  sql := by
    rw [places, text_castPlaces]
    simp [Place.text]
  parameters := by
    rw [places, literals_castPlaces]
    rfl
  separated := separated_castPlaces (.literal _) type
  named := by simp [places, names_castPlaces]

theorem cast (h : Writes columns r x) (type : DuckType) : Writes columns ⟨castText r.sql type, r.parameters⟩ (.cast x type) where
  sql := by rw [places, text_castPlaces, h.sql]
  parameters := by rw [places, literals_castPlaces, h.parameters]
  separated := separated_castPlaces h.separated type
  named := by simpa [places, names_castPlaces] using h.named

theorem binary {operator : String} (hop : isFixed (" " ++ operator ++ " ") = true) (hl : Writes columns l x) (hr : Writes columns r y) :
    Writes columns ⟨"(" ++ l.sql ++ " " ++ operator ++ " " ++ r.sql ++ ")", l.parameters ++ r.parameters⟩ (.binary operator x y) where
  sql := by simp [places, Place.text, hl.sql, hr.sql, String.append_assoc]
  parameters := by simp [places, hl.parameters, hr.parameters]
  separated := (hl.separated.between hop (hr.separated.between (by decide) .nil)).fixed (by decide)
  named := by
    intro n hn
    have hn : n ∈ names x.places ∨ n ∈ names y.places := by simpa [places] using hn
    exact hn.elim (hl.named n) (hr.named n)

theorem quotient (hl : Writes columns l x) (hr : Writes columns r y) :
    Writes columns ⟨"(" ++ l.sql ++ " / NULLIF(" ++ r.sql ++ ", 0))", l.parameters ++ r.parameters⟩ (.quotient x y) where
  sql := by simp [places, Place.text, hl.sql, hr.sql, String.append_assoc]
  parameters := by simp [places, hl.parameters, hr.parameters]
  separated := (hl.separated.between (by decide) (hr.separated.between (by decide) .nil)).fixed (by decide)
  named := by
    intro n hn
    have hn : n ∈ names x.places ∨ n ∈ names y.places := by simpa [places] using hn
    exact hn.elim (hl.named n) (hr.named n)

theorem not (h : Writes columns r x) : Writes columns ⟨"(NOT " ++ r.sql ++ ")", r.parameters⟩ (.not x) where
  sql := by simp [places, Place.text, h.sql, String.append_assoc]
  parameters := by simp [places, h.parameters]
  separated := (h.separated.between (by decide) .nil).fixed (by decide)
  named := by simpa [places] using h.named

theorem isNull (h : Writes columns r x) : Writes columns ⟨"(" ++ r.sql ++ " IS NULL)", r.parameters⟩ (.isNull x) where
  sql := by simp [places, Place.text, h.sql, String.append_assoc]
  parameters := by simp [places, h.parameters]
  separated := (h.separated.between (by decide) .nil).fixed (by decide)
  named := by simpa [places] using h.named

theorem sqls {rendered : List RenderedExpression} {xs : List SqlExpression} (h : List.Forall₂ (Writes columns) rendered xs) :
    rendered.map (·.sql) = (placesOf xs).map text ∧ rendered.flatMap (·.parameters) = (placesOf xs).flatMap literals ∧
      ∀ ps ∈ placesOf xs, Separated ps ∧ ∀ n ∈ names ps, n ∈ columns := by
  rw [placesOf_eq]
  induction h with
  | nil => simp
  | cons hfirst hrest ih =>
    obtain ⟨hsql, hparameters, hplaces⟩ := ih
    refine ⟨?_, ?_, ?_⟩
    · simp only [List.map_cons, hfirst.sql, hsql]
    · simp only [List.map_cons, List.flatMap_cons, hfirst.parameters, hparameters]
    · intro ps hps
      rcases List.mem_cons.mp hps with rfl | hps
      · exact ⟨hfirst.separated, hfirst.named⟩
      · exact hplaces ps hps

theorem coalesce {rendered : List RenderedExpression} {xs : List SqlExpression} (h : List.Forall₂ (Writes columns) rendered xs) :
    Writes columns ⟨"COALESCE(" ++ ", ".intercalate (rendered.map (·.sql)) ++ ")", rendered.flatMap (·.parameters)⟩ (.coalesce xs) := by
  obtain ⟨hsql, hparameters, hplaces⟩ := sqls h
  constructor
  · simp [places, Place.text, hsql, text_joined, String.append_assoc]
  · simp [places, hparameters, literals_joined]
  · exact ((Separated.joined (by decide) fun ps hps => (hplaces ps hps).1).between (by decide) .nil).fixed (by decide)
  · intro n hn
    have hn : n ∈ (placesOf xs).flatMap names := by simpa [places, names_joined] using hn
    obtain ⟨ps, hps, hn⟩ := List.mem_flatMap.mp hn
    exact (hplaces ps hps).2 n hn

theorem casts {rendered : List RenderedExpression} {xs : List SqlExpression} (h : List.Forall₂ (Writes columns) rendered xs)
    (type : DuckType) : List.Forall₂ (Writes columns)
      (rendered.map fun item => ⟨castText item.sql type, item.parameters⟩) (xs.map fun x => .cast x type) := by
  induction h with
  | nil => exact .nil
  | cons hfirst _ ih => exact .cons (hfirst.cast type) ih

end Writes

section

variable {lib : Libraries} {types : List (String × ArrowType)} {exactLiterals : Bool} {columns : List String}

theorem shapeOf_eq {e : TypedExpression} {shape : Int × Int} (h : decimalExpressionShape lib types e = .ok shape) :
    shapeOf lib types e = shape := by
  rw [shapeOf, h]
  rfl

theorem renderLiteral_writes {dataType : ScalarType} {value : ScalarValue} {r : RenderedExpression}
    (h : renderLiteral lib exactLiterals dataType value = .ok r) :
    Writes columns r (literalSql lib exactLiterals dataType value) := by
  unfold renderLiteral at h
  cases exactLiterals with
  | false =>
    obtain rfl := pure_eq_ok.mp h
    exact .literal _ _
  | true =>
    simp only [if_true, bind_eq_ok] at h
    obtain ⟨native, hnative, h⟩ := h
    by_cases hdecimal : dataType = .decimal
    · subst hdecimal
      rw [if_pos rfl] at h
      cases hvalue : nativeScalar lib .decimal value with
      | error message => simp [hvalue, Except.mapError] at hnative
      | ok native' =>
        obtain rfl : native' = native := by simpa [hvalue, Except.mapError] using hnative
        rcases nativeScalar_decimal hvalue with rfl | ⟨d, rfl, hshape⟩
        · obtain rfl := pure_eq_ok.mp h
          simpa [literalSql, hvalue] using Writes.literal (.decimal 1 0) (.scalar .null)
        · have hd : decimalShape (.finite d) = .ok d.shape := by
            have hle : ¬ d.shape.1 + d.shape.2 > 38 := by omega
            simp [decimalShape, hle]
          simp only [hd, Except.mapError, bind_eq_ok, pure_eq_ok] at h
          obtain ⟨shape, heq, rfl⟩ := h
          obtain rfl := Except.ok.inj heq
          simpa [literalSql, hvalue] using Writes.literal (.decimal (max 1 (d.shape.1 + d.shape.2)) d.shape.2) _
    · rw [if_neg hdecimal] at h
      obtain rfl := pure_eq_ok.mp h
      simpa [literalSql, hdecimal] using Writes.literal (.plain dataType) (.scalar value)

theorem operandScales_eq {e left right : TypedExpression} {scales : Int × Int} {shape : Int × Int}
    (hshape : decimalExpressionShape lib types e = .ok shape)
    (h : operandScales lib types e.kind shape.2 left right = .ok scales) :
    .decimal (max 1 (shape.1 + shape.2)) scales.1 = operandType lib types e left ∧
      .decimal (max 1 (shape.1 + shape.2)) scales.2 = operandType lib types e right := by
  unfold operandScales at h
  simp only [operandType, shapeOf_eq hshape]
  split at h
  · rename_i hkind
    simp only [bind_eq_ok, pure_eq_ok] at h
    obtain ⟨l, hl, r, hr, rfl⟩ := h
    rw [if_pos hkind, if_pos hkind, shapeOf_eq hl, shapeOf_eq hr]
    exact ⟨rfl, rfl⟩
  · rename_i hkind
    obtain rfl := pure_eq_ok.mp h
    rw [if_neg hkind, if_neg hkind]
    exact ⟨rfl, rfl⟩

theorem renderBinary_writes {e left right : TypedExpression} {operator : String} {l r made : RenderedExpression}
    {x y : SqlExpression} (hop : binaryText e.kind = some operator) (hargs : e.args = [left, right]) (hl : Writes columns l x)
    (hr : Writes columns r y) (h : renderBinary lib types exactLiterals e operator left right l r = .ok made) :
    Writes columns made (operationSql lib types exactLiterals e [x, y]) := by
  have hsql : operationSql lib types exactLiterals e [x, y] =
      if castsOperation exactLiterals e then
        .cast (.binary operator (.cast x (operandType lib types e left)) (.cast y (operandType lib types e right)))
          (shapeType (shapeOf lib types e))
      else .binary operator x y := by
    simp only [operationSql, hop, hargs]
  rw [hsql]
  unfold renderBinary at h
  have hoperator := isFixed_operator hop
  by_cases hcasts : castsOperation exactLiterals e = true
  · rw [if_pos hcasts]
    unfold castsOperation at hcasts
    simp only [hcasts, if_true, bind_eq_ok, pure_eq_ok] at h
    obtain ⟨shape, hshape, scales, hscales, rfl⟩ := h
    obtain ⟨hleft, hright⟩ := operandScales_eq hshape hscales
    rw [shapeOf_eq hshape, ← hleft, ← hright]
    exact (Writes.binary hoperator (hl.cast _) (hr.cast _)).cast _
  · rw [if_neg hcasts]
    unfold castsOperation at hcasts
    simp only [hcasts, if_false, Bool.false_eq_true, pure_eq_ok] at h
    obtain rfl := h
    exact .binary hoperator hl hr

theorem renderCoalesce_writes {e : TypedExpression} {rendered : List RenderedExpression} {xs : List SqlExpression}
    {made : RenderedExpression} (hkind : e.kind = .coalesce) (hxs : List.Forall₂ (Writes columns) rendered xs)
    (h : renderCoalesce lib types exactLiterals e rendered = .ok made) :
    Writes columns made (operationSql lib types exactLiterals e xs) := by
  have hsql : operationSql lib types exactLiterals e xs =
      if exactLiterals && e.dataType == .decimal then
        .coalesce (xs.map fun x => .cast x (shapeType (shapeOf lib types e)))
      else .coalesce xs := by
    simp only [operationSql, hkind, binaryText]
  rw [hsql]
  simp only [renderCoalesce, bind_eq_ok, refuseIf_eq_ok] at h
  obtain ⟨_, -, h⟩ := h
  by_cases hcasts : (exactLiterals && e.dataType == .decimal) = true
  · rw [if_pos hcasts]
    simp only [hcasts, if_true, bind_eq_ok, pure_eq_ok] at h
    obtain ⟨shape, hshape, rfl⟩ := h
    rw [shapeOf_eq hshape]
    have hcoalesce := Writes.coalesce (Writes.casts hxs (shapeType shape))
    simpa [Function.comp_def, List.flatMap_map, shapeType] using hcoalesce
  · rw [if_neg hcasts]
    simp only [hcasts, if_false, Bool.false_eq_true, pure_eq_ok] at h
    obtain rfl := h
    exact .coalesce hxs

theorem renderOperation_writes {e : TypedExpression} {rendered : List RenderedExpression} {xs : List SqlExpression}
    {made : RenderedExpression} (hxs : List.Forall₂ (Writes columns) rendered xs)
    (h : renderOperation lib types exactLiterals e rendered = .ok made) :
    Writes columns made (operationSql lib types exactLiterals e xs) := by
  unfold renderOperation at h
  split at h
  · rename_i operator left right l r hop hargs
    cases hxs with
    | cons hl hrest =>
      cases hrest with
      | cons hr hnil =>
        cases hnil
        exact renderBinary_writes hop hargs hl hr h
  · cases h
  · rename_i l r hop hkind
    cases hxs with
    | cons hl hrest =>
      cases hrest with
      | cons hr hnil =>
        cases hnil
        obtain rfl := Except.ok.inj h
        simpa only [operationSql, hkind, binaryText] using Writes.quotient hl hr
  · cases h
  · rename_i x hop hkind
    cases hxs with
    | cons hx hnil =>
      cases hnil
      obtain rfl := Except.ok.inj h
      simpa only [operationSql, hkind, binaryText] using Writes.not hx
  · cases h
  · rename_i x hop hkind
    cases hxs with
    | cons hx hnil =>
      cases hnil
      obtain rfl := Except.ok.inj h
      simpa only [operationSql, hkind, binaryText] using Writes.isNull hx
  · cases h
  · rename_i hop hkind
    exact renderCoalesce_writes hkind hxs h
  · cases h

mutual

/-- The text is the tree's, and the parameters stand at its markers. -/
theorem renderExpression_writes : ∀ {e : TypedExpression} {r : RenderedExpression},
    renderExpression lib types exactLiterals columns e = .ok r → Writes columns r (sqlOf lib types exactLiterals e)
  | .mk kind dataType reference value args, r, h => by
    unfold renderExpression at h
    unfold sqlOf
    split at h
    · simp only [bind_eq_ok, pure_eq_ok] at h
      obtain ⟨s, hs, rfl⟩ := h
      obtain ⟨rfl, hcolumns⟩ := quoteIdentifier_ok hs
      exact Writes.column (hcolumns columns rfl)
    · cases h
    · exact renderLiteral_writes h
    · rename_i hliteral hcolumn _
      simp only [bind_eq_ok] at h
      obtain ⟨rendered, hrendered, h⟩ := h
      split
      · exact (hcolumn _ rfl rfl).elim
      · exact (hliteral rfl).elim
      · exact renderOperation_writes (renderExpressions_writes hrendered) h

theorem renderExpressions_writes : ∀ {es : List TypedExpression} {rs : List RenderedExpression},
    renderExpressions lib types exactLiterals columns es = .ok rs → List.Forall₂ (Writes columns) rs (sqlsOf lib types exactLiterals es)
  | [], rs, h => by
    obtain rfl := Except.ok.inj h
    exact .nil
  | e :: es, rs, h => by
    simp only [renderExpressions, bind_eq_ok, pure_eq_ok] at h
    obtain ⟨first, hfirst, rest, hrest, rfl⟩ := h
    exact .cons (renderExpression_writes hfirst) (renderExpressions_writes hrest)

end

end

end DataNexus.Runtime
