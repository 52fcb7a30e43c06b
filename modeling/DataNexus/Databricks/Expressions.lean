/-
  DataNexus.Databricks.Expressions — typed expressions as Databricks SQL text
  (`DatabricksFragmentTranslator._expression`, `_parameter`, `_identifier`, `_quote` and
  `_boolean_case` of `databricks_adapter.py`).

  `expression` is the renderer: strings in, strings out, with the parameters met so far.
  A text is judged by the lexer and the parser of `Lib.SqlText` and `Lib.SqlExpression`.
  The renderer brackets an operand by the precedence of its parent, but NOT and IS NULL
  have no precedence, comparisons take a comparison on their right without brackets, and
  `_boolean_case` cuts the first and the last bracket of a text whether or not they are a
  pair. `Faithful` leaves out just those nestings.
-/

import DataNexus.Lib.SqlText
import DataNexus.Runtime.Domain

namespace DataNexus.Databricks

open Lib Lib.SqlExpression DataNexus.Runtime

/-- What the translator and the connector's value types raise. -/
inductive Raised where
  | resolverFailure (code message : String)
  | configurationError (message : String)
  | assertionError
  deriving DecidableEq

inductive ParameterType where
  | boolean | byte | short | int | long | float | double | string | date | timestamp
  deriving DecidableEq

structure DecimalType where
  precision : Nat
  scale : Nat
  bounded : 1 ≤ precision ∧ precision ≤ 38 ∧ scale ≤ precision
  deriving DecidableEq

/-- `DecimalType.__post_init__`. -/
def DecimalType.of (precision scale : Nat) : Except Raised DecimalType :=
  if hp : 1 ≤ precision ∧ precision ≤ 38 then
    if hs : scale ≤ precision then .ok ⟨precision, scale, hp.1, hp.2, hs⟩
    else .error (.configurationError "decimal scale must be between 0 and precision")
  else .error (.configurationError "decimal precision must be between 1 and 38")

inductive SqlType where
  | plain (type : ParameterType)
  | decimal (type : DecimalType)
  deriving DecidableEq

/-- A parameter's value: as it came, or the exact decimal `±coefficient / 10 ^ scale`. -/
inductive ParameterValue where
  | scalar (value : ScalarValue)
  | decimal (negative : Bool) (coefficient scale : Nat)
  deriving DecidableEq

structure StatementParameter where
  name : String
  type : SqlType
  value : ParameterValue
  deriving DecidableEq

/-! ## Parameters -/

/-- `_DECIMAL_VALUE.fullmatch(value).groups()`. -/
def decimalGroups (value : String) : Option (List Char × Option (List Char)) :=
  let digits := match value.toList with
    | '-' :: rest => rest
    | all => all
  let integer := digits.takeWhile Char.isDigit
  if integer = [] ∨ (1 < integer.length ∧ integer.head? = some '0') then none
  else match digits.drop integer.length with
    | [] => some (integer, none)
    | '.' :: fraction => if fraction ≠ [] ∧ fraction.all Char.isDigit then some (integer, some fraction) else none
    | _ => none

def invalidDecimal (message : String) : Raised := .resolverFailure "DATABRICKS_DECIMAL_PARAMETER_INVALID" message

/-- The DECIMAL branch of `_parameter`. -/
def decimalParameter (value : ScalarValue) : Except Raised (SqlType × ParameterValue) :=
  match value with
  | .str text =>
    match decimalGroups text with
    | none => .error (invalidDecimal "A decimal parameter is not canonical fixed-point text.")
    | some (integer, fraction) => do
      let fraction := fraction.getD []
      let scale := fraction.length
      let integerDigits := (integer.dropWhile (· = '0')).length
      let precision := max 1 (integerDigits + scale)
      let significant := max 1 ((integer ++ fraction).dropWhile (· = '0')).length
      let coefficient := (integer ++ fraction).foldl (fun n c => 10 * n + (c.toNat - '0'.toNat)) 0
      let negative := text.toList.head? = some '-'
      refuseIf ((coefficient = 0 ∧ negative) ∨ significant > 29 ∨ scale > 28 ∨ coefficient > 10 ^ 28 * 10 ^ scale)
        (invalidDecimal "A decimal parameter is outside the governed precision or scale.")
      let type ← DecimalType.of precision scale
      pure (.decimal type, .decimal negative coefficient scale)
  | _ => .error (invalidDecimal "Decimal parameters require canonical fixed-point text.")

/-- A literal's type and value on the wire; `_PARAMETER_TYPES` for all but decimals. -/
def typedLiteral (dataType : ScalarType) (value : ScalarValue) : Except Raised (SqlType × ParameterValue) :=
  match dataType with
  | .decimal => decimalParameter value
  | .string => .ok (.plain .string, .scalar value)
  | .integer => .ok (.plain .long, .scalar value)
  | .float => .ok (.plain .double, .scalar value)
  | .boolean => .ok (.plain .boolean, .scalar value)
  | .date => .ok (.plain .date, .scalar value)
  | .timestamp => .ok (.plain .timestamp, .scalar value)

/-- The name the next parameter gets. -/
def parameterName (index : Nat) : String := "p" ++ toString index

def parameter (dataType : ScalarType) (value : ScalarValue) (parameters : List StatementParameter) :
    Except Raised (StatementParameter × List StatementParameter) := do
  let (type, typed) ← typedLiteral dataType value
  let made := ⟨parameterName parameters.length, type, typed⟩
  pure (made, parameters ++ [made])

/-! ## Names -/

def nameStart (c : Char) : Bool := c.isAlpha || c == '_'

/-- `_IDENTIFIER.fullmatch`. -/
def matchesIdentifier (value : String) : Bool :=
  match value.toList with
  | [] => false
  | c :: cs => nameStart c && cs.all wordCharacter

def identifier (value : String) : Except Raised String := do
  refuseIf (!matchesIdentifier value)
    (.resolverFailure "DATABRICKS_IDENTIFIER_INVALID"
      "A live source identifier is outside the reviewed ASCII allowlist.")
  pure value

def quote (value : String) : String := String.ofList (Char.ofNat 96 :: (value.toList ++ [Char.ofNat 96]))

/-! ## The renderer -/

/-- `_BINARY_SQL`; the operator's `text` is the table's value. -/
def binarySql : ExpressionKind → Option BinaryOperator
  | .add => some .add | .subtract => some .subtract | .multiply => some .multiply | .divide => some .divide
  | .equal => some .equal | .notEqual => some .notEqual | .lessThan => some .lessThan | .lessEqual => some .lessEqual
  | .greaterThan => some .greaterThan | .greaterEqual => some .greaterEqual
  | .and => some .and | .or => some .or
  | .column | .literal | .not | .isNull | .coalesce => none

/-- `_PRECEDENCE`. -/
def precedence : BinaryOperator → Nat
  | .or => 1
  | .and => 2
  | .equal | .notEqual | .lessThan | .lessEqual | .greaterThan | .greaterEqual => 3
  | .add | .subtract => 4
  | .multiply | .divide => 5

def arithmetic : BinaryOperator → Bool
  | .add | .subtract | .multiply | .divide => true
  | _ => false

def rightPrecedence (op : BinaryOperator) : Nat := if arithmetic op then precedence op + 1 else precedence op

def startsBracket (rendered : String) : Bool := rendered.toList.head? = some '('

def endsBracket (rendered : String) : Bool := rendered.toList.getLast? = some ')'

def booleanCase (rendered whenTrue whenFalse whenNull : String) : String :=
  let inner := if startsBracket rendered && endsBracket rendered then String.ofList rendered.toList.tail.dropLast
    else rendered
  "CASE WHEN " ++ inner ++ " THEN " ++ whenTrue ++ " WHEN FALSE = (" ++ inner ++ ") THEN " ++ whenFalse ++
    " ELSE " ++ whenNull ++ " END"

def ExpressionKind.text : ExpressionKind → String
  | .column => "column" | .literal => "literal" | .add => "add" | .subtract => "subtract" | .multiply => "multiply"
  | .divide => "divide" | .equal => "equal" | .notEqual => "not_equal" | .lessThan => "less_than"
  | .lessEqual => "less_equal" | .greaterThan => "greater_than" | .greaterEqual => "greater_equal" | .and => "and"
  | .or => "or" | .not => "not" | .isNull => "is_null" | .coalesce => "coalesce"

def unsupported (kind : ExpressionKind) : Raised :=
  .resolverFailure "DATABRICKS_EXPRESSION_UNSUPPORTED"
    ("Expression '" ++ ExpressionKind.text kind ++ "' is outside the live allowlist.")

abbrev Rendered := Except Raised (String × List StatementParameter)

/-- The text of a binary operator over rendered operands. -/
def binaryText (op : BinaryOperator) (parent : Nat) (left right : String) : String :=
  let right := if op = .and ∧ startsBracket right = true then booleanCase right "TRUE" "FALSE" "NULL" else right
  let rendered := left ++ " " ++ op.text ++ " " ++ right
  if precedence op < parent then "(" ++ rendered ++ ")" else rendered

def notText (argument : ExpressionKind) (rendered : String) : String :=
  if (binarySql argument).isSome then booleanCase rendered "FALSE" "TRUE" "NULL" else "NOT " ++ rendered

def isNullText (argument : ExpressionKind) (rendered : String) : String :=
  if (binarySql argument).isSome then booleanCase rendered "FALSE" "FALSE" "TRUE"
  else if argument = .column ∨ argument = .literal then rendered ++ " IS NULL"
  else "(" ++ rendered ++ ") IS NULL"

mutual

/-- `_expression(expression, parent_precedence)`. -/
def expression : TypedExpression → Nat → List StatementParameter → Rendered
  | .mk kind dataType column value args, parent, parameters =>
    match kind, args with
    | .column, _ =>
      match column with
      | some name => do
        let name ← identifier name
        pure (quote name, parameters)
      | none => .error .assertionError
    | .literal, _ => do
      let (made, parameters) ← parameter dataType value parameters
      pure (":" ++ made.name, parameters)
    | .not, [argument] => do
      let (rendered, parameters) ← expression argument 0 parameters
      pure (notText argument.kind rendered, parameters)
    | .isNull, [argument] => do
      let (rendered, parameters) ← expression argument 0 parameters
      pure (isNullText argument.kind rendered, parameters)
    | .coalesce, first :: rest => do
      let (rendered, parameters) ← expressions (first :: rest) parameters
      pure ("COALESCE(" ++ ", ".intercalate rendered ++ ")", parameters)
    | kind, [left, right] =>
      match binarySql kind with
      | some op => do
        let (left, parameters) ← expression left (precedence op) parameters
        let (right, parameters) ← expression right (rightPrecedence op) parameters
        pure (binaryText op parent left right, parameters)
      | none => .error (unsupported kind)
    | kind, _ => .error (unsupported kind)

def expressions : List TypedExpression → List StatementParameter →
    Except Raised (List String × List StatementParameter)
  | [], parameters => .ok ([], parameters)
  | arg :: args, parameters => do
    let (rendered, parameters) ← expression arg 0 parameters
    let (others, parameters) ← expressions args parameters
    pure (rendered :: others, parameters)

end

/-! ## What a typed expression means -/

variable {V : Type}

mutual

/-- The three-valued value of an expression on a row; literals take the value of the typed
    constant they denote. -/
def value (I : Interpretation V) (constant : SqlType → ParameterValue → Value V) (row : String → Value V) :
    TypedExpression → Value V
  | .mk kind dataType column literal args =>
    match kind, args with
    | .column, _ => row (column.getD "")
    | .literal, _ =>
      match typedLiteral dataType literal with
      | .ok (type, typed) => constant type typed
      | .error _ => .null
    | .not, [argument] => (value I constant row argument).not
    | .isNull, [argument] => .boolean (value I constant row argument).isNull
    | .coalesce, first :: rest => firstValue I constant row (first :: rest)
    | kind, [left, right] =>
      match binarySql kind with
      | some op => I.binary op (value I constant row left) (value I constant row right)
      | none => .null
    | _, _ => .null

/-- The first value that is not NULL. -/
def firstValue (I : Interpretation V) (constant : SqlType → ParameterValue → Value V) (row : String → Value V) :
    List TypedExpression → Value V
  | [] => .null
  | arg :: args =>
    let first := value I constant row arg
    if first.isNull then firstValue I constant row args else first

end

/-- The value a statement gives to a parameter name. -/
def binding (constant : SqlType → ParameterValue → Value V) (parameters : List StatementParameter) (name : String) :
    Value V :=
  match parameters.find? (·.name = name) with
  | some made => constant made.type made.value
  | none => .null

/-- The text is an expression, and its value is the source's on every row. -/
def Faithfully (e : TypedExpression) (rendered : String) (parameters : List StatementParameter) : Prop :=
  ∃ x, (lex rendered).bind parseAll = some x ∧
    ∀ (V : Type) (I : Interpretation V) (constant : SqlType → ParameterValue → Value V) (row : String → Value V),
      x.eval I row (binding constant parameters) = value I constant row e

/-! ## The nestings the renderer gets right -/

/-- A NOT that is written as one, not as a CASE. -/
def plainNot : TypedExpression → Bool
  | .mk .not _ _ _ [argument] => (binarySql argument.kind).isNone
  | _ => false

/-- An IS NULL that is written as one, not as a CASE. -/
def plainIsNull : TypedExpression → Bool
  | .mk .isNull _ _ _ [argument] => (binarySql argument.kind).isNone
  | _ => false

/-- The text starts with a bracket. -/
def opens : TypedExpression → Nat → Bool
  | .mk kind _ _ _ args, parent =>
    match kind, args with
    | .isNull, [argument] => (binarySql argument.kind).isNone && argument.kind != .column && argument.kind != .literal
    | kind, [left, _] =>
      match binarySql kind with
      | some op => precedence op < parent || opens left (precedence op)
      | none => false
    | _, _ => false

/-- The text ends with a bracket. -/
def closes : TypedExpression → Nat → Bool
  | .mk kind _ _ _ args, parent =>
    match kind, args with
    | .not, [argument] => (binarySql argument.kind).isNone && closes argument 0
    | .coalesce, _ => true
    | kind, [_, right] =>
      match binarySql kind with
      | some op =>
        precedence op < parent ||
          (closes right (rightPrecedence op) && !(op == .and && opens right (rightPrecedence op)))
      | none => false
    | _, _ => false

def comparison (op : BinaryOperator) : Bool := precedence op = 3

/-- The operands the operator can be written with. -/
def operandsFit (op : BinaryOperator) (left right : TypedExpression) : Bool :=
  if op = .or then true
  else if op = .and then
    !opens right (precedence .and) ||
      (!(binarySql right.kind).any arithmetic && (!closes right (precedence .and) || right.kind == .or))
  else if comparison op then
    !plainNot left && !(binarySql right.kind).any comparison && !plainNot right && !plainIsNull right
  else !plainNot left && !plainIsNull left && !plainNot right && !plainIsNull right

/-- The argument of a NOT or an IS NULL that is written as a CASE: a truth value whose text
    does not both start and end with a bracket. -/
def argumentFits (argument : TypedExpression) : Bool :=
  match binarySql argument.kind with
  | some op => !arithmetic op && !(opens argument 0 && closes argument 0)
  | none => true

mutual

def faithful : TypedExpression → Bool
  | .mk kind _ _ _ args =>
    match kind, args with
    | .not, [argument] => argumentFits argument && faithful argument
    | .isNull, [argument] => argumentFits argument && faithful argument
    | .coalesce, args => allFaithful args
    | kind, [left, right] =>
      match binarySql kind with
      | some op => operandsFit op left right && faithful left && faithful right
      | none => true
    | _, _ => true

def allFaithful : List TypedExpression → Bool
  | [] => true
  | arg :: args => faithful arg && allFaithful args

end

end DataNexus.Databricks
