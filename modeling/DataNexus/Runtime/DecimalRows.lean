/-
  DataNexus.Runtime.DecimalRows — decimal expressions over a row (`expressions.py`): what one
  denotes among the rational numbers, and what the SQL written for it gives.

  A `Row` holds numbers of its columns' Arrow types. `exactValue` is the expression's own
  meaning; `SqlExpression.eval` runs the rendered tree, with SQL's casts and its arithmetic,
  which fails where a result does not fit. COALESCE looks no further than its first value.

  - `ExactTree`: sums, differences, products and COALESCE over integers and decimals.
  - `exactForm`: what is rendered for each of them.
-/

import DataNexus.Lib.SqlDecimal
import DataNexus.Runtime.Imputation

namespace DataNexus.Runtime

open Lib

/-! ## Rows -/

/-- A column of the type holds the number. -/
def ArrowType.Holds : ArrowType → SqlNumber → Prop
  | integer width unsigned, n =>
    ∃ m : ℤ, n = .integer m unsigned ∧
      if unsigned then 0 ≤ m ∧ m < 2 ^ width.bits else -(2 ^ (width.bits - 1)) ≤ m ∧ m < 2 ^ (width.bits - 1)
  | decimal _ precision scale _, n =>
    ∃ v : ℚ, n = .decimal v scale ∧ OnGrid scale v ∧ |v| < 10 ^ ((precision : ℤ) - scale)
  | _, _ => False

/-- The numbers of a row, some of them null. -/
structure Row (types : List (String × ArrowType)) where
  cell : String → Option SqlNumber
  holds : ∀ name type n, types.lookup name = some type → cell name = some n → type.Holds n

/-! ## The SQL -/

def arithmeticOf : String → Option ArithmeticOperator
  | "+" => some .add
  | "-" => some .subtract
  | "*" => some .multiply
  | _ => none

/-- `CAST(v AS type)`. -/
def castTo : DuckType → ℚ → Except SqlFailure SqlNumber
  | .decimal precision scale, v => do return .decimal (← castDecimal precision scale v) scale
  | .plain .decimal, v => do return .decimal (← castDecimal 38 10 v) 10
  | .plain .integer, v => do
    refuseIf (!inRange false (roundHalf v)) .cast
    return .integer (roundHalf v) false
  | _, _ => .error .unsupported

def castValue (type : DuckType) : Option SqlNumber → Except SqlFailure (Option SqlNumber)
  | none => .ok none
  | some n => do return some (← castTo type n.toRat)

/-- `CAST(? AS type)` of the value bound to the marker. -/
def castParameter (type : DuckType) : Parameter → Except SqlFailure (Option SqlNumber)
  | .scalar .null => .ok none
  | .scalar (.int n) => do return some (← castTo type n)
  | .scalar (.str text) =>
    match readFixed text with
    | some v => do return some (← castTo type v)
    | none => .error .cast
  | _ => .error .unsupported

def applyArithmetic (operator : String) : Option SqlNumber → Option SqlNumber → Except SqlFailure (Option SqlNumber)
  | some x, some y =>
    match arithmeticOf operator with
    | some op => do return some (← arithmetic op x y)
    | none => .error .unsupported
  | _, _ => .ok none

namespace SqlExpression

section

variable {types : List (String × ArrowType)} (row : Row types)

mutual

def eval : SqlExpression → Except SqlFailure (Option SqlNumber)
  | column name => .ok (row.cell name)
  | literal type parameter => castParameter type parameter
  | cast x type => do castValue type (← x.eval)
  | binary operator x y => do
    let l ← x.eval
    let r ← y.eval
    applyArithmetic operator l r
  | coalesce args => firstValue args
  | quotient _ _ => .error .unsupported
  | not _ => .error .unsupported
  | isNull _ => .error .unsupported

def firstValue : List SqlExpression → Except SqlFailure (Option SqlNumber)
  | [] => .ok none
  | x :: xs => do
    let v ← x.eval
    if v.isSome then return v else firstValue xs

end

end

mutual

/-- The expression and all within it. -/
def parts : SqlExpression → List SqlExpression
  | column name => [column name]
  | literal type parameter => [literal type parameter]
  | cast x type => cast x type :: x.parts
  | binary operator x y => binary operator x y :: (x.parts ++ y.parts)
  | quotient x y => quotient x y :: (x.parts ++ y.parts)
  | not x => not x :: x.parts
  | isNull x => isNull x :: x.parts
  | coalesce args => coalesce args :: partsOf args

def partsOf : List SqlExpression → List SqlExpression
  | [] => []
  | x :: xs => x.parts ++ partsOf xs

end

/-- The precision and the scale of the decimal type the expression is cast to. -/
def writtenDigits : SqlExpression → Option (Int × Int)
  | cast _ (.decimal precision scale) | literal (.decimal precision scale) _ => some (precision, scale)
  | cast _ (.plain .decimal) | literal (.plain .decimal) _ => some (38, 10)
  | _ => none

theorem partsOf_eq (xs : List SqlExpression) : partsOf xs = xs.flatMap parts := by
  induction xs with
  | nil => rfl
  | cons x xs ih => rw [partsOf, ih, List.flatMap_cons]

theorem self_mem_parts (x : SqlExpression) : x ∈ x.parts := by
  cases x <;> simp [parts]

end SqlExpression

/-! ## What an expression means -/

/-- The operator of a decimal operation. -/
def ExpressionKind.operator? : ExpressionKind → Option ArithmeticOperator
  | add => some .add
  | subtract => some .subtract
  | multiply => some .multiply
  | _ => none

def NativeScalar.toRat? : NativeScalar → Option ℚ
  | int n => some n
  | decimal d => some d.toRat
  | _ => none

/-- An operation over the values of its arguments; null over a null. -/
def exactOperation (kind : ExpressionKind) : List (Option ℚ) → Option ℚ
  | [some x, some y] => kind.operator?.map fun op => op.apply x y
  | _ => none

section

variable (lib : Libraries) {types : List (String × ArrowType)} (row : Row types)

mutual

/-- The exact value; none where it is null. -/
def exactValue : TypedExpression → Option ℚ
  | .mk kind dataType column value args =>
    match kind with
    | .column => (row.cell (column.getD "")).map SqlNumber.toRat
    | .literal => (nativeScalar lib dataType value).toOption.bind NativeScalar.toRat?
    | .coalesce => (exactValues args).findSome? id
    | kind => exactOperation kind (exactValues args)

def exactValues : List TypedExpression → List (Option ℚ)
  | [] => []
  | arg :: args => exactValue arg :: exactValues args

end

theorem exactValues_eq (args : List TypedExpression) : exactValues lib row args = args.map (exactValue lib row) := by
  induction args with
  | nil => rfl
  | cons arg args ih => rw [exactValues, ih, List.map_cons]

end

/-! ## The expressions in question -/

section

variable (types : List (String × ArrowType))

/-- The declared type of the column is the one of its Arrow type. -/
def Agrees (name : String) : ScalarType → Prop
  | .integer => ∃ width unsigned, types.lookup name = some (.integer width unsigned)
  | .decimal => ∃ bitWidth precision scale valid, types.lookup name = some (.decimal bitWidth precision scale valid)
  | _ => False

mutual

/-- Sums, differences, products and COALESCE over decimal and integer columns and literals;
    an integer operation has integer arguments only. -/
def ExactTree : TypedExpression → Prop
  | .mk kind dataType column _ args =>
    match kind with
    | .column => ∃ name, column = some name ∧ Agrees types name dataType
    | .literal => dataType = .decimal ∨ dataType = .integer
    | .add | .subtract | .multiply | .coalesce =>
      (dataType = .decimal ∨ dataType = .integer ∧ ∀ arg ∈ args, arg.dataType = .integer) ∧ ExactTrees args
    | _ => False

def ExactTrees : List TypedExpression → Prop
  | [] => True
  | arg :: args => ExactTree arg ∧ ExactTrees args

end

/-- The decimal columns have SQL types: no more digits after the point than in all. -/
def DecimalColumns : Prop :=
  ∀ name bitWidth precision scale valid,
    types.lookup name = some (.decimal bitWidth precision scale valid) → scale ≤ precision

mutual

/-- No integer column is unsigned. -/
def SignedColumns : TypedExpression → Prop
  | .mk kind dataType column _ args =>
    (kind = .column → dataType = .integer → ∀ width unsigned,
      types.lookup (column.getD "") = some (.integer width unsigned) → unsigned = false) ∧ SignedAll args

def SignedAll : List TypedExpression → Prop
  | [] => True
  | arg :: args => SignedColumns arg ∧ SignedAll args

end

variable (lib : Libraries)

mutual

/-- The digits before and after the point an expression may need, however many these are. -/
def uncappedShape : TypedExpression → Except BuildFailure (Int × Int)
  | .mk kind dataType column value args =>
    match dataType, kind with
    | .integer, .literal => do integerDigits (← (nativeScalar lib .integer value).mapError .valueError)
    | .integer, .column => integerColumnShape types column
    | .integer, _ => .ok (19, 0)
    | .decimal, .literal => do decimalDigits (← (nativeScalar lib .decimal value).mapError .valueError)
    | .decimal, .column => decimalColumnShape types column
    | .decimal, kind => do operationShape kind (← uncappedShapes args)
    | _, _ => .error (.operator "EXPRESSION_TYPE" "Exact decimal operands are required")

def uncappedShapes : List TypedExpression → Except BuildFailure (List (Int × Int))
  | [] => .ok []
  | arg :: args => do
    let shape ← uncappedShape arg
    let shapes ← uncappedShapes args
    return shape :: shapes

end

mutual

/-- Of every subexpression, the uncapped digits stay within 38. -/
def Fits : TypedExpression → Prop
  | .mk kind dataType column value args =>
    (∀ shape, uncappedShape types lib (.mk kind dataType column value args) = .ok shape → shape.1 + shape.2 ≤ 38) ∧ FitsAll args

def FitsAll : List TypedExpression → Prop
  | [] => True
  | arg :: args => Fits arg ∧ FitsAll args

end

variable {types lib}

theorem exactTrees_iff {args : List TypedExpression} : ExactTrees types args ↔ ∀ arg ∈ args, ExactTree types arg := by
  induction args with
  | nil => simp [ExactTrees]
  | cons arg args ih => simp [ExactTrees, ih]

theorem signedAll_iff {args : List TypedExpression} : SignedAll types args ↔ ∀ arg ∈ args, SignedColumns types arg := by
  induction args with
  | nil => simp [SignedAll]
  | cons arg args ih => simp [SignedAll, ih]

theorem fitsAll_iff {args : List TypedExpression} : FitsAll types lib args ↔ ∀ arg ∈ args, Fits types lib arg := by
  induction args with
  | nil => simp [FitsAll]
  | cons arg args ih => simp [FitsAll, ih]

end

/-! ## Shapes -/

section

variable {lib : Libraries} {types : List (String × ArrowType)}

theorem decimalExpressionShapes_ok {args : List TypedExpression} {shapes : List (Int × Int)} :
    decimalExpressionShapes lib types args = .ok shapes ↔
      List.Forall₂ (fun arg shape => decimalExpressionShape lib types arg = .ok shape) args shapes := by
  induction args generalizing shapes with
  | nil => simp [decimalExpressionShapes, eq_comm]
  | cons arg args ih =>
    simp only [decimalExpressionShapes, bind_eq_ok, pure_eq_ok, List.forall₂_cons_left_iff, ih]
    constructor
    · rintro ⟨shape, hshape, shapes, hshapes, rfl⟩
      exact ⟨shape, shapes, hshape, hshapes, rfl⟩
    · rintro ⟨shape, shapes, hshape, hshapes, rfl⟩
      exact ⟨shape, hshape, shapes, hshapes, rfl⟩

theorem uncappedShapes_ok {args : List TypedExpression} {shapes : List (Int × Int)} :
    uncappedShapes types lib args = .ok shapes ↔
      List.Forall₂ (fun arg shape => uncappedShape types lib arg = .ok shape) args shapes := by
  induction args generalizing shapes with
  | nil => simp [uncappedShapes, eq_comm]
  | cons arg args ih =>
    simp only [uncappedShapes, bind_eq_ok, pure_eq_ok, List.forall₂_cons_left_iff, ih]
    constructor
    · rintro ⟨shape, hshape, shapes, hshapes, rfl⟩
      exact ⟨shape, shapes, hshape, hshapes, rfl⟩
    · rintro ⟨shape, shapes, hshape, hshapes, rfl⟩
      exact ⟨shape, hshape, shapes, hshapes, rfl⟩

theorem maximum_ok {values : List Int} {m : Int} (h : maximum values = .ok m) : m ∈ values ∧ ∀ v ∈ values, v ≤ m := by
  cases values with
  | nil => cases h
  | cons value values =>
    obtain rfl := Except.ok.inj h
    induction values generalizing value with
    | nil => simp
    | cons next values ih =>
      obtain ⟨hmem, hle⟩ := ih (max value next) rfl
      constructor
      · rcases List.mem_cons.mp hmem with heq | hmem
        · rcases max_choice value next with hmax | hmax
          · exact List.mem_cons.mpr (.inl (by rw [List.foldl_cons, heq, hmax]))
          · exact List.mem_cons_of_mem _ (List.mem_cons.mpr (.inl (by rw [List.foldl_cons, heq, hmax])))
        · exact List.mem_cons_of_mem _ (List.mem_cons_of_mem _ hmem)
      · intro v hv
        have hfirst := hle (max value next) List.mem_cons_self
        rcases List.mem_cons.mp hv with rfl | hv
        · exact (le_max_left _ _).trans hfirst
        · rcases List.mem_cons.mp hv with rfl | hv
          · exact (le_max_right _ _).trans hfirst
          · exact hle v (List.mem_cons_of_mem _ hv)

/-- The shape of an operation, from those of its two operands. -/
structure OperationShape (op : ArithmeticOperator) (a b shape : Int × Int) : Prop where
  scale : shape.2 = if op = .multiply then a.2 + b.2 else max a.2 b.2
  digits : shape.1 = min (if op = .multiply then a.1 + b.1 else max a.1 b.1 + 1) (38 - shape.2)
  scale_le : shape.2 ≤ 38

theorem operationShape_pair {kind : ExpressionKind} {op : ArithmeticOperator} (hop : kind.operator? = some op) (a b : Int × Int) :
    operationShape kind [a, b] = .ok (if op = .multiply then (a.1 + b.1, a.2 + b.2) else (max a.1 b.1 + 1, max a.2 b.2)) := by
  cases kind <;> cases hop <;> simp [operationShape, maximum, bind, Except.bind, pure, Except.pure]

theorem combineShapes_pair {kind : ExpressionKind} {op : ArithmeticOperator} (hop : kind.operator? = some op)
    {a b shape : Int × Int} (h : combineShapes kind [a, b] = .ok shape) : OperationShape op a b shape := by
  have hcoalesce : kind ≠ .coalesce := by
    rintro rfl
    cases hop
  have harithmetic : kind.isDecimalArithmetic = true := by
    cases kind <;> cases hop <;> rfl
  rw [combineShapes, if_neg hcoalesce, if_pos harithmetic, operationShape_pair hop] at h
  simp only [bind_eq_ok, pure_eq_ok, refuseIf_eq_ok, decide_eq_false_iff_not, not_lt, Except.ok.injEq] at h
  obtain ⟨uncapped, rfl, _, hscale, rfl⟩ := h
  constructor
  · split <;> rfl
  · split <;> rfl
  · exact hscale

/-- The shape of a COALESCE holds those of all its arguments. -/
structure CommonShape (shapes : List (Int × Int)) (shape : Int × Int) : Prop where
  nonempty : shapes ≠ []
  digits : ∀ s ∈ shapes, s.1 ≤ shape.1
  scale : ∀ s ∈ shapes, s.2 ≤ shape.2
  fits : shape.1 + shape.2 ≤ 38

theorem operationShape_coalesce {shapes : List (Int × Int)} {shape : Int × Int}
    (h : operationShape .coalesce shapes = .ok shape) :
    shapes ≠ [] ∧ (∀ s ∈ shapes, s.1 ≤ shape.1) ∧ ∀ s ∈ shapes, s.2 ≤ shape.2 := by
  have hkind : ExpressionKind.coalesce ≠ .multiply := by decide
  simp only [operationShape, if_neg hkind, bind_eq_ok, pure_eq_ok, if_true] at h
  obtain ⟨scale, hscale, digits, hdigits, rfl⟩ := h
  obtain ⟨hmem, hscales⟩ := maximum_ok hscale
  obtain ⟨-, hdigits⟩ := maximum_ok hdigits
  refine ⟨?_, ?_, ?_⟩
  · rintro rfl
    cases hmem
  · exact fun s hs => hdigits _ (List.mem_map_of_mem hs)
  · exact fun s hs => hscales _ (List.mem_map_of_mem hs)

theorem combineShapes_coalesce {shapes : List (Int × Int)} {shape : Int × Int} (h : combineShapes .coalesce shapes = .ok shape) :
    CommonShape shapes shape ∧ operationShape .coalesce shapes = .ok shape := by
  simp only [combineShapes, if_true, bind_eq_ok, refuseIf_eq_ok, pure_eq_ok, decide_eq_false_iff_not] at h
  obtain ⟨shape', hshape, _, hfits, rfl⟩ := h
  obtain ⟨hnonempty, hdigits, hscale⟩ := operationShape_coalesce hshape
  exact ⟨⟨hnonempty, hdigits, hscale, not_lt.mp hfits⟩, hshape⟩

end

end DataNexus.Runtime
