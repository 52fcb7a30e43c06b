/-
  DataNexus.Runtime.ScalarValues — native scalars and Arrow types (`scalar_values.py`).

  `nativeScalar` is `scalar_value` with what it returns; `Domain.scalarValue` only says
  whether it returns (`nativeScalar_isOk`). A `Decimal` is its sign, coefficient and
  exponent. `Decimal`, `date.fromisoformat`, `datetime.fromisoformat` and `pa.scalar` are a
  parameter (`Libraries`), with the Unicode tables of `str.lower`.

  An Arrow decimal type carries its bounds: 1 to `maxPrecision` digits.
-/

import DataNexus.Runtime.Domain

namespace DataNexus.Runtime

open Lib

/-! ## Decimals -/

/-- A finite `decimal.Decimal`: `(-1)^sign * coefficient * 10^exponent`. -/
structure Decimal where
  negative : Bool := false
  coefficient : Nat
  exponent : Int
  deriving DecidableEq

/-- `len(str(n))`. -/
def digitCount (n : Nat) : Nat := (Nat.toDigits 10 n).length

theorem lt_pow_digitCount (n : Nat) : n < 10 ^ digitCount n :=
  (Nat.length_toDigits_le_iff (by decide) Nat.length_toDigits_pos).mp (le_refl _)

namespace Decimal

/-- Required integer digits and scale (`decimal_shape`, less its check). -/
def shape (value : Decimal) : Nat × Nat :=
  (if value.coefficient = 0 then 0 else (value.exponent + digitCount value.coefficient).toNat, (-value.exponent).toNat)

/-- The number it is. -/
def toRat (value : Decimal) : ℚ :=
  (if value.negative then -1 else 1) * value.coefficient * (10 : ℚ) ^ value.exponent

/-- A number's last digits, with zeros in front. -/
def padded (width n : Nat) : List Char :=
  List.replicate (width - digitCount n) '0' ++ Nat.toDigits 10 n

/-- `format(value, "f")`. -/
def formatFixed (value : Decimal) : String :=
  let digits :=
    if 0 ≤ value.exponent then Nat.toDigits 10 (value.coefficient * 10 ^ value.exponent.toNat)
    else
      let scale := (-value.exponent).toNat
      Nat.toDigits 10 (value.coefficient / 10 ^ scale) ++ '.' :: padded scale (value.coefficient % 10 ^ scale)
  String.ofList (if value.negative then '-' :: digits else digits)

end Decimal

/-- What `Decimal(text)` gives when it is no `InvalidOperation`. -/
inductive ParsedDecimal where
  | finite (value : Decimal)
  | special
  deriving DecidableEq

/-- `decimal_shape`. -/
def decimalShape : ParsedDecimal → Except String (Nat × Nat)
  | .special => .error "Decimal must be finite"
  | .finite value => do
    refuseIf (value.shape.1 + value.shape.2 > 38) "Decimal exceeds precision 38"
    return value.shape

/-! ## Arrow types -/

inductive TimeUnit where
  | s | ms | us | ns
  deriving DecidableEq

inductive IntegerWidth where
  | w8 | w16 | w32 | w64
  deriving DecidableEq

def IntegerWidth.bits : IntegerWidth → Nat
  | w8 => 8 | w16 => 16 | w32 => 32 | w64 => 64

/-- The most digits a decimal of the bit width holds. -/
def maxPrecision : Nat → Nat
  | 32 => 9 | 64 => 18 | 128 => 38 | 256 => 76 | _ => 0

inductive ArrowType where
  | integer (width : IntegerWidth) (unsigned : Bool)
  | floating (bitWidth : Nat)
  | decimal (bitWidth precision : Nat) (scale : Int)
      (valid : 1 ≤ precision ∧ precision ≤ maxPrecision bitWidth)
  | string
  | boolean
  | date (bitWidth : Nat)
  | timestamp (unit : TimeUnit) (tz : Option String)
  | list (item : ArrowType)
  | largeList (item : ArrowType)
  | other (name : String)
  deriving DecidableEq

structure Field where
  name : String
  type : ArrowType
  nullable : Bool := true
  deriving DecidableEq

/-- A table's schema, in column order. -/
abbrev Schema := List Field

def Schema.columnNames (schema : Schema) : List String := schema.map (·.name)

/-- `{field.name: field.type for field in schema}`. -/
def Schema.columnTypes (schema : Schema) : List (String × ArrowType) := schema.map fun field => (field.name, field.type)

/-- `schema.field(name).type`. -/
def Schema.type? (schema : Schema) (name : String) : Option ArrowType := schema.columnTypes.lookup name

/-! ## Native scalars -/

/-- `str | int | float | bool | Decimal | date | datetime | None`; a date is its days and a
    datetime its microseconds after the start of 1970. -/
inductive NativeScalar where
  | str (value : String)
  | int (value : Int)
  | float (bits : BitVec 64)
  | bool (value : Bool)
  | decimal (value : Decimal)
  | date (days : Int)
  | datetime (microseconds : Int)
  | null
  deriving DecidableEq

/-- The characters of `str.lower`: what each is lowered to, and the two properties the rule
    for a capital sigma asks about. A letter A to Z has those of its small letter. -/
structure CaseTables where
  lowered : Char → List Char
  cased : Char → Bool
  ignorable : Char → Bool
  ascii : ∀ c, lowered c.toLower = lowered c ∧ cased c.toLower = cased c ∧ ignorable c.toLower = ignorable c

/-- What the runtime asks of the standard library and of Arrow. -/
structure Libraries where
  decimal : String → Option ParsedDecimal
  dateFromIso : String → Option Int
  /-- A naive timestamp of at most six fraction digits, other than zeros. -/
  timestampFromIso : String → Option Int
  /-- `pa.scalar(value, type).as_py()`. -/
  arrowScalar : NativeScalar → ArrowType → Option NativeScalar
  caseTables : CaseTables

/-- The tables of the letters A to Z. -/
def asciiTables : CaseTables where
  lowered c := [c.toLower]
  cased c := c.toLower.isLower
  ignorable _ := false
  ascii c := by simp

/-- Libraries that parse nothing. -/
def bareLibraries : Libraries := ⟨fun _ => none, fun _ => none, fun _ => none, fun _ _ => none, asciiTables⟩

/-- The same libraries, as `Domain.scalarValue` asks them. -/
def Libraries.parsers (lib : Libraries) : ScalarParsers where
  decimalShape text := (lib.decimal text).bind fun
    | .finite value => some value.shape
    | .special => none
  dateFromIso text := (lib.dateFromIso text).isSome
  timestampFromIso text := (lib.timestampFromIso text).isSome

/-- `scalar_value`. -/
def nativeScalar (lib : Libraries) : ScalarType → ScalarValue → Except String NativeScalar
  | _, .null => .ok .null
  | .string, .str value => .ok (.str value)
  | .integer, .int value => do
    refuseIf (value < -(2 ^ 63) || value ≥ 2 ^ 63) "Literal value does not match its declared scalar type"
    return .int value
  | .float, .int value => do
    refuseIf (value.natAbs ≥ 2 ^ 1024 - 2 ^ 970) "Float value must be finite"
    return .int value
  | .float, .float bits => do
    refuseIf (!isFinite bits) "Literal value does not match its declared scalar type"
    return .float bits
  | .boolean, .bool value => .ok (.bool value)
  | .decimal, .str text =>
    match lib.decimal text with
    | none => .error "Invalid decimal literal"
    | some parsed => do
      let _ ← decimalShape parsed
      match parsed with
      | .special => .error "Decimal must be finite"
      | .finite value => return .decimal (if value.coefficient = 0 ∧ 0 < value.exponent then ⟨false, 0, 0⟩ else value)
  | .decimal, _ => .error "Exact decimal literals require strings"
  | .date, .str text =>
    match lib.dateFromIso text with
    | none => .error "Invalid date literal"
    | some days => .ok (.date days)
  | .timestamp, .str text =>
    match lib.timestampFromIso text with
    | none => .error "Invalid timestamp literal"
    | some microseconds => .ok (.datetime microseconds)
  | _, _ => .error "Literal value does not match its declared scalar type"

/-- `scalar_value` returns where `Domain.scalarValue` says so. -/
theorem nativeScalar_isOk (lib : Libraries) (type : ScalarType) (value : ScalarValue) :
    (∃ native, nativeScalar lib type value = .ok native) ↔ scalarValue lib.parsers type value = .ok () := by
  cases value with
  | null => cases type <;> simp [nativeScalar, scalarValue]
  | int value => cases type <;> simp [nativeScalar, scalarValue]
  | float bits => cases type <;> simp [nativeScalar, scalarValue]
  | bool value => cases type <;> simp [nativeScalar, scalarValue]
  | str text =>
    cases type with
    | decimal =>
      rcases hparsed : lib.decimal text with _ | _ | value
      · simp [nativeScalar, scalarValue, Libraries.parsers, hparsed]
      · simp [nativeScalar, scalarValue, Libraries.parsers, hparsed, decimalShape]
      · simp [nativeScalar, scalarValue, Libraries.parsers, hparsed, decimalShape]
    | date => cases hparsed : lib.dateFromIso text <;> simp [nativeScalar, scalarValue, Libraries.parsers, hparsed]
    | timestamp =>
      cases hparsed : lib.timestampFromIso text <;> simp [nativeScalar, scalarValue, Libraries.parsers, hparsed]
    | string | integer | float | boolean => simp [nativeScalar, scalarValue]

/-- A decimal literal that is read has at most 38 digits. -/
theorem nativeScalar_decimal {lib : Libraries} {value : ScalarValue} {native : NativeScalar}
    (h : nativeScalar lib .decimal value = .ok native) :
    native = .null ∨ ∃ d : Decimal, native = .decimal d ∧ d.shape.1 + d.shape.2 ≤ 38 := by
  cases value with
  | null =>
    cases h
    exact .inl rfl
  | str text =>
    simp only [nativeScalar] at h
    rcases hparsed : lib.decimal text with _ | value | _
    · simp [hparsed] at h
    · simp only [hparsed, decimalShape, bind_eq_ok, refuseIf_eq_ok, pure_eq_ok, decide_eq_false_iff_not] at h
      obtain ⟨_, ⟨_, hshape, _⟩, rfl⟩ := h
      refine .inr ⟨_, rfl, ?_⟩
      by_cases hzero : value.coefficient = 0 ∧ 0 < value.exponent
      · simp [hzero, Decimal.shape]
      · simpa [hzero] using hshape
    · simp [hparsed, decimalShape] at h
  | int _ | float _ | bool _ => cases h

end DataNexus.Runtime
