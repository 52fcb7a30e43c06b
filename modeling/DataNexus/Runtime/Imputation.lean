/-
  DataNexus.Runtime.Imputation — which replacements an IMPUTE takes
  (`_validate_imputation_value`).

  `Representable`: a type holds a value. It is stated on numbers (the digits before the
  point of a rational number, a whole number of units that fits in 64 bits), while the code
  slices the digits of a decimal and divides a count of microseconds.

  - `shape_digits`, `mod_eq_zero_iff`: what the digits of a decimal say about its number.
  - `imputation_lossless`: of the literals that are read, the code takes those that the
    type holds.
-/

import DataNexus.Runtime.OperatorQueries

namespace DataNexus.Runtime

open Lib

/-! ## What a type holds -/

/-- How many digits a number has before the point. -/
def wholeDigits (v : ℚ) : Nat := if |v| < 1 then 0 else digitCount ⌊|v|⌋.toNat

/-- The seconds of a unit. -/
def TimeUnit.seconds : TimeUnit → ℚ
  | s => 1 | ms => 1 / 10 ^ 3 | us => 1 / 10 ^ 6 | ns => 1 / 10 ^ 9

/-- The type holds the value: an integer in its range; a decimal with no more digits before
    the point than the type has, and none other than zero past its scale; a whole number of
    units, in 64 bits. -/
def Representable : NativeScalar → ArrowType → Prop
  | .int n, .integer width unsigned =>
    if unsigned then 0 ≤ n ∧ n < 2 ^ width.bits else -(2 ^ (width.bits - 1)) ≤ n ∧ n < 2 ^ (width.bits - 1)
  | .decimal d, .decimal _ precision scale _ =>
    (wholeDigits d.toRat : Int) ≤ precision - scale ∧ ∃ n : Int, d.toRat * 10 ^ scale = n
  | .datetime microseconds, .timestamp unit _ =>
    ∃ units : Int, units * unit.seconds = microseconds / 10 ^ 6 ∧ -(2 ^ 63) ≤ units ∧ units < 2 ^ 63
  | _, _ => False

/-- The types the check is about: integers, decimals whose scale is no negative number, and
    timestamps. -/
def ArrowType.isImputed : ArrowType → Prop
  | .integer _ _ | .timestamp _ _ => True
  | .decimal _ _ scale _ => 0 ≤ scale
  | _ => False

/-! ## Decimals -/

theorem digitCount_pos (n : Nat) : 0 < digitCount n := Nat.length_toDigits_pos

theorem digitCount_le_iff {n k : Nat} (h : 0 < k) : digitCount n ≤ k ↔ n < 10 ^ k :=
  Nat.length_toDigits_le_iff (by decide) h

theorem wholeDigits_le_iff (v : ℚ) (k : Nat) : wholeDigits v ≤ k ↔ |v| < 10 ^ k := by
  unfold wholeDigits
  split
  · rename_i hsmall
    have hone : (1 : ℚ) ≤ 10 ^ k := one_le_pow₀ (by norm_num)
    exact ⟨fun _ => lt_of_lt_of_le hsmall hone, fun _ => Nat.zero_le k⟩
  · rename_i hlarge
    have hfloor : 1 ≤ ⌊|v|⌋ := Int.le_floor.mpr (by push_cast; exact not_lt.mp hlarge)
    cases k with
    | zero =>
      have hpos := digitCount_pos ⌊|v|⌋.toNat
      constructor
      · intro h
        omega
      · intro h
        exact absurd (by simpa using h) hlarge
    | succ k =>
      rw [digitCount_le_iff (Nat.succ_pos k)]
      have hcast : ⌊|v|⌋.toNat < 10 ^ (k + 1) ↔ ⌊|v|⌋ < (10 : Int) ^ (k + 1) := by
        have htoNat : (⌊|v|⌋.toNat : Int) = ⌊|v|⌋ := Int.toNat_of_nonneg (by omega)
        rw [← htoNat]
        exact_mod_cast Iff.rfl
      rw [hcast, Int.floor_lt]
      push_cast
      rfl

theorem abs_toRat (d : Decimal) : |d.toRat| = d.coefficient * (10 : ℚ) ^ d.exponent := by
  have hpow : (0 : ℚ) < 10 ^ d.exponent := zpow_pos (by norm_num) _
  have hsign : |if d.negative then (-1 : ℚ) else 1| = 1 := by
    cases d.negative <;> simp
  rw [Decimal.toRat, abs_mul, abs_mul, hsign, one_mul, abs_of_pos hpow, Nat.abs_cast]

/-- A coefficient and an exponent, against a power of ten. -/
theorem coefficient_lt_iff {c : Nat} (hc : c ≠ 0) (e : Int) (k : Nat) :
    (c : ℚ) * 10 ^ e < 10 ^ k ↔ e + digitCount c ≤ k := by
  have hpow : (0 : ℚ) < 10 ^ e := zpow_pos (by norm_num) e
  have hsub : (10 : ℚ) ^ k / 10 ^ e = 10 ^ ((k : Int) - e) := by
    rw [← zpow_natCast, ← zpow_sub₀ (by norm_num)]
  rw [← lt_div_iff₀ hpow, hsub]
  by_cases hle : e < k
  · obtain ⟨m, hm⟩ : ∃ m : Nat, (k : Int) - e = m := ⟨((k : Int) - e).toNat, by omega⟩
    have hcast : (c : ℚ) < 10 ^ ((k : Int) - e) ↔ c < 10 ^ m := by
      rw [hm, zpow_natCast]
      exact_mod_cast Iff.rfl
    rw [hcast, ← digitCount_le_iff (by omega)]
    omega
  · have hpos := digitCount_pos c
    have hone : (10 : ℚ) ^ ((k : Int) - e) ≤ 1 := zpow_le_one_of_nonpos₀ (by norm_num) (by omega)
    have hcoefficient : (1 : ℚ) ≤ c := by exact_mod_cast Nat.one_le_iff_ne_zero.mpr hc
    constructor
    · intro h
      exact absurd h (not_lt.mpr (hone.trans hcoefficient))
    · intro h
      omega

/-- The required integer digits of a decimal are those of its number. -/
theorem shape_digits (d : Decimal) : d.shape.1 = wholeDigits d.toRat := by
  refine eq_of_forall_ge_iff fun k => ?_
  rw [wholeDigits_le_iff, abs_toRat]
  by_cases hzero : d.coefficient = 0
  · have hpow : (0 : ℚ) < 10 ^ k := by positivity
    simp [Decimal.shape, hzero, hpow]
  · rw [coefficient_lt_iff hzero]
    simp only [Decimal.shape, if_neg hzero]
    omega

/-- No digit past the scale is other than zero. -/
theorem mod_eq_zero_iff (d : Decimal) {scale : Int} (hscale : 0 ≤ scale) :
    d.coefficient % 10 ^ ((d.shape.2 : Int) - scale).toNat = 0 ↔ ∃ n : Int, d.toRat * 10 ^ scale = n := by
  have hvalue : d.toRat * 10 ^ scale =
      (if d.negative then (-1 : ℚ) else 1) * (d.coefficient * (10 : ℚ) ^ (d.exponent + scale)) := by
    rw [Decimal.toRat, zpow_add₀ (by norm_num)]
    ring
  have hsigned : (∃ n : Int, d.toRat * 10 ^ scale = n) ↔ ∃ n : Int, d.coefficient * (10 : ℚ) ^ (d.exponent + scale) = n := by
    rw [hvalue]
    cases d.negative with
    | false => simp
    | true =>
      constructor
      · rintro ⟨n, hn⟩
        exact ⟨-n, by push_cast; rw [← hn]; simp⟩
      · rintro ⟨n, hn⟩
        exact ⟨-n, by push_cast; rw [← hn]; simp⟩
  rw [hsigned]
  by_cases hwhole : 0 ≤ d.exponent + scale
  · obtain ⟨m, hm⟩ : ∃ m : Nat, d.exponent + scale = m := ⟨(d.exponent + scale).toNat, by omega⟩
    have hnone : ((d.shape.2 : Int) - scale).toNat = 0 := by
      simp only [Decimal.shape]
      omega
    rw [hnone, hm, zpow_natCast]
    refine ⟨fun _ => ⟨d.coefficient * 10 ^ m, by push_cast; rfl⟩, fun _ => by simp [Nat.mod_one]⟩
  · obtain ⟨m, hm⟩ : ∃ m : Nat, d.exponent + scale = -(m : Int) := ⟨(-(d.exponent + scale)).toNat, by omega⟩
    have hdiscarded : ((d.shape.2 : Int) - scale).toNat = m := by
      simp only [Decimal.shape]
      omega
    rw [hdiscarded, hm, zpow_neg, zpow_natCast, ← Nat.dvd_iff_mod_eq_zero]
    constructor
    · rintro ⟨q, hq⟩
      refine ⟨q, ?_⟩
      rw [hq]
      push_cast
      field_simp
    · rintro ⟨n, hn⟩
      have hproduct : (d.coefficient : ℚ) = n * 10 ^ m := by
        rw [← hn]
        field_simp
      have hproduct : (d.coefficient : Int) = n * 10 ^ m := by exact_mod_cast hproduct
      have hdvd : ((10 ^ m : Nat) : Int) ∣ (d.coefficient : Int) := ⟨n, by push_cast; rw [hproduct]; ring⟩
      exact_mod_cast hdvd

/-- A type with no more digits after the point than in all holds the numbers that a whole
    number of its digits is. -/
theorem representable_decimal_iff (d : Decimal) {bitWidth precision : Nat} {scale : Int}
    {valid : 1 ≤ precision ∧ precision ≤ maxPrecision bitWidth} (hscale : scale ≤ precision) :
    Representable (.decimal d) (.decimal bitWidth precision scale valid) ↔
      ∃ n : Int, d.toRat * 10 ^ scale = n ∧ |n| < 10 ^ precision := by
  obtain ⟨k, hk⟩ : ∃ k : Nat, (precision : Int) - scale = k := ⟨((precision : Int) - scale).toNat, by omega⟩
  have hpow : (0 : ℚ) < 10 ^ scale := zpow_pos (by norm_num) scale
  have hdigits : (wholeDigits d.toRat : Int) ≤ precision - scale ↔ |d.toRat * 10 ^ scale| < 10 ^ precision := by
    have hsplit : (10 : ℚ) ^ precision = 10 ^ k * 10 ^ scale := by
      rw [← zpow_natCast, ← zpow_natCast, ← zpow_add₀ (by norm_num)]
      congr 1
      omega
    rw [hk, Nat.cast_le, wholeDigits_le_iff, abs_mul, abs_of_pos hpow, hsplit, mul_lt_mul_iff_left₀ hpow]
  simp only [Representable, hdigits]
  constructor
  · rintro ⟨hlt, n, hn⟩
    rw [hn] at hlt
    exact ⟨n, hn, by exact_mod_cast hlt⟩
  · rintro ⟨n, hn, hlt⟩
    rw [hn]
    exact ⟨by exact_mod_cast hlt, n, rfl⟩

/-! ## The check -/

/-- A decimal that is read has a shape. -/
theorem nativeScalar_shape {lib : Libraries} {type : ScalarType} {value : ScalarValue} {d : Decimal}
    (h : nativeScalar lib type value = .ok (.decimal d)) : decimalShape (.finite d) = .ok d.shape := by
  have hdecimal : type = .decimal := by
    cases type <;> cases value <;> simp only [nativeScalar, bind_eq_ok, pure_eq_ok] at h <;> grind
  subst hdecimal
  rcases nativeScalar_decimal h with hnull | ⟨d', hd, hshape⟩
  · cases hnull
  · obtain rfl := NativeScalar.decimal.inj hd
    simp [decimalShape, refuseIf, not_lt.mpr hshape, bind, Except.bind, pure, Except.pure]

theorem integer_lossless (value : NativeScalar) (width : IntegerWidth) (unsigned : Bool) :
    validateImputationValue value (.integer width unsigned) = .ok () ↔ Representable value (.integer width unsigned) := by
  cases value with
  | int n =>
    have hbits : (2 : Int) ^ width.bits = 2 ^ (width.bits - 1) + 2 ^ (width.bits - 1) := by cases width <;> norm_num [IntegerWidth.bits]
    cases unsigned with
    | false =>
      simp [validateImputationValue, Representable]
      omega
    | true => simp [validateImputationValue, Representable]
  | _ => simp [validateImputationValue, Representable]

theorem decimal_lossless {lib : Libraries} {type : ScalarType} {literal : ScalarValue} {value : NativeScalar}
    (h : nativeScalar lib type literal = .ok value) {bitWidth precision : Nat} {scale : Int}
    {valid : 1 ≤ precision ∧ precision ≤ maxPrecision bitWidth} (hscale : 0 ≤ scale) :
    validateImputationValue value (.decimal bitWidth precision scale valid) = .ok () ↔
      Representable value (.decimal bitWidth precision scale valid) := by
  cases value with
  | decimal d =>
    have hshape := nativeScalar_shape h
    have hchecks : validateImputationValue (.decimal d) (.decimal bitWidth precision scale valid) = .ok () ↔
        (d.shape.1 : Int) ≤ precision - scale ∧ d.coefficient % 10 ^ ((d.shape.2 : Int) - scale).toNat = 0 := by
      simp [validateImputationValue, hshape, Except.mapError]
    rw [hchecks, shape_digits, mod_eq_zero_iff d hscale]
    rfl
  | _ => simp [validateImputationValue, Representable]

/-- A whole number of units. -/
theorem units_iff (unit : TimeUnit) (microseconds units : Int) :
    (units : ℚ) * unit.seconds = microseconds / 10 ^ 6 ↔
      microseconds % unit.divisor = 0 ∧ units = unit.units microseconds := by
  have hcast : ∀ a b : Int, (units : ℚ) * a = microseconds * b ↔ units * a = microseconds * b :=
    fun a b => by exact_mod_cast Iff.rfl
  cases unit with
  | s =>
    have heq : (units : ℚ) * TimeUnit.seconds .s = microseconds / 10 ^ 6 ↔ (units : ℚ) * (1000000 : Int) = microseconds * (1 : Int) := by
      simp only [TimeUnit.seconds]
      constructor <;> intro h <;> push_cast at * <;> linarith
    rw [heq, hcast]
    simp only [TimeUnit.divisor, TimeUnit.units]
    simp
    omega
  | ms =>
    have heq : (units : ℚ) * TimeUnit.seconds .ms = microseconds / 10 ^ 6 ↔ (units : ℚ) * (1000 : Int) = microseconds * (1 : Int) := by
      simp only [TimeUnit.seconds]
      constructor <;> intro h <;> push_cast at * <;> linarith
    rw [heq, hcast]
    simp only [TimeUnit.divisor, TimeUnit.units]
    simp
    omega
  | us =>
    have heq : (units : ℚ) * TimeUnit.seconds .us = microseconds / 10 ^ 6 ↔ (units : ℚ) * (1 : Int) = microseconds * (1 : Int) := by
      simp only [TimeUnit.seconds]
      constructor <;> intro h <;> push_cast at * <;> linarith
    rw [heq, hcast]
    simp only [TimeUnit.divisor, TimeUnit.units]
    simp
  | ns =>
    have heq : (units : ℚ) * TimeUnit.seconds .ns = microseconds / 10 ^ 6 ↔ (units : ℚ) * (1 : Int) = microseconds * (1000 : Int) := by
      simp only [TimeUnit.seconds]
      constructor <;> intro h <;> push_cast at * <;> linarith
    rw [heq, hcast]
    simp [TimeUnit.divisor, TimeUnit.units]

theorem timestamp_lossless (value : NativeScalar) (unit : TimeUnit) (tz : Option String) :
    validateImputationValue value (.timestamp unit tz) = .ok () ↔ Representable value (.timestamp unit tz) := by
  cases value with
  | datetime microseconds =>
    have hrepresentable : Representable (.datetime microseconds) (.timestamp unit tz) ↔
        microseconds % unit.divisor = 0 ∧ -(2 ^ 63) ≤ unit.units microseconds ∧ unit.units microseconds < 2 ^ 63 := by
      simp only [Representable, units_iff]
      constructor
      · rintro ⟨units, ⟨hwhole, rfl⟩, hfits⟩
        exact ⟨hwhole, hfits⟩
      · rintro ⟨hwhole, hfits⟩
        exact ⟨_, ⟨hwhole, rfl⟩, hfits⟩
    rw [hrepresentable]
    simp [validateImputationValue]
  | _ => simp [validateImputationValue, Representable]

/-- Of the literals that are read, the check takes those that the type holds. -/
theorem imputation_lossless {lib : Libraries} {type : ScalarType} {literal : ScalarValue} {value : NativeScalar}
    (h : nativeScalar lib type literal = .ok value) {target : ArrowType} (htarget : target.isImputed) :
    validateImputationValue value target = .ok () ↔ Representable value target := by
  cases target with
  | integer width unsigned => exact integer_lossless value width unsigned
  | decimal bitWidth precision scale valid => exact decimal_lossless h htarget
  | timestamp unit tz => exact timestamp_lossless value unit tz
  | _ => cases htarget

/-- Tenths, of three digits. -/
def tenths : ArrowType := .decimal 128 3 1 (by decide)

/-- `Decimal("1.50")`. -/
def decimalLibraries : Libraries :=
  { bareLibraries with decimal := fun text => if text = "1.50" then some (.finite ⟨false, 150, -2⟩) else none }

theorem tenths_lossless :
    validateImputationValue (.decimal ⟨false, 150, -2⟩) tenths = .ok () ↔ Representable (.decimal ⟨false, 150, -2⟩) tenths := by
  have hread : nativeScalar decimalLibraries .decimal (.str "1.50") = .ok (.decimal ⟨false, 150, -2⟩) := by decide
  have hscale : tenths.isImputed := by
    show (0 : Int) ≤ 1
    decide
  exact imputation_lossless hread hscale

end DataNexus.Runtime
