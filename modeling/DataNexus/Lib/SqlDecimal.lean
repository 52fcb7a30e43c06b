/-
  DataNexus.Lib.SqlDecimal — the exact numbers of SQL: integers of 64 bits and decimals of
  at most 38 digits. What does not fit fails; nothing wraps.

  A `DECIMAL(p, s)` holds the numbers with s digits after the point and p - s before it. A
  cast to it rounds, halves away from zero. A number that has no more digits after the point
  than the type (`OnGrid`) is kept or fails (`castDecimal_onGrid`).

  - `arithmetic_ok`: a sum, a difference, a product is the exact one or fails.
  - `readMagnitude_point`: digits around a point are read as what they are worth.
-/

import DataNexus.Lib.Outcome

namespace DataNexus.Lib

/-! ## Digits after the point -/

/-- No digit past the scale is other than zero. -/
def OnGrid (scale : ℤ) (v : ℚ) : Prop := ∃ m : ℤ, v * 10 ^ scale = m

namespace OnGrid

variable {s t : ℤ} {v w : ℚ}

theorem int (n : ℤ) : OnGrid 0 n := ⟨n, by simp⟩

theorem mono (h : OnGrid s v) (hle : s ≤ t) : OnGrid t v := by
  obtain ⟨m, hm⟩ := h
  obtain ⟨k, rfl⟩ : ∃ k : ℕ, t = s + k := ⟨(t - s).toNat, by omega⟩
  refine ⟨m * 10 ^ k, ?_⟩
  rw [zpow_add₀ (by norm_num), ← mul_assoc, hm, zpow_natCast]
  push_cast
  rfl

theorem add (hv : OnGrid s v) (hw : OnGrid s w) : OnGrid s (v + w) := by
  obtain ⟨m, hm⟩ := hv
  obtain ⟨n, hn⟩ := hw
  exact ⟨m + n, by rw [add_mul, hm, hn]; push_cast; rfl⟩

theorem sub (hv : OnGrid s v) (hw : OnGrid s w) : OnGrid s (v - w) := by
  obtain ⟨m, hm⟩ := hv
  obtain ⟨n, hn⟩ := hw
  exact ⟨m - n, by rw [sub_mul, hm, hn]; push_cast; rfl⟩

theorem mul (hv : OnGrid s v) (hw : OnGrid t w) : OnGrid (s + t) (v * w) := by
  obtain ⟨m, hm⟩ := hv
  obtain ⟨n, hn⟩ := hw
  refine ⟨m * n, ?_⟩
  rw [zpow_add₀ (by norm_num), mul_mul_mul_comm, hm, hn]
  push_cast
  rfl

end OnGrid

/-- The nearest integer; a half goes away from zero. -/
def roundHalf (v : ℚ) : ℤ := if 0 ≤ v then ⌊v + 1 / 2⌋ else -⌊1 / 2 - v⌋

theorem roundHalf_int (n : ℤ) : roundHalf n = n := by
  have hhalf : ⌊(1 / 2 : ℚ)⌋ = 0 := by norm_num
  unfold roundHalf
  split
  · rw [Int.floor_intCast_add, hhalf, add_zero]
  · rw [Int.floor_sub_intCast, hhalf, zero_sub, neg_neg]

def roundTo (scale : ℤ) (v : ℚ) : ℚ := roundHalf (v * 10 ^ scale) / 10 ^ scale

theorem roundTo_of_onGrid {scale : ℤ} {v : ℚ} (h : OnGrid scale v) : roundTo scale v = v := by
  obtain ⟨m, hm⟩ := h
  have hpow : (10 : ℚ) ^ scale ≠ 0 := zpow_ne_zero _ (by norm_num)
  rw [roundTo, hm, roundHalf_int, ← hm, mul_div_cancel_right₀ _ hpow]

/-! ## Casts -/

inductive SqlFailure where
  /-- A number that the type it is cast to does not hold. -/
  | cast
  /-- A result beyond 64 bits or 38 digits. -/
  | overflow
  /-- Something other than a number, or than arithmetic. -/
  | unsupported
  deriving DecidableEq

/-- `CAST(v AS DECIMAL(precision, scale))`. -/
def castDecimal (precision scale : ℤ) (v : ℚ) : Except SqlFailure ℚ := do
  let rounded := roundTo scale v
  refuseIf (10 ^ (precision - scale) ≤ |rounded|) .cast
  return rounded

theorem castDecimal_onGrid {precision scale : ℤ} {v w : ℚ} (hv : OnGrid scale v)
    (h : castDecimal precision scale v = .ok w) : w = v := by
  simp only [castDecimal, bind_eq_ok, pure_eq_ok] at h
  obtain ⟨_, -, rfl⟩ := h
  exact roundTo_of_onGrid hv

theorem castDecimal_fits {precision scale : ℤ} {v : ℚ} (hv : OnGrid scale v) (hfits : |v| < 10 ^ (precision - scale)) :
    castDecimal precision scale v = .ok v := by
  have hrounded := roundTo_of_onGrid hv
  simp [castDecimal, hrounded, refuseIf, not_le.mpr hfits, bind, Except.bind, pure, Except.pure]

/-! ## Numbers -/

inductive SqlNumber where
  | integer (value : ℤ) (unsigned : Bool)
  | decimal (value : ℚ) (scale : ℤ)
  deriving DecidableEq

namespace SqlNumber

def toRat : SqlNumber → ℚ
  | integer value _ => value
  | decimal value _ => value

def scale : SqlNumber → ℤ
  | integer .. => 0
  | decimal _ scale => scale

end SqlNumber

/-- Whether 64 bits hold it. -/
def inRange (unsigned : Bool) (n : ℤ) : Bool :=
  if unsigned then 0 ≤ n && n < 2 ^ 64 else -(2 ^ 63) ≤ n && n < 2 ^ 63

def integerResult (unsigned : Bool) (n : ℤ) : Except SqlFailure SqlNumber := do
  refuseIf (!inRange unsigned n) .overflow
  return .integer n unsigned

def decimalResult (v : ℚ) (scale : ℤ) : Except SqlFailure SqlNumber := do
  refuseIf (10 ^ 38 ≤ |v * 10 ^ scale|) .overflow
  return .decimal v scale

inductive ArithmeticOperator where
  | add | subtract | multiply
  deriving DecidableEq

def ArithmeticOperator.apply {R : Type} [Ring R] : ArithmeticOperator → R → R → R
  | add, x, y => x + y
  | subtract, x, y => x - y
  | multiply, x, y => x * y

/-- `+` and `-` over the common scale of the operands, which are raised to it; `*` over the
    sum of their scales. -/
def decimalArithmetic (op : ArithmeticOperator) (x y : SqlNumber) : Except SqlFailure SqlNumber :=
  if op = .multiply then decimalResult (x.toRat * y.toRat) (x.scale + y.scale)
  else do
    let scale := max x.scale y.scale
    let _ ← decimalResult x.toRat scale
    let _ ← decimalResult y.toRat scale
    decimalResult (op.apply x.toRat y.toRat) scale

def arithmetic (op : ArithmeticOperator) : SqlNumber → SqlNumber → Except SqlFailure SqlNumber
  | .integer m u, .integer n v => integerResult (u && v) (op.apply m n)
  | x, y => decimalArithmetic op x y

theorem apply_intCast (op : ArithmeticOperator) (m n : ℤ) : op.apply (m : ℚ) (n : ℚ) = (op.apply m n : ℤ) := by
  cases op <;> simp [ArithmeticOperator.apply]

/-- A sum or a difference over a common scale keeps it; a product has the sum of the scales. -/
theorem OnGrid.apply {op : ArithmeticOperator} {s t u : ℤ} {v w : ℚ} (hv : OnGrid s v) (hw : OnGrid t w)
    (hu : if op = .multiply then u = s + t else s = u ∧ t = u) : OnGrid u (op.apply v w) := by
  cases op with
  | add =>
    obtain ⟨rfl, rfl⟩ := hu
    exact hv.add hw
  | subtract =>
    obtain ⟨rfl, rfl⟩ := hu
    exact hv.sub hw
  | multiply =>
    obtain rfl := hu
    exact hv.mul hw

theorem integerResult_ok {unsigned : Bool} {n : ℤ} {z : SqlNumber} (h : integerResult unsigned n = .ok z) :
    z = .integer n unsigned ∧ inRange unsigned n = true := by
  simp only [integerResult, bind_eq_ok, refuseIf_eq_ok, pure_eq_ok, Bool.not_eq_false'] at h
  obtain ⟨_, hrange, rfl⟩ := h
  exact ⟨rfl, hrange⟩

theorem decimalResult_ok {v : ℚ} {scale : ℤ} {z : SqlNumber} (h : decimalResult v scale = .ok z) : z = .decimal v scale := by
  simp only [decimalResult, bind_eq_ok, pure_eq_ok] at h
  obtain ⟨_, -, rfl⟩ := h
  rfl

theorem decimalArithmetic_ok {op : ArithmeticOperator} {x y z : SqlNumber} (h : decimalArithmetic op x y = .ok z) :
    z.toRat = op.apply x.toRat y.toRat := by
  unfold decimalArithmetic at h
  split at h
  · rename_i hop
    subst hop
    rw [decimalResult_ok h]
    rfl
  · simp only [bind_eq_ok] at h
    obtain ⟨_, -, _, -, h⟩ := h
    rw [decimalResult_ok h]
    rfl

/-- Arithmetic is exact or fails. -/
theorem arithmetic_ok {op : ArithmeticOperator} {x y z : SqlNumber} (h : arithmetic op x y = .ok z) :
    z.toRat = op.apply x.toRat y.toRat := by
  unfold arithmetic at h
  split at h
  · rw [(integerResult_ok h).1]
    exact (apply_intCast _ _ _).symm
  · exact decimalArithmetic_ok h

theorem integerResult_not_cast (unsigned : Bool) (n : ℤ) : integerResult unsigned n ≠ .error .cast := by
  intro h
  simp only [integerResult, bind_eq_error, refuseIf_eq_error] at h
  obtain ⟨-, h⟩ | ⟨_, -, h⟩ := h
  · cases h
  · cases h

theorem decimalResult_not_cast (v : ℚ) (scale : ℤ) : decimalResult v scale ≠ .error .cast := by
  intro h
  simp only [decimalResult, bind_eq_error, refuseIf_eq_error] at h
  obtain ⟨-, h⟩ | ⟨_, -, h⟩ := h
  · cases h
  · cases h

/-- What fails in arithmetic is no cast. -/
theorem arithmetic_not_cast (op : ArithmeticOperator) (x y : SqlNumber) : arithmetic op x y ≠ .error .cast := by
  unfold arithmetic
  split
  · exact integerResult_not_cast _ _
  · unfold decimalArithmetic
    split
    · exact decimalResult_not_cast _ _
    · intro h
      simp only [bind_eq_error] at h
      obtain h | ⟨_, -, h | ⟨_, -, h⟩⟩ := h
      · exact decimalResult_not_cast _ _ h
      · exact decimalResult_not_cast _ _ h
      · exact decimalResult_not_cast _ _ h

/-! ## Powers of ten -/

section

variable {v w : ℚ} {a b : ℤ}

theorem abs_lt_pow_mono (h : |v| < 10 ^ a) (hle : a ≤ b) : |v| < 10 ^ b :=
  h.trans_le (zpow_le_zpow_right₀ (by norm_num) hle)

/-- A sum or a difference has at most one digit more than its operands. -/
theorem abs_apply_lt {op : ArithmeticOperator} (hop : op ≠ .multiply) (hv : |v| < 10 ^ a) (hw : |w| < 10 ^ a) :
    |op.apply v w| < 10 ^ (a + 1) := by
  have hpow : (0 : ℚ) < 10 ^ a := zpow_pos (by norm_num) a
  have hsum : |op.apply v w| ≤ |v| + |w| := by
    cases op with
    | add => exact abs_add_le v w
    | subtract => exact abs_sub v w
    | multiply => exact (hop rfl).elim
  calc |op.apply v w| ≤ |v| + |w| := hsum
    _ < 10 ^ a + 10 ^ a := add_lt_add hv hw
    _ ≤ 10 ^ a * 10 := by linarith
    _ = 10 ^ (a + 1) := by rw [zpow_add₀ (by norm_num), zpow_one]

/-- A product has at most the digits of both. -/
theorem abs_mul_lt (hv : |v| < 10 ^ a) (hw : |w| < 10 ^ b) : |v * w| < 10 ^ (a + b) := by
  rw [abs_mul, zpow_add₀ (by norm_num)]
  exact mul_lt_mul'' hv hw (abs_nonneg v) (abs_nonneg w)

end

/-! ## Numbers written with a point -/

/-- `digits` or `digits.digits`. -/
def readMagnitude (cs : List Char) : Option ℚ :=
  let whole := cs.takeWhile Char.isDigit
  let rest := cs.dropWhile Char.isDigit
  if rest = [] then some (Nat.ofDigitChars 10 whole 0)
  else if rest.head? = some '.' ∧ rest.tail.all Char.isDigit = true then
    some (Nat.ofDigitChars 10 (whole ++ rest.tail) 0 / 10 ^ rest.tail.length)
  else none

/-- The same after a sign. -/
def readFixed (text : String) : Option ℚ :=
  if text.toList.head? = some '-' then (readMagnitude text.toList.tail).map (-·) else readMagnitude text.toList

section

variable {whole fraction : List Char}

theorem readMagnitude_whole (hwhole : ∀ c ∈ whole, c.isDigit = true) :
    readMagnitude whole = some (Nat.ofDigitChars 10 whole 0 : ℚ) := by
  have htake : whole.takeWhile Char.isDigit = whole := List.takeWhile_eq_self_iff.mpr hwhole
  have hdrop : whole.dropWhile Char.isDigit = [] := List.dropWhile_eq_nil_iff.mpr hwhole
  simp only [readMagnitude, htake, hdrop, if_true]

theorem readMagnitude_point (hwhole : ∀ c ∈ whole, c.isDigit = true) (hfraction : ∀ c ∈ fraction, c.isDigit = true) :
    readMagnitude (whole ++ '.' :: fraction) =
      some ((Nat.ofDigitChars 10 (whole ++ fraction) 0 : ℚ) / 10 ^ fraction.length) := by
  have htake : (whole ++ '.' :: fraction).takeWhile Char.isDigit = whole := by
    rw [List.takeWhile_append_of_pos hwhole, List.takeWhile_cons_of_neg (by decide), List.append_nil]
  have hdrop : (whole ++ '.' :: fraction).dropWhile Char.isDigit = '.' :: fraction := by
    rw [List.dropWhile_append_of_pos hwhole, List.dropWhile_cons_of_neg (by decide)]
  have hall : fraction.all Char.isDigit = true := List.all_eq_true.mpr hfraction
  simp [readMagnitude, htake, hdrop, hall]

end

end DataNexus.Lib
