/-
  DataNexus.Lib.Double — binary64 numbers by what they are worth, and decimals read as them.

  `nearestDouble` takes a rational to the nearest number with 53 bits and an exponent from
  -1074 on, a half to the even one; from 2 ^ 1024 on a reader says infinity. A number that is a
  double already stays (`nearestDouble_self`), which is all that writing one down and reading
  it back rests on. `Shortest` is how an engine chooses the digits it writes a double with:
  the standard asks that they read back as the double, and leaves the last one open.

  - `Shortest.nearest`: an engine that takes the first number of digits that is enough.
-/

import Mathlib

namespace DataNexus.Lib

/-! ## Rounding -/

/-- To the nearest integer, a half to the even one. -/
def roundHalfEven (q : ℚ) : ℤ :=
  if q - ⌊q⌋ < 1 / 2 then ⌊q⌋
  else if 1 / 2 < q - ⌊q⌋ then ⌊q⌋ + 1
  else if ⌊q⌋ % 2 = 0 then ⌊q⌋ else ⌊q⌋ + 1

@[simp] theorem roundHalfEven_intCast (n : ℤ) : roundHalfEven n = n := by
  simp [roundHalfEven]

theorem roundHalfEven_floor (q : ℚ) : roundHalfEven q = ⌊q⌋ ∨ roundHalfEven q = ⌊q⌋ + 1 := by
  unfold roundHalfEven
  split_ifs <;> simp

theorem le_roundHalfEven {n : ℤ} {q : ℚ} (h : (n : ℚ) ≤ q) : n ≤ roundHalfEven q := by
  have hfloor : n ≤ ⌊q⌋ := Int.le_floor.mpr h
  rcases roundHalfEven_floor q with hround | hround
  · omega
  · omega

theorem roundHalfEven_le {n : ℤ} {q : ℚ} (h : q ≤ n) : roundHalfEven q ≤ n := by
  rcases h.lt_or_eq with hlt | heq
  · have hfloor : ⌊q⌋ < n := Int.floor_lt.mpr hlt
    rcases roundHalfEven_floor q with hround | hround
    · omega
    · omega
  · rw [heq, roundHalfEven_intCast]

/-! ## Doubles -/

/-- A finite double: 53 bits at most, at an exponent from -1074 on, under 2 ^ 1024. -/
def IsDouble (q : ℚ) : Prop :=
  |q| < 2 ^ (1024 : ℤ) ∧ ∃ m e : ℤ, |m| ≤ 2 ^ 53 ∧ -1074 ≤ e ∧ q = m * 2 ^ e

theorem isDouble_zero : IsDouble 0 := ⟨by positivity, 0, 0, by simp, by simp, by simp⟩

theorem IsDouble.neg {q : ℚ} (h : IsDouble q) : IsDouble (-q) := by
  obtain ⟨hbound, m, e, hm, he, rfl⟩ := h
  exact ⟨by rwa [abs_neg], -m, e, by rwa [abs_neg], he, by push_cast; ring⟩

/-- The exponent of the last bit that a number of this size keeps. -/
def lastBit (q : ℚ) : ℤ := max (-1074) (Int.log 2 q - 52)

theorem lt_two_pow_lastBit (q : ℚ) : q < 2 ^ (53 : ℤ) * 2 ^ lastBit q := by
  have hlog : q < ((2 : ℕ) : ℚ) ^ (Int.log 2 q + 1) := Int.lt_zpow_succ_log_self (by norm_num) q
  calc q < ((2 : ℕ) : ℚ) ^ (Int.log 2 q + 1) := hlog
    _ ≤ 2 ^ (53 + lastBit q) := by
      push_cast
      refine zpow_le_zpow_right₀ (by norm_num) ?_
      unfold lastBit
      omega
    _ = 2 ^ (53 : ℤ) * 2 ^ lastBit q := zpow_add₀ (by norm_num) _ _

/-- Where its last bit is, a positive double is a whole number. -/
theorem IsDouble.whole {q : ℚ} (h : IsDouble q) (hpos : 0 < q) : ∃ n : ℤ, q = n * 2 ^ lastBit q := by
  obtain ⟨-, m, e, hm, he, hq⟩ := h
  rcases le_or_gt (lastBit q) e with hle | hgt
  · refine ⟨m * 2 ^ (e - lastBit q).toNat, ?_⟩
    have hexp : ((e - lastBit q).toNat : ℤ) + lastBit q = e := by omega
    calc q = m * 2 ^ e := hq
      _ = m * (2 ^ ((e - lastBit q).toNat : ℤ) * 2 ^ lastBit q) := by rw [← zpow_add₀ (by norm_num), hexp]
      _ = ((m * 2 ^ (e - lastBit q).toNat : ℤ) : ℚ) * 2 ^ lastBit q := by push_cast; rw [zpow_natCast]; ring
  · -- the exponent is smaller only where the bits are one and 53 zeros
    have hlast : lastBit q = Int.log 2 q - 52 := by
      unfold lastBit at hgt ⊢
      omega
    have hlow : (2 : ℚ) ^ (52 : ℤ) * 2 ^ lastBit q ≤ q := by
      have hlog : ((2 : ℕ) : ℚ) ^ Int.log 2 q ≤ q := Int.zpow_log_le_self (by norm_num) hpos
      rw [← zpow_add₀ (by norm_num), hlast]
      simpa using hlog
    have hhigh : q ≤ 2 ^ (52 : ℤ) * 2 ^ lastBit q := by
      have hmq : (m : ℚ) ≤ 2 ^ (53 : ℤ) := by
        have : m ≤ 2 ^ 53 := (le_abs_self m).trans hm
        exact_mod_cast this
      calc q = m * 2 ^ e := hq
        _ ≤ 2 ^ (53 : ℤ) * 2 ^ (lastBit q - 1) := by
          refine mul_le_mul hmq (zpow_le_zpow_right₀ (by norm_num) (by omega)) (by positivity) (by positivity)
        _ = 2 ^ (52 : ℤ) * 2 ^ lastBit q := by
          rw [← zpow_add₀ (by norm_num), ← zpow_add₀ (by norm_num)]
          congr 1
          ring
    refine ⟨2 ^ 52, ?_⟩
    have heq := le_antisymm hhigh hlow
    calc q = 2 ^ (52 : ℤ) * 2 ^ lastBit q := heq
      _ = ((2 ^ 52 : ℤ) : ℚ) * 2 ^ lastBit q := by norm_num

/-- The nearest double of a rational that is not negative, before the bound. -/
def nearestDouble (q : ℚ) : ℚ := roundHalfEven (q / 2 ^ lastBit q) * 2 ^ lastBit q

theorem nearestDouble_self {q : ℚ} (h : IsDouble q) (hpos : 0 < q) : nearestDouble q = q := by
  obtain ⟨n, hn⟩ := h.whole hpos
  have hdiv : q / 2 ^ lastBit q = n := by
    rw [div_eq_iff (by positivity)]
    exact hn
  rw [nearestDouble, hdiv, roundHalfEven_intCast]
  exact hn.symm

@[simp] theorem nearestDouble_zero : nearestDouble 0 = 0 := by
  simp [nearestDouble, roundHalfEven]

theorem nearestDouble_nonneg {q : ℚ} (h : 0 ≤ q) : 0 ≤ nearestDouble q := by
  have hround : (0 : ℤ) ≤ roundHalfEven (q / 2 ^ lastBit q) := le_roundHalfEven (by push_cast; positivity)
  have : (0 : ℚ) ≤ (roundHalfEven (q / 2 ^ lastBit q) : ℤ) := by exact_mod_cast hround
  unfold nearestDouble
  positivity

theorem nearestDouble_isDouble {q : ℚ} (h : 0 ≤ q) (hbound : nearestDouble q < 2 ^ (1024 : ℤ)) :
    IsDouble (nearestDouble q) := by
  refine ⟨by rwa [abs_of_nonneg (nearestDouble_nonneg h)], roundHalfEven (q / 2 ^ lastBit q), lastBit q,
    ?_, le_max_left _ _, rfl⟩
  have hlow : (0 : ℤ) ≤ roundHalfEven (q / 2 ^ lastBit q) := le_roundHalfEven (by push_cast; positivity)
  have hhigh : roundHalfEven (q / 2 ^ lastBit q) ≤ 2 ^ 53 := by
    refine roundHalfEven_le ?_
    rw [div_le_iff₀ (by positivity)]
    have := lt_two_pow_lastBit q
    push_cast
    exact_mod_cast this.le
  rwa [abs_of_nonneg hlow]

/-- A number of the language; what is not a number is not written in its texts. -/
inductive Number where
  | finite (value : ℚ) (isDouble : IsDouble value)
  | negativeZero
  | infinite (negative : Bool)
  deriving DecidableEq

namespace Number

def zero : Number := .finite 0 isDouble_zero

def IsFinite : Number → Prop
  | .infinite _ => False
  | _ => True

instance : DecidablePred IsFinite
  | .infinite _ => .isFalse id
  | .finite _ _ | .negativeZero => .isTrue trivial

/-- What a number is worth, where that is a rational. -/
def worth : Number → Option ℚ
  | .finite value _ => some value
  | .negativeZero => some 0
  | .infinite _ => none

/-- The number as `JSON.stringify` writes it: zero has no sign. -/
def plainZero : Number → Number
  | .negativeZero => zero
  | n => n

@[simp] theorem plainZero_worth (n : Number) : n.plainZero.worth = n.worth := by
  cases n <;> rfl

/-- The number that a sign and a decimal are read as. -/
def ofDecimal (negative : Bool) (magnitude : ℚ) : Number :=
  if h : 0 < nearestDouble magnitude ∧ 0 ≤ magnitude then
    if hbound : nearestDouble magnitude < 2 ^ (1024 : ℤ) then
      match negative with
      | false => .finite (nearestDouble magnitude) (nearestDouble_isDouble h.2 hbound)
      | true => .finite (-nearestDouble magnitude) (nearestDouble_isDouble h.2 hbound).neg
    else .infinite negative
  else if negative then .negativeZero else zero

theorem ofDecimal_finite {magnitude : ℚ} {value : ℚ} (isDouble : IsDouble value) (hm : 0 ≤ magnitude)
    (hpos : 0 < value) (hnear : nearestDouble magnitude = value) :
    ofDecimal false magnitude = .finite value isDouble := by
  have hbound : value < 2 ^ (1024 : ℤ) := (le_abs_self value).trans_lt isDouble.1
  simp only [ofDecimal, hnear, hpos, hm, and_self, ↓reduceDIte, hbound]

theorem ofDecimal_negative {magnitude : ℚ} {value : ℚ} (isDouble : IsDouble value) (hm : 0 ≤ magnitude)
    (hneg : value < 0) (hnear : nearestDouble magnitude = -value) :
    ofDecimal true magnitude = .finite value isDouble := by
  have hpos : 0 < -value := by linarith
  have hbound : -value < 2 ^ (1024 : ℤ) := (neg_le_abs value).trans_lt isDouble.1
  simp only [ofDecimal, hnear, hpos, hm, and_self, ↓reduceDIte, hbound, neg_neg]

theorem ofDecimal_zero : ofDecimal false 0 = zero := by simp [ofDecimal]

end Number

/-! ## Digits -/

/-- How an engine writes positive doubles: as digits with the point after the first `point` of
    them, which are to read back as the double. -/
structure Shortest where
  digits : ℚ → ℕ
  point : ℚ → ℤ
  digits_pos : ∀ x, IsDouble x → 0 < x → 0 < digits x
  reads : ∀ x, IsDouble x → 0 < x →
    nearestDouble (digits x * 10 ^ (point x - (Nat.digits 10 (digits x)).length)) = x

namespace Shortest

/-- The digits that so many of them allow to be closest. -/
def candidate (x : ℚ) (count : ℕ) : ℕ := (roundHalfEven (x / 10 ^ (Int.log 10 x + 1 - count))).toNat

def Enough (x : ℚ) (count : ℕ) : Prop :=
  (Nat.digits 10 (candidate x count)).length = count ∧ 0 < candidate x count ∧
    nearestDouble (candidate x count * 10 ^ (Int.log 10 x + 1 - count)) = x

instance (x : ℚ) (count : ℕ) : Decidable (Enough x count) := by
  unfold Enough
  infer_instance

/-- A double is a decimal of fewer than 800 digits. -/
theorem decimal_of_isDouble {x : ℚ} (h : IsDouble x) (hpos : 0 < x) :
    ∃ (s : ℕ) (j : ℤ), 0 < s ∧ s < 10 ^ 799 ∧ x = s * 10 ^ j := by
  obtain ⟨hbound, m, e, hm, he, hx⟩ := h
  have hmpos : 0 < m := by
    have hmq : (0 : ℚ) < m := by
      have hpow : (0 : ℚ) < 2 ^ e := by positivity
      rw [hx] at hpos
      exact (mul_pos_iff_of_pos_right hpow).mp hpos
    exact_mod_cast hmq
  have hmnat : 0 < m.toNat := by omega
  have hmle : m.toNat ≤ 2 ^ 53 := by
    rw [abs_of_pos hmpos] at hm
    omega
  have hmcast : ((m.toNat : ℕ) : ℚ) = (m : ℚ) := by
    have : ((m.toNat : ℕ) : ℤ) = m := Int.toNat_of_nonneg hmpos.le
    exact_mod_cast this
  rcases le_or_gt 0 e with hnonneg | hneg
  · -- a whole number
    refine ⟨m.toNat * 2 ^ e.toNat, 0, by positivity, ?_, ?_⟩
    · have hvalue : ((m.toNat * 2 ^ e.toNat : ℕ) : ℚ) = x := by
        have hexp : ((e.toNat : ℕ) : ℤ) = e := Int.toNat_of_nonneg hnonneg
        push_cast
        rw [hmcast, hx, ← zpow_natCast, hexp]
      have hlt : ((m.toNat * 2 ^ e.toNat : ℕ) : ℚ) < ((2 ^ 1024 : ℕ) : ℚ) := by
        rw [hvalue]
        rw [Nat.cast_pow, Nat.cast_ofNat, ← zpow_natCast]
        exact (le_abs_self x).trans_lt hbound
      have hnat : m.toNat * 2 ^ e.toNat < 2 ^ 1024 := by exact_mod_cast hlt
      exact hnat.trans (by decide +kernel)
    · have hexp : ((e.toNat : ℕ) : ℤ) = e := Int.toNat_of_nonneg hnonneg
      push_cast
      rw [hmcast, hx, ← zpow_natCast, hexp]
      simp
  · -- a half is five tenths
    obtain ⟨k, rfl⟩ : ∃ k : ℕ, e = -(k : ℤ) := ⟨e.natAbs, by omega⟩
    refine ⟨m.toNat * 5 ^ k, -k, by positivity, ?_, ?_⟩
    · have hk : k ≤ 1074 := by omega
      calc m.toNat * 5 ^ k ≤ 2 ^ 53 * 5 ^ 1074 := Nat.mul_le_mul hmle (Nat.pow_le_pow_right (by norm_num) hk)
        _ < 10 ^ 799 := by decide +kernel
    · push_cast
      rw [hmcast, hx, zpow_neg, zpow_neg, zpow_natCast, zpow_natCast,
        show (10 : ℚ) = 2 * 5 by norm_num, mul_pow]
      field_simp

theorem enough_of_isDouble {x : ℚ} (h : IsDouble x) (hpos : 0 < x) : ∃ count < 800, Enough x count := by
  obtain ⟨s, j, hs, hbound, hx⟩ := decimal_of_isDouble h hpos
  set count := (Nat.digits 10 s).length with hcount
  have hlow : 10 ^ (count - 1) ≤ s := by
    rw [hcount, Nat.length_digits 10 s (by norm_num) hs.ne']
    exact Nat.pow_log_le_self 10 hs.ne'
  have hhigh : s < 10 ^ count := Nat.lt_base_pow_length_digits (by norm_num)
  have hcountpos : 0 < count := by
    rw [hcount, Nat.length_digits 10 s (by norm_num) hs.ne']
    omega
  have hlog : Int.log 10 x = count - 1 + j := by
    have hle : (count - 1 + j : ℤ) ≤ Int.log 10 x := by
      rw [← Int.zpow_le_iff_le_log (by norm_num) hpos, hx, zpow_add₀ (by norm_num)]
      have hcast : ((10 : ℕ) : ℚ) ^ ((count : ℤ) - 1) ≤ s := by
        have hexp : ((count : ℤ) - 1) = ((count - 1 : ℕ) : ℤ) := by omega
        rw [hexp, zpow_natCast]
        exact_mod_cast hlow
      push_cast at hcast ⊢
      exact mul_le_mul_of_nonneg_right hcast (by positivity)
    have hlt : Int.log 10 x < count + j := by
      rw [← Int.lt_zpow_iff_log_lt (by norm_num) hpos, hx, zpow_add₀ (by norm_num), zpow_natCast]
      have hcast : (s : ℚ) < ((10 : ℕ) : ℚ) ^ count := by exact_mod_cast hhigh
      push_cast at hcast ⊢
      exact mul_lt_mul_of_pos_right hcast (by positivity)
    omega
  have hexp : Int.log 10 x + 1 - count = j := by omega
  have hcandidate : candidate x count = s := by
    have hdiv : x / 10 ^ j = ((s : ℤ) : ℚ) := by
      rw [hx, mul_div_assoc, div_self (by positivity), mul_one]
      push_cast
      rfl
    rw [candidate, hexp, hdiv, roundHalfEven_intCast, Int.toNat_natCast]
  refine ⟨count, ?_, ?_, ?_, ?_⟩
  · by_contra hge
    exact absurd ((Nat.pow_le_pow_right (by norm_num) (by omega)).trans hlow) (not_le.mpr hbound)
  · rw [hcandidate]
  · rw [hcandidate]
    exact hs
  · rw [hcandidate, hexp, ← hx]
    exact nearestDouble_self h hpos

/-- How many digits are enough. -/
def count (x : ℚ) : ℕ := ((List.range 800).find? (fun count => decide (Enough x count))).getD 0

theorem enough_count {x : ℚ} (h : IsDouble x) (hpos : 0 < x) : Enough x (count x) := by
  obtain ⟨k, hk, henough⟩ := enough_of_isDouble h hpos
  cases hfind : (List.range 800).find? (fun count => decide (Enough x count)) with
  | none =>
    have hnone := List.find?_eq_none.mp hfind k (List.mem_range.mpr hk)
    exact absurd henough (by simpa using hnone)
  | some k' =>
    have hsome := List.find?_some hfind
    rw [count, hfind]
    simpa using hsome

/-- The first number of digits that is enough, and the closest digits of that number. -/
def nearest : Shortest where
  digits x := candidate x (count x)
  point x := Int.log 10 x + 1
  digits_pos _ h hpos := (enough_count h hpos).2.1
  reads x h hpos := by
    have henough := enough_count h hpos
    rw [henough.1]
    exact henough.2.2

end Shortest

example : (Shortest.nearest.digits (1 / 8), Shortest.nearest.point (1 / 8)) = (125, 0) := by decide +kernel

end DataNexus.Lib
