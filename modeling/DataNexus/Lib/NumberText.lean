/-
  DataNexus.Lib.NumberText — numbers written in JSON texts and read from them.

  A text is a list of UTF-16 code units. A numeral is what the number grammar of JSON takes
  apart: a sign, digits before and after the point, a power of ten. `jsNumeral` lays the digits
  of a positive double out as `Number::toString` does, in one of four ways by where the point
  falls; `magnitude_jsNumeral` says that all four are worth the same.

  - `readNumeral_text`: a numeral is read back where it was written.
  - `readNumber_text`: so is a finite number, but for the sign of zero.
-/

import DataNexus.Lib.Double

namespace DataNexus.Lib

/-! ## Digits -/

/-- The code unit of an ASCII character. -/
def unit (c : Char) : UInt16 := UInt16.ofNat c.toNat

def isDigit (u : UInt16) : Bool := 48 ≤ u.toNat && u.toNat ≤ 57

def digitUnit (d : ℕ) : UInt16 := UInt16.ofNat (48 + d)

def digitValue (u : UInt16) : ℕ := u.toNat - 48

theorem digitUnit_toNat {d : ℕ} (h : d < 10) : (digitUnit d).toNat = 48 + d := by
  have : 48 + d < 65536 := by omega
  simp [digitUnit, UInt16.toNat_ofNat', Nat.mod_eq_of_lt this]

theorem isDigit_digitUnit {d : ℕ} (h : d < 10) : isDigit (digitUnit d) = true := by
  simp only [isDigit, digitUnit_toNat h, Bool.and_eq_true, decide_eq_true_eq]
  omega

theorem digitValue_digitUnit {d : ℕ} (h : d < 10) : digitValue (digitUnit d) = d := by
  rw [digitValue, digitUnit_toNat h]
  omega

/-- Digits only. -/
def AreDigits (ds : List ℕ) : Prop := ∀ d ∈ ds, d < 10

theorem AreDigits.append {ds es : List ℕ} (hd : AreDigits ds) (he : AreDigits es) : AreDigits (ds ++ es) := by
  intro d hmem
  rcases List.mem_append.mp hmem with h | h
  · exact hd d h
  · exact he d h

theorem AreDigits.sublist {ds es : List ℕ} (hd : AreDigits ds) (h : es.Sublist ds) : AreDigits es :=
  fun d hmem => hd d (h.subset hmem)

theorem areDigits_zeros (n : ℕ) : AreDigits (List.replicate n 0) := by
  intro d hmem
  rw [List.eq_of_mem_replicate hmem]
  norm_num

def digitsText (ds : List ℕ) : List UInt16 := ds.map digitUnit

/-- The digits at the front of a text, and the rest of it. -/
def takeDigits (text : List UInt16) : List ℕ × List UInt16 :=
  ((text.takeWhile isDigit).map digitValue, text.dropWhile isDigit)

/-- The text does not go on with a digit. -/
def NoDigit (rest : List UInt16) : Prop := ∀ u ∈ rest.head?, isDigit u = false

theorem takeDigits_text {ds : List ℕ} (hd : AreDigits ds) {rest : List UInt16} (hrest : NoDigit rest) :
    takeDigits (digitsText ds ++ rest) = (ds, rest) := by
  induction ds with
  | nil =>
    cases rest with
    | nil => rfl
    | cons u rest =>
      have hu : isDigit u = false := hrest u rfl
      simp [takeDigits, digitsText, hu]
  | cons d ds ih =>
    have hlt : d < 10 := hd d (by simp)
    have htail : AreDigits ds := fun e he => hd e (by simp [he])
    have ih := ih htail
    simp only [takeDigits, Prod.mk.injEq, digitsText] at ih
    simp only [takeDigits, digitsText, List.map_cons, List.cons_append,
      List.takeWhile_cons_of_pos (isDigit_digitUnit hlt), List.dropWhile_cons_of_pos (isDigit_digitUnit hlt),
      digitValue_digitUnit hlt, ih.1, ih.2]

/-! ## What digits are worth -/

def decimalValue (ds : List ℕ) : ℕ := Nat.ofDigits 10 ds.reverse

theorem decimalValue_append (ds es : List ℕ) :
    decimalValue (ds ++ es) = decimalValue ds * 10 ^ es.length + decimalValue es := by
  simp only [decimalValue, List.reverse_append, Nat.ofDigits_append, List.length_reverse]
  ring

@[simp] theorem decimalValue_zeros (n : ℕ) : decimalValue (List.replicate n 0) = 0 := by
  simp [decimalValue, List.reverse_replicate, Nat.ofDigits_replicate_zero]

@[simp] theorem decimalValue_zero : decimalValue [0] = 0 := rfl

/-- The digits of a number, the first one first. -/
def digitsOf (n : ℕ) : List ℕ := (Nat.digits 10 n).reverse

@[simp] theorem decimalValue_digitsOf (n : ℕ) : decimalValue (digitsOf n) = n := by
  simp [decimalValue, digitsOf, Nat.ofDigits_digits]

theorem areDigits_digitsOf (n : ℕ) : AreDigits (digitsOf n) := by
  intro d hmem
  exact Nat.digits_lt_base (by norm_num) (List.mem_reverse.mp hmem)

theorem digitsOf_ne_nil {n : ℕ} (h : 0 < n) : digitsOf n ≠ [] := by
  rw [digitsOf, ne_eq, List.reverse_eq_nil_iff]
  exact Nat.digits_ne_nil_iff_ne_zero.mpr h.ne'

/-- The first digit of a positive number is not zero. -/
theorem digitsOf_head {n : ℕ} (h : 0 < n) : (digitsOf n).head? ≠ some 0 := by
  have hlast := Nat.getLast_digit_ne_zero 10 h.ne'
  rw [digitsOf, List.head?_reverse, List.getLast?_eq_some_getLast (Nat.digits_ne_nil_iff_ne_zero.mpr h.ne')]
  simpa using hlast

/-! ## Numerals -/

structure Numeral where
  negative : Bool
  whole : List ℕ
  fraction : List ℕ
  exponent : Option ℤ
  deriving DecidableEq

namespace Numeral

def signText (negative : Bool) : List UInt16 := if negative then [unit '-'] else []

def fractionText (fraction : List ℕ) : List UInt16 :=
  if fraction = [] then [] else unit '.' :: digitsText fraction

/-- A power is written with its sign; zero has one digit. -/
def powerText (e : ℤ) : List UInt16 :=
  (if e < 0 then unit '-' else unit '+') :: digitsText (if e = 0 then [0] else digitsOf e.natAbs)

def exponentText (exponent : Option ℤ) : List UInt16 :=
  (exponent.map fun e => unit 'e' :: powerText e).getD []

def text (n : Numeral) : List UInt16 :=
  signText n.negative ++ (digitsText n.whole ++ (fractionText n.fraction ++ exponentText n.exponent))

/-- What the numeral is worth, its sign aside. -/
def magnitude (n : Numeral) : ℚ :=
  decimalValue (n.whole ++ n.fraction) * 10 ^ (n.exponent.getD 0 - n.fraction.length)

theorem magnitude_nonneg (n : Numeral) : 0 ≤ n.magnitude := by
  unfold magnitude
  positivity

/-- What the grammar of JSON asks of the digits. -/
structure WellFormed (n : Numeral) : Prop where
  whole_digits : AreDigits n.whole
  whole_some : n.whole ≠ []
  whole_head : n.whole.head? = some 0 → n.whole.length = 1
  fraction_digits : AreDigits n.fraction

end Numeral

def readPower (text : List UInt16) : Option (ℤ × List UInt16) :=
  let negative : Bool := text.head? = some (unit '-')
  let signed : Bool := negative || text.head? = some (unit '+')
  let (ds, rest) := takeDigits (if signed then text.tail else text)
  if ds = [] then none
  else some (if negative then -(decimalValue ds : ℤ) else decimalValue ds, rest)

def readExponent (text : List UInt16) : Option (Option ℤ × List UInt16) :=
  if text.head? = some (unit 'e') ∨ text.head? = some (unit 'E') then
    (readPower text.tail).map fun (e, rest) => (some e, rest)
  else some (none, text)

def readFraction (text : List UInt16) : Option (List ℕ × List UInt16) :=
  if text.head? = some (unit '.') then
    let (ds, rest) := takeDigits text.tail
    if ds = [] then none else some (ds, rest)
  else some ([], text)

def readNumeral (text : List UInt16) : Option (Numeral × List UInt16) := do
  let negative : Bool := text.head? = some (unit '-')
  let (whole, text) := takeDigits (if negative then text.tail else text)
  if whole = [] ∨ (whole.head? = some 0 ∧ 1 < whole.length) then none
  else
    let (fraction, text) ← readFraction text
    let (exponent, text) ← readExponent text
    return (⟨negative, whole, fraction, exponent⟩, text)

/-- The text does not go on with what a numeral could have more of. -/
def Stops (rest : List UInt16) : Prop :=
  ∀ u ∈ rest.head?, isDigit u = false ∧ u ≠ unit '.' ∧ u ≠ unit 'e' ∧ u ≠ unit 'E'

theorem Stops.noDigit {rest : List UInt16} (h : Stops rest) : NoDigit rest := fun u hu => (h u hu).1

theorem stops_nil : Stops [] := by simp [Stops]

open Numeral

theorem readPower_text (e : ℤ) {rest : List UInt16} (hrest : NoDigit rest) :
    readPower (powerText e ++ rest) = some (e, rest) := by
  have hminus : unit '-' ≠ unit '+' := by decide
  rcases lt_trichotomy e 0 with hneg | rfl | hpos
  · have hsome : digitsOf e.natAbs ≠ [] := digitsOf_ne_nil (by omega)
    have habs : -|e| = e := by rw [abs_of_neg hneg, neg_neg]
    simp [readPower, powerText, hneg, hneg.ne, takeDigits_text (areDigits_digitsOf _) hrest, hsome, habs]
  · have hzero : AreDigits [0] := areDigits_zeros 1
    simp [readPower, powerText, hminus.symm, takeDigits_text hzero hrest]
  · have hsome : digitsOf e.natAbs ≠ [] := digitsOf_ne_nil (by omega)
    have habs : |e| = e := abs_of_pos hpos
    simp [readPower, powerText, hpos.le.not_gt, hpos.ne', hminus.symm,
      takeDigits_text (areDigits_digitsOf _) hrest, hsome, habs]

theorem readExponent_text (exponent : Option ℤ) {rest : List UInt16} (hrest : Stops rest) :
    readExponent (exponentText exponent ++ rest) = some (exponent, rest) := by
  cases exponent with
  | none =>
    have hstop : ¬ (rest.head? = some (unit 'e') ∨ rest.head? = some (unit 'E')) := by
      rintro (h | h)
      · exact (hrest _ h).2.2.1 rfl
      · exact (hrest _ h).2.2.2 rfl
    simp [readExponent, exponentText, hstop]
  | some e => simp [readExponent, exponentText, readPower_text e hrest.noDigit]

/-- Neither the exponent nor what follows goes on with a digit or a point. -/
theorem exponentText_head (exponent : Option ℤ) {rest : List UInt16} (hrest : Stops rest) :
    ∀ u ∈ (exponentText exponent ++ rest).head?, isDigit u = false ∧ u ≠ unit '.' := by
  cases exponent with
  | none =>
    intro u hu
    exact ⟨(hrest u hu).1, (hrest u hu).2.1⟩
  | some e =>
    intro u hu
    obtain rfl : unit 'e' = u := by simpa [exponentText] using hu
    decide

theorem readFraction_text {fraction : List ℕ} (hdigits : AreDigits fraction) {rest : List UInt16}
    (hrest : ∀ u ∈ rest.head?, isDigit u = false ∧ u ≠ unit '.') :
    readFraction (fractionText fraction ++ rest) = some (fraction, rest) := by
  by_cases hnil : fraction = []
  · subst hnil
    have hstop : rest.head? ≠ some (unit '.') := fun h => (hrest _ h).2 rfl
    simp [readFraction, fractionText, hstop]
  · have hrest' : NoDigit rest := fun u hu => (hrest u hu).1
    simp [readFraction, fractionText, hnil, takeDigits_text hdigits hrest']

/-- A numeral is read back where it was written. -/
theorem readNumeral_text {n : Numeral} (hn : n.WellFormed) {rest : List UInt16} (hrest : Stops rest) :
    readNumeral (n.text ++ rest) = some (n, rest) := by
  obtain ⟨negative, whole, fraction, exponent⟩ := n
  obtain ⟨hwhole, hsome, hhead, hfraction⟩ := hn
  dsimp only at hwhole hsome hhead hfraction
  set tail := fractionText fraction ++ (exponentText exponent ++ rest) with htail
  have hexp := exponentText_head exponent hrest
  have hnodigit : NoDigit tail := by
    intro u hu
    by_cases hnil : fraction = []
    · rw [htail, fractionText, if_pos hnil] at hu
      exact (hexp u hu).1
    · obtain rfl : unit '.' = u := by simpa [htail, fractionText, hnil] using hu
      decide
  have htake := takeDigits_text hwhole hnodigit
  have hfirst : ¬ (whole = [] ∨ (whole.head? = some 0 ∧ 1 < whole.length)) := by
    rintro (h | ⟨h, hlength⟩)
    · exact hsome h
    · exact absurd (hhead h) (by omega)
  have hunsigned : (digitsText whole ++ tail).head? ≠ some (unit '-') := by
    cases whole with
    | nil => exact absurd rfl hsome
    | cons d ds =>
      intro h
      have hd : isDigit (digitUnit d) = true := isDigit_digitUnit (hwhole d (by simp))
      have heq : digitUnit d = unit '-' := by simpa [digitsText] using h
      rw [heq] at hd
      exact absurd hd (by decide)
  have hreadFraction := readFraction_text hfraction hexp
  have hreadExponent := readExponent_text exponent hrest
  have hassoc : (⟨negative, whole, fraction, exponent⟩ : Numeral).text ++ rest =
      signText negative ++ (digitsText whole ++ tail) := by
    simp [Numeral.text, htail, List.append_assoc]
  rw [hassoc]
  rw [htail] at htake hunsigned ⊢
  cases negative with
  | true =>
    simp only [readNumeral, signText, if_true, List.cons_append, List.nil_append, List.head?_cons, decide_true,
      List.tail_cons, htake, if_neg hfirst, hreadFraction, Option.bind_eq_bind, Option.bind_some,
      hreadExponent, Option.pure_def]
  | false =>
    simp only [readNumeral, signText, Bool.false_eq_true, if_false, List.nil_append, hunsigned, decide_false,
      htake, if_neg hfirst, hreadFraction, Option.bind_eq_bind, Option.bind_some, hreadExponent,
      Option.pure_def]

/-! ## Numbers -/

/-- `Number::toString` of the digits of a positive number with the point after `point` of them. -/
def jsNumeral (negative : Bool) (digits : ℕ) (point : ℤ) : Numeral :=
  let ds := digitsOf digits
  if ds.length ≤ point ∧ point ≤ 21 then
    ⟨negative, ds ++ List.replicate (point - ds.length).toNat 0, [], none⟩
  else if 0 < point ∧ point ≤ 21 then ⟨negative, ds.take point.toNat, ds.drop point.toNat, none⟩
  else if -6 < point ∧ point ≤ 0 then ⟨negative, [0], List.replicate (-point).toNat 0 ++ ds, none⟩
  else ⟨negative, ds.take 1, ds.drop 1, some (point - 1)⟩

theorem jsNumeral_negative (negative : Bool) (digits : ℕ) (point : ℤ) :
    (jsNumeral negative digits point).negative = negative := by
  unfold jsNumeral
  dsimp only
  split_ifs <;> rfl

theorem wellFormed_jsNumeral {digits : ℕ} (h : 0 < digits) (negative : Bool) (point : ℤ) :
    (jsNumeral negative digits point).WellFormed := by
  have hdigits := areDigits_digitsOf digits
  have hsome := digitsOf_ne_nil h
  have hhead := digitsOf_head h
  unfold jsNumeral
  dsimp only
  split_ifs with hplain hpoint hsmall
  · refine ⟨hdigits.append (areDigits_zeros _), by simp [hsome], ?_, by simp [AreDigits]⟩
    intro hzero
    cases hds : digitsOf digits with
    | nil => exact absurd hds hsome
    | cons d ds =>
      rw [hds] at hhead hzero
      exact absurd hzero hhead
  · have hpos : 0 < point.toNat := by omega
    refine ⟨hdigits.sublist (List.take_sublist _ _), ?_, ?_, hdigits.sublist (List.drop_sublist _ _)⟩
    · simp only [ne_eq, List.take_eq_nil_iff, hsome, or_false]
      omega
    · intro hzero
      rw [List.head?_take, if_neg hpos.ne'] at hzero
      exact absurd hzero hhead
  · exact ⟨areDigits_zeros 1, by simp, fun _ => rfl, (areDigits_zeros _).append hdigits⟩
  · refine ⟨hdigits.sublist (List.take_sublist _ _), by simp [hsome], ?_, hdigits.sublist (List.drop_sublist _ _)⟩
    intro hzero
    rw [List.head?_take, if_neg (by norm_num)] at hzero
    exact absurd hzero hhead

/-- Every layout is worth the digits, with the point where it is. -/
theorem magnitude_jsNumeral {digits : ℕ} (h : 0 < digits) (negative : Bool) (point : ℤ) :
    (jsNumeral negative digits point).magnitude = digits * 10 ^ (point - (digitsOf digits).length) := by
  have hten : (10 : ℚ) ≠ 0 := by norm_num
  unfold jsNumeral Numeral.magnitude
  dsimp only
  split_ifs with hplain hpoint hsmall
  · obtain ⟨n, hn⟩ : ∃ n : ℕ, point - (digitsOf digits).length = n :=
      ⟨(point - (digitsOf digits).length).toNat, by omega⟩
    simp [decimalValue_append, hn]
  · have hlength : (digitsOf digits).length - point.toNat + point.toNat = (digitsOf digits).length := by omega
    rw [List.take_append_drop, decimalValue_digitsOf, List.length_drop]
    congr 2
    simp only [Option.getD_none]
    omega
  · rw [← List.append_assoc, decimalValue_append, decimalValue_append]
    simp only [decimalValue_zero, decimalValue_zeros, decimalValue_digitsOf, Option.getD_none,
      List.length_append, List.length_replicate]
    congr 2
    · ring
    · omega
  · have hpos : 0 < (digitsOf digits).length := List.length_pos_iff.mpr (digitsOf_ne_nil h)
    rw [List.take_append_drop, decimalValue_digitsOf, List.length_drop]
    congr 2
    simp only [Option.getD_some]
    omega

/-- A number in a JSON text; one that is not finite is written as null. -/
def numberText (engine : Shortest) : Number → List UInt16
  | .finite value _ =>
    if value = 0 then [unit '0']
    else (jsNumeral (value < 0) (engine.digits |value|) (engine.point |value|)).text
  | .negativeZero => [unit '0']
  | .infinite _ => "null".toList.map unit

def readNumber (text : List UInt16) : Option (Number × List UInt16) :=
  (readNumeral text).map fun (n, rest) => (Number.ofDecimal n.negative n.magnitude, rest)

theorem readNumber_zero {rest : List UInt16} (hrest : Stops rest) :
    readNumber (unit '0' :: rest) = some (.zero, rest) := by
  have hwell : (⟨false, [0], [], none⟩ : Numeral).WellFormed :=
    ⟨areDigits_zeros 1, by simp, fun _ => rfl, by simp [AreDigits]⟩
  have hread := readNumeral_text hwell hrest
  have htext : (⟨false, [0], [], none⟩ : Numeral).text = [unit '0'] := by decide
  have hmagnitude : (⟨false, [0], [], none⟩ : Numeral).magnitude = 0 := by
    simp [Numeral.magnitude]
  rw [htext, List.singleton_append] at hread
  simp only [readNumber, hread, Option.map_some, hmagnitude, Number.ofDecimal_zero]

/-- A finite number is read back, but for the sign of zero. -/
theorem readNumber_text (engine : Shortest) {n : Number} (hn : n.IsFinite) {rest : List UInt16} (hrest : Stops rest) :
    readNumber (numberText engine n ++ rest) = some (n.plainZero, rest) := by
  cases n with
  | infinite negative => exact absurd hn (by simp [Number.IsFinite])
  | negativeZero => exact readNumber_zero hrest
  | finite value isDouble =>
    by_cases hzero : value = 0
    · subst hzero
      simp only [numberText, if_true]
      exact readNumber_zero hrest
    · have habs : IsDouble |value| := by
        rcases abs_choice value with h | h
        · rwa [h]
        · rw [h]
          exact isDouble.neg
      have hpos : 0 < |value| := abs_pos.mpr hzero
      have hdigits := engine.digits_pos |value| habs hpos
      have hread := readNumeral_text (wellFormed_jsNumeral hdigits (value < 0) (engine.point |value|)) hrest
      have hnear : nearestDouble (jsNumeral (value < 0) (engine.digits |value|) (engine.point |value|)).magnitude =
          |value| := by
        rw [magnitude_jsNumeral hdigits, digitsOf, List.length_reverse]
        exact engine.reads |value| habs hpos
      have hnonneg := (jsNumeral (value < 0) (engine.digits |value|) (engine.point |value|)).magnitude_nonneg
      simp only [numberText, if_neg hzero, readNumber, hread, Option.map_some, jsNumeral_negative, Number.plainZero,
        Option.some.injEq, Prod.mk.injEq, and_true]
      rcases lt_or_gt_of_ne hzero with hneg | hpositive
      · rw [decide_eq_true hneg]
        rw [abs_of_neg hneg, decide_eq_true hneg] at hnear
        rw [abs_of_neg hneg] at hnonneg ⊢
        rw [decide_eq_true hneg] at hnonneg
        exact Number.ofDecimal_negative isDouble hnonneg hneg hnear
      · rw [decide_eq_false hpositive.not_gt]
        rw [abs_of_pos hpositive, decide_eq_false hpositive.not_gt] at hnear
        rw [abs_of_pos hpositive] at hnonneg ⊢
        rw [decide_eq_false hpositive.not_gt] at hnonneg
        exact Number.ofDecimal_finite isDouble hnonneg hpositive hnear

end DataNexus.Lib
