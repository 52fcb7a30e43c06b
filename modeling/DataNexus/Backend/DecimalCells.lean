/-
  DataNexus.Backend.DecimalCells — the decimal cells of a result, checked in three places:
  the backend's `ResultTable` (`_validate_cell`), the control API (`ValidDecimal`) and the
  web client (`isCanonicalDecimal`).

  A text is its code points in the backend and its UTF-16 code units in the other two. The
  backend compares exact decimals, the control API what `decimal.TryParse` makes of the
  text, the web client strings. `decimal.TryParse` is a parameter (`DecimalParser`): it
  gives a nearest one of the numbers a `decimal` holds, if the text's is not too large.

  - `decimalText_eq_some`: what the pattern takes, with its groups.
  - `verdicts_agree`: the three verdicts are one, that of `Canonical`.
-/

import Mathlib

namespace DataNexus.Backend

/-! ## Texts and digits -/

/-- The UTF-16 code units of a text. -/
def utf16 (text : List Nat) : List Nat :=
  text.flatMap fun c => if c < 0x10000 then [c] else [0xD800 + (c - 0x10000) / 0x400, 0xDC00 + (c - 0x10000) % 0x400]

def minus : Nat := 45

def point : Nat := 46

def zero : Nat := 48

def isDigit (c : Nat) : Bool := 48 ≤ c && c ≤ 57

def digitsValue (ds : List Nat) : Nat := ds.foldl (fun n d => 10 * n + (d - zero)) 0

/-- The number a sign, an integer part and a fraction write. -/
def exactValue (negative : Bool) (integer fraction : List Nat) : ℚ :=
  (if negative then -1 else 1) * digitsValue (integer ++ fraction) / 10 ^ fraction.length

def startsWithMinus (value : List Nat) : Bool := value.head? = some minus

/-- The text after its sign. -/
def unsigned (value : List Nat) : List Nat := if startsWithMinus value then value.tail else value

def stripZeros (digits : List Nat) : List Nat := digits.dropWhile (· = zero)

/-- The groups of `-?(0|[1-9][0-9]*)(?:\.([0-9]+))?`, of a whole text. -/
def decimalText (value : List Nat) : Option (List Nat × Option (List Nat)) :=
  let integer := (unsigned value).takeWhile isDigit
  if integer = [] || (integer.head? = some zero && integer ≠ [zero]) then none
  else
    match (unsigned value).dropWhile isDigit with
    | [] => some (integer, none)
    | c :: fraction => if c = point && fraction ≠ [] && fraction.all isDigit then some (integer, some fraction) else none

/-! ## The backend -/

/-- `_validate_cell`, of a decimal cell. -/
def validateCell (value : List Nat) : Bool :=
  match decimalText value with
  | none => false
  | some (integer, fraction) =>
    let digits := stripZeros (integer ++ fraction.getD [])
    let significantDigits := if digits.isEmpty then 1 else digits.length
    let number := exactValue (startsWithMinus value) integer (fraction.getD [])
    !(number = 0 && startsWithMinus value) && significantDigits ≤ 29 && (fraction.getD []).length ≤ 28 && |number| ≤ 10 ^ 28

/-! ## The control API -/

/-- The numbers a `decimal` holds. -/
def Holds (d : ℚ) : Prop := ∃ (n : Int) (scale : Nat), |n| < 2 ^ 96 ∧ scale ≤ 28 ∧ d = n / 10 ^ scale

/-- `decimal.TryParse`, of the number a text writes: a nearest number that a `decimal` holds;
    it fails beyond the largest one. -/
structure DecimalParser where
  tryParse : ℚ → Option ℚ
  holds : ∀ v d, tryParse v = some d → Holds d
  nearest : ∀ v d, tryParse v = some d → ∀ d', Holds d' → |v - d| ≤ |v - d'|
  within : ∀ v, |v| ≤ 2 ^ 96 - 1 → (tryParse v).isSome = true

/-- `ValidDecimal`. -/
def validDecimal (parser : DecimalParser) (value : List Nat) : Bool :=
  let separated := (unsigned value).contains point
  let integer := (unsigned value).takeWhile (· ≠ point)
  let fraction := ((unsigned value).dropWhile (· ≠ point)).tail
  if value.isEmpty || integer.isEmpty || (integer.length > 1 && integer.head? = some zero) || (separated && fraction.isEmpty) ||
      fraction.length > 28 || !integer.all isDigit || !fraction.all isDigit then false
  else
    let coefficient := stripZeros (integer ++ fraction)
    match parser.tryParse (exactValue (startsWithMinus value) integer fraction) with
    | none => false
    | some parsed => coefficient.length ≤ 29 && |parsed| ≤ 10 ^ 28 && (!startsWithMinus value || parsed ≠ 0)

/-! ## The web client -/

/-- `1${'0'.repeat(28)}`. -/
def maximumDecimalMagnitude : List Nat := 49 :: List.replicate 28 zero

/-- `isCanonicalDecimal`. -/
def isCanonicalDecimal (value : List Nat) : Bool :=
  match decimalText value with
  | none => false
  | some (_, group) =>
    if (group.getD []).length > 28 then false
    else
      let integer := (unsigned value).takeWhile (· ≠ point)
      let fraction := ((unsigned value).dropWhile (· ≠ point)).tail.takeWhile (· ≠ point)
      let coefficient := stripZeros (integer ++ fraction)
      !(coefficient.length > 29 || (startsWithMinus value && coefficient.length = 0)) &&
        !(integer.length > maximumDecimalMagnitude.length ||
          (integer.length = maximumDecimalMagnitude.length && maximumDecimalMagnitude < integer))

/-! ## What a decimal cell is -/

/-- An integer part without needless zeros, and the digits after a point. -/
structure Shape (integer : List Nat) (fraction : Option (List Nat)) : Prop where
  digits : ∀ d ∈ integer, isDigit d = true
  some : integer ≠ []
  leading : integer.head? = Option.some zero → integer = [zero]
  fraction : ∀ f, fraction = Option.some f → f ≠ [] ∧ ∀ d ∈ f, isDigit d = true

def render (negative : Bool) (integer : List Nat) (fraction : Option (List Nat)) : List Nat :=
  (if negative then [minus] else []) ++ (integer ++ fraction.elim [] (point :: ·))

/-- At most 28 digits after the point and 29 significant ones, no more than 10^28, and no
    negative zero. -/
structure Canonical (negative : Bool) (integer fraction : List Nat) : Prop where
  scale : fraction.length ≤ 28
  significant : (stripZeros (integer ++ fraction)).length ≤ 29
  magnitude : |exactValue negative integer fraction| ≤ 10 ^ 28
  sign : negative = true → exactValue negative integer fraction ≠ 0

/-! ## Reading a text -/

theorem isDigit_iff {c : Nat} : isDigit c = true ↔ 48 ≤ c ∧ c ≤ 57 := by simp [isDigit]

theorem digit_ne_point {c : Nat} (h : isDigit c = true) : c ≠ point := by
  rw [isDigit_iff] at h
  simp only [point]
  omega

theorem point_not_digit : isDigit point = false := by decide

section

variable {negative : Bool} {integer : List Nat} {fraction : Option (List Nat)}

variable (negative) in
theorem unsigned_render (h : Shape integer fraction) :
    startsWithMinus (render negative integer fraction) = negative ∧
      unsigned (render negative integer fraction) = integer ++ fraction.elim [] (point :: ·) := by
  cases negative with
  | true => simp [startsWithMinus, unsigned, render]
  | false =>
    obtain ⟨d, ds, rfl⟩ := List.exists_cons_of_ne_nil h.some
    have hd := isDigit_iff.mp (h.digits d (by simp))
    have hminus : d ≠ minus := by
      simp only [minus]
      omega
    simp [startsWithMinus, unsigned, render, hminus]

theorem takeWhile_digits (h : Shape integer fraction) :
    (integer ++ fraction.elim [] (point :: ·)).takeWhile isDigit = integer ∧
      (integer ++ fraction.elim [] (point :: ·)).dropWhile isDigit = fraction.elim [] (point :: ·) := by
  cases fraction with
  | none =>
    simp only [Option.elim, List.append_nil]
    exact ⟨List.takeWhile_eq_self_iff.mpr h.digits, List.dropWhile_eq_nil_iff.mpr h.digits⟩
  | some f =>
    simp only [Option.elim]
    rw [List.takeWhile_append_of_pos h.digits, List.dropWhile_append_of_pos h.digits,
      List.takeWhile_cons_of_neg (by simp [point_not_digit]), List.dropWhile_cons_of_neg (by simp [point_not_digit])]
    simp

theorem takeWhile_point (h : Shape integer fraction) :
    (integer ++ fraction.elim [] (point :: ·)).takeWhile (· ≠ point) = integer ∧
      (integer ++ fraction.elim [] (point :: ·)).dropWhile (· ≠ point) = fraction.elim [] (point :: ·) := by
  have hne : ∀ d ∈ integer, decide (d ≠ point) = true := fun d hd => by simpa using digit_ne_point (h.digits d hd)
  cases fraction with
  | none =>
    simp only [Option.elim, List.append_nil]
    exact ⟨List.takeWhile_eq_self_iff.mpr hne, List.dropWhile_eq_nil_iff.mpr hne⟩
  | some f =>
    simp only [Option.elim]
    rw [List.takeWhile_append_of_pos hne, List.dropWhile_append_of_pos hne,
      List.takeWhile_cons_of_neg (by simp), List.dropWhile_cons_of_neg (by simp)]
    simp

theorem decimalText_render (h : Shape integer fraction) :
    decimalText (render negative integer fraction) = some (integer, fraction) := by
  obtain ⟨-, hunsigned⟩ := unsigned_render negative h
  obtain ⟨htake, hdrop⟩ := takeWhile_digits h
  have hleading : (integer = [] || (integer.head? = some zero && integer ≠ [zero])) = false := by
    by_cases hzero : integer.head? = some zero
    · simp [h.leading hzero]
    · simp [h.some, hzero]
  simp only [decimalText, hunsigned, htake, hdrop, hleading]
  cases fraction with
  | none => rfl
  | some f =>
    obtain ⟨hf, hdigits⟩ := h.fraction f rfl
    simpa [hf] using hdigits

end

theorem unsigned_split (value : List Nat) : value = (if startsWithMinus value then [minus] else []) ++ unsigned value := by
  unfold unsigned
  by_cases h : startsWithMinus value = true
  · cases value with
    | nil => simp [startsWithMinus] at h
    | cons c cs =>
      obtain rfl : c = minus := by simpa [startsWithMinus] using h
      simp [h]
  · simp [h]

/-- What the pattern takes is the writing of its groups. -/
theorem decimalText_eq_some {value integer : List Nat} {fraction : Option (List Nat)}
    (h : decimalText value = some (integer, fraction)) :
    Shape integer fraction ∧ value = render (startsWithMinus value) integer fraction := by
  unfold decimalText at h
  simp only at h
  split at h
  · cases h
  · rename_i hleading
    have hsplit := List.takeWhile_append_dropWhile (p := isDigit) (l := unsigned value)
    have hvalue := unsigned_split value
    have hdigits : ∀ d ∈ (unsigned value).takeWhile isDigit, isDigit d = true := fun d hd => List.mem_takeWhile_imp hd
    simp only [Bool.or_eq_true, Bool.and_eq_true, decide_eq_true_eq, not_or, not_and, not_not] at hleading
    split at h
    · rename_i hrest
      obtain ⟨rfl, rfl⟩ := Prod.mk.inj (Option.some.inj h)
      refine ⟨⟨hdigits, hleading.1, hleading.2, by simp⟩, ?_⟩
      rw [hrest, List.append_nil] at hsplit
      rw [render, Option.elim, List.append_nil, hsplit]
      exact hvalue
    · rename_i c rest hrest
      split at h
      · rename_i hfraction
        obtain ⟨rfl, rfl⟩ := Prod.mk.inj (Option.some.inj h)
        simp only [Bool.and_eq_true, decide_eq_true_eq, List.all_eq_true] at hfraction
        obtain ⟨⟨rfl, hne⟩, hrestDigits⟩ := hfraction
        refine ⟨⟨hdigits, hleading.1, hleading.2, ?_⟩, ?_⟩
        · rintro f hf
          obtain rfl := Option.some.inj hf
          exact ⟨hne, hrestDigits⟩
        · rw [hrest] at hsplit
          rw [render, Option.elim, hsplit]
          exact hvalue
      · cases h

/-! ## Digits and numbers -/

theorem foldl_digits (ds : List Nat) (n : Nat) :
    ds.foldl (fun n d => 10 * n + (d - zero)) n = n * 10 ^ ds.length + digitsValue ds := by
  induction ds generalizing n with
  | nil => simp [digitsValue]
  | cons d ds ih =>
    rw [digitsValue, List.foldl_cons, List.foldl_cons, ih, ih, List.length_cons, pow_succ]
    ring

theorem digitsValue_append (ds es : List Nat) : digitsValue (ds ++ es) = digitsValue ds * 10 ^ es.length + digitsValue es := by
  rw [digitsValue, List.foldl_append, foldl_digits]
  rfl

theorem digitsValue_cons (d : Nat) (ds : List Nat) : digitsValue (d :: ds) = (d - zero) * 10 ^ ds.length + digitsValue ds := by
  rw [digitsValue, List.foldl_cons, foldl_digits]
  simp

theorem digitsValue_lt {ds : List Nat} (h : ∀ d ∈ ds, isDigit d = true) : digitsValue ds < 10 ^ ds.length := by
  induction ds with
  | nil => simp [digitsValue]
  | cons d ds ih =>
    have hd := isDigit_iff.mp (h d (by simp))
    have hds := ih fun e he => h e (by simp [he])
    have hdigit : d - zero ≤ 9 := by
      simp only [zero]
      omega
    have hmul : (d - zero) * 10 ^ ds.length ≤ 9 * 10 ^ ds.length := Nat.mul_le_mul_right _ hdigit
    rw [digitsValue_cons, List.length_cons, pow_succ]
    omega

theorem digitsValue_stripZeros (ds : List Nat) : digitsValue (stripZeros ds) = digitsValue ds := by
  induction ds with
  | nil => rfl
  | cons d ds ih =>
    by_cases hd : d = zero
    · rw [stripZeros, List.dropWhile_cons_of_pos (by simpa using hd), digitsValue_cons, hd]
      simpa [stripZeros] using ih
    · rw [stripZeros, List.dropWhile_cons_of_neg (by simpa using hd)]

theorem stripZeros_digits {ds : List Nat} (h : ∀ d ∈ ds, isDigit d = true) : ∀ d ∈ stripZeros ds, isDigit d = true :=
  fun d hd => h d ((List.dropWhile_suffix _).subset hd)

/-- No digit is left where the number is zero. -/
theorem stripZeros_eq_nil {ds : List Nat} (h : ∀ d ∈ ds, isDigit d = true) : stripZeros ds = [] ↔ digitsValue ds = 0 := by
  constructor
  · intro hnil
    rw [← digitsValue_stripZeros, hnil]
    rfl
  · intro hzero
    by_contra hne
    obtain ⟨d, ds', hsplit⟩ := List.exists_cons_of_ne_nil hne
    have hd : d ≠ zero := by
      have hhead := List.dropWhile_get_zero_not (fun x => decide (x = zero)) ds (by
        show 0 < (stripZeros ds).length
        simp [hsplit])
      have hget : (stripZeros ds).get ⟨0, by simp [hsplit]⟩ = d := by simp [hsplit]
      rw [← hget]
      simpa [stripZeros] using hhead
    have hdigit := isDigit_iff.mp (stripZeros_digits h d (by simp [hsplit]))
    rw [← digitsValue_stripZeros, hsplit, digitsValue_cons] at hzero
    have hpos : 0 < 10 ^ ds'.length := by positivity
    have hfactor : 0 < (d - zero) * 10 ^ ds'.length := by
      refine Nat.mul_pos ?_ hpos
      simp only [zero] at hd ⊢
      omega
    omega

theorem stripZeros_length_lt {ds : List Nat} (h : ∀ d ∈ ds, isDigit d = true) {k : Nat} (hk : (stripZeros ds).length ≤ k) :
    digitsValue ds < 10 ^ k := by
  rw [← digitsValue_stripZeros]
  exact lt_of_lt_of_le (digitsValue_lt (stripZeros_digits h)) (Nat.pow_le_pow_right (by decide) hk)

theorem abs_exactValue (negative : Bool) (integer fraction : List Nat) :
    |exactValue negative integer fraction| = digitsValue (integer ++ fraction) / 10 ^ fraction.length := by
  have hsign : |if negative then (-1 : ℚ) else 1| = 1 := by
    cases negative <;> simp
  rw [exactValue, abs_div, abs_mul, hsign, one_mul, Nat.abs_cast, abs_of_pos (by positivity)]

theorem exactValue_eq_zero {negative : Bool} {integer fraction : List Nat} :
    exactValue negative integer fraction = 0 ↔ digitsValue (integer ++ fraction) = 0 := by
  rw [← abs_eq_zero, abs_exactValue, div_eq_zero_iff]
  simp

/-- An integer part without needless zeros keeps its digits. -/
theorem stripZeros_integer {integer : List Nat} (hleading : integer.head? = some zero → integer = [zero])
    (hlength : 1 < integer.length) (rest : List Nat) : stripZeros (integer ++ rest) = integer ++ rest := by
  cases integer with
  | nil => simp at hlength
  | cons d ds =>
    have hd : d ≠ zero := by
      rintro rfl
      have := hleading rfl
      simp [this] at hlength
    rw [stripZeros, List.cons_append, List.dropWhile_cons_of_neg (by simpa using hd)]

/-- Texts of as many digits are ordered as their numbers are. -/
theorem lt_iff_digitsValue_lt {ds es : List Nat} (hds : ∀ d ∈ ds, isDigit d = true) (hes : ∀ e ∈ es, isDigit e = true)
    (hlength : ds.length = es.length) : ds < es ↔ digitsValue ds < digitsValue es := by
  induction ds generalizing es with
  | nil =>
    obtain rfl := List.length_eq_zero_iff.mp hlength.symm
    simp [digitsValue]
  | cons d ds ih =>
    cases es with
    | nil => simp at hlength
    | cons e es =>
      have hd := isDigit_iff.mp (hds d (by simp))
      have he := isDigit_iff.mp (hes e (by simp))
      have hrest : ds.length = es.length := by simpa using hlength
      have hbelow := digitsValue_lt fun c hc => hds c (List.mem_cons_of_mem d hc)
      have hbelow' := digitsValue_lt fun c hc => hes c (List.mem_cons_of_mem e hc)
      have hrec := ih (fun c hc => hds c (by simp [hc])) (fun c hc => hes c (by simp [hc])) hrest
      rw [List.cons_lt_cons_iff, digitsValue_cons, digitsValue_cons, hrec, hrest]
      rw [hrest] at hbelow
      simp only [zero]
      rcases lt_trichotomy d e with hlt | rfl | hgt
      · have hstep : (d - 48) + 1 ≤ e - 48 := by omega
        have hmul := Nat.mul_le_mul_right (10 ^ es.length) hstep
        rw [Nat.add_mul, one_mul] at hmul
        constructor
        · intro _
          omega
        · intro _
          exact .inl hlt
      · constructor
        · rintro (hlt | ⟨-, hlt⟩)
          · exact absurd hlt (lt_irrefl d)
          · omega
        · intro hlt
          exact .inr ⟨rfl, by omega⟩
      · have hstep : (e - 48) + 1 ≤ d - 48 := by omega
        have hmul := Nat.mul_le_mul_right (10 ^ es.length) hstep
        rw [Nat.add_mul, one_mul] at hmul
        constructor
        · rintro (hlt | ⟨heq, -⟩) <;> omega
        · intro hlt
          omega

/-! ## What `decimal.TryParse` says of a number -/

section

variable {parser : DecimalParser} {v d : ℚ}

theorem holds_natCast {n : Nat} (h : n < 2 ^ 96) : Holds n :=
  ⟨n, 0, by simpa using (by exact_mod_cast h : (n : Int) < 2 ^ 96), by decide, by simp⟩

theorem Holds.neg (h : Holds d) : Holds (-d) := by
  obtain ⟨n, scale, hn, hscale, rfl⟩ := h
  exact ⟨-n, scale, by simpa using hn, hscale, by push_cast; ring⟩

/-- A number that a `decimal` holds is read as itself. -/
theorem parsed_eq (h : parser.tryParse v = some d) (hv : Holds v) : d = v := by
  have hnear := parser.nearest v d h v hv
  rw [sub_self, abs_zero] at hnear
  have hzero := abs_nonpos_iff.mp hnear
  linarith

/-- The nearest number lies on the same side of a bound that is held. -/
theorem parsed_le {bound : ℚ} (h : parser.tryParse v = some d) (hbound : Holds bound) (hv : |v| ≤ bound) : |d| ≤ bound := by
  obtain ⟨hlow, hhigh⟩ := abs_le.mp hv
  refine abs_le.mpr ⟨?_, ?_⟩
  · by_contra hlt
    have hnear := parser.nearest v d h (-bound) hbound.neg
    rw [abs_of_nonneg (by linarith), abs_of_nonneg (by linarith)] at hnear
    linarith
  · by_contra hlt
    have hnear := parser.nearest v d h bound hbound
    rw [abs_of_nonpos (by linarith), abs_of_nonpos (by linarith)] at hnear
    linarith

theorem le_parsed {bound : ℚ} (h : parser.tryParse v = some d) (hbound : Holds bound) (hv : bound ≤ |v|) :
    bound ≤ |d| := by
  rcases le_total 0 v with hsign | hsign
  · rw [abs_of_nonneg hsign] at hv
    refine le_trans ?_ (le_abs_self d)
    by_contra hlt
    have hnear := parser.nearest v d h bound hbound
    rw [abs_of_nonneg (by linarith), abs_of_nonneg (by linarith)] at hnear
    linarith
  · rw [abs_of_nonpos hsign] at hv
    refine le_trans ?_ (neg_le_abs d)
    by_contra hlt
    have hnear := parser.nearest v d h (-bound) hbound.neg
    rw [abs_of_nonpos (by linarith), abs_of_nonpos (by linarith)] at hnear
    linarith

end

/-- Finitely many numbers are held, so that one of them is a nearest. -/
theorem holds_finite : {d | Holds d}.Finite := by
  have hnumerators : (Set.Ioo (-(2 : Int) ^ 96) (2 ^ 96)).Finite := Set.finite_Ioo _ _
  have hscales : (Set.Iic 28 : Set Nat).Finite := Set.finite_Iic _
  refine ((hnumerators.prod hscales).image fun p : Int × Nat => (p.1 : ℚ) / 10 ^ p.2).subset ?_
  rintro d ⟨n, scale, hn, hscale, rfl⟩
  exact ⟨(n, scale), ⟨abs_lt.mp hn, hscale⟩, rfl⟩

theorem exists_nearest (v : ℚ) : ∃ d, Holds d ∧ ∀ d', Holds d' → |v - d| ≤ |v - d'| := by
  have hsome : {d | Holds d}.Nonempty := ⟨(0 : Nat), holds_natCast (by decide)⟩
  obtain ⟨d, hd, hmin⟩ := Set.exists_min_image {d | Holds d} (fun d => |v - d|) holds_finite hsome
  exact ⟨d, hd, hmin⟩

noncomputable instance : Inhabited DecimalParser where
  default :=
    { tryParse := fun v => some (exists_nearest v).choose
      holds := fun v _ h => Option.some.inj h ▸ (exists_nearest v).choose_spec.1
      nearest := fun v _ h => Option.some.inj h ▸ (exists_nearest v).choose_spec.2
      within := fun _ _ => rfl }

section

variable {negative : Bool} {integer fraction : List Nat}

/-- Of at most 29 significant digits, one more than 10^28 is a whole number. -/
theorem whole_of_large (hinteger : ∀ d ∈ integer, isDigit d = true) (hfraction : ∀ d ∈ fraction, isDigit d = true)
    (hsignificant : (stripZeros (integer ++ fraction)).length ≤ 29) (hlarge : 10 ^ 28 < |exactValue negative integer fraction|) :
    fraction.length = 0 := by
  have hall : ∀ d ∈ integer ++ fraction, isDigit d = true := by
    intro d hd
    rcases List.mem_append.mp hd with hd | hd
    · exact hinteger d hd
    · exact hfraction d hd
  have hvalue := stripZeros_length_lt hall hsignificant
  by_contra hne
  obtain ⟨k, hk⟩ := Nat.exists_eq_succ_of_ne_zero hne
  rw [abs_exactValue, lt_div_iff₀ (by positivity)] at hlarge
  have hnat : 10 ^ 28 * 10 ^ fraction.length < digitsValue (integer ++ fraction) := by exact_mod_cast hlarge
  have hscale : 10 ^ 1 ≤ 10 ^ fraction.length := Nat.pow_le_pow_right (by decide) (by omega)
  have hmul := Nat.mul_le_mul_left (10 ^ 28) hscale
  have htwentynine : (10 : Nat) ^ 28 * 10 ^ 1 = 10 ^ 29 := by norm_num
  omega

variable (negative) in
/-- What `decimal.TryParse` makes of the text is in range where the text's number is, and
    zero where it is. -/
theorem parsed_verdict (parser : DecimalParser) (hinteger : ∀ d ∈ integer, isDigit d = true)
    (hfraction : ∀ d ∈ fraction, isDigit d = true) (hscale : fraction.length ≤ 28)
    (hsignificant : (stripZeros (integer ++ fraction)).length ≤ 29) :
    (∃ parsed, parser.tryParse (exactValue negative integer fraction) = some parsed ∧ |parsed| ≤ 10 ^ 28 ∧
        (negative = true → parsed ≠ 0)) ↔
      |exactValue negative integer fraction| ≤ 10 ^ 28 ∧ (negative = true → exactValue negative integer fraction ≠ 0) := by
  set v := exactValue negative integer fraction with hv
  have hmagnitude : Holds ((10 : ℚ) ^ 28) := by
    have hheld := holds_natCast (n := 10 ^ 28) (by norm_num)
    exact_mod_cast hheld
  constructor
  · rintro ⟨parsed, hparsed, hrange, hsign⟩
    constructor
    · by_contra hlarge
      rw [not_le] at hlarge
      -- A whole number: held as it is, or next to the largest one.
      have hwhole := whole_of_large hinteger hfraction hsignificant (hv ▸ hlarge)
      have habs : |v| = (digitsValue (integer ++ fraction) : ℚ) := by
        rw [hv, abs_exactValue, hwhole, pow_zero, div_one]
      by_cases hfits : digitsValue (integer ++ fraction) < 2 ^ 96
      · have hheld : Holds |v| := habs ▸ holds_natCast hfits
        have hle := le_parsed hparsed hheld le_rfl
        linarith
      · have hlargest : Holds ((2 ^ 96 - 1 : Nat) : ℚ) := holds_natCast (by norm_num)
        have hge : ((2 ^ 96 - 1 : Nat) : ℚ) ≤ |v| := by
          rw [habs]
          exact_mod_cast (by omega : 2 ^ 96 - 1 ≤ digitsValue (integer ++ fraction))
        have hle := le_parsed hparsed hlargest hge
        have hbound : (10 : ℚ) ^ 28 < ((2 ^ 96 - 1 : Nat) : ℚ) := by norm_num
        linarith
    · rintro hnegative hzero
      have hheld : Holds v := by
        rw [hzero]
        exact_mod_cast holds_natCast (n := 0) (by norm_num)
      exact hsign hnegative ((parsed_eq hparsed hheld).trans hzero)
  · rintro ⟨hrange, hsign⟩
    have hwithin : |v| ≤ 2 ^ 96 - 1 := hrange.trans (by norm_num)
    obtain ⟨parsed, hparsed⟩ := Option.isSome_iff_exists.mp (parser.within v hwithin)
    refine ⟨parsed, hparsed, parsed_le hparsed hmagnitude hrange, fun hnegative hzero => hsign hnegative ?_⟩
    -- A number other than zero is at least the smallest one that is held.
    by_contra hne
    have hdigits : 1 ≤ digitsValue (integer ++ fraction) := Nat.one_le_iff_ne_zero.mpr (mt exactValue_eq_zero.mpr hne)
    have hsmallest : Holds (1 / 10 ^ fraction.length) := ⟨1, fraction.length, by norm_num, hscale, by push_cast; rfl⟩
    have hge : 1 / 10 ^ fraction.length ≤ |v| := by
      rw [hv, abs_exactValue]
      gcongr
      exact_mod_cast hdigits
    have hle := le_parsed hparsed hsmallest hge
    rw [hzero, abs_zero] at hle
    have hpos : (0 : ℚ) < 1 / 10 ^ fraction.length := by positivity
    linarith

variable (negative) in
/-- The web client's comparison of texts is one of numbers. -/
theorem web_magnitude (hinteger : ∀ d ∈ integer, isDigit d = true) (hleading : integer.head? = some zero → integer = [zero])
    (hfraction : ∀ d ∈ fraction, isDigit d = true) (hsignificant : (stripZeros (integer ++ fraction)).length ≤ 29) :
    (integer.length > maximumDecimalMagnitude.length ∨
        integer.length = maximumDecimalMagnitude.length ∧ maximumDecimalMagnitude < integer) ↔
      10 ^ 28 < |exactValue negative integer fraction| := by
  have hmaximum : maximumDecimalMagnitude.length = 29 := by simp [maximumDecimalMagnitude]
  have hmaximumDigits : ∀ d ∈ maximumDecimalMagnitude, isDigit d = true := by decide
  have hmaximumValue : digitsValue maximumDecimalMagnitude = 10 ^ 28 := by decide +kernel
  rw [hmaximum, abs_exactValue, lt_div_iff₀ (by positivity)]
  have hcast : (10 ^ 28 * 10 ^ fraction.length : ℚ) < digitsValue (integer ++ fraction) ↔
      10 ^ 28 * 10 ^ fraction.length < digitsValue integer * 10 ^ fraction.length + digitsValue fraction := by
    rw [← digitsValue_append]
    exact_mod_cast Iff.rfl
  rw [hcast]
  have hfractionValue := digitsValue_lt hfraction
  by_cases hlong : 29 ≤ integer.length
  · have hstripped := stripZeros_integer hleading (by omega) fraction
    rw [hstripped, List.length_append] at hsignificant
    have hlength : integer.length = 29 := by omega
    have hnone : fraction.length = 0 := by omega
    obtain rfl := List.length_eq_zero_iff.mp hnone
    rw [lt_iff_digitsValue_lt hmaximumDigits hinteger (by rw [hmaximum, hlength]), hmaximumValue]
    simp [hlength, digitsValue]
  · have hsmall : digitsValue integer < 10 ^ 28 :=
      lt_of_lt_of_le (digitsValue_lt hinteger) (Nat.pow_le_pow_right (by decide) (by omega))
    have hmul := Nat.mul_le_mul_right (10 ^ fraction.length) hsmall
    rw [Nat.succ_mul] at hmul
    constructor
    · rintro (hgt | ⟨heq, -⟩) <;> omega
    · intro hlt
      omega

end

/-! ## The three verdicts -/

section

variable {negative : Bool} {integer : List Nat} {fraction : Option (List Nat)}

theorem Shape.fraction_digits (h : Shape integer fraction) : ∀ d ∈ fraction.getD [], isDigit d = true := by
  cases fraction with
  | none => simp
  | some f => exact (h.fraction f rfl).2

theorem validateCell_render (h : Shape integer fraction) :
    validateCell (render negative integer fraction) = true ↔ Canonical negative integer (fraction.getD []) := by
  obtain ⟨hminus, -⟩ := unsigned_render negative h
  simp only [validateCell, decimalText_render h, hminus]
  have hsignificant : (if (stripZeros (integer ++ fraction.getD [])).isEmpty then 1
      else (stripZeros (integer ++ fraction.getD [])).length) ≤ 29 ↔ (stripZeros (integer ++ fraction.getD [])).length ≤ 29 := by
    split
    · rename_i hempty
      simp [List.isEmpty_iff.mp hempty]
    · exact .rfl
  simp only [Bool.and_eq_true, Bool.not_eq_true', Bool.and_eq_false_iff, decide_eq_true_eq, decide_eq_false_iff_not, hsignificant]
  constructor
  · rintro ⟨⟨⟨hsign, hlength⟩, hscale⟩, hmagnitude⟩
    refine ⟨hscale, hlength, hmagnitude, fun hnegative => ?_⟩
    rcases hsign with hsign | hsign
    · exact hsign
    · rw [hnegative] at hsign
      cases hsign
  · intro hcanonical
    refine ⟨⟨⟨?_, hcanonical.significant⟩, hcanonical.scale⟩, hcanonical.magnitude⟩
    cases hnegative : negative with
    | true => exact .inl (hnegative ▸ hcanonical.sign hnegative)
    | false => exact .inr rfl

variable (negative) in
theorem validDecimal_render (parser : DecimalParser) (h : Shape integer fraction) :
    validDecimal parser (render negative integer fraction) = true ↔ Canonical negative integer (fraction.getD []) := by
  obtain ⟨hminus, hunsigned⟩ := unsigned_render negative h
  obtain ⟨htake, hdrop⟩ := takeWhile_point h
  have htail : (fraction.elim [] (point :: ·)).tail = fraction.getD [] := by
    cases fraction <;> rfl
  have hseparated : ((integer ++ fraction.elim [] (point :: ·)).contains point) = fraction.isSome := by
    have hnone : point ∉ integer := fun hmem => digit_ne_point (h.digits point hmem) rfl
    cases fraction <;> simp [hnone]
  have hempty : (render negative integer fraction).isEmpty = false := by
    simp [render, h.some]
  have hleading : (decide (integer.length > 1) && decide (integer.head? = some zero)) = false := by
    by_cases hzero : integer.head? = some zero
    · simp [h.leading hzero]
    · simp [hzero]
  have hpointed : (fraction.isSome && (fraction.getD []).isEmpty) = false := by
    cases fraction with
    | none => rfl
    | some f => simpa using (h.fraction f rfl).1
  have hdigits : integer.all isDigit = true := List.all_eq_true.mpr h.digits
  have hfraction : (fraction.getD []).all isDigit = true := List.all_eq_true.mpr h.fraction_digits
  have hinteger : integer.isEmpty = false := by simpa using h.some
  simp only [validDecimal, hminus, hunsigned, htake, hdrop, htail, hseparated, hempty, hinteger, hleading, hpointed, hdigits,
    hfraction, Bool.or_false, Bool.false_or, Bool.not_true, decide_eq_true_eq]
  by_cases hscale : (fraction.getD []).length > 28
  · rw [if_pos hscale]
    constructor
    · intro hfalse
      cases hfalse
    · intro hcanonical
      exact absurd hcanonical.scale (by omega)
  · rw [if_neg hscale]
    have hscale : (fraction.getD []).length ≤ 28 := by omega
    by_cases hsignificant : (stripZeros (integer ++ fraction.getD [])).length ≤ 29
    · have hverdict := parsed_verdict negative parser h.digits h.fraction_digits hscale hsignificant
      have hcanonical : Canonical negative integer (fraction.getD []) ↔ ∃ parsed,
          parser.tryParse (exactValue negative integer (fraction.getD [])) = some parsed ∧ |parsed| ≤ 10 ^ 28 ∧
            (negative = true → parsed ≠ 0) := by
        rw [hverdict]
        constructor
        · intro hcanonical
          exact ⟨hcanonical.magnitude, hcanonical.sign⟩
        · rintro ⟨hmagnitude, hsign⟩
          exact ⟨hscale, hsignificant, hmagnitude, hsign⟩
      rw [hcanonical]
      cases parser.tryParse (exactValue negative integer (fraction.getD [])) with
      | none => simp
      | some parsed => cases negative <;> simp [hsignificant]
    · constructor
      · intro htrue
        split at htrue
        · cases htrue
        · simp [hsignificant] at htrue
      · intro hcanonical
        exact absurd hcanonical.significant hsignificant

theorem isCanonicalDecimal_render (h : Shape integer fraction) :
    isCanonicalDecimal (render negative integer fraction) = true ↔ Canonical negative integer (fraction.getD []) := by
  obtain ⟨hminus, hunsigned⟩ := unsigned_render negative h
  obtain ⟨htake, hdrop⟩ := takeWhile_point h
  have htail : (fraction.elim [] (point :: ·)).tail = fraction.getD [] := by
    cases fraction <;> rfl
  have hnext : (fraction.getD []).takeWhile (· ≠ point) = fraction.getD [] :=
    List.takeWhile_eq_self_iff.mpr fun d hd => by simpa using digit_ne_point (h.fraction_digits d hd)
  have hall : ∀ d ∈ integer ++ fraction.getD [], isDigit d = true := by
    intro d hd
    rcases List.mem_append.mp hd with hd | hd
    · exact h.digits d hd
    · exact h.fraction_digits d hd
  simp only [isCanonicalDecimal, decimalText_render h, hminus, hunsigned, htake, hdrop, htail, hnext]
  by_cases hscale : (fraction.getD []).length > 28
  · rw [if_pos hscale]
    constructor
    · intro hfalse
      cases hfalse
    · intro hcanonical
      exact absurd hcanonical.scale (by omega)
  · rw [if_neg hscale]
    simp only [Bool.and_eq_true, Bool.not_eq_true', Bool.or_eq_false_iff, Bool.and_eq_false_iff, decide_eq_false_iff_not]
    have hzero : (stripZeros (integer ++ fraction.getD [])).length = 0 ↔ exactValue negative integer (fraction.getD []) = 0 := by
      rw [List.length_eq_zero_iff, stripZeros_eq_nil hall, exactValue_eq_zero]
    constructor
    · rintro ⟨⟨hlength, hsign⟩, hlarger, hlargest⟩
      have hsignificant : (stripZeros (integer ++ fraction.getD [])).length ≤ 29 := by omega
      have hmagnitude := web_magnitude negative h.digits h.leading h.fraction_digits hsignificant
      refine ⟨by omega, hsignificant, not_lt.mp fun hlt => ?_, fun hnegative hvalue => ?_⟩
      · rcases hmagnitude.mpr hlt with hgt | ⟨heq, hgt⟩
        · exact hlarger hgt
        · rcases hlargest with hne | hle
          · exact hne heq
          · exact hle hgt
      · rcases hsign with hsign | hsign
        · rw [hnegative] at hsign
          cases hsign
        · exact hsign (hzero.mpr hvalue)
    · intro hcanonical
      have hmagnitude := web_magnitude negative h.digits h.leading h.fraction_digits hcanonical.significant
      have hnot := mt hmagnitude.mp (not_lt.mpr hcanonical.magnitude)
      rw [not_or, not_and_or] at hnot
      refine ⟨⟨by have := hcanonical.significant; omega, ?_⟩, hnot.1, hnot.2⟩
      cases hnegative : negative with
      | false => exact .inl rfl
      | true => exact .inr fun hlength => hcanonical.sign hnegative (hzero.mp hlength)

end

/-- A text the backend or the web client takes has the shape of a decimal. -/
theorem shape_of_decimalText {value : List Nat} (h : (decimalText value).isSome = true) :
    ∃ negative integer fraction, Shape integer fraction ∧ value = render negative integer fraction := by
  obtain ⟨⟨integer, fraction⟩, hgroups⟩ := Option.isSome_iff_exists.mp h
  obtain ⟨hshape, hvalue⟩ := decimalText_eq_some hgroups
  exact ⟨_, integer, fraction, hshape, hvalue⟩

theorem validateCell_shape {value : List Nat} (h : validateCell value = true) : (decimalText value).isSome = true := by
  unfold validateCell at h
  split at h
  · cases h
  · rename_i hgroups
    rw [hgroups]
    rfl

theorem isCanonicalDecimal_shape {value : List Nat} (h : isCanonicalDecimal value = true) :
    (decimalText value).isSome = true := by
  unfold isCanonicalDecimal at h
  split at h
  · cases h
  · rename_i hgroups
    rw [hgroups]
    rfl

theorem validDecimal_shape {parser : DecimalParser} {value : List Nat} (h : validDecimal parser value = true) :
    ∃ negative integer fraction, Shape integer fraction ∧ value = render negative integer fraction := by
  unfold validDecimal at h
  simp only at h
  split at h
  · cases h
  · rename_i hchecks
    simp only [Bool.or_eq_true, Bool.and_eq_true, Bool.not_eq_true', decide_eq_true_eq, not_or, not_and] at hchecks
    obtain ⟨⟨⟨⟨⟨⟨-, hsome⟩, hleading⟩, hpointed⟩, -⟩, hdigits⟩, hfraction⟩ := hchecks
    have hdigits : ∀ d ∈ (unsigned value).takeWhile (· ≠ point), isDigit d = true := by simpa using hdigits
    have hsplit := List.takeWhile_append_dropWhile (p := fun c => decide (c ≠ point)) (l := unsigned value)
    have hvalue := unsigned_split value
    have hlead : ((unsigned value).takeWhile (· ≠ point)).head? = some zero →
        (unsigned value).takeWhile (· ≠ point) = [zero] := by
      intro hhead
      obtain ⟨ds, hds⟩ := List.head?_eq_some_iff.mp hhead
      cases ds with
      | nil => exact hds
      | cons d ds =>
        refine absurd hhead (hleading ?_)
        rw [hds]
        simp
    cases hrest : (unsigned value).dropWhile (· ≠ point) with
    | nil =>
      refine ⟨startsWithMinus value, (unsigned value).takeWhile (· ≠ point), none, ⟨hdigits, by simpa using hsome, hlead, by simp⟩, ?_⟩
      rw [hrest, List.append_nil] at hsplit
      rw [render, Option.elim, List.append_nil, hsplit]
      exact hvalue
    | cons c f =>
      have hc : c = point := by
        have hhead := List.head?_dropWhile_not (fun c => decide (c ≠ point)) (unsigned value)
        rw [hrest] at hhead
        simpa using hhead
      have hseparated : (unsigned value).contains point = true := by
        rw [List.contains_iff_mem, ← hsplit, hrest, hc]
        simp
      rw [hrest, List.tail_cons] at hpointed hfraction
      refine ⟨startsWithMinus value, (unsigned value).takeWhile (· ≠ point), some f, ⟨hdigits, by simpa using hsome, hlead, ?_⟩, ?_⟩
      · rintro g hg
        obtain rfl := Option.some.inj hg
        exact ⟨by simpa using hpointed hseparated, by simpa using hfraction⟩
      · rw [hrest, hc] at hsplit
        rw [render, Option.elim, hsplit]
        exact hvalue

/-! ## Code points and code units -/

theorem utf16_cons (c : Nat) (text : List Nat) :
    utf16 (c :: text) =
      (if c < 0x10000 then [c] else [0xD800 + (c - 0x10000) / 0x400, 0xDC00 + (c - 0x10000) % 0x400]) ++ utf16 text := rfl

/-- A text of ASCII code units is its own. -/
theorem utf16_ascii {text units : List Nat} (h : utf16 text = units) (hunits : ∀ u ∈ units, u < 128) : text = units := by
  induction text generalizing units with
  | nil => exact h
  | cons c text ih =>
    rw [utf16_cons] at h
    by_cases hc : c < 0x10000
    · rw [if_pos hc] at h
      subst h
      have hrest := ih rfl fun u hu => hunits u (by simp [hu])
      exact congrArg (c :: ·) hrest
    · rw [if_neg hc] at h
      have hlarge := hunits (0xD800 + (c - 0x10000) / 0x400) (by rw [← h]; simp)
      omega

theorem ascii_utf16 {text : List Nat} (h : ∀ c ∈ text, c < 128) : utf16 text = text := by
  induction text with
  | nil => rfl
  | cons c text ih =>
    have hc : c < 0x10000 := lt_trans (h c (by simp)) (by decide)
    rw [utf16_cons, if_pos hc, ih fun d hd => h d (by simp [hd])]
    rfl

theorem render_ascii {negative : Bool} {integer : List Nat} {fraction : Option (List Nat)} (h : Shape integer fraction) :
    ∀ c ∈ render negative integer fraction, c < 128 := by
  have hdigit : ∀ c, isDigit c = true → c < 128 := fun c hc => by
    have := isDigit_iff.mp hc
    omega
  intro c hc
  simp only [render, List.mem_append] at hc
  rcases hc with hc | hc | hc
  · cases negative with
    | true =>
      rw [List.mem_singleton.mp hc]
      decide
    | false => cases hc
  · exact hdigit c (h.digits c hc)
  · cases fraction with
    | none => cases hc
    | some f =>
      rcases List.mem_cons.mp hc with rfl | hc
      · decide
      · exact hdigit c ((h.fraction f rfl).2 c hc)

/-- What the backend accepts is a canonical decimal, written out. -/
theorem validateCell_iff {text : List Nat} : validateCell text = true ↔
    ∃ negative integer fraction, text = render negative integer fraction ∧ Shape integer fraction ∧
      Canonical negative integer (fraction.getD []) := by
  constructor
  · intro hbackend
    obtain ⟨negative, integer, fraction, h, rfl⟩ := shape_of_decimalText (validateCell_shape hbackend)
    exact ⟨negative, integer, fraction, rfl, h, (validateCell_render h).mp hbackend⟩
  · rintro ⟨negative, integer, fraction, rfl, h, hcanonical⟩
    exact (validateCell_render h).mpr hcanonical

/-- The three verdicts on a text are one: whether it writes out a canonical decimal. -/
theorem verdicts_agree (parser : DecimalParser) (text : List Nat) :
    validateCell text = validDecimal parser (utf16 text) ∧ validDecimal parser (utf16 text) = isCanonicalDecimal (utf16 text) ∧
      (validateCell text = true ↔ ∃ negative integer fraction, text = render negative integer fraction ∧
        Shape integer fraction ∧ Canonical negative integer (fraction.getD [])) := by
  have hwritten : ∀ negative integer fraction, Shape integer fraction → text = render negative integer fraction →
      validateCell text = validDecimal parser (utf16 text) ∧
        validDecimal parser (utf16 text) = isCanonicalDecimal (utf16 text) := by
    rintro negative integer fraction h rfl
    rw [ascii_utf16 (render_ascii h)]
    have hcontrol := validDecimal_render negative parser h
    constructor
    · exact Bool.eq_iff_iff.mpr ((validateCell_render h).trans hcontrol.symm)
    · exact Bool.eq_iff_iff.mpr (hcontrol.trans (isCanonicalDecimal_render h).symm)
  have hone : validateCell text = validDecimal parser (utf16 text) ∧
      validDecimal parser (utf16 text) = isCanonicalDecimal (utf16 text) := by
    by_cases hbackend : validateCell text = true
    · obtain ⟨negative, integer, fraction, h, htext⟩ := shape_of_decimalText (validateCell_shape hbackend)
      exact hwritten negative integer fraction h htext
    · by_cases hcontrol : validDecimal parser (utf16 text) = true
      · obtain ⟨negative, integer, fraction, h, htext⟩ := validDecimal_shape hcontrol
        exact hwritten negative integer fraction h (utf16_ascii htext (render_ascii h))
      · by_cases hweb : isCanonicalDecimal (utf16 text) = true
        · obtain ⟨negative, integer, fraction, h, htext⟩ := shape_of_decimalText (isCanonicalDecimal_shape hweb)
          exact hwritten negative integer fraction h (utf16_ascii htext (render_ascii h))
        · simp [hbackend, hcontrol, hweb]
  exact ⟨hone.1, hone.2, validateCell_iff⟩

/-- On the largest number, written with 29 digits. -/
theorem maximum_agrees :
    validateCell maximumDecimalMagnitude = validDecimal default (utf16 maximumDecimalMagnitude) ∧
      validDecimal default (utf16 maximumDecimalMagnitude) = isCanonicalDecimal (utf16 maximumDecimalMagnitude) ∧
      (validateCell maximumDecimalMagnitude = true ↔
        ∃ negative integer fraction, maximumDecimalMagnitude = render negative integer fraction ∧ Shape integer fraction ∧
          Canonical negative integer (fraction.getD [])) :=
  verdicts_agree default maximumDecimalMagnitude

end DataNexus.Backend
