/-
  DataNexus.Runtime.DecimalDigits — the digits that decimals are given
  (`_decimal_expression_shape`).

  A shape has at most 38 digits: DuckDB has no more, so those of an operation are capped. As
  long as none is, they are a bound on the values, and every cast holds what it is given.

  - `shape_bounds`, `written_digits`: what is written as a precision and a scale.
  - `casts_hold`: no cast fails for want of digits.
  - `rendered_exact`: these and the exactness, for the text that is rendered.
-/

import DataNexus.Runtime.ExactDecimals

namespace DataNexus.Runtime

open Lib DataNexus.Runtime.SqlExpression

section

variable {lib : Libraries} {types : List (String × ArrowType)} {columns : List String}

/-! ## What is written -/

/-- Every shape has at most 38 digits. -/
theorem shape_bounds : ∀ e, Ready lib types columns e → ∀ shape, decimalExpressionShape lib types e = .ok shape →
    0 ≤ shape.1 + shape.2 ∧ shape.1 + shape.2 ≤ 38 ∧ (DecimalColumns types → 0 ≤ shape.1) := by
  refine expression_induction fun e ih hready shape hshape => ?_
  have hform := exactForm hready
  generalize sqlOf lib types true e = tree at hform
  cases hform with
  | column name hkind hname hagrees =>
    rcases shape_column hkind hname hshape with ⟨width, unsigned, -, rfl⟩ | ⟨precision, scale, valid, hlookup, rfl⟩
    · have hdigits : digitCount (2 ^ (width.bits - if unsigned then 0 else 1)) ≤ 38 := by
        rw [digitCount_le_iff (by decide)]
        cases width <;> cases unsigned <;> decide
      dsimp only
      omega
    · have hvalid := valid.2
      have hpositive := valid.1
      simp only [maxPrecision] at hvalid
      refine ⟨by dsimp only; omega, by dsimp only; omega, ?_⟩
      intro hcolumns
      have hscale := hcolumns _ _ _ _ _ hlookup
      dsimp only
      omega
  | integerLiteral hkind htype hnative =>
    rw [shape_integerLiteral hkind htype hnative] at hshape
    rcases nativeScalar_integer hnative with ⟨-, rfl⟩ | ⟨n, -, rfl, hrange⟩
    · obtain rfl := Except.ok.inj hshape
      simp
    · obtain rfl := Except.ok.inj hshape
      have hdigits : digitCount n.natAbs ≤ 38 := by
        simp only [inRange, Bool.false_eq_true, if_false, Bool.and_eq_true, decide_eq_true_eq] at hrange
        rw [digitCount_le_iff (by decide)]
        omega
      dsimp only
      split <;> omega
  | decimalLiteral d hkind htype hnative =>
    rw [shape_decimalLiteral hkind htype hnative] at hshape
    obtain ⟨rfl, hfits⟩ := decimalDigits_shape hshape
    dsimp only
    omega
  | decimalNull hkind htype hnative =>
    rw [shape_decimalLiteral hkind htype hnative] at hshape
    obtain rfl := Except.ok.inj hshape
    simp
  | integerOperation hop htype =>
    rw [shape_integerOperation (operator_kind hop).1 htype] at hshape
    obtain rfl := Except.ok.inj hshape
    simp
  | integerCoalesce hkind htype =>
    rw [shape_integerOperation (by rw [hkind]; exact ⟨by decide, by decide⟩) htype] at hshape
    obtain rfl := Except.ok.inj hshape
    simp
  | @decimalOperation op operator left right a b shape' hop htype hargs hchildren hoperator hls hrs hshape' hcombined =>
    obtain rfl := Except.ok.inj (hshape'.symm.trans hshape)
    have hleft : left ∈ e.args := by simp [hargs]
    have hright : right ∈ e.args := by simp [hargs]
    obtain ⟨hal, hau, hacolumns⟩ := ih left hleft (hchildren left hleft) a hls
    obtain ⟨hbl, hbu, hbcolumns⟩ := ih right hright (hchildren right hright) b hrs
    obtain ⟨hscale, hdigits, hle⟩ := hcombined
    refine ⟨by grind, by grind, ?_⟩
    intro hcolumns
    have ha := hacolumns hcolumns
    have hb := hbcolumns hcolumns
    grind
  | @decimalCoalesce shapes shape' hkind htype hchildren hshapes hshape' hcommon =>
    obtain rfl := Except.ok.inj (hshape'.symm.trans hshape)
    obtain ⟨s, hs⟩ := List.exists_mem_of_ne_nil _ hcommon.nonempty
    obtain ⟨arg, harg, hargshape⟩ := mem_of_forall₂ (decimalExpressionShapes_ok.mp hshapes) hs
    obtain ⟨hl, -, hcolumns⟩ := ih arg harg (hchildren arg harg) s hargshape
    have hdigits := hcommon.digits s hs
    have hscale := hcommon.scale s hs
    refine ⟨by omega, hcommon.fits, ?_⟩
    intro h
    exact (hcolumns h).trans hdigits

/-- What is written as a type has 1 to 38 digits, and no more after the point. -/
def WellTyped (x : SqlExpression) : Prop :=
  ∀ precision scale, x.writtenDigits = some (precision, scale) → 1 ≤ precision ∧ precision ≤ 38 ∧ scale ≤ precision

theorem wellTyped_cast {x : SqlExpression} {precision scale : Int} (h : 1 ≤ precision ∧ precision ≤ 38 ∧ scale ≤ precision) :
    WellTyped (.cast x (.decimal precision scale)) := by
  intro p s hwritten
  obtain ⟨rfl, rfl⟩ := Prod.mk.inj (Option.some.inj hwritten)
  exact h

theorem wellTyped_literal {parameter : Parameter} {precision scale : Int}
    (h : 1 ≤ precision ∧ precision ≤ 38 ∧ scale ≤ precision) : WellTyped (.literal (.decimal precision scale) parameter) := by
  intro p s hwritten
  obtain ⟨rfl, rfl⟩ := Prod.mk.inj (Option.some.inj hwritten)
  exact h

theorem wellTyped_untyped {x : SqlExpression} (h : x.writtenDigits = none) : WellTyped x := by
  intro precision scale hwritten
  rw [h] at hwritten
  cases hwritten

theorem written_digits (hcolumns : DecimalColumns types) :
    ∀ e, Ready lib types columns e → ∀ x ∈ (sqlOf lib types true e).parts, WellTyped x := by
  refine expression_induction fun e ih hready => ?_
  have hform := exactForm hready
  generalize sqlOf lib types true e = tree at hform
  cases hform with
  | column | integerLiteral =>
    intro x hx
    obtain rfl := List.mem_singleton.mp hx
    exact wellTyped_untyped rfl
  | decimalLiteral d hkind htype hnative =>
    intro x hx
    obtain rfl := List.mem_singleton.mp hx
    rcases nativeScalar_decimal hnative with hnull | ⟨d', hd, hfits⟩
    · cases hnull
    · obtain rfl := NativeScalar.decimal.inj hd
      exact wellTyped_literal (by omega)
  | decimalNull =>
    intro x hx
    obtain rfl := List.mem_singleton.mp hx
    exact wellTyped_literal (by decide)
  | @integerOperation op operator left right hop htype hargs hchildren =>
    have hleft : left ∈ e.args := by simp [hargs]
    have hright : right ∈ e.args := by simp [hargs]
    intro x hx
    simp only [parts, List.mem_cons, List.mem_append] at hx
    rcases hx with rfl | hx | hx
    · exact wellTyped_untyped rfl
    · exact ih left hleft (hchildren left hleft) x hx
    · exact ih right hright (hchildren right hright) x hx
  | @decimalOperation op operator left right a b shape hop htype hargs hchildren hoperator hls hrs hshape hcombined =>
    have hleft : left ∈ e.args := by simp [hargs]
    have hright : right ∈ e.args := by simp [hargs]
    obtain ⟨hal, hau, ha⟩ := shape_bounds left (hchildren left hleft) a hls
    obtain ⟨hbl, hbu, hb⟩ := shape_bounds right (hchildren right hright) b hrs
    obtain ⟨-, hfits, hdigits⟩ := shape_bounds e hready shape hshape
    have ha := ha hcolumns
    have hb := hb hcolumns
    have hdigits := hdigits hcolumns
    have hoperands : operandScale op a shape ≤ precisionOf shape ∧ operandScale op b shape ≤ precisionOf shape := by
      obtain ⟨hscale, hmin, hle⟩ := hcombined
      unfold operandScale precisionOf
      grind
    have hprecision : 1 ≤ precisionOf shape ∧ precisionOf shape ≤ 38 ∧ shape.2 ≤ precisionOf shape := by
      unfold precisionOf
      omega
    intro x hx
    simp only [parts, List.mem_cons, List.mem_append] at hx
    rcases hx with rfl | rfl | (rfl | hx) | (rfl | hx)
    · exact wellTyped_cast hprecision
    · exact wellTyped_untyped rfl
    · exact wellTyped_cast ⟨hprecision.1, hprecision.2.1, hoperands.1⟩
    · exact ih left hleft (hchildren left hleft) x hx
    · exact wellTyped_cast ⟨hprecision.1, hprecision.2.1, hoperands.2⟩
    · exact ih right hright (hchildren right hright) x hx
  | integerCoalesce hkind htype hchildren =>
    intro x hx
    simp only [parts, partsOf_eq, List.flatMap_map, List.mem_cons, List.mem_flatMap] at hx
    rcases hx with rfl | ⟨arg, harg, hx⟩
    · exact wellTyped_untyped rfl
    · exact ih arg harg (hchildren arg harg) x hx
  | @decimalCoalesce shapes shape hkind htype hchildren hshapes hshape hcommon =>
    obtain ⟨-, hfits, hdigits⟩ := shape_bounds e hready shape hshape
    have hdigits := hdigits hcolumns
    have hprecision : 1 ≤ precisionOf shape ∧ precisionOf shape ≤ 38 ∧ shape.2 ≤ precisionOf shape := by
      unfold precisionOf
      omega
    intro x hx
    simp only [parts, partsOf_eq, List.flatMap_map, List.mem_cons, List.mem_flatMap] at hx
    rcases hx with rfl | ⟨arg, harg, rfl | hx⟩
    · exact wellTyped_untyped rfl
    · exact wellTyped_cast hprecision
    · exact ih arg harg (hchildren arg harg) x hx

/-! ## No cast fails for want of digits -/

theorem signed_args {e : TypedExpression} (h : SignedColumns types e) : ∀ arg ∈ e.args, SignedColumns types arg := by
  obtain ⟨kind, dataType, column, value, args⟩ := e
  exact signedAll_iff.mp h.2

theorem fits_args {e : TypedExpression} (h : Fits types lib e) : ∀ arg ∈ e.args, Fits types lib arg := by
  obtain ⟨kind, dataType, column, value, args⟩ := e
  exact fitsAll_iff.mp h.2

theorem uncappedShape_operation {e : TypedExpression} (htype : e.dataType = .decimal) (hkind : IsOperation e.kind) :
    uncappedShape types lib e = (do operationShape e.kind (← uncappedShapes types lib e.args)) := by
  obtain ⟨kind, dataType, column, value, args⟩ := e
  obtain ⟨hcolumn, hliteral⟩ := hkind
  obtain rfl : dataType = .decimal := htype
  cases kind <;> first | exact (hcolumn rfl).elim | exact (hliteral rfl).elim | rfl

theorem uncappedShape_leaf {e : TypedExpression} (h : ¬ (e.dataType = .decimal ∧ IsOperation e.kind)) :
    uncappedShape types lib e = decimalExpressionShape lib types e := by
  obtain ⟨kind, dataType, column, value, args⟩ := e
  by_cases hkind : IsOperation kind
  · have htype : dataType ≠ .decimal := fun heq => h ⟨heq, hkind⟩
    obtain ⟨hcolumn, hliteral⟩ := hkind
    cases dataType <;> first | exact (htype rfl).elim | (cases kind <;> rfl)
  · have hleaf : kind = .column ∨ kind = .literal := by
      by_contra hneither
      exact hkind (not_or.mp hneither)
    rcases hleaf with rfl | rfl <;> cases dataType <;> rfl

theorem fits_shape {e : TypedExpression} (h : Fits types lib e) {shape : Int × Int}
    (hshape : uncappedShape types lib e = .ok shape) : shape.1 + shape.2 ≤ 38 := by
  obtain ⟨kind, dataType, column, value, args⟩ := e
  exact h.1 shape hshape

/-- An operation that is not capped. -/
theorem combineShapes_uncapped {kind : ExpressionKind} {shapes : List (Int × Int)} {shape uncapped : Int × Int}
    (h : combineShapes kind shapes = .ok shape) (huncapped : operationShape kind shapes = .ok uncapped)
    (hfits : uncapped.1 + uncapped.2 ≤ 38) : shape = uncapped := by
  by_cases hcoalesce : kind = .coalesce
  · subst hcoalesce
    exact Except.ok.inj ((combineShapes_coalesce h).2.symm.trans huncapped)
  · rw [combineShapes, if_neg hcoalesce] at h
    split at h
    · simp only [huncapped, bind_eq_ok, pure_eq_ok, Except.ok.injEq] at h
      obtain ⟨_, rfl, _, -, rfl⟩ := h
      exact Prod.ext (min_eq_left (by omega)) rfl
    · cases h

theorem operationShape_total {kind : ExpressionKind} {shapes : List (Int × Int)} {shape : Int × Int}
    (h : combineShapes kind shapes = .ok shape) : ∃ uncapped, operationShape kind shapes = .ok uncapped := by
  by_cases hcoalesce : kind = .coalesce
  · subst hcoalesce
    exact ⟨shape, (combineShapes_coalesce h).2⟩
  · rw [combineShapes, if_neg hcoalesce] at h
    split at h
    · simp only [bind_eq_ok] at h
      obtain ⟨uncapped, huncapped, -⟩ := h
      exact ⟨uncapped, huncapped⟩
    · cases h

/-- Where every shape fits in 38 digits, none is capped. -/
theorem uncappedShape_eq : ∀ e, Fits types lib e → ∀ shape, decimalExpressionShape lib types e = .ok shape →
    uncappedShape types lib e = .ok shape := by
  refine expression_induction fun e ih hfits shape hshape => ?_
  by_cases hoperation : e.dataType = .decimal ∧ IsOperation e.kind
  · obtain ⟨htype, hkind⟩ := hoperation
    obtain ⟨shapes, hshapes, hcombine⟩ := decimalShape_operation htype hkind hshape
    have hargs : uncappedShapes types lib e.args = .ok shapes := by
      rw [uncappedShapes_ok]
      have hboth := (List.forall₂_and_left e.args shapes).mpr ⟨fun arg harg => harg, decimalExpressionShapes_ok.mp hshapes⟩
      exact hboth.imp fun arg argshape h => ih arg h.1 (fits_args hfits arg h.1) argshape h.2
    obtain ⟨uncapped, huncapped⟩ := operationShape_total hcombine
    have heq : uncappedShape types lib e = .ok uncapped := by
      rw [uncappedShape_operation htype hkind, hargs]
      exact huncapped
    rw [heq, combineShapes_uncapped hcombine huncapped (fits_shape hfits heq)]
  · rw [uncappedShape_leaf hoperation, hshape]

/-- The digits of an operation that fits, from those of its operands. -/
theorem operation_digits {e left right : TypedExpression} {op : ArithmeticOperator} {a b shape : Int × Int}
    (hop : e.kind.operator? = some op) (htype : e.dataType = .decimal) (hargs : e.args = [left, right]) (hfits : Fits types lib e)
    (hleft : decimalExpressionShape lib types left = .ok a) (hright : decimalExpressionShape lib types right = .ok b)
    (hshape : decimalExpressionShape lib types e = .ok shape) :
    shape.1 = if op = .multiply then a.1 + b.1 else max a.1 b.1 + 1 := by
  have hfitsArgs := fits_args hfits
  rw [hargs] at hfitsArgs
  have hl := uncappedShape_eq left (hfitsArgs left (by simp)) a hleft
  have hr := uncappedShape_eq right (hfitsArgs right (by simp)) b hright
  have hshapes : uncappedShapes types lib e.args = .ok [a, b] := by
    rw [hargs, uncappedShapes_ok]
    exact .cons hl (.cons hr .nil)
  have huncapped := uncappedShape_eq e hfits shape hshape
  rw [uncappedShape_operation htype (operator_kind hop).1, hshapes] at huncapped
  obtain rfl := Except.ok.inj ((operationShape_pair hop a b).symm.trans huncapped)
  split <;> rfl

/-! ### Over a row -/

theorem bind_not_cast {α β : Type} {x : Except SqlFailure α} {f : α → Except SqlFailure β} (hx : x ≠ .error .cast)
    (hf : ∀ a, x = .ok a → f a ≠ .error .cast) : (x >>= f) ≠ .error .cast := by
  intro h
  rcases bind_eq_error.mp h with h | ⟨a, ha, h⟩
  · exact hx h
  · exact hf a ha h

theorem applyArithmetic_not_cast (operator : String) (x y : Option SqlNumber) : applyArithmetic operator x y ≠ .error .cast := by
  cases x with
  | none => exact fun h => by cases h
  | some a =>
    cases y with
    | none => exact fun h => by cases h
    | some b =>
      unfold applyArithmetic
      cases arithmeticOf operator with
      | none => exact fun h => by cases h
      | some op => exact bind_not_cast (arithmetic_not_cast op a b) fun _ _ h => by cases h

theorem castValue_fits {precision scale : Int} {w : Option SqlNumber} (hgrid : ∀ n, w = some n → OnGrid scale n.toRat)
    (hfits : ∀ n, w = some n → |n.toRat| < 10 ^ (precision - scale)) :
    castValue (.decimal precision scale) w = .ok (w.map fun n => .decimal n.toRat scale) := by
  cases w with
  | none => rfl
  | some n => simp [castValue, castTo, castDecimal_fits (hgrid n rfl) (hfits n rfl), bind, Except.bind, pure, Except.pure]

variable (row : Row types)

theorem firstValue_not_cast {xs : List SqlExpression} (h : ∀ x ∈ xs, x.eval row ≠ .error .cast) :
    firstValue row xs ≠ .error .cast := by
  induction xs with
  | nil => exact fun h => by cases h
  | cons x xs ih =>
    rw [firstValue]
    refine bind_not_cast (h x List.mem_cons_self) fun w _ => ?_
    split
    · exact fun h => by cases h
    · exact ih fun y hy => h y (List.mem_cons_of_mem _ hy)

/-- The computed digits bound the value; of an integer type, it is one of 64 bits. -/
structure Bounded (lib : Libraries) (types : List (String × ArrowType)) (e : TypedExpression) (v : Option SqlNumber) : Prop where
  digits : ∀ n shape, v = some n → decimalExpressionShape lib types e = .ok shape → |n.toRat| < 10 ^ shape.1
  integer : ∀ n, v = some n → e.dataType = .integer → ∃ m, n = .integer m false ∧ inRange false m = true

theorem bounded_none {e : TypedExpression} : Bounded lib types e none where
  digits := by
    intro n shape hn
    cases hn
  integer := by
    intro n hn
    cases hn

theorem abs_integer_lt {m : Int} (h : inRange false m = true) : |((m : ℤ) : ℚ)| < 10 ^ (19 : ℤ) := by
  simp only [inRange, Bool.false_eq_true, if_false, Bool.and_eq_true, decide_eq_true_eq] at h
  have hle : |m| < 10 ^ 19 := by
    rw [abs_lt]
    omega
  have hcast : ((|m| : ℤ) : ℚ) < ((10 ^ 19 : ℤ) : ℚ) := by exact_mod_cast hle
  rw [← Int.cast_abs]
  refine hcast.trans_eq ?_
  norm_num

/-- Room for the digits of the operands, where those of the operation are not capped. -/
theorem operand_room {op : ArithmeticOperator} {a b shape : Int × Int} (h : OperationShape op a b shape)
    (hdigits : shape.1 = if op = .multiply then a.1 + b.1 else max a.1 b.1 + 1) (ha : 0 ≤ a.1 + a.2) (hb : 0 ≤ b.1 + b.2) :
    a.1 ≤ precisionOf shape - operandScale op a shape ∧ b.1 ≤ precisionOf shape - operandScale op b shape := by
  obtain ⟨hscale, -, -⟩ := h
  unfold precisionOf operandScale
  grind

theorem precision_room (shape : Int × Int) : shape.1 ≤ precisionOf shape - shape.2 := by
  unfold precisionOf
  omega

/-- No cast within the tree fails, and what it gives has the digits computed for the
    expression. -/
structure Held (lib : Libraries) (types : List (String × ArrowType)) (row : Row types) (e : TypedExpression)
    (tree : SqlExpression) : Prop where
  casts : ∀ x ∈ tree.parts, x.eval row ≠ .error .cast
  bounded : ∀ v, tree.eval row = .ok v → Bounded lib types e v

theorem held_column {e : TypedExpression} {name : String} (hkind : e.kind = .column) (hname : e.column = some name)
    (hagrees : Agrees types name e.dataType) (hsigned : SignedColumns types e) : Held lib types row e (.column name) := by
  refine ⟨?_, ?_⟩
  · intro x hx
    obtain rfl := List.mem_singleton.mp hx
    exact fun h => by cases h
  · intro v hv
    obtain rfl := Except.ok.inj hv
    -- An integer column holds the powers of two of its width, the sign aside.
    have hinteger : ∀ n width unsigned, types.lookup name = some (.integer width unsigned) → row.cell name = some n →
        e.dataType = .integer → ∃ m, n = .integer m false ∧ |m| ≤ 2 ^ (width.bits - 1) ∧ inRange false m = true ∧ unsigned = false := by
      intro n width unsigned hlookup hcell htype
      have hfalse : unsigned = false := by
        obtain ⟨kind, dataType, column, value, args⟩ := e
        obtain rfl : column = some name := hname
        exact hsigned.1 hkind htype width unsigned hlookup
      subst hfalse
      obtain ⟨m, rfl, hlow, hhigh⟩ := row.holds _ _ _ hlookup hcell
      have hbits : (2 : ℤ) ^ (width.bits - 1) ≤ 2 ^ 63 := by cases width <;> norm_num [IntegerWidth.bits]
      refine ⟨m, rfl, abs_le.mpr ⟨hlow, hhigh.le⟩, ?_, rfl⟩
      simp only [inRange, Bool.false_eq_true, if_false, Bool.and_eq_true, decide_eq_true_eq]
      omega
    refine ⟨?_, ?_⟩
    · intro n shape hcell hshape
      rcases shape_column hkind hname hshape with ⟨width, unsigned, hlookup, rfl⟩ | ⟨precision, scale, valid, hlookup, rfl⟩
      · have htype : e.dataType = .integer := by
          cases htype : e.dataType with
          | integer => rfl
          | decimal =>
            rw [htype] at hagrees
            obtain ⟨_, _, _, _, hdecimal⟩ := hagrees
            rw [hlookup] at hdecimal
            cases hdecimal
          | _ =>
            rw [htype] at hagrees
            exact hagrees.elim
        obtain ⟨m, rfl, hle, -, rfl⟩ := hinteger n width unsigned hlookup hcell htype
        have hlt := lt_pow_digitCount (2 ^ (width.bits - 1))
        have hcast : ((|m| : ℤ) : ℚ) < 10 ^ digitCount (2 ^ (width.bits - 1)) := by
          have hpow : (2 : ℤ) ^ (width.bits - 1) < 10 ^ digitCount (2 ^ (width.bits - 1)) := by exact_mod_cast hlt
          exact_mod_cast hle.trans_lt hpow
        rw [Int.cast_abs] at hcast
        simpa [SqlNumber.toRat] using hcast
      · obtain ⟨q, rfl, -, hlt⟩ := row.holds _ _ _ hlookup hcell
        exact hlt
    · intro n hcell htype
      rw [htype] at hagrees
      obtain ⟨width, unsigned, hlookup⟩ := hagrees
      obtain ⟨m, hm, -, hrange, -⟩ := hinteger n width unsigned hlookup hcell htype
      exact ⟨m, hm, hrange⟩

theorem held_integerLiteral {e : TypedExpression} {native : NativeScalar} (hkind : e.kind = .literal)
    (htype : e.dataType = .integer) (hnative : nativeScalar lib .integer e.value = .ok native) :
    Held lib types row e (.literal (.plain .integer) (.scalar e.value)) := by
  rcases nativeScalar_integer hnative with ⟨hvalue, rfl⟩ | ⟨m, hvalue, rfl, hrange⟩
  · refine ⟨?_, ?_⟩
    · intro x hx
      obtain rfl := List.mem_singleton.mp hx
      rw [hvalue]
      exact fun h => by cases h
    · intro v hv
      rw [hvalue] at hv
      obtain rfl := Except.ok.inj hv
      exact bounded_none
  · have hvalid : castParameter (.plain .integer) (.scalar (.int m)) = .ok (some (.integer m false)) := by
      simp [castParameter, castTo, roundHalf_int, hrange, bind, Except.bind, pure, Except.pure, refuseIf]
    rw [hvalue]
    refine ⟨?_, ?_⟩
    · intro x hx
      obtain rfl := List.mem_singleton.mp hx
      intro h
      have heval := hvalid.symm.trans h
      cases heval
    · intro v hv
      obtain rfl := Except.ok.inj (hvalid.symm.trans hv)
      refine ⟨?_, ?_⟩
      · rintro n shape hn hshape
        obtain rfl := Option.some.inj hn
        rw [shape_integerLiteral hkind htype hnative] at hshape
        obtain rfl := Except.ok.inj hshape
        by_cases hzero : m = 0
        · simp [hzero, SqlNumber.toRat]
        · have hlt := lt_pow_digitCount m.natAbs
          have hcast : ((m.natAbs : ℕ) : ℚ) < 10 ^ digitCount m.natAbs := by exact_mod_cast hlt
          rw [Nat.cast_natAbs, Int.cast_abs] at hcast
          simpa [hzero, SqlNumber.toRat] using hcast
      · rintro n hn -
        obtain rfl := Option.some.inj hn
        exact ⟨m, rfl, hrange⟩

theorem held_decimalLiteral {e : TypedExpression} {d : Decimal} (hkind : e.kind = .literal) (htype : e.dataType = .decimal)
    (hnative : nativeScalar lib .decimal e.value = .ok (.decimal d)) :
    Held lib types row e (.literal (.decimal (max 1 (d.shape.1 + d.shape.2)) d.shape.2) (.scalar (.str d.formatFixed))) := by
  have hroom : (d.shape.1 : Int) ≤ max 1 ((d.shape.1 : Int) + d.shape.2) - d.shape.2 := by omega
  have hvalid : castParameter (.decimal (max 1 (d.shape.1 + d.shape.2)) d.shape.2) (.scalar (.str d.formatFixed)) =
      .ok (some (.decimal d.toRat d.shape.2)) := by
    simp [castParameter, readFixed_formatFixed, castTo,
      castDecimal_fits (onGrid_shape d) (abs_lt_pow_mono (abs_toRat_lt d) hroom), bind, Except.bind, pure, Except.pure]
  refine ⟨?_, ?_⟩
  · intro x hx
    obtain rfl := List.mem_singleton.mp hx
    intro h
    have heval := hvalid.symm.trans h
    cases heval
  · intro v hv
    obtain rfl := Except.ok.inj (hvalid.symm.trans hv)
    refine ⟨?_, ?_⟩
    · rintro n shape hn hshape
      obtain rfl := Option.some.inj hn
      rw [shape_decimalLiteral hkind htype hnative] at hshape
      obtain ⟨rfl, -⟩ := decimalDigits_shape hshape
      exact abs_toRat_lt d
    · intro n _ hinteger
      rw [htype] at hinteger
      cases hinteger

theorem held_decimalNull (e : TypedExpression) : Held lib types row e (.literal (.decimal 1 0) (.scalar .null)) := by
  refine ⟨?_, ?_⟩
  · intro x hx
    obtain rfl := List.mem_singleton.mp hx
    exact fun h => by cases h
  · intro v hv
    obtain rfl := Except.ok.inj hv
    exact bounded_none

theorem held_integerOperation {e left right : TypedExpression} {op : ArithmeticOperator} {operator : String}
    (hop : e.kind.operator? = some op) (htype : e.dataType = .integer) (hoperator : arithmeticOf operator = some op)
    (hintegers : left.dataType = .integer ∧ right.dataType = .integer)
    (hl : Held lib types row left (sqlOf lib types true left)) (hr : Held lib types row right (sqlOf lib types true right)) :
    Held lib types row e (.binary operator (sqlOf lib types true left) (sqlOf lib types true right)) := by
  refine ⟨?_, ?_⟩
  · intro x hx
    simp only [parts, List.mem_cons, List.mem_append] at hx
    rcases hx with rfl | hx | hx
    · rw [eval]
      refine bind_not_cast (hl.casts _ (self_mem_parts _)) fun _ _ => ?_
      exact bind_not_cast (hr.casts _ (self_mem_parts _)) fun _ _ => applyArithmetic_not_cast _ _ _
    · exact hl.casts x hx
    · exact hr.casts x hx
  · intro v hv
    simp only [eval, bind_eq_ok] at hv
    obtain ⟨x, hx, y, hy, hv⟩ := hv
    obtain ⟨-, hfrom⟩ := applyArithmetic_ok hoperator hop hv
    have hvalue : ∀ n, v = some n → ∃ m, n = .integer m false ∧ inRange false m = true := by
      intro n hn
      obtain ⟨a, b, ha, hb, hab⟩ := hfrom n hn
      obtain ⟨m, rfl, -⟩ := (hl.bounded x hx).integer a ha hintegers.1
      obtain ⟨k, rfl, -⟩ := (hr.bounded y hy).integer b hb hintegers.2
      obtain ⟨rfl, hrange⟩ := integerResult_ok hab
      exact ⟨_, rfl, hrange⟩
    refine ⟨?_, fun n hn _ => hvalue n hn⟩
    intro n shape hn hshape
    rw [shape_integerOperation (operator_kind hop).1 htype] at hshape
    obtain rfl := Except.ok.inj hshape
    obtain ⟨m, rfl, hrange⟩ := hvalue n hn
    exact abs_integer_lt hrange

theorem held_decimalOperation {e left right : TypedExpression} {op : ArithmeticOperator} {operator : String}
    {a b shape : Int × Int} (hop : e.kind.operator? = some op) (htype : e.dataType = .decimal) (hargs : e.args = [left, right])
    (hoperator : arithmeticOf operator = some op) (hfits : Fits types lib e)
    (hls : decimalExpressionShape lib types left = .ok a) (hrs : decimalExpressionShape lib types right = .ok b)
    (hshape : decimalExpressionShape lib types e = .ok shape) (hcombined : OperationShape op a b shape)
    (hleft : Ready lib types columns left) (hright : Ready lib types columns right)
    (hl : Held lib types row left (sqlOf lib types true left)) (hr : Held lib types row right (sqlOf lib types true right)) :
    Held lib types row e (.cast (.binary operator
      (.cast (sqlOf lib types true left) (.decimal (precisionOf shape) (operandScale op a shape)))
      (.cast (sqlOf lib types true right) (.decimal (precisionOf shape) (operandScale op b shape))))
      (.decimal (precisionOf shape) shape.2)) := by
  have hdigits := operation_digits hop htype hargs hfits hls hrs hshape
  obtain ⟨hale, hble, hscale⟩ := operandScale_le hcombined
  obtain ⟨haroom, hbroom⟩ := operand_room hcombined hdigits (shape_bounds left hleft a hls).1
    (shape_bounds right hright b hrs).1
  have hx : ∀ x, (sqlOf lib types true left).eval row = .ok x → castValue (.decimal (precisionOf shape) (operandScale op a shape)) x =
      .ok (x.map fun n => .decimal n.toRat (operandScale op a shape)) := fun x hx =>
    castValue_fits (fun n hn => ((eval_sound row left hleft x hx).scaled n a hn hls).mono hale)
      fun n hn => abs_lt_pow_mono ((hl.bounded x hx).digits n a hn hls) haroom
  have hy : ∀ y, (sqlOf lib types true right).eval row = .ok y → castValue (.decimal (precisionOf shape) (operandScale op b shape)) y =
      .ok (y.map fun n => .decimal n.toRat (operandScale op b shape)) := fun y hy =>
    castValue_fits (fun n hn => ((eval_sound row right hright y hy).scaled n b hn hrs).mono hble)
      fun n hn => abs_lt_pow_mono ((hr.bounded y hy).digits n b hn hrs) hbroom
  -- What the operation gives, before the last cast.
  have hz : ∀ z, (SqlExpression.binary operator
      (.cast (sqlOf lib types true left) (.decimal (precisionOf shape) (operandScale op a shape)))
      (.cast (sqlOf lib types true right) (.decimal (precisionOf shape) (operandScale op b shape)))).eval row = .ok z →
      ∀ n, z = some n → OnGrid shape.2 n.toRat ∧ |n.toRat| < 10 ^ shape.1 := by
    intro z hz n hn
    simp only [eval, bind_eq_ok] at hz
    obtain ⟨x', ⟨x, hxl, hx'⟩, y', ⟨y, hyr, hy'⟩, hz⟩ := hz
    obtain ⟨-, hfrom⟩ := applyArithmetic_ok hoperator hop hz
    obtain ⟨m, k, rfl, rfl, hmk⟩ := hfrom n hn
    obtain ⟨p, rfl, rfl⟩ := Option.map_eq_some_iff.mp (Except.ok.inj ((hx x hxl).symm.trans hx'))
    obtain ⟨q, rfl, rfl⟩ := Option.map_eq_some_iff.mp (Except.ok.inj ((hy y hyr).symm.trans hy'))
    have hpgrid := ((eval_sound row left hleft _ hxl).scaled p a rfl hls).mono hale
    have hqgrid := ((eval_sound row right hright _ hyr).scaled q b rfl hrs).mono hble
    have hp := (hl.bounded _ hxl).digits p a rfl hls
    have hq := (hr.bounded _ hyr).digits q b rfl hrs
    rw [arithmetic_ok hmk]
    refine ⟨hpgrid.apply hqgrid hscale, ?_⟩
    rw [hdigits]
    by_cases hmultiply : op = .multiply
    · rw [if_pos hmultiply]
      subst hmultiply
      exact abs_mul_lt hp hq
    · rw [if_neg hmultiply]
      exact abs_apply_lt hmultiply (abs_lt_pow_mono hp (le_max_left _ _)) (abs_lt_pow_mono hq (le_max_right _ _))
  have hlast : ∀ z, (SqlExpression.binary operator
      (.cast (sqlOf lib types true left) (.decimal (precisionOf shape) (operandScale op a shape)))
      (.cast (sqlOf lib types true right) (.decimal (precisionOf shape) (operandScale op b shape)))).eval row = .ok z →
      castValue (.decimal (precisionOf shape) shape.2) z = .ok (z.map fun n => .decimal n.toRat shape.2) := fun z hzv =>
    castValue_fits (fun n hn => (hz z hzv n hn).1) fun n hn => abs_lt_pow_mono (hz z hzv n hn).2 (precision_room shape)
  have hxcast : (SqlExpression.cast (sqlOf lib types true left) (.decimal (precisionOf shape) (operandScale op a shape))).eval row ≠
      .error .cast := by
    rw [eval]
    exact bind_not_cast (hl.casts _ (self_mem_parts _)) fun x hxl h => by rw [hx x hxl] at h; cases h
  have hycast : (SqlExpression.cast (sqlOf lib types true right) (.decimal (precisionOf shape) (operandScale op b shape))).eval row ≠
      .error .cast := by
    rw [eval]
    exact bind_not_cast (hr.casts _ (self_mem_parts _)) fun y hyr h => by rw [hy y hyr] at h; cases h
  have hbinary : (SqlExpression.binary operator
      (.cast (sqlOf lib types true left) (.decimal (precisionOf shape) (operandScale op a shape)))
      (.cast (sqlOf lib types true right) (.decimal (precisionOf shape) (operandScale op b shape)))).eval row ≠ .error .cast := by
    rw [eval]
    exact bind_not_cast hxcast fun _ _ => bind_not_cast hycast fun _ _ => applyArithmetic_not_cast _ _ _
  refine ⟨?_, ?_⟩
  · intro x hx
    simp only [parts, List.mem_cons, List.mem_append] at hx
    rcases hx with rfl | rfl | (rfl | hx) | (rfl | hx)
    · rw [eval]
      exact bind_not_cast hbinary fun z hzv h => by rw [hlast z hzv] at h; cases h
    · exact hbinary
    · exact hxcast
    · exact hl.casts x hx
    · exact hycast
    · exact hr.casts x hx
  · intro v hv
    rw [eval] at hv
    obtain ⟨z, hzv, hv⟩ := bind_eq_ok.mp hv
    obtain rfl := Except.ok.inj ((hlast z hzv).symm.trans hv)
    refine ⟨?_, ?_⟩
    · intro n shape' hn hshape'
      obtain rfl := Except.ok.inj (hshape.symm.trans hshape')
      obtain ⟨m, hm, rfl⟩ := Option.map_eq_some_iff.mp hn
      exact (hz z hzv m hm).2
    · intro n _ hinteger
      rw [htype] at hinteger
      cases hinteger

theorem held_integerCoalesce {e : TypedExpression} (hkind : e.kind = .coalesce) (htype : e.dataType = .integer)
    (hready : ∀ arg ∈ e.args, Ready lib types columns arg) (hintegers : ∀ arg ∈ e.args, arg.dataType = .integer)
    (hargs : ∀ arg ∈ e.args, Held lib types row arg (sqlOf lib types true arg)) :
    Held lib types row e (.coalesce (e.args.map (sqlOf lib types true))) := by
  refine ⟨?_, ?_⟩
  · intro x hx
    simp only [parts, partsOf_eq, List.flatMap_map, List.mem_cons, List.mem_flatMap] at hx
    rcases hx with rfl | ⟨arg, harg, hx⟩
    · rw [eval]
      refine firstValue_not_cast row fun y hy => ?_
      obtain ⟨arg, harg, rfl⟩ := List.mem_map.mp hy
      exact (hargs arg harg).casts _ (self_mem_parts _)
    · exact (hargs arg harg).casts x hx
  · intro v hv
    rw [eval] at hv
    obtain ⟨-, hfrom⟩ := firstValue_ok row (fun arg harg w hw => (eval_sound row arg (hready arg harg) w hw).exact) hv
    have hvalue : ∀ n, v = some n → ∃ m, n = .integer m false ∧ inRange false m = true := by
      intro n hn
      obtain ⟨arg, harg, heval⟩ := hfrom n hn
      exact ((hargs arg harg).bounded _ heval).integer n rfl (hintegers arg harg)
    refine ⟨?_, fun n hn _ => hvalue n hn⟩
    intro n shape hn hshape
    rw [shape_integerOperation (by rw [hkind]; exact ⟨by decide, by decide⟩) htype] at hshape
    obtain rfl := Except.ok.inj hshape
    obtain ⟨m, rfl, hrange⟩ := hvalue n hn
    exact abs_integer_lt hrange

theorem held_decimalCoalesce {e : TypedExpression} {shapes : List (Int × Int)} {shape : Int × Int} (htype : e.dataType = .decimal)
    (hshapes : decimalExpressionShapes lib types e.args = .ok shapes) (hshape : decimalExpressionShape lib types e = .ok shape)
    (hcommon : CommonShape shapes shape) (hready : ∀ arg ∈ e.args, Ready lib types columns arg)
    (hargs : ∀ arg ∈ e.args, Held lib types row arg (sqlOf lib types true arg)) :
    Held lib types row e (.coalesce (e.args.map fun arg => .cast (sqlOf lib types true arg) (.decimal (precisionOf shape) shape.2))) := by
  have hcast : ∀ arg ∈ e.args, ∀ x, (sqlOf lib types true arg).eval row = .ok x →
      castValue (.decimal (precisionOf shape) shape.2) x = .ok (x.map fun n => .decimal n.toRat shape.2) ∧
        ∀ n, x = some n → |n.toRat| < 10 ^ shape.1 := by
    intro arg harg x hx
    obtain ⟨argshape, hmem, hargshape⟩ := mem_of_forall₂ (decimalExpressionShapes_ok.mp hshapes).flip harg
    have hs := eval_sound row arg (hready arg harg) x hx
    have hlt : ∀ n, x = some n → |n.toRat| < 10 ^ shape.1 := fun n hn =>
      abs_lt_pow_mono (((hargs arg harg).bounded x hx).digits n argshape hn hargshape) (hcommon.digits argshape hmem)
    refine ⟨castValue_fits ?_ ?_, hlt⟩
    · exact fun n hn => (hs.scaled n argshape hn hargshape).mono (hcommon.scale argshape hmem)
    · exact fun n hn => abs_lt_pow_mono (hlt n hn) (precision_room shape)
  have hcasts : ∀ arg ∈ e.args,
      (SqlExpression.cast (sqlOf lib types true arg) (.decimal (precisionOf shape) shape.2)).eval row ≠ .error .cast := by
    intro arg harg
    rw [eval]
    refine bind_not_cast ((hargs arg harg).casts _ (self_mem_parts _)) fun x hx h => ?_
    rw [(hcast arg harg x hx).1] at h
    cases h
  refine ⟨?_, ?_⟩
  · intro x hx
    simp only [parts, partsOf_eq, List.flatMap_map, List.mem_cons, List.mem_flatMap] at hx
    rcases hx with rfl | ⟨arg, harg, rfl | hx⟩
    · rw [eval]
      refine firstValue_not_cast row fun y hy => ?_
      obtain ⟨arg, harg, rfl⟩ := List.mem_map.mp hy
      exact hcasts arg harg
    · exact hcasts arg harg
    · exact (hargs arg harg).casts x hx
  · intro v hv
    refine ⟨?_, ?_⟩
    · intro n shape' hn hshape'
      obtain rfl := Except.ok.inj (hshape.symm.trans hshape')
      have hvalue : ∀ arg ∈ e.args, ∀ w,
          (SqlExpression.cast (sqlOf lib types true arg) (.decimal (precisionOf shape) shape.2)).eval row = .ok w →
          w.map SqlNumber.toRat = exactValue lib row arg := by
        intro arg harg w hw
        rw [eval] at hw
        obtain ⟨x, hx, hw⟩ := bind_eq_ok.mp hw
        obtain rfl := Except.ok.inj ((hcast arg harg x hx).1.symm.trans hw)
        rw [← (eval_sound row arg (hready arg harg) x hx).exact, Option.map_map]
        rfl
      rw [eval] at hv
      obtain ⟨arg, harg, heval⟩ := (firstValue_ok row hvalue hv).2 n hn
      rw [eval] at heval
      obtain ⟨x, hx, heval⟩ := bind_eq_ok.mp heval
      obtain ⟨m, rfl, rfl⟩ := Option.map_eq_some_iff.mp (Except.ok.inj ((hcast arg harg x hx).1.symm.trans heval))
      exact (hcast arg harg _ hx).2 m rfl
    · intro n _ hinteger
      rw [htype] at hinteger
      cases hinteger

/-- Where no shape is capped and no integer column unsigned, every cast holds its value. -/
theorem casts_hold : ∀ e, Ready lib types columns e → Fits types lib e → SignedColumns types e →
    Held lib types row e (sqlOf lib types true e) := by
  refine expression_induction fun e ih hready hfits hsigned => ?_
  have hform := exactForm hready
  generalize sqlOf lib types true e = tree at hform ⊢
  have hheld : (∀ arg ∈ e.args, Ready lib types columns arg) →
      ∀ arg ∈ e.args, Held lib types row arg (sqlOf lib types true arg) := fun hargs arg harg =>
    ih arg harg (hargs arg harg) (fits_args hfits arg harg) (signed_args hsigned arg harg)
  cases hform with
  | column name hkind hname hagrees => exact held_column row hkind hname hagrees hsigned
  | integerLiteral hkind htype hnative => exact held_integerLiteral row hkind htype hnative
  | decimalLiteral d hkind htype hnative => exact held_decimalLiteral row hkind htype hnative
  | decimalNull => exact held_decimalNull row e
  | @integerOperation op operator left right hop htype hargs hchildren hintegers hoperator =>
    have hleft : left ∈ e.args := by simp [hargs]
    have hright : right ∈ e.args := by simp [hargs]
    exact held_integerOperation row hop htype hoperator ⟨hintegers left hleft, hintegers right hright⟩
      (hheld hchildren left hleft) (hheld hchildren right hright)
  | @decimalOperation op operator left right a b shape hop htype hargs hchildren hoperator hls hrs hshape hcombined =>
    have hleft : left ∈ e.args := by simp [hargs]
    have hright : right ∈ e.args := by simp [hargs]
    exact held_decimalOperation row hop htype hargs hoperator hfits hls hrs hshape hcombined (hchildren left hleft)
      (hchildren right hright) (hheld hchildren left hleft) (hheld hchildren right hright)
  | integerCoalesce hkind htype hchildren hintegers =>
    exact held_integerCoalesce row hkind htype hchildren hintegers (hheld hchildren)
  | decimalCoalesce hkind htype hchildren hshapes hshape hcommon =>
    exact held_decimalCoalesce row htype hshapes hshape hcommon hchildren (hheld hchildren)

end

/-! ## The rendered text -/

/-- A decimal expression that is rendered is exact over every row or fails; what is written
    are decimal types, where no column has more digits after the point than in all
    (`DecimalColumns`, as in a SQL decimal column); and it does not fail for a cast that was
    put in, where 38 digits are enough for each of its parts and the integer columns are
    signed. -/
theorem rendered_exact {lib : Libraries} {types : List (String × ArrowType)} {columns : List String} {e : TypedExpression}
    {r : RenderedExpression} (htree : ExactTree types e) (hr : renderExpression lib types true columns e = .ok r) :
    Writes columns r (sqlOf lib types true e) ∧
      (∀ (row : Row types) (v : Option SqlNumber), (sqlOf lib types true e).eval row = .ok v →
        v.map SqlNumber.toRat = exactValue lib row e) ∧
      (DecimalColumns types → ∀ x ∈ (sqlOf lib types true e).parts, WellTyped x) ∧
      (Fits types lib e → SignedColumns types e →
        ∀ (row : Row types), ∀ x ∈ (sqlOf lib types true e).parts, x.eval row ≠ .error .cast) := by
  have hready : Ready lib types columns e := ⟨htree, r, hr⟩
  refine ⟨renderExpression_writes hr, ?_, fun hcolumns => written_digits hcolumns e hready, ?_⟩
  · exact fun row v hv => (eval_sound row e hready v hv).exact
  · exact fun hfits hsigned row => (casts_hold row e hready hfits hsigned).casts

def priceTypes : List (String × ArrowType) := [("price", .decimal 128 5 2 (by decide)), ("quantity", .integer .w32 false)]

def priceLibraries : Libraries :=
  { bareLibraries with decimal := fun text => if text = "0.125" then some (.finite ⟨false, 125, -3⟩) else none }

/-- `(price + 0.125) * quantity`. -/
def total : TypedExpression :=
  .mk .multiply .decimal none .null
    [.mk .add .decimal none .null [.mk .column .decimal (some "price") .null [], .mk .literal .decimal none (.str "0.125") []],
      .mk .column .integer (some "quantity") .null []]

/-- 4 at 2.50. -/
def priceRow : Row priceTypes where
  cell name := if name = "price" then some (.decimal (5 / 2) 2) else if name = "quantity" then some (.integer 4 false) else none
  holds := by
    intro name type n htype hcell
    by_cases hprice : name = "price"
    · subst hprice
      obtain rfl := Option.some.inj htype
      obtain rfl := Option.some.inj hcell
      exact ⟨5 / 2, rfl, ⟨250, by norm_num⟩, by norm_num [abs_of_pos]⟩
    · rw [if_neg hprice] at hcell
      by_cases hquantity : name = "quantity"
      · subst hquantity
        obtain rfl := Option.some.inj htype
        obtain rfl := Option.some.inj hcell
        exact ⟨4, rfl, by decide⟩
      · rw [if_neg hquantity] at hcell
        cases hcell

theorem total_exact :
    (∀ v, (sqlOf priceLibraries priceTypes true total).eval priceRow = .ok v → v.map SqlNumber.toRat = some (21 / 2)) ∧
      (∀ x ∈ (sqlOf priceLibraries priceTypes true total).parts, WellTyped x) ∧
      ∀ x ∈ (sqlOf priceLibraries priceTypes true total).parts, x.eval priceRow ≠ .error .cast := by
  obtain ⟨r, hr⟩ : ∃ r, renderExpression priceLibraries priceTypes true ["price", "quantity"] total = .ok r := ⟨_, rfl⟩
  have hcolumns : DecimalColumns priceTypes := by
    intro name bitWidth precision scale valid hlookup
    simp only [priceTypes, List.lookup] at hlookup
    split at hlookup
    · obtain ⟨rfl, rfl, rfl⟩ := ArrowType.decimal.inj (Option.some.inj hlookup)
      decide
    · split at hlookup <;> cases hlookup
  have htree : ExactTree priceTypes total := by
    refine ⟨.inl rfl, ⟨.inl rfl, ⟨"price", rfl, 128, 5, 2, by decide, rfl⟩, .inl rfl, trivial⟩, ?_, trivial⟩
    exact ⟨"quantity", rfl, .w32, false, rfl⟩
  have hfits : Fits priceTypes priceLibraries total := by
    refine ⟨?_, ⟨?_, ⟨?_, trivial⟩, ⟨?_, trivial⟩, trivial⟩, ⟨?_, trivial⟩, trivial⟩
    all_goals
      intro shape hshape
      obtain rfl := Except.ok.inj hshape
      decide
  have hsigned : SignedColumns priceTypes total := by
    refine ⟨?_, ⟨?_, ⟨?_, trivial⟩, ⟨?_, trivial⟩, trivial⟩, ⟨?_, trivial⟩, trivial⟩
    · intro hkind
      cases hkind
    · intro hkind
      cases hkind
    · intro _ hinteger
      cases hinteger
    · intro hkind
      cases hkind
    · intro _ _ width unsigned hlookup
      obtain ⟨-, rfl⟩ := ArrowType.integer.inj (Option.some.inj hlookup)
      rfl
  obtain ⟨-, hexact, hwritten, hcasts⟩ := rendered_exact htree hr
  refine ⟨?_, hwritten hcolumns, hcasts hfits hsigned priceRow⟩
  intro v hv
  rw [hexact priceRow v hv]
  decide +kernel

end DataNexus.Runtime
