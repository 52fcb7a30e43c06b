/-
  DataNexus.Runtime.ExactDecimals — decimal arithmetic that is exact or fails
  (`render_expression` with `exact_literals`).

  An operand is cast to a scale that is never less than the one its values have, so no cast
  rounds. A literal is bound as text, which is read back as what it is worth.

  - `exactForm`: the tree for each kind of expression, with the shapes it rests on.
  - `readFixed_formatFixed`: the text of a decimal.
  - `eval_sound`: what the tree gives over a row.
-/

import DataNexus.Lib.Keyed
import DataNexus.Runtime.DecimalRows

namespace DataNexus.Runtime

open Lib DataNexus.Runtime.SqlExpression

/-! ## What is rendered -/

section

variable (lib : Libraries) (types : List (String × ArrowType)) (columns : List String)

/-- An expression in question that is rendered. -/
def Ready (e : TypedExpression) : Prop :=
  ExactTree types e ∧ ∃ r, renderExpression lib types true columns e = .ok r

/-- The precision for a shape. -/
def precisionOf (shape : Int × Int) : Int := max 1 (shape.1 + shape.2)

/-- The scale an operand is cast to. -/
def operandScale (op : ArithmeticOperator) (operand shape : Int × Int) : Int :=
  if op = .multiply then operand.2 else shape.2

/-- The tree of an expression, by its kind and type. -/
inductive ExactForm (e : TypedExpression) : SqlExpression → Prop
  | column (name : String) (hkind : e.kind = .column) (hname : e.column = some name)
      (hagrees : Agrees types name e.dataType) : ExactForm e (.column name)
  | integerLiteral {native : NativeScalar} (hkind : e.kind = .literal) (htype : e.dataType = .integer)
      (hnative : nativeScalar lib .integer e.value = .ok native) :
      ExactForm e (.literal (.plain .integer) (.scalar e.value))
  | decimalLiteral (d : Decimal) (hkind : e.kind = .literal) (htype : e.dataType = .decimal)
      (hnative : nativeScalar lib .decimal e.value = .ok (.decimal d)) :
      ExactForm e (.literal (.decimal (max 1 (d.shape.1 + d.shape.2)) d.shape.2) (.scalar (.str d.formatFixed)))
  | decimalNull (hkind : e.kind = .literal) (htype : e.dataType = .decimal)
      (hnative : nativeScalar lib .decimal e.value = .ok .null) : ExactForm e (.literal (.decimal 1 0) (.scalar .null))
  | integerOperation {op : ArithmeticOperator} {operator : String} {left right : TypedExpression}
      (hop : e.kind.operator? = some op) (htype : e.dataType = .integer) (hargs : e.args = [left, right])
      (hready : ∀ arg ∈ e.args, Ready lib types columns arg) (hintegers : ∀ arg ∈ e.args, arg.dataType = .integer)
      (hoperator : arithmeticOf operator = some op) :
      ExactForm e (.binary operator (sqlOf lib types true left) (sqlOf lib types true right))
  | decimalOperation {op : ArithmeticOperator} {operator : String} {left right : TypedExpression} {a b shape : Int × Int}
      (hop : e.kind.operator? = some op) (htype : e.dataType = .decimal) (hargs : e.args = [left, right])
      (hready : ∀ arg ∈ e.args, Ready lib types columns arg) (hoperator : arithmeticOf operator = some op)
      (hleft : decimalExpressionShape lib types left = .ok a) (hright : decimalExpressionShape lib types right = .ok b)
      (hshape : decimalExpressionShape lib types e = .ok shape) (hcombined : OperationShape op a b shape) :
      ExactForm e (.cast (.binary operator
        (.cast (sqlOf lib types true left) (.decimal (precisionOf shape) (operandScale op a shape)))
        (.cast (sqlOf lib types true right) (.decimal (precisionOf shape) (operandScale op b shape))))
        (.decimal (precisionOf shape) shape.2))
  | integerCoalesce (hkind : e.kind = .coalesce) (htype : e.dataType = .integer)
      (hready : ∀ arg ∈ e.args, Ready lib types columns arg) (hintegers : ∀ arg ∈ e.args, arg.dataType = .integer) :
      ExactForm e (.coalesce (e.args.map (sqlOf lib types true)))
  | decimalCoalesce {shapes : List (Int × Int)} {shape : Int × Int} (hkind : e.kind = .coalesce) (htype : e.dataType = .decimal)
      (hready : ∀ arg ∈ e.args, Ready lib types columns arg)
      (hshapes : decimalExpressionShapes lib types e.args = .ok shapes)
      (hshape : decimalExpressionShape lib types e = .ok shape) (hcommon : CommonShape shapes shape) :
      ExactForm e (.coalesce (e.args.map fun arg => .cast (sqlOf lib types true arg) (.decimal (precisionOf shape) shape.2)))

variable {lib types columns}

theorem sqlsOf_eq (args : List TypedExpression) : sqlsOf lib types true args = args.map (sqlOf lib types true) := by
  induction args with
  | nil => rfl
  | cons arg args ih => rw [sqlsOf, ih, List.map_cons]

theorem renderExpressions_ok {args : List TypedExpression} {rs : List RenderedExpression} :
    renderExpressions lib types true columns args = .ok rs ↔
      List.Forall₂ (fun arg r => renderExpression lib types true columns arg = .ok r) args rs := by
  induction args generalizing rs with
  | nil => simp [renderExpressions, eq_comm]
  | cons arg args ih =>
    simp only [renderExpressions, bind_eq_ok, pure_eq_ok, List.forall₂_cons_left_iff, ih]
    constructor
    · rintro ⟨first, hfirst, rest, hrest, rfl⟩
      exact ⟨first, rest, hfirst, hrest, rfl⟩
    · rintro ⟨first, rest, hfirst, hrest, rfl⟩
      exact ⟨first, hfirst, rest, hrest, rfl⟩

/-- The kinds that have arguments. -/
def IsOperation (kind : ExpressionKind) : Prop := kind ≠ .column ∧ kind ≠ .literal

theorem sqlOf_operation {e : TypedExpression} (hkind : IsOperation e.kind) :
    sqlOf lib types true e = operationSql lib types true e (e.args.map (sqlOf lib types true)) := by
  obtain ⟨kind, dataType, column, value, args⟩ := e
  obtain ⟨hcolumn, hliteral⟩ := hkind
  rw [← sqlsOf_eq]
  cases kind <;> first | exact (hcolumn rfl).elim | exact (hliteral rfl).elim | rfl

theorem renderExpression_operation {e : TypedExpression} (hkind : IsOperation e.kind) {r : RenderedExpression}
    (h : renderExpression lib types true columns e = .ok r) :
    ∃ rendered, List.Forall₂ (fun arg r => renderExpression lib types true columns arg = .ok r) e.args rendered ∧
      renderOperation lib types true e rendered = .ok r := by
  obtain ⟨kind, dataType, column, value, args⟩ := e
  obtain ⟨hcolumn, hliteral⟩ := hkind
  have hrendered : ∃ rendered, renderExpressions lib types true columns args = .ok rendered ∧
      renderOperation lib types true (.mk kind dataType column value args) rendered = .ok r := by
    cases kind <;> first
      | exact (hcolumn rfl).elim
      | exact (hliteral rfl).elim
      | simpa only [renderExpression, bind_eq_ok] using h
  obtain ⟨rendered, hargs, hoperation⟩ := hrendered
  exact ⟨rendered, renderExpressions_ok.mp hargs, hoperation⟩

theorem isExactNumeric_of_exactTree : ∀ e, ExactTree types e → isExactNumeric e = true := by
  refine typedExpression_induction fun kind dataType column value args ih h => ?_
  have hall : (∀ arg ∈ args, ExactTree types arg) → allExactNumeric args = true := by
    intro hargs
    clear h
    induction args with
    | nil => rfl
    | cons arg args iha =>
      rw [allExactNumeric, ih arg List.mem_cons_self (hargs arg List.mem_cons_self),
        iha (fun a ha => ih a (List.mem_cons_of_mem _ ha)) (fun a ha => hargs a (List.mem_cons_of_mem _ ha))]
      rfl
  cases kind with
  | column =>
    obtain ⟨name, -, hagrees⟩ := h
    cases dataType <;> first | rfl | exact hagrees.elim
  | literal => rcases h with rfl | rfl <;> rfl
  | add | subtract | multiply | coalesce =>
    obtain ⟨htype, hargs⟩ := h
    have hargs := hall (exactTrees_iff.mp hargs)
    rcases htype with rfl | ⟨rfl, -⟩ <;> simp [isExactNumeric, hargs, ExpressionKind.isDecimalArithmetic]
  | _ => exact h.elim

theorem operator_kind {kind : ExpressionKind} {op : ArithmeticOperator} (hop : kind.operator? = some op) :
    IsOperation kind ∧ kind.isDecimalArithmetic = true ∧ (kind = .multiply ↔ op = .multiply) ∧
      ∃ operator, binaryText kind = some operator ∧ arithmeticOf operator = some op := by
  cases kind <;> cases hop <;> exact ⟨⟨by decide, by decide⟩, rfl, by decide, _, rfl, rfl⟩

/-- An operation that is rendered has two arguments; a decimal one has a shape. -/
theorem renderOperation_binary {e : TypedExpression} {rendered : List RenderedExpression} {r : RenderedExpression}
    {op : ArithmeticOperator} (hop : e.kind.operator? = some op) (h : renderOperation lib types true e rendered = .ok r) :
    ∃ left right, e.args = [left, right] ∧
      (e.dataType = .decimal → isExactNumeric e = true → ∃ shape, decimalExpressionShape lib types e = .ok shape) := by
  obtain ⟨-, harithmetic, -, operator, htext, -⟩ := operator_kind hop
  unfold renderOperation at h
  rw [htext] at h
  split at h
  · rename_i left right x y _ hargs
    refine ⟨left, right, hargs, ?_⟩
    intro htype hexact
    simp only [renderBinary, harithmetic, htype, hexact, Bool.and_self, beq_self_eq_true, if_true, bind_eq_ok] at h
    obtain ⟨shape, hshape, -⟩ := h
    exact ⟨shape, hshape⟩
  · cases h
  all_goals contradiction

theorem renderCoalesce_shape {e : TypedExpression} {rendered : List RenderedExpression} {r : RenderedExpression}
    (hkind : e.kind = .coalesce) (htype : e.dataType = .decimal) (h : renderOperation lib types true e rendered = .ok r) :
    ∃ shape, decimalExpressionShape lib types e = .ok shape := by
  simp only [renderOperation, hkind, binaryText, renderCoalesce, htype, bind_eq_ok, Bool.true_and, beq_self_eq_true, if_true] at h
  obtain ⟨_, -, shape, hshape, -⟩ := h
  exact ⟨shape, hshape⟩

theorem renderLiteral_native {dataType : ScalarType} {value : ScalarValue} {r : RenderedExpression}
    (h : renderLiteral lib true dataType value = .ok r) : ∃ native, nativeScalar lib dataType value = .ok native := by
  simp only [renderLiteral, if_true, bind_eq_ok] at h
  obtain ⟨native, hnative, -⟩ := h
  cases hvalue : nativeScalar lib dataType value with
  | error message => simp [hvalue, Except.mapError] at hnative
  | ok native => exact ⟨native, rfl⟩

theorem decimalShape_operation {e : TypedExpression} (htype : e.dataType = .decimal) (hkind : IsOperation e.kind) {shape : Int × Int}
    (h : decimalExpressionShape lib types e = .ok shape) :
    ∃ shapes, decimalExpressionShapes lib types e.args = .ok shapes ∧ combineShapes e.kind shapes = .ok shape := by
  obtain ⟨kind, dataType, column, value, args⟩ := e
  obtain ⟨hcolumn, hliteral⟩ := hkind
  obtain rfl : dataType = .decimal := htype
  cases kind <;> first
    | exact (hcolumn rfl).elim
    | exact (hliteral rfl).elim
    | simpa only [decimalExpressionShape, bind_eq_ok, TypedExpression.kind, TypedExpression.args] using h

theorem exactForm {e : TypedExpression} (h : Ready lib types columns e) : ExactForm lib types columns e (sqlOf lib types true e) := by
  obtain ⟨htree, r, hr⟩ := h
  have hexact := isExactNumeric_of_exactTree e htree
  -- An operation's arguments are of the same kind and rendered, too.
  have hchildren : IsOperation e.kind → (∀ arg ∈ e.args, ExactTree types arg) → ∀ arg ∈ e.args, Ready lib types columns arg := by
    intro hkind htrees arg harg
    obtain ⟨rendered, hrendered, -⟩ := renderExpression_operation hkind hr
    obtain ⟨made, -, hmade⟩ := mem_of_forall₂ hrendered.flip harg
    exact ⟨htrees arg harg, made, hmade⟩
  have hoperation : ∀ op, e.kind.operator? = some op →
      (e.dataType = .decimal ∨ e.dataType = .integer ∧ ∀ arg ∈ e.args, arg.dataType = .integer) →
      (∀ arg ∈ e.args, ExactTree types arg) → ExactForm lib types columns e (sqlOf lib types true e) := by
    intro op hop htype htrees
    obtain ⟨hkind, harithmetic, hmultiply, operator, htext, hoperator⟩ := operator_kind hop
    obtain ⟨rendered, -, hmade⟩ := renderExpression_operation hkind hr
    obtain ⟨left, right, hargs, hshapes⟩ := renderOperation_binary hop hmade
    have hready := hchildren hkind htrees
    rw [sqlOf_operation hkind]
    simp only [operationSql, htext, hargs, List.map_cons, List.map_nil]
    rcases htype with htype | ⟨htype, hintegers⟩
    · obtain ⟨shape, hshape⟩ := hshapes htype hexact
      obtain ⟨shapes, hargshapes, hcombine⟩ := decimalShape_operation htype hkind hshape
      rw [hargs, decimalExpressionShapes_ok] at hargshapes
      obtain ⟨a, _, hleft, hrest, rfl⟩ := List.forall₂_cons_left_iff.mp hargshapes
      obtain ⟨b, _, hright, hnil, rfl⟩ := List.forall₂_cons_left_iff.mp hrest
      obtain rfl := List.forall₂_nil_left_iff.mp hnil
      have hcasts : castsOperation true e = true := by simp [castsOperation, harithmetic, htype, hexact]
      have hform := ExactForm.decimalOperation hop htype hargs hready hoperator hleft hright hshape (combineShapes_pair hop hcombine)
      simpa only [hcasts, if_true, operandType, shapeType, shapeOf_eq hshape, shapeOf_eq hleft, shapeOf_eq hright, hmultiply,
        precisionOf, operandScale] using hform
    · have hcasts : castsOperation true e = false := by simp [castsOperation, htype]
      simpa only [hcasts, Bool.false_eq_true, if_false] using
        ExactForm.integerOperation hop htype hargs hready hintegers hoperator
  obtain ⟨kind, dataType, column, value, args⟩ := e
  cases kind with
  | column =>
    obtain ⟨name, rfl, hagrees⟩ := htree
    exact .column name rfl rfl hagrees
  | literal =>
    obtain ⟨native, hnative⟩ := renderLiteral_native hr
    rcases htree with rfl | rfl
    · rcases nativeScalar_decimal hnative with rfl | ⟨d, rfl, -⟩
      · have hsql : sqlOf lib types true (.mk .literal .decimal column value args) = .literal (.decimal 1 0) (.scalar .null) := by
          simp [sqlOf, literalSql, hnative]
        rw [hsql]
        exact .decimalNull rfl rfl hnative
      · have hsql : sqlOf lib types true (.mk .literal .decimal column value args) =
            .literal (.decimal (max 1 (d.shape.1 + d.shape.2)) d.shape.2) (.scalar (.str d.formatFixed)) := by
          simp [sqlOf, literalSql, hnative]
        rw [hsql]
        exact .decimalLiteral d rfl rfl hnative
    · exact .integerLiteral rfl rfl hnative
  | add => exact hoperation .add rfl htree.1 (exactTrees_iff.mp htree.2)
  | subtract => exact hoperation .subtract rfl htree.1 (exactTrees_iff.mp htree.2)
  | multiply => exact hoperation .multiply rfl htree.1 (exactTrees_iff.mp htree.2)
  | coalesce =>
    have hkind : IsOperation .coalesce := ⟨by decide, by decide⟩
    have hready := hchildren hkind (exactTrees_iff.mp htree.2)
    obtain ⟨rendered, -, hmade⟩ := renderExpression_operation (e := .mk .coalesce dataType column value args) hkind hr
    rw [sqlOf_operation (e := .mk .coalesce dataType column value args) hkind]
    rcases htree.1 with rfl | ⟨rfl, hintegers⟩
    · obtain ⟨shape, hshape⟩ := renderCoalesce_shape rfl rfl hmade
      obtain ⟨shapes, hshapes, hcombine⟩ :=
        decimalShape_operation (e := .mk .coalesce .decimal column value args) rfl hkind hshape
      have hform := ExactForm.decimalCoalesce rfl rfl hready hshapes hshape (combineShapes_coalesce hcombine).1
      simpa only [operationSql, TypedExpression.kind, binaryText, TypedExpression.dataType, Bool.true_and, beq_self_eq_true, if_true,
        List.map_map, Function.comp_def, shapeOf_eq hshape, shapeType, precisionOf] using hform
    · exact .integerCoalesce rfl rfl hready hintegers
  | _ => exact htree.elim

end

/-! ## Literals -/

theorem lt_pow_toDigits {n k : Nat} (hk : 0 < k) (h : n < 10 ^ k) : digitCount n ≤ k := (digitCount_le_iff hk).mpr h

theorem length_padded {width n : Nat} (hwidth : 0 < width) (h : n < 10 ^ width) : (Decimal.padded width n).length = width := by
  have hle := lt_pow_toDigits hwidth h
  have hlength : (Nat.toDigits 10 n).length = digitCount n := rfl
  simp only [Decimal.padded, List.length_append, List.length_replicate, hlength]
  omega

theorem isDigit_padded {width n : Nat} : ∀ c ∈ Decimal.padded width n, c.isDigit = true := by
  intro c hc
  rcases List.mem_append.mp hc with hc | hc
  · rw [List.eq_of_mem_replicate hc]
    rfl
  · exact Nat.isDigit_of_mem_toDigits (by decide) (by decide) hc

theorem value_padded (width n : Nat) : Nat.ofDigitChars 10 (Decimal.padded width n) 0 = n := by
  rw [Decimal.padded, Nat.ofDigitChars_append, Nat.ofDigitChars_replicate_zero, Nat.mul_zero, Nat.ofDigitChars_ten_toDigits]

/-- `format(value, "f")` is worth the value. -/
theorem readFixed_formatFixed (d : Decimal) : readFixed d.formatFixed = some d.toRat := by
  have hdigits : ∀ n : Nat, ∀ c ∈ Nat.toDigits 10 n, c.isDigit = true :=
    fun n c hc => Nat.isDigit_of_mem_toDigits (by decide) (by decide) hc
  -- The digits without the sign, and that they do not start with one.
  obtain ⟨cs, hcs, hread, hsign⟩ : ∃ cs : List Char,
      d.formatFixed = String.ofList (if d.negative then '-' :: cs else cs) ∧
      readMagnitude cs = some ((d.coefficient : ℚ) * 10 ^ d.exponent) ∧ cs.head? ≠ some '-' := by
    by_cases hexponent : 0 ≤ d.exponent
    · obtain ⟨k, hk⟩ : ∃ k : Nat, d.exponent = k := ⟨d.exponent.toNat, by omega⟩
      refine ⟨Nat.toDigits 10 (d.coefficient * 10 ^ k), by simp [Decimal.formatFixed, hk], ?_, ?_⟩
      · rw [readMagnitude_whole (hdigits _), Nat.ofDigitChars_ten_toDigits, hk, zpow_natCast]
        push_cast
        rfl
      · intro hhead
        have hdigit := hdigits _ _ (List.mem_of_mem_head? hhead)
        revert hdigit
        decide
    · obtain ⟨k, hk⟩ : ∃ k : Nat, -d.exponent = k := ⟨(-d.exponent).toNat, by omega⟩
      have hpos : 0 < k := by omega
      have hlt : d.coefficient % 10 ^ k < 10 ^ k := Nat.mod_lt _ (by positivity)
      refine ⟨Nat.toDigits 10 (d.coefficient / 10 ^ k) ++ '.' :: Decimal.padded k (d.coefficient % 10 ^ k), ?_, ?_, ?_⟩
      · simp [Decimal.formatFixed, hexponent, hk]
      · have hvalue : Nat.ofDigitChars 10 (Nat.toDigits 10 (d.coefficient / 10 ^ k) ++
            Decimal.padded k (d.coefficient % 10 ^ k)) 0 = d.coefficient := by
          rw [Nat.ofDigitChars_append, Nat.ofDigitChars_ten_toDigits, Nat.ofDigitChars_eq_ofDigitChars_zero,
            length_padded hpos hlt, value_padded, Nat.div_add_mod]
        rw [readMagnitude_point (hdigits _) isDigit_padded, hvalue, length_padded hpos hlt,
          show d.exponent = -(k : Int) by omega, zpow_neg, zpow_natCast, div_eq_mul_inv]
      · intro hhead
        have hne : Nat.toDigits 10 (d.coefficient / 10 ^ k) ≠ [] := by
          rw [← List.length_pos_iff]
          exact Nat.length_toDigits_pos
        rw [List.head?_append_of_ne_nil _ hne] at hhead
        have hdigit := hdigits _ _ (List.mem_of_mem_head? hhead)
        revert hdigit
        decide
  rw [readFixed, hcs, String.toList_ofList]
  cases hnegative : d.negative with
  | false =>
    simp only [Bool.false_eq_true, if_false]
    rw [if_neg hsign, hread]
    simp [Decimal.toRat, hnegative]
  | true =>
    simp only [if_true, List.head?_cons, List.tail_cons, hread, Option.map_some]
    simp [Decimal.toRat, hnegative]

theorem onGrid_shape (d : Decimal) : OnGrid d.shape.2 d.toRat := by
  have hmod : d.coefficient % 10 ^ ((d.shape.2 : Int) - (d.shape.2 : Int)).toNat = 0 := by simp [Nat.mod_one]
  exact (mod_eq_zero_iff d (Int.natCast_nonneg _)).mp hmod

theorem abs_toRat_lt (d : Decimal) : |d.toRat| < 10 ^ (d.shape.1 : Int) := by
  rw [zpow_natCast]
  exact (wholeDigits_le_iff _ _).mp (shape_digits d).ge

/-! ## No cast rounds -/

theorem expression_induction {P : TypedExpression → Prop} (h : ∀ e, (∀ arg ∈ e.args, P arg) → P e) : ∀ e, P e :=
  typedExpression_induction fun _ _ _ _ _ ih => h _ ih

section

variable {lib : Libraries} {types : List (String × ArrowType)} {columns : List String}

theorem nativeScalar_integer {value : ScalarValue} {native : NativeScalar} (h : nativeScalar lib .integer value = .ok native) :
    (value = .null ∧ native = .null) ∨ ∃ n, value = .int n ∧ native = .int n ∧ inRange false n = true := by
  cases value with
  | null => exact .inl ⟨rfl, (Except.ok.inj h).symm⟩
  | int n =>
    simp only [nativeScalar, bind_eq_ok, refuseIf_eq_ok, pure_eq_ok, Bool.or_eq_false_iff, decide_eq_false_iff_not] at h
    obtain ⟨_, ⟨hlow, hhigh⟩, rfl⟩ := h
    refine .inr ⟨n, rfl, rfl, ?_⟩
    simp only [inRange, Bool.false_eq_true, if_false, Bool.and_eq_true, decide_eq_true_eq]
    omega
  | str _ | float _ | bool _ => cases h

theorem shape_column {e : TypedExpression} {name : String} {shape : Int × Int} (hkind : e.kind = .column)
    (hname : e.column = some name) (h : decimalExpressionShape lib types e = .ok shape) :
    (∃ width unsigned, types.lookup name = some (.integer width unsigned) ∧
      shape = ((digitCount (2 ^ (width.bits - if unsigned then 0 else 1)) : Int), 0)) ∨
    ∃ precision scale valid, types.lookup name = some (.decimal 128 precision scale valid) ∧
      shape = ((precision : Int) - scale, scale) := by
  obtain ⟨kind, dataType, column, value, args⟩ := e
  obtain rfl : kind = .column := hkind
  obtain rfl : column = some name := hname
  cases dataType with
  | integer =>
    simp only [decimalExpressionShape, integerColumnShape, Option.getD_some] at h
    split at h
    · rename_i width unsigned hlookup
      exact .inl ⟨width, unsigned, hlookup, (Except.ok.inj h).symm⟩
    · cases h
  | decimal =>
    simp only [decimalExpressionShape, decimalColumnShape, Option.getD_some] at h
    split at h
    · rename_i precision scale valid hlookup
      exact .inr ⟨precision, scale, valid, hlookup, (Except.ok.inj h).symm⟩
    · cases h
  | _ => cases h

theorem shape_integerLiteral {e : TypedExpression} {native : NativeScalar} (hkind : e.kind = .literal)
    (htype : e.dataType = .integer) (hnative : nativeScalar lib .integer e.value = .ok native) :
    decimalExpressionShape lib types e = integerDigits native := by
  obtain ⟨kind, dataType, column, value, args⟩ := e
  obtain rfl : kind = .literal := hkind
  obtain rfl : dataType = .integer := htype
  have hnative : nativeScalar lib .integer value = .ok native := hnative
  simp [decimalExpressionShape, hnative, Except.mapError, bind, Except.bind]

theorem shape_decimalLiteral {e : TypedExpression} {native : NativeScalar} (hkind : e.kind = .literal)
    (htype : e.dataType = .decimal) (hnative : nativeScalar lib .decimal e.value = .ok native) :
    decimalExpressionShape lib types e = decimalDigits native := by
  obtain ⟨kind, dataType, column, value, args⟩ := e
  obtain rfl : kind = .literal := hkind
  obtain rfl : dataType = .decimal := htype
  have hnative : nativeScalar lib .decimal value = .ok native := hnative
  simp [decimalExpressionShape, hnative, Except.mapError, bind, Except.bind]

theorem decimalDigits_shape {d : Decimal} {shape : Int × Int} (h : decimalDigits (.decimal d) = .ok shape) :
    shape = ((d.shape.1 : Int), (d.shape.2 : Int)) ∧ d.shape.1 + d.shape.2 ≤ 38 := by
  simp only [decimalDigits, decimalShape] at h
  by_cases hfits : d.shape.1 + d.shape.2 > 38
  · simp [hfits, refuseIf, Except.mapError, bind, Except.bind] at h
  · simp [hfits, refuseIf, Except.mapError, bind, Except.bind, pure, Except.pure] at h
    exact ⟨h.symm, not_lt.mp hfits⟩

theorem shape_integerOperation {e : TypedExpression} (hkind : IsOperation e.kind) (htype : e.dataType = .integer) :
    decimalExpressionShape lib types e = .ok (19, 0) := by
  obtain ⟨kind, dataType, column, value, args⟩ := e
  obtain ⟨hcolumn, hliteral⟩ := hkind
  obtain rfl : dataType = .integer := htype
  cases kind <;> first | exact (hcolumn rfl).elim | exact (hliteral rfl).elim | rfl

/-- What is of an integer type has a shape, without digits after the point. -/
theorem shape_integer {e : TypedExpression} (h : Ready lib types columns e) (htype : e.dataType = .integer) :
    ∃ digits, decimalExpressionShape lib types e = .ok (digits, 0) := by
  have hform := exactForm h
  generalize sqlOf lib types true e = tree at hform
  cases hform with
  | column name hkind hname hagrees =>
    rw [htype] at hagrees
    obtain ⟨width, unsigned, hlookup⟩ := hagrees
    obtain ⟨kind, dataType, column, value, args⟩ := e
    obtain rfl : kind = .column := hkind
    obtain rfl : column = some name := hname
    obtain rfl : dataType = .integer := htype
    simp [decimalExpressionShape, integerColumnShape, hlookup]
  | integerLiteral hkind _ hnative =>
    rw [shape_integerLiteral hkind htype hnative]
    rcases nativeScalar_integer hnative with ⟨-, rfl⟩ | ⟨n, -, rfl, -⟩
    · exact ⟨0, rfl⟩
    · exact ⟨_, rfl⟩
  | integerOperation hop => exact ⟨19, shape_integerOperation (operator_kind hop).1 htype⟩
  | integerCoalesce hkind => exact ⟨19, shape_integerOperation (by rw [hkind]; exact ⟨by decide, by decide⟩) htype⟩
  | decimalLiteral _ _ hdecimal | decimalNull _ hdecimal | decimalOperation _ hdecimal | decimalCoalesce _ hdecimal =>
    rw [htype] at hdecimal
    cases hdecimal

section

variable (row : Row types)

theorem exactValue_operation {e : TypedExpression} {op : ArithmeticOperator} (hop : e.kind.operator? = some op) :
    exactValue lib row e = exactOperation e.kind (e.args.map (exactValue lib row)) := by
  obtain ⟨kind, dataType, column, value, args⟩ := e
  rw [← exactValues_eq]
  cases kind <;> first | cases hop; done | rfl

theorem exactValue_coalesce {e : TypedExpression} (hkind : e.kind = .coalesce) :
    exactValue lib row e = (e.args.map (exactValue lib row)).findSome? id := by
  obtain ⟨kind, dataType, column, value, args⟩ := e
  obtain rfl : kind = .coalesce := hkind
  rw [← exactValues_eq]
  rfl

theorem exactValue_literal {e : TypedExpression} {native : NativeScalar} (hkind : e.kind = .literal)
    (hnative : nativeScalar lib e.dataType e.value = .ok native) : exactValue lib row e = native.toRat? := by
  obtain ⟨kind, dataType, column, value, args⟩ := e
  obtain rfl : kind = .literal := hkind
  have hnative : nativeScalar lib dataType value = .ok native := hnative
  simp [exactValue, hnative, Except.toOption]

theorem exactValue_column {e : TypedExpression} {name : String} (hkind : e.kind = .column) (hname : e.column = some name) :
    exactValue lib row e = (row.cell name).map SqlNumber.toRat := by
  obtain ⟨kind, dataType, column, value, args⟩ := e
  obtain rfl : kind = .column := hkind
  obtain rfl : column = some name := hname
  rfl

/-- An operation gives the exact result of its operands' values, or fails. -/
theorem applyArithmetic_ok {operator : String} {op : ArithmeticOperator} {kind : ExpressionKind} {x y v : Option SqlNumber}
    (hoperator : arithmeticOf operator = some op) (hop : kind.operator? = some op) (h : applyArithmetic operator x y = .ok v) :
    v.map SqlNumber.toRat = exactOperation kind [x.map SqlNumber.toRat, y.map SqlNumber.toRat] ∧
      ∀ n, v = some n → ∃ a b, x = some a ∧ y = some b ∧ arithmetic op a b = .ok n := by
  cases x with
  | none =>
    obtain rfl := Except.ok.inj h
    exact ⟨rfl, fun n hn => by cases hn⟩
  | some a =>
    cases y with
    | none =>
      obtain rfl := Except.ok.inj h
      exact ⟨rfl, fun n hn => by cases hn⟩
    | some b =>
      simp only [applyArithmetic, hoperator, bind_eq_ok, pure_eq_ok] at h
      obtain ⟨z, hz, rfl⟩ := h
      refine ⟨?_, ?_⟩
      · simp [exactOperation, hop, arithmetic_ok hz]
      · rintro n hn
        obtain rfl := Option.some.inj hn
        exact ⟨a, b, rfl, rfl, hz⟩

/-- A cast to a decimal with all the digits of the value after its point. -/
theorem castValue_ok {precision scale : Int} {w v : Option SqlNumber} (hgrid : ∀ n, w = some n → OnGrid scale n.toRat)
    (h : castValue (.decimal precision scale) w = .ok v) :
    v.map SqlNumber.toRat = w.map SqlNumber.toRat ∧ ∀ n, v = some n → OnGrid scale n.toRat := by
  cases w with
  | none =>
    obtain rfl := Except.ok.inj h
    exact ⟨rfl, fun n hn => by cases hn⟩
  | some m =>
    simp only [castValue, castTo, bind_eq_ok, pure_eq_ok] at h
    obtain ⟨_, ⟨q, hq, rfl⟩, rfl⟩ := h
    obtain rfl := castDecimal_onGrid (hgrid m rfl) hq
    refine ⟨rfl, ?_⟩
    rintro n hn
    obtain rfl := Option.some.inj hn
    exact hgrid m rfl

/-- COALESCE gives what its first value that is not null is. -/
theorem firstValue_ok {f : TypedExpression → SqlExpression} {args : List TypedExpression} {v : Option SqlNumber}
    (hargs : ∀ arg ∈ args, ∀ w, (f arg).eval row = .ok w → w.map SqlNumber.toRat = exactValue lib row arg)
    (h : firstValue row (args.map f) = .ok v) :
    v.map SqlNumber.toRat = (args.map (exactValue lib row)).findSome? id ∧
      ∀ n, v = some n → ∃ arg ∈ args, (f arg).eval row = .ok (some n) := by
  induction args with
  | nil =>
    obtain rfl := Except.ok.inj h
    exact ⟨rfl, fun n hn => by cases hn⟩
  | cons arg args ih =>
    simp only [List.map_cons, firstValue, bind_eq_ok] at h
    obtain ⟨w, hw, h⟩ := h
    have hexact := hargs arg List.mem_cons_self w hw
    cases w with
    | none =>
      obtain ⟨hvalue, hfrom⟩ := ih (fun a ha => hargs a (List.mem_cons_of_mem _ ha)) h
      have hnull : exactValue lib row arg = none := hexact.symm
      refine ⟨by simpa [hnull] using hvalue, ?_⟩
      intro n hn
      obtain ⟨a, ha, heval⟩ := hfrom n hn
      exact ⟨a, List.mem_cons_of_mem _ ha, heval⟩
    | some m =>
      obtain rfl := Except.ok.inj h
      have hvalue : exactValue lib row arg = some m.toRat := hexact.symm
      refine ⟨by simp [hvalue], ?_⟩
      rintro n hn
      obtain rfl := Option.some.inj hn
      exact ⟨arg, List.mem_cons_self, hw⟩

/-- The scales the operands are cast to hold those of their values, and give the result's. -/
theorem operandScale_le {op : ArithmeticOperator} {a b shape : Int × Int} (h : OperationShape op a b shape) :
    a.2 ≤ operandScale op a shape ∧ b.2 ≤ operandScale op b shape ∧
      if op = .multiply then shape.2 = operandScale op a shape + operandScale op b shape
      else operandScale op a shape = shape.2 ∧ operandScale op b shape = shape.2 := by
  have hscale := h.scale
  unfold operandScale
  by_cases hop : op = .multiply
  · rw [if_pos hop] at hscale
    simp only [if_pos hop]
    exact ⟨le_rfl, le_rfl, hscale⟩
  · rw [if_neg hop] at hscale
    simp only [if_neg hop]
    exact ⟨hscale ▸ le_max_left _ _, hscale ▸ le_max_right _ _, trivial, trivial⟩

/-- What a value of the tree says of the expression. -/
structure Sound (lib : Libraries) (e : TypedExpression) (v : Option SqlNumber) : Prop where
  exact : v.map SqlNumber.toRat = exactValue lib row e
  scaled : ∀ n shape, v = some n → decimalExpressionShape lib types e = .ok shape → OnGrid shape.2 n.toRat

/-- A column gives its cell, which is on the grid of the column's scale. -/
theorem sound_column {e : TypedExpression} {name : String} (hkind : e.kind = .column) (hname : e.column = some name)
    {v : Option SqlNumber} (h : (SqlExpression.column name).eval row = .ok v) : Sound row lib e v := by
  obtain rfl := Except.ok.inj h
  refine ⟨(exactValue_column row hkind hname).symm, ?_⟩
  intro n shape hcell hshape
  rcases shape_column hkind hname hshape with ⟨width, unsigned, hlookup, rfl⟩ | ⟨precision, scale, valid, hlookup, rfl⟩
  · obtain ⟨m, rfl, -⟩ := row.holds _ _ _ hlookup hcell
    exact .int m
  · obtain ⟨q, rfl, hgrid, -⟩ := row.holds _ _ _ hlookup hcell
    exact hgrid

theorem sound_integerLiteral {e : TypedExpression} (hready : Ready lib types columns e) {native : NativeScalar} (hkind : e.kind = .literal)
    (htype : e.dataType = .integer) (hnative : nativeScalar lib .integer e.value = .ok native) {v : Option SqlNumber}
    (h : (SqlExpression.literal (.plain .integer) (.scalar e.value)).eval row = .ok v) : Sound row lib e v := by
  have hexact := exactValue_literal row hkind (htype ▸ hnative)
  rcases nativeScalar_integer hnative with ⟨hvalue, rfl⟩ | ⟨m, hvalue, rfl, hrange⟩
  · rw [hvalue] at h
    obtain rfl := Except.ok.inj h
    exact ⟨hexact.symm, fun n _ hn => by cases hn⟩
  · have hvalid : castParameter (.plain .integer) (.scalar (.int m)) = .ok (some (.integer m false)) := by
      simp [castParameter, castTo, roundHalf_int, hrange, bind, Except.bind, pure, Except.pure, refuseIf]
    rw [hvalue] at h
    obtain rfl := Except.ok.inj (hvalid.symm.trans h)
    refine ⟨hexact.symm, ?_⟩
    rintro n shape hn hshape
    obtain rfl := Option.some.inj hn
    obtain ⟨digits, hinteger⟩ := shape_integer hready htype
    obtain rfl := Except.ok.inj (hinteger.symm.trans hshape)
    exact .int m

-- The equations of `eval` are made here, once for the operators that follow.
attribute [local simp] eval in
/-- The cast of a decimal literal keeps its digits: the type is the literal's own shape. -/
theorem sound_decimalLiteral {e : TypedExpression} {d : Decimal} (hkind : e.kind = .literal) (htype : e.dataType = .decimal)
    (hnative : nativeScalar lib .decimal e.value = .ok (.decimal d)) {v : Option SqlNumber}
    (h : (SqlExpression.literal (.decimal (max 1 (d.shape.1 + d.shape.2)) d.shape.2) (.scalar (.str d.formatFixed))).eval row = .ok v) :
    Sound row lib e v := by
  have hexact := exactValue_literal row hkind (htype ▸ hnative)
  have h : castValue (.decimal (max 1 (d.shape.1 + d.shape.2)) d.shape.2) (some (.decimal d.toRat 0)) = .ok v := by
    simpa only [eval, castParameter, readFixed_formatFixed, castValue, SqlNumber.toRat] using h
  obtain ⟨hvalue, hgrid⟩ := castValue_ok (fun n hn => by obtain rfl := Option.some.inj hn; exact onGrid_shape d) h
  refine ⟨by rw [hvalue, hexact]; rfl, ?_⟩
  intro n shape hn hshape
  rw [shape_decimalLiteral hkind htype hnative] at hshape
  obtain ⟨rfl, -⟩ := decimalDigits_shape hshape
  exact hgrid n hn

theorem sound_integerOperation {e left right : TypedExpression} {op : ArithmeticOperator} {operator : String}
    (hop : e.kind.operator? = some op) (htype : e.dataType = .integer) (hargs : e.args = [left, right])
    (hchildren : ∀ arg ∈ e.args, Ready lib types columns arg) (hintegers : ∀ arg ∈ e.args, arg.dataType = .integer)
    (hoperator : arithmeticOf operator = some op)
    (hsound : ∀ arg ∈ e.args, ∀ w, (sqlOf lib types true arg).eval row = .ok w → Sound row lib arg w) {v : Option SqlNumber}
    (h : (SqlExpression.binary operator (sqlOf lib types true left) (sqlOf lib types true right)).eval row = .ok v) :
    Sound row lib e v := by
  have hleft : left ∈ e.args := by simp [hargs]
  have hright : right ∈ e.args := by simp [hargs]
  simp only [eval, bind_eq_ok] at h
  obtain ⟨x, hx, y, hy, h⟩ := h
  have hl := hsound left hleft x hx
  have hr := hsound right hright y hy
  obtain ⟨hvalue, hfrom⟩ := applyArithmetic_ok hoperator hop h
  refine ⟨?_, ?_⟩
  · rw [hvalue, exactValue_operation row hop, hargs, hl.exact, hr.exact]
    rfl
  · intro n shape hn hshape
    rw [shape_integerOperation (operator_kind hop).1 htype] at hshape
    obtain rfl := Except.ok.inj hshape
    obtain ⟨a, b, ha, hb, hab⟩ := hfrom n hn
    obtain ⟨_, hls⟩ := shape_integer (hchildren left hleft) (hintegers left hleft)
    obtain ⟨_, hrs⟩ := shape_integer (hchildren right hright) (hintegers right hright)
    rw [arithmetic_ok hab]
    exact (hl.scaled a _ ha hls).apply (hr.scaled b _ hb hrs) (by split <;> simp)

/-- No cast of a decimal operation rounds: the operands' grids are within the scales they are
    cast to, and the result's is the one the operation gives. -/
theorem sound_decimalOperation {e left right : TypedExpression} {op : ArithmeticOperator} {operator : String} {a b shape : Int × Int}
    (hop : e.kind.operator? = some op) (hargs : e.args = [left, right]) (hoperator : arithmeticOf operator = some op)
    (hls : decimalExpressionShape lib types left = .ok a) (hrs : decimalExpressionShape lib types right = .ok b)
    (hshape : decimalExpressionShape lib types e = .ok shape) (hcombined : OperationShape op a b shape)
    (hsound : ∀ arg ∈ e.args, ∀ w, (sqlOf lib types true arg).eval row = .ok w → Sound row lib arg w) {v : Option SqlNumber}
    (h : (SqlExpression.cast (.binary operator
      (.cast (sqlOf lib types true left) (.decimal (precisionOf shape) (operandScale op a shape)))
      (.cast (sqlOf lib types true right) (.decimal (precisionOf shape) (operandScale op b shape))))
      (.decimal (precisionOf shape) shape.2)).eval row = .ok v) : Sound row lib e v := by
  have hleft : left ∈ e.args := by simp [hargs]
  have hright : right ∈ e.args := by simp [hargs]
  obtain ⟨hale, hble, hscale⟩ := operandScale_le hcombined
  simp only [eval, bind_eq_ok] at h
  obtain ⟨z, ⟨x', ⟨x, hx, hx'⟩, y', ⟨y, hy, hy'⟩, hz⟩, h⟩ := h
  have hl := hsound left hleft x hx
  have hr := hsound right hright y hy
  obtain ⟨hxvalue, hxgrid⟩ := castValue_ok (fun n hn => (hl.scaled n _ hn hls).mono hale) hx'
  obtain ⟨hyvalue, hygrid⟩ := castValue_ok (fun n hn => (hr.scaled n _ hn hrs).mono hble) hy'
  obtain ⟨hzvalue, hfrom⟩ := applyArithmetic_ok hoperator hop hz
  have hzgrid : ∀ n, z = some n → OnGrid shape.2 n.toRat := by
    intro n hn
    obtain ⟨m, k, hm, hk, hmk⟩ := hfrom n hn
    rw [arithmetic_ok hmk]
    exact (hxgrid m hm).apply (hygrid k hk) hscale
  obtain ⟨hvalue, hgrid⟩ := castValue_ok hzgrid h
  refine ⟨?_, ?_⟩
  · rw [hvalue, hzvalue, hxvalue, hyvalue, exactValue_operation row hop, hargs, hl.exact, hr.exact]
    rfl
  · intro n shape' hn hshape'
    obtain rfl := Except.ok.inj (hshape.symm.trans hshape')
    exact hgrid n hn

theorem sound_integerCoalesce {e : TypedExpression} (hkind : e.kind = .coalesce) (htype : e.dataType = .integer)
    (hchildren : ∀ arg ∈ e.args, Ready lib types columns arg) (hintegers : ∀ arg ∈ e.args, arg.dataType = .integer)
    (hsound : ∀ arg ∈ e.args, ∀ w, (sqlOf lib types true arg).eval row = .ok w → Sound row lib arg w) {v : Option SqlNumber}
    (h : (SqlExpression.coalesce (e.args.map (sqlOf lib types true))).eval row = .ok v) : Sound row lib e v := by
  obtain ⟨hvalue, hfrom⟩ := firstValue_ok row (fun arg harg w hw => (hsound arg harg w hw).exact) h
  refine ⟨by rw [hvalue, exactValue_coalesce row hkind], ?_⟩
  intro n shape hn hshape
  rw [shape_integerOperation (by rw [hkind]; exact ⟨by decide, by decide⟩) htype] at hshape
  obtain rfl := Except.ok.inj hshape
  obtain ⟨arg, harg, heval⟩ := hfrom n hn
  obtain ⟨_, hargshape⟩ := shape_integer (hchildren arg harg) (hintegers arg harg)
  have hgrid := (hsound arg harg _ heval).scaled n _ rfl hargshape
  exact hgrid

theorem sound_decimalCoalesce {e : TypedExpression} {shapes : List (Int × Int)} {shape : Int × Int} (hkind : e.kind = .coalesce)
    (hshapes : decimalExpressionShapes lib types e.args = .ok shapes) (hshape : decimalExpressionShape lib types e = .ok shape)
    (hcommon : CommonShape shapes shape)
    (hsound : ∀ arg ∈ e.args, ∀ w, (sqlOf lib types true arg).eval row = .ok w → Sound row lib arg w) {v : Option SqlNumber}
    (h : (SqlExpression.coalesce (e.args.map fun arg => .cast (sqlOf lib types true arg) (.decimal (precisionOf shape) shape.2))).eval row =
      .ok v) : Sound row lib e v := by
  have hcast : ∀ arg ∈ e.args, ∀ w, (SqlExpression.cast (sqlOf lib types true arg) (.decimal (precisionOf shape) shape.2)).eval row = .ok w →
      w.map SqlNumber.toRat = exactValue lib row arg ∧ ∀ n, w = some n → OnGrid shape.2 n.toRat := by
    intro arg harg w hw
    simp only [eval, bind_eq_ok] at hw
    obtain ⟨x, hx, hw⟩ := hw
    have hs := hsound arg harg x hx
    obtain ⟨argshape, hmem, hargshape⟩ := mem_of_forall₂ (decimalExpressionShapes_ok.mp hshapes).flip harg
    obtain ⟨hvalue, hgrid⟩ :=
      castValue_ok (fun n hn => (hs.scaled n _ hn hargshape).mono (hcommon.scale argshape hmem)) hw
    exact ⟨hvalue.trans hs.exact, hgrid⟩
  obtain ⟨hvalue, hfrom⟩ := firstValue_ok row (fun arg harg w hw => (hcast arg harg w hw).1) h
  refine ⟨by rw [hvalue, exactValue_coalesce row hkind], ?_⟩
  intro n shape' hn hshape'
  obtain rfl := Except.ok.inj (hshape.symm.trans hshape')
  obtain ⟨arg, harg, heval⟩ := hfrom n hn
  exact (hcast arg harg _ heval).2 n rfl

/-- Over a row, the rendered tree gives the expression's exact value or fails; the scale that
    was computed for it has all the digits of the value after its point. -/
theorem eval_sound : ∀ e, Ready lib types columns e → ∀ v, (sqlOf lib types true e).eval row = .ok v → Sound row lib e v := by
  refine expression_induction fun e ih hready v h => ?_
  have hform := exactForm hready
  generalize sqlOf lib types true e = tree at hform h
  cases hform with
  | column name hkind hname hagrees => exact sound_column row hkind hname h
  | integerLiteral hkind htype hnative => exact sound_integerLiteral row hready hkind htype hnative h
  | decimalLiteral d hkind htype hnative => exact sound_decimalLiteral row hkind htype hnative h
  | decimalNull hkind htype hnative =>
    have hexact := exactValue_literal row hkind (htype ▸ hnative)
    obtain rfl := Except.ok.inj h
    exact ⟨hexact.symm, fun n _ hn => by cases hn⟩
  | integerOperation hop htype hargs hchildren hintegers hoperator =>
    exact sound_integerOperation row hop htype hargs hchildren hintegers hoperator (fun arg harg => ih arg harg (hchildren arg harg)) h
  | decimalOperation hop htype hargs hchildren hoperator hls hrs hshape hcombined =>
    exact sound_decimalOperation row hop hargs hoperator hls hrs hshape hcombined (fun arg harg => ih arg harg (hchildren arg harg)) h
  | integerCoalesce hkind htype hchildren hintegers =>
    exact sound_integerCoalesce row hkind htype hchildren hintegers (fun arg harg => ih arg harg (hchildren arg harg)) h
  | decimalCoalesce hkind htype hchildren hshapes hshape hcommon =>
    exact sound_decimalCoalesce row hkind hshapes hshape hcommon (fun arg harg => ih arg harg (hchildren arg harg)) h

end

end

end DataNexus.Runtime
